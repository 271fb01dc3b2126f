import FactCast.Factus.SnapshotOrigin
import FactCast.Sql.Rows

/-! Snapshots in a table.

A row has the name of the projection's class, and the identifier of the aggregate or
none. Four statements are made: one that finds a row, one that merges a new one, one
that deletes, and one that notes when a row was used last. Each of them compares both
columns, and what is compared with a value that is not given is not equal to it.

So a snapshot of a projection that is no aggregate is stored again and again, or is
refused if the table demands an identifier, and is not found in either case
(`store_without`). All others are found as they were stored last (`faithful_iff`).

Which rows the table takes is a parameter: it is the user's, with lengths and
constraints of its own. -/
namespace FactCast.JdbcSnapshotCache

structure Row (β : Type) where
  projection_class : String
  aggregate_id : Option String
  last_fact_id : String
  bytes : β
  snapshot_serializer_id : String
  /-- The day. -/
  last_accessed : Nat

inductive Op (β : Type) where
  | store (id : SnapshotIdentifier) (snapshot : SnapshotData β) (today : Nat)
  /-- Noting the use may fail, which is logged. -/
  | find (id : SnapshotIdentifier) (today : Nat) (noted : Bool)
  | remove (id : SnapshotIdentifier)

section Statements
variable {β : Type}

/-- `projection_class = ? AND aggregate_id = ?` -/
def selects (id : SnapshotIdentifier) (r : Row β) : Bool :=
  r.projection_class == id.projectionClass.name && Sql.equals r.aggregate_id (id.aggregateId.map UUID.toString)

def rowOf (id : SnapshotIdentifier) (snapshot : SnapshotData β) (today : Nat) : Row β where
  projection_class := id.projectionClass.name
  aggregate_id := id.aggregateId.map UUID.toString
  last_fact_id := snapshot.lastFactId.toString
  bytes := snapshot.serializedProjection
  snapshot_serializer_id := snapshot.snapshotSerializerId
  last_accessed := today

/-- What is updated when a row is matched. -/
def Row.set (new r : Row β) : Row β :=
  { new with projection_class := r.projection_class, aggregate_id := r.aggregate_id }

/-- How many rows were changed, and the table. -/
def mergeStatement (accepts : Row β → Bool) (rows : List (Row β)) (id : SnapshotIdentifier) (new : Row β) :
    Option (Nat × List (Row β)) :=
  if accepts new then
    some (if rows.any (selects id) then rows.countP (selects id) else 1,
      Sql.merge (selects id) new.set new rows)
  else none

def updateLastAccessedStatement (rows : List (Row β)) (id : SnapshotIdentifier) (today : Nat) : List (Row β) :=
  rows.map fun r => if selects id r then { r with last_accessed := today } else r

def deleteStatement (rows : List (Row β)) (id : SnapshotIdentifier) : List (Row β) :=
  rows.filter fun r => !selects id r

/-- Nothing if the identifier cannot be read. -/
def snapshotData (reader : UuidReader) (r : Row β) : Option (SnapshotData β) :=
  (reader.read r.last_fact_id).map fun lastFactId => ⟨r.bytes, r.snapshot_serializer_id, lastFactId⟩

/-- `none` if this throws. -/
def find (reader : UuidReader) (rows : List (Row β)) (id : SnapshotIdentifier) :
    Option (Option (SnapshotData β)) :=
  match rows.find? (selects id) with
  | some r => (snapshotData reader r).map some
  | none => some none

def store (accepts : Row β → Bool) (rows : List (Row β)) (id : SnapshotIdentifier)
    (snapshot : SnapshotData β) (today : Nat) : Option (List (Row β)) :=
  match mergeStatement accepts rows id (rowOf id snapshot today) with
  | some (0, _) => none
  | some (_, rows) => some rows
  | none => none

/-- The table after an operation that does not throw. -/
def perform (accepts : Row β → Bool) (reader : UuidReader) (rows : List (Row β)) :
    Op β → Option (List (Row β))
  | .store id snapshot today => store accepts rows id snapshot today
  | .find id today noted =>
    (find reader rows id).map fun found =>
      if found.isSome && noted then updateLastAccessedStatement rows id today else rows
  | .remove id => some (deleteStatement rows id)

end Statements

/-! ### A key-value store -/

section Faithful
variable {β : Type}

/-- What was stored last and not removed since. -/
def expect (expected : SnapshotIdentifier → Option (SnapshotData β)) :
    Op β → SnapshotIdentifier → Option (SnapshotData β)
  | .store id snapshot _ => Function.update expected id (some snapshot)
  | .find .. => expected
  | .remove id => Function.update expected id none

/-- A row that was written for the identifier. -/
def belongs (id : SnapshotIdentifier) (r : Row β) : Bool :=
  decide ((r.projection_class, r.aggregate_id) = (id.projectionClass.name, id.aggregateId.map UUID.toString))

/-- No operation throws, and before and after each what is found for any identifier is
what is expected, and no identifier has two rows. -/
def Faithful (accepts : Row β → Bool) (reader : UuidReader) (rows : List (Row β))
    (expected : SnapshotIdentifier → Option (SnapshotData β)) (ops : List (Op β)) : Prop :=
  (∀ id, find reader rows id = some (expected id)) ∧ (∀ id, rows.countP (belongs id) ≤ 1) ∧
    match ops with
    | [] => True
    | op :: rest => ∃ rows', perform accepts reader rows op = some rows' ∧
        Faithful accepts reader rows' (expect expected op) rest

/-- What is stored has an identifier of an aggregate, and the table takes its row. -/
def sound (accepts : Row β → Bool) : Op β → Bool
  | .store id snapshot today => id.aggregateId.isSome && accepts (rowOf id snapshot today)
  | _ => true

end Faithful

/-! ### Rows and identifiers -/

section Proofs
variable {β : Type} {accepts : Row β → Bool} {reader : UuidReader} {rows rows' : List (Row β)}
  {expected : SnapshotIdentifier → Option (SnapshotData β)} {id other : SnapshotIdentifier}
  {snapshot : SnapshotData β} {today : Nat} {r : Row β}

def Row.key (r : Row β) : String × Option String := (r.projection_class, r.aggregate_id)

def keyOf (id : SnapshotIdentifier) : String × Option String :=
  (id.projectionClass.name, id.aggregateId.map UUID.toString)

theorem keyOf_injective (h : keyOf id = keyOf other) : id = other := by
  obtain ⟨⟨name, binary⟩, aggregateId⟩ := id
  obtain ⟨⟨name', binary'⟩, aggregateId'⟩ := other
  obtain ⟨hname, hid⟩ := Prod.mk.inj h
  obtain rfl : name = name' := hname
  obtain rfl : aggregateId = aggregateId' := Option.map_injective (fun _ _ => UUID.toString_injective) hid
  rfl

/-- Without an aggregate no row is selected. -/
theorem selects_without (h : id.aggregateId = none) : selects id r = false := by
  simp [selects, h]

theorem selects_iff (h : id.aggregateId.isSome = true) : selects id r = true ↔ r.key = keyOf id := by
  obtain ⟨aggregateId, hid⟩ := Option.isSome_iff_exists.mp h
  simp [selects, Row.key, keyOf, hid]

theorem key_set {new : Row β} : (new.set r).key = r.key := rfl

theorem find_with (h : id.aggregateId.isSome = true) : find reader rows id =
    match Sql.row Row.key rows (keyOf id) with
    | some r => (snapshotData reader r).map some
    | none => some none := by
  have hselects : selects (β := β) id = fun r => decide (r.key = keyOf id) :=
    funext fun r => Bool.eq_iff_iff.mpr ((selects_iff h).trans decide_eq_true_iff.symm)
  rw [find, hselects, Sql.row]

theorem find_without (h : id.aggregateId = none) : find reader rows id = some none := by
  have hnone : rows.find? (selects id) = none :=
    List.find?_eq_none.mpr fun r _ => by simp [selects_without h]
  rw [find, hnone]

/-! ### What each statement leaves -/

theorem snapshotData_rowOf : snapshotData reader (rowOf id snapshot today) = some snapshot := by
  rw [snapshotData, rowOf, reader.read_toString]
  rfl

/-- A row that is merged is found as it was given, whatever was there. -/
theorem snapshotData_set : snapshotData reader ((rowOf id snapshot today).set r) = some snapshot :=
  @snapshotData_rowOf β reader id snapshot today

/-- The table has a row for what is expected, and keys are unique. -/
structure Holds (reader : UuidReader) (rows : List (Row β))
    (expected : SnapshotIdentifier → Option (SnapshotData β)) : Prop where
  keyed : Sql.Keyed Row.key rows
  found : ∀ id, find reader rows id = some (expected id)

theorem Holds.unique (h : Holds reader rows expected) (id : SnapshotIdentifier) :
    rows.countP (belongs id) ≤ 1 := h.keyed.countP_le_one

theorem Holds.without (h : Holds reader rows expected) (hid : id.aggregateId = none) :
    expected id = none := by
  have hfound := h.found id
  rw [find_without hid] at hfound
  exact (Option.some.inj hfound).symm

/-- What is found for the identifier changes, and for no other. -/
theorem Holds.change (h : Holds reader rows expected)
    {found : Option (SnapshotData β)} (hkeyed : Sql.Keyed Row.key rows')
    (hself : find reader rows' id = some found)
    (hother : ∀ k, k ≠ keyOf id → Sql.row Row.key rows' k = Sql.row Row.key rows k) :
    Holds reader rows' (Function.update expected id found) := by
  refine ⟨hkeyed, fun other => ?_⟩
  rw [Function.update_apply]
  split
  · rename_i heq
    rw [heq, hself]
  · rename_i hne
    cases hsome : other.aggregateId with
    | none => rw [find_without hsome, h.without hsome]
    | some aggregateId =>
      have hgiven : other.aggregateId.isSome = true := by rw [hsome]; rfl
      rw [← h.found other, find_with hgiven, find_with hgiven, hother _ fun heq => hne (keyOf_injective heq)]

theorem row_mergeStatement (hid : id.aggregateId.isSome = true) (k : String × Option String) :
    Sql.row Row.key (Sql.merge (selects id) (rowOf id snapshot today).set (rowOf id snapshot today) rows) k =
      if k = keyOf id then
        some (((Sql.row Row.key rows k).map (rowOf id snapshot today).set).getD (rowOf id snapshot today))
      else Sql.row Row.key rows k :=
  Sql.row_merge (fun _ => selects_iff hid) fun _ => key_set

theorem store_eq : store accepts rows id snapshot today =
    if accepts (rowOf id snapshot today) then
      some (Sql.merge (selects id) (rowOf id snapshot today).set (rowOf id snapshot today) rows)
    else none := by
  unfold store mergeStatement
  by_cases haccepts : accepts (rowOf id snapshot today) = true
  · rw [if_pos haccepts, if_pos haccepts]
    split
    · rename_i heq
      obtain ⟨hcount, -⟩ := Prod.mk.inj (Option.some.inj heq)
      split at hcount
      · rename_i hany
        obtain ⟨r, hr, hselects⟩ := List.any_eq_true.mp hany
        exact absurd hcount (List.countP_pos_iff.mpr ⟨r, hr, hselects⟩).ne'
      · cases hcount
    · rename_i heq
      exact congrArg some (Prod.mk.inj (Option.some.inj heq)).2.symm
    · rename_i heq
      cases heq
  · rw [if_neg haccepts, if_neg haccepts]

theorem holds_store (h : Holds reader rows expected) (hid : id.aggregateId.isSome = true) :
    Holds reader (Sql.merge (selects id) (rowOf id snapshot today).set (rowOf id snapshot today) rows)
      (Function.update expected id (some snapshot)) := by
  refine h.change (h.keyed.merge (fun _ => selects_iff hid) fun _ => key_set) ?_ fun k hk => ?_
  · rw [find_with hid, row_mergeStatement hid, if_pos rfl]
    cases Sql.row Row.key rows (keyOf id) with
    | none => exact congrArg (Option.map some) snapshotData_rowOf
    | some r => exact congrArg (Option.map some) snapshotData_set
  · rw [row_mergeStatement hid, if_neg hk]

theorem holds_remove (h : Holds reader rows expected) :
    Holds reader (deleteStatement rows id) (Function.update expected id none) := by
  cases hid : id.aggregateId with
  | none =>
    have hrows : deleteStatement rows id = rows :=
      List.filter_eq_self.mpr fun r _ => by simp [selects_without hid]
    have hexpected : Function.update expected id none = expected :=
      Function.update_eq_self_iff.mpr (h.without hid).symm
    rw [hrows, hexpected]
    exact h
  | some aggregateId =>
    have hgiven : id.aggregateId.isSome = true := by rw [hid]; rfl
    have hrows : deleteStatement rows id = Sql.deleteAt Row.key rows (keyOf id) := by
      refine List.filter_congr fun r _ => ?_
      rw [Bool.eq_iff_iff, Bool.not_eq_true', ← Bool.not_eq_true, selects_iff hgiven]
      exact decide_eq_true_iff.symm
    rw [hrows]
    refine h.change h.keyed.deleteAt ?_ fun k hk => ?_
    · rw [find_with hgiven, Sql.row_deleteAt, if_pos rfl]
    · rw [Sql.row_deleteAt, if_neg hk]

/-- Noting a use changes nothing that is found. -/
theorem holds_noted (h : Holds reader rows expected) :
    Holds reader (updateLastAccessedStatement rows id today) expected := by
  have hkey : ∀ r : Row β, (if selects id r then { r with last_accessed := today } else r).key = r.key := by
    intro r
    split <;> rfl
  refine ⟨h.keyed.map hkey, fun other => ?_⟩
  cases hid : other.aggregateId with
  | none => rw [find_without hid, h.without hid]
  | some aggregateId =>
    have hgiven : other.aggregateId.isSome = true := by rw [hid]; rfl
    rw [← h.found other, find_with hgiven, find_with hgiven, updateLastAccessedStatement, Sql.row_map hkey]
    cases Sql.row Row.key rows (keyOf other) with
    | none => rfl
    | some r =>
      rw [Option.map_some]
      dsimp only
      split <;> rfl

/-! ### Every sequence of operations -/

theorem holds_perform {op : Op β} (h : Holds reader rows expected) (hsound : sound accepts op = true) :
    ∃ rows', perform accepts reader rows op = some rows' ∧ Holds reader rows' (expect expected op) := by
  cases op with
  | store id snapshot today =>
    obtain ⟨hid, haccepts⟩ := Bool.and_eq_true_iff.mp hsound
    exact ⟨_, store_eq.trans (if_pos haccepts), holds_store h hid⟩
  | find id today noted =>
    refine ⟨_, congrArg (Option.map _) (h.found id), ?_⟩
    dsimp only
    split
    · exact holds_noted h
    · exact h
  | remove id => exact ⟨_, rfl, holds_remove h⟩

/-- A snapshot without an aggregate is not found after it was stored. -/
theorem store_without (hid : id.aggregateId = none) (hfound : find reader rows' id =
    some (expect expected (.store id snapshot today) id)) : False := by
  rw [find_without hid, expect, Function.update_self] at hfound
  cases hfound

theorem sound_of_faithful {op : Op β} (hperform : perform accepts reader rows op = some rows')
    (hfound : ∀ id, find reader rows' id = some (expect expected op id)) : sound accepts op = true := by
  cases op with
  | store id snapshot today =>
    refine Bool.and_eq_true_iff.mpr ⟨?_, ?_⟩
    · by_contra hnone
      exact store_without (Option.not_isSome_iff_eq_none.mp hnone) (hfound id)
    · by_contra hnot
      have hstore : store accepts rows id snapshot today = none := store_eq.trans (if_neg hnot)
      cases hstore.symm.trans hperform
  | find => rfl
  | remove => rfl

theorem faithful_of_holds {ops : List (Op β)} (h : Holds reader rows expected) :
    Faithful accepts reader rows expected ops ↔ ∀ op ∈ ops, sound accepts op = true := by
  induction ops generalizing rows expected with
  | nil =>
    unfold Faithful
    exact iff_of_true ⟨h.found, h.unique, trivial⟩ nofun
  | cons op rest ih =>
    unfold Faithful
    rw [List.forall_mem_cons]
    constructor
    · rintro ⟨-, -, rows', hperform, hrest⟩
      have hfound : ∀ id, find reader rows' id = some (expect expected op id) := by
        unfold Faithful at hrest
        exact hrest.1
      have hsound := sound_of_faithful hperform hfound
      obtain ⟨_, hperform', hholds⟩ := holds_perform h hsound
      obtain rfl := Option.some.inj (hperform.symm.trans hperform')
      exact ⟨hsound, (ih hholds).mp hrest⟩
    · rintro ⟨hsound, hrest⟩
      obtain ⟨rows', hperform, hholds⟩ := holds_perform h hsound
      exact ⟨h.found, h.unique, rows', hperform, (ih hholds).mpr hrest⟩

theorem holds_nil : Holds reader ([] : List (Row β)) fun _ => none :=
  ⟨Sql.keyed_nil _, fun _ => rfl⟩

end Proofs

/-- Starting with an empty table, the cache is a key-value store along a sequence of
operations just when all that is stored in it belongs to aggregates, in rows that the
table takes. -/
theorem faithful_iff {β : Type} (accepts : Row β → Bool) (reader : UuidReader) (ops : List (Op β)) :
    Faithful accepts reader [] (fun _ => none) ops ↔ ∀ op ∈ ops, sound accepts op = true :=
  faithful_of_holds holds_nil

def orderOverview : SnapshotIdentifier := ⟨⟨"orders.OrderOverview", by decide⟩, none⟩

def firstOverview : SnapshotData (List Nat) := ⟨[1], "JacksonSnapshotSerializer", ⟨1⟩⟩

/-- A table that takes every row takes this one, and does not give it back. -/
theorem overview_not_found : ¬ ∀ (accepts : Row (List Nat) → Bool) (reader : UuidReader)
    (ops : List (Op (List Nat))), Faithful accepts reader [] (fun _ => none) ops := by
  intro hall
  have hfaithful := hall (fun _ => true) .canonical [.store orderOverview firstOverview 0]
  unfold Faithful at hfaithful
  obtain ⟨-, -, rows', -, hrest⟩ := hfaithful
  unfold Faithful at hrest
  exact store_without rfl (hrest.1 orderOverview)

end FactCast.JdbcSnapshotCache
