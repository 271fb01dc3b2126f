import FactCast.Sql.Rows
import FactCast.Store.Registry

/-! What is registered in a store of schemas is found there.

A schema has an identifier with a hash, and a key: its namespace, type and version.
What was registered is owed until something is registered under the same identifier
or for the same key.

The store in memory keeps a map for each. The store in PostgreSQL keeps rows in which
both are unique, and its statement can handle a conflict with one of them only. It
inserts or updates by the identifier first. If the key is that of another row, this
fails, and a second statement is made that handles a conflict with the key, but
updates a row with the same identifier only: nothing is written, and the call returns
(`register_ignored`). As long as no key is registered under another identifier, what
was registered is found (`registered_found`).

Identifiers and hashes are given, and texts are without zero characters. -/
namespace FactCast.SchemaStore

/-- Which of the statements of a call fail for reasons that are not in the table. -/
structure Faults where
  first : Bool
  second : Bool

/-- A store with contents `σ`, which keeps a schema as a `δ`. -/
structure Implementation (σ δ : Type) where
  empty : σ
  kept : String → Option δ
  /-- Nothing if this throws. -/
  register : Faults → σ → SchemaSource → String → Option σ
  /-- Nothing if there is another hash. -/
  contains : σ → SchemaSource → Option Bool
  get : σ → SchemaKey → Option δ

/-! ### In memory -/

structure InMemSchemaStoreImpl where
  id2hashMap : String → Option String
  schemaMap : SchemaKey → Option String

namespace InMemSchemaStoreImpl

def register (mem : InMemSchemaStoreImpl) (source : SchemaSource) (schema : String) :
    InMemSchemaStoreImpl where
  id2hashMap := Function.update mem.id2hashMap source.id (some source.hash)
  schemaMap := Function.update mem.schemaMap source.key (some schema)

def contains (mem : InMemSchemaStoreImpl) (source : SchemaSource) : Option Bool :=
  match mem.id2hashMap source.id with
  | some hash => if hash = source.hash then some true else none
  | none => some false

def implementation : Implementation InMemSchemaStoreImpl String where
  empty := ⟨fun _ => none, fun _ => none⟩
  kept := some
  register _ mem source schema := some (mem.register source schema)
  contains := contains
  get mem key := mem.schemaMap key

end InMemSchemaStoreImpl

/-! ### In PostgreSQL -/

structure Row (δ : Type) where
  source : SchemaSource
  jsonschema : δ

namespace Row
variable {δ : Type}

def id (r : Row δ) : String := r.source.id

def key (r : Row δ) : SchemaKey := r.source.key

end Row

namespace PgSchemaStoreImpl
variable {δ : Type}

/-- What a statement writes, if the texts are not longer than their columns, and the
schema is a document. -/
def rowFor (jsonb : String → Option δ) (source : SchemaSource) (schema : String) : Option (Row δ) :=
  if Sql.varchar 2048 source.id && Sql.varchar 32 source.hash && Sql.varchar 255 source.key.ns &&
    Sql.varchar 255 source.key.type then (jsonb schema).map fun document => ⟨source, document⟩
  else none

/-- `ON CONFLICT ON CONSTRAINT schemastore_pkey`. The other constraint may not be violated. -/
def upsertById (rows : List (Row δ)) (new : Row δ) : Option (List (Row δ)) :=
  if rows.any fun r => decide (r.key = new.key) && r.id != new.id then none
  else some (Sql.upsert Row.id rows new)

/-- `ON CONFLICT ON CONSTRAINT schemastore_ns_type_version_key`. The row with the key
is updated if it has the identifier. -/
def upsertByKey (rows : List (Row δ)) (new : Row δ) : Option (List (Row δ)) :=
  match Sql.row Row.key rows new.key with
  | some r => some (if r.id = new.id then Sql.upsert Row.key rows new else rows)
  | none => if (Sql.row Row.id rows new.id).isSome then none else some (rows ++ [new])

def register (isReadOnlyModeEnabled : Bool) (jsonb : String → Option δ) (faults : Faults)
    (rows : List (Row δ)) (source : SchemaSource) (schema : String) : Option (List (Row δ)) :=
  if isReadOnlyModeEnabled then some rows
  else
    (rowFor jsonb source schema).bind fun new =>
      match if faults.first then none else upsertById rows new with
      | some rows => some rows
      | none => if faults.second then none else upsertByKey rows new

def contains (rows : List (Row δ)) (source : SchemaSource) : Option Bool :=
  Source.contains (rows.map Row.source) source

def get (rows : List (Row δ)) (key : SchemaKey) : Option δ := (Sql.row Row.key rows key).map Row.jsonschema

/-- What the column makes of a text is a parameter. -/
def implementation (isReadOnlyModeEnabled : Bool) (jsonb : String → Option δ) :
    Implementation (List (Row δ)) δ where
  empty := []
  kept := jsonb
  register := register isReadOnlyModeEnabled jsonb
  contains := contains
  get := get

end PgSchemaStoreImpl

/-! ### Calls -/

structure State (σ : Type) where
  content : σ
  /-- What was registered, and neither its identifier nor its key was since. -/
  owed : List (SchemaSource × String)

inductive Action where
  | register (source : SchemaSource) (schema : String) (faults : Faults)
  | contains (source : SchemaSource)
  | get (key : SchemaKey)

def replaces (source other : SchemaSource) : Bool := other.id == source.id || decide (other.key = source.key)

section Calls
variable {σ δ : Type} (store : Implementation σ δ)

def step (s : State σ) : Action → Option (State σ)
  | .register source schema faults =>
    match store.register faults s.content source schema with
    | some content => some ⟨content, (source, schema) :: s.owed.filter fun e => !replaces source e.1⟩
    | none => some s
  | .contains _ => some s
  | .get _ => some s

def calls : Machine (State σ) Action where
  Start s := s = ⟨store.empty, []⟩
  step := step store

/-- What is owed is found. -/
def Found (s : State σ) : Prop :=
  ∀ e ∈ s.owed, store.contains s.content e.1 = some true ∧
    ∃ document, store.kept e.2 = some document ∧ store.get s.content e.1.key = some document

variable {store} {s s' : State σ} {source : SchemaSource} {schema : String} {faults : Faults}

theorem step_register {P : State σ → Prop}
    (h : (calls store).step s (.register source schema faults) = some s') (hs : P s)
    (hregister : ∀ content, store.register faults s.content source schema = some content →
      P ⟨content, (source, schema) :: s.owed.filter fun e => !replaces source e.1⟩) : P s' := by
  simp only [calls, step] at h
  split at h
  · rename_i content hcontent
    cases h
    exact hregister content hcontent
  · cases h
    exact hs

/-- What is owed afterwards was registered just now, or has nothing in common with it. -/
theorem mem_owed {e : SchemaSource × String} :
    e ∈ (source, schema) :: s.owed.filter (fun e => !replaces source e.1) ↔
      e = (source, schema) ∨ e ∈ s.owed ∧ e.1.id ≠ source.id ∧ e.1.key ≠ source.key := by
  simp [replaces]

end Calls

/-! ### In memory, always -/

/-- What is owed is in both maps. -/
def Mapped (s : State InMemSchemaStoreImpl) : Prop :=
  ∀ e ∈ s.owed, s.content.id2hashMap e.1.id = some e.1.hash ∧ s.content.schemaMap e.1.key = some e.2

theorem mapped_register {s : State InMemSchemaStoreImpl} {source : SchemaSource} {schema : String}
    (h : Mapped s) : Mapped ⟨s.content.register source schema,
      (source, schema) :: s.owed.filter fun e => !replaces source e.1⟩ := by
  intro e he
  rcases mem_owed.mp he with rfl | ⟨hold, hid, hkey⟩
  · exact ⟨Function.update_self .., Function.update_self ..⟩
  · obtain ⟨hhash, hschema⟩ := h e hold
    exact ⟨(Function.update_of_ne hid ..).trans hhash, (Function.update_of_ne hkey ..).trans hschema⟩

theorem found_inMem {s : State InMemSchemaStoreImpl}
    (h : (calls InMemSchemaStoreImpl.implementation).Reachable s) :
    Found InMemSchemaStoreImpl.implementation s := by
  have hi : Mapped s := by
    refine h.invariant (I := Mapped) ?_ fun s a s' hi _ hs => ?_
    · rintro s rfl
      exact fun e he => nomatch he
    · cases a with
      | register source schema faults =>
        refine step_register hs hi fun content hcontent => ?_
        obtain rfl := Option.some.inj hcontent
        exact mapped_register hi
      | contains => cases hs; exact hi
      | get => cases hs; exact hi
  intro e he
  obtain ⟨hhash, hschema⟩ := hi e he
  refine ⟨?_, e.2, rfl, hschema⟩
  show InMemSchemaStoreImpl.contains s.content e.1 = some true
  simp [InMemSchemaStoreImpl.contains, hhash]

/-! ### In PostgreSQL, while keys stay with their identifiers -/

section Postgres
variable {δ : Type} {isReadOnlyModeEnabled : Bool} {jsonb : String → Option δ}
  {rows rows' : List (Row δ)} {new : Row δ} {source : SchemaSource} {schema : String} {faults : Faults}

/-- The store writes, and no row has the key under another identifier, unless the call
throws for what it was given. -/
def lands (isReadOnlyModeEnabled : Bool) (jsonb : String → Option δ) (s : State (List (Row δ))) :
    Action → Bool
  | .register source schema _ =>
    !isReadOnlyModeEnabled && ((PgSchemaStoreImpl.rowFor jsonb source schema).isNone ||
      s.content.all fun r => decide (r.key ≠ source.key) || r.id == source.id)
  | _ => true

/-- Identifiers and keys are unique. -/
structure Unique (rows : List (Row δ)) : Prop where
  ids : Sql.Keyed Row.id rows
  keys : Sql.Keyed Row.key rows

/-- The new row is there, and of the others those that have nothing in common with it. -/
structure Replaced (rows : List (Row δ)) (new : Row δ) (rows' : List (Row δ)) : Prop extends Unique rows' where
  rows : ∀ r, r ∈ rows' ↔ r = new ∨ r ∈ rows ∧ r.id ≠ new.id ∧ r.key ≠ new.key

theorem rowFor_some (h : PgSchemaStoreImpl.rowFor jsonb source schema = some new) :
    new.source = source ∧ jsonb schema = some new.jsonschema := by
  unfold PgSchemaStoreImpl.rowFor at h
  split at h
  · obtain ⟨document, hdocument, rfl⟩ := Option.map_eq_some_iff.mp h
    exact ⟨rfl, hdocument⟩
  · cases h

theorem upsertById_some (hu : Unique rows) (h : PgSchemaStoreImpl.upsertById rows new = some rows') :
    Replaced rows new rows' := by
  unfold PgSchemaStoreImpl.upsertById at h
  split at h
  · cases h
  · rename_i hfree
    cases h
    have hsame : ∀ r ∈ rows, r.key = new.key → r.id = new.id := fun r hr hkey => by
      by_contra hid
      exact hfree (List.any_eq_true.mpr ⟨r, hr, by simp [hkey, hid]⟩)
    refine ⟨⟨hu.ids.upsert, hu.keys.upsert_of hsame⟩, fun r => ?_⟩
    rw [Sql.mem_upsert]
    exact or_congr_right (and_congr_right fun hr =>
      ⟨fun hid => ⟨hid, fun hkey => hid (hsame r hr hkey)⟩, And.left⟩)

/-- The second statement, if no row has the key under another identifier. -/
theorem upsertByKey_some (hu : Unique rows) (hsame : ∀ r ∈ rows, r.key = new.key → r.id = new.id)
    (h : PgSchemaStoreImpl.upsertByKey rows new = some rows') : Replaced rows new rows' := by
  unfold PgSchemaStoreImpl.upsertByKey at h
  split at h
  · rename_i q hq
    obtain ⟨hmem, hkey⟩ := (Sql.row_eq_some_iff hu.keys).mp hq
    have hid := hsame q hmem hkey
    rw [if_pos hid] at h
    cases h
    have honly : ∀ r ∈ rows, r.id = new.id → r.key = new.key := fun r hr heq => by
      rw [List.inj_on_of_nodup_map hu.ids hr hmem (heq.trans hid.symm), hkey]
    refine ⟨⟨hu.ids.upsert_of honly, hu.keys.upsert⟩, fun r => ?_⟩
    rw [Sql.mem_upsert]
    exact or_congr_right (and_congr_right fun hr =>
      ⟨fun hne => ⟨fun heq => hne (honly r hr heq), hne⟩, And.right⟩)
  · rename_i hkey
    split at h
    · cases h
    · rename_i hid
      cases h
      have hfreeKey := Sql.row_eq_none_iff.mp hkey
      have hfreeId := Sql.row_eq_none_iff.mp (Option.not_isSome_iff_eq_none.mp hid)
      refine ⟨⟨hu.ids.append hfreeId, hu.keys.append hfreeKey⟩, fun r => ?_⟩
      rw [List.mem_append, List.mem_singleton, or_comm]
      exact or_congr_right ⟨fun hr => ⟨hr, hfreeId r hr, hfreeKey r hr⟩, And.left⟩

/-- A registration that lands and returns has replaced what it has in common with. -/
theorem register_lands (hu : Unique rows)
    (hlands : lands isReadOnlyModeEnabled jsonb ⟨rows, []⟩ (.register source schema faults) = true)
    (h : PgSchemaStoreImpl.register isReadOnlyModeEnabled jsonb faults rows source schema = some rows') :
    ∃ new, PgSchemaStoreImpl.rowFor jsonb source schema = some new ∧ Replaced rows new rows' := by
  simp only [lands, Bool.and_eq_true, Bool.not_eq_true', Bool.or_eq_true] at hlands
  obtain ⟨hwrites, hlands⟩ := hlands
  unfold PgSchemaStoreImpl.register at h
  rw [hwrites, if_neg Bool.false_ne_true] at h
  obtain ⟨new, hnew, h⟩ := Option.bind_eq_some_iff.mp h
  have hsame : ∀ r ∈ rows, r.key = new.key → r.id = new.id := by
    intro r hr hkey
    rw [hnew] at hlands
    have hall := List.all_eq_true.mp (hlands.resolve_left Bool.false_ne_true) r hr
    have hsource : new.source = source := (rowFor_some hnew).1
    rcases Bool.or_eq_true_iff.mp hall with hne | hid
    · exact absurd (hkey.trans (congrArg Source.key hsource)) (of_decide_eq_true hne)
    · exact (beq_iff_eq.mp hid).trans (congrArg Source.id hsource).symm
  refine ⟨new, hnew, ?_⟩
  split at h
  · rename_i hfirst
    cases h
    split at hfirst
    · cases hfirst
    · exact upsertById_some hu hfirst
  · split at h
    · cases h
    · exact upsertByKey_some hu hsame h

/-- What is owed has a row. -/
structure Inv (jsonb : String → Option δ) (s : State (List (Row δ))) : Prop extends Unique s.content where
  owed : ∀ e ∈ s.owed, ∃ document, jsonb e.2 = some document ∧ (⟨e.1, document⟩ : Row δ) ∈ s.content

theorem inv_register {s : State (List (Row δ))} (hi : Inv jsonb s)
    (hlands : lands isReadOnlyModeEnabled jsonb s (.register source schema faults) = true)
    (h : PgSchemaStoreImpl.register isReadOnlyModeEnabled jsonb faults s.content source schema = some rows') :
    Inv jsonb ⟨rows', (source, schema) :: s.owed.filter fun e => !replaces source e.1⟩ := by
  obtain ⟨new, hnew, hreplaced⟩ := register_lands hi.toUnique hlands h
  obtain ⟨rfl, hdocument⟩ := rowFor_some hnew
  refine ⟨hreplaced.toUnique, fun e he => ?_⟩
  rcases mem_owed.mp he with rfl | ⟨hold, hid, hkey⟩
  · exact ⟨new.jsonschema, hdocument, (hreplaced.rows new).mpr (.inl rfl)⟩
  · obtain ⟨document, hdocument, hrow⟩ := hi.owed e hold
    exact ⟨document, hdocument, (hreplaced.rows _).mpr (.inr ⟨hrow, hid, hkey⟩)⟩

theorem contains_of_mem {r : Row δ} (hu : Unique rows) (hr : r ∈ rows) :
    PgSchemaStoreImpl.contains rows r.source = some true := by
  have hfind : ((rows.map Row.source).find? fun q => q.id == r.source.id) =
      (Sql.row Row.id rows r.id).map Row.source := by
    rw [List.find?_map]
    rfl
  unfold PgSchemaStoreImpl.contains Source.contains
  rw [hfind, (Sql.row_eq_some_iff hu.ids).mpr ⟨hr, rfl⟩]
  simp

theorem Inv.found {s : State (List (Row δ))} (hi : Inv jsonb s) :
    Found (PgSchemaStoreImpl.implementation isReadOnlyModeEnabled jsonb) s := by
  intro e he
  obtain ⟨document, hdocument, hrow⟩ := hi.owed e he
  refine ⟨contains_of_mem hi.toUnique hrow, document, hdocument, ?_⟩
  have hfound : Sql.row Row.key s.content e.1.key = some ⟨e.1, document⟩ :=
    (Sql.row_eq_some_iff hi.keys).mpr ⟨hrow, rfl⟩
  exact congrArg (Option.map Row.jsonschema) hfound

end Postgres

/-- What was registered is found until its identifier or its key is registered again,
in memory in every run, in PostgreSQL in every run in which each registration lands. -/
theorem registered_found {δ : Type} (isReadOnlyModeEnabled : Bool) (jsonb : String → Option δ) :
    (∀ s, (calls InMemSchemaStoreImpl.implementation).Reachable s →
      Found InMemSchemaStoreImpl.implementation s) ∧
    ∀ s, (calls (PgSchemaStoreImpl.implementation isReadOnlyModeEnabled jsonb)).ReachableUnder
        (fun s a => lands isReadOnlyModeEnabled jsonb s a = true) s →
      Found (PgSchemaStoreImpl.implementation isReadOnlyModeEnabled jsonb) s := by
  refine ⟨fun s => found_inMem, fun s h => ?_⟩
  have hi : Inv jsonb s := by
    refine h.invariant (I := Inv jsonb) ?_ fun s a s' hi hlands hs => ?_
    · rintro s rfl
      exact ⟨⟨Sql.keyed_nil _, Sql.keyed_nil _⟩, fun e he => nomatch he⟩
    · cases a with
      | register source schema faults =>
        exact step_register hs hi fun rows' hrows' => inv_register hi hlands hrows'
      | contains => cases hs; exact hi
      | get => cases hs; exact hi
  exact hi.found

/-! ### A key that is registered under another identifier -/

section Ignored
variable {δ : Type} {jsonb : String → Option δ} {rows : List (Row δ)} {new r : Row δ}
  {source : SchemaSource} {schema : String} {faults : Faults}

/-- The second statement leaves a row with another identifier alone. -/
theorem upsertByKey_other (hu : Unique rows) (hr : r ∈ rows) (hkey : r.key = new.key) (hid : r.id ≠ new.id) :
    PgSchemaStoreImpl.upsertById rows new = none ∧ PgSchemaStoreImpl.upsertByKey rows new = some rows := by
  have hconflict : (rows.any fun r => decide (r.key = new.key) && r.id != new.id) = true :=
    List.any_eq_true.mpr ⟨r, hr, by simp [hkey, hid]⟩
  have hrow : Sql.row Row.key rows new.key = some r := (Sql.row_eq_some_iff hu.keys).mpr ⟨hr, hkey⟩
  unfold PgSchemaStoreImpl.upsertById PgSchemaStoreImpl.upsertByKey
  rw [if_pos hconflict, hrow]
  exact ⟨rfl, congrArg some (if_neg hid)⟩

/-- A registration for the key of a row with another identifier returns, unless its
second statement fails, and the table is what it was. -/
theorem register_ignored (hu : Unique rows) (hnew : PgSchemaStoreImpl.rowFor jsonb source schema = some new)
    (hr : r ∈ rows) (hkey : r.key = new.key) (hid : r.id ≠ new.id) :
    PgSchemaStoreImpl.register false jsonb faults rows source schema =
      if faults.second then none else some rows := by
  obtain ⟨hfirst, hsecond⟩ := upsertByKey_other hu hr hkey hid
  unfold PgSchemaStoreImpl.register
  rw [if_neg Bool.false_ne_true, hnew, Option.bind_some, hfirst, hsecond, ite_self]

/-- The sources of the table are those the refresh of a registry knows. -/
theorem register_sources (hu : Unique rows) (hnew : PgSchemaStoreImpl.rowFor jsonb source schema = some new) :
    (PgSchemaStoreImpl.register false jsonb ⟨false, false⟩ rows source schema).map (List.map Row.source) =
      some (AbstractSchemaRegistry.PgSchemaStoreImpl.register (rows.map Row.source) source) := by
  obtain ⟨rfl, -⟩ := rowFor_some hnew
  have hany : ((rows.map Row.source).any fun q => decide (q.key = new.source.key) && q.id != new.source.id) =
      rows.any fun q => decide (q.key = new.key) && q.id != new.id := by
    rw [List.any_map]
    rfl
  unfold AbstractSchemaRegistry.PgSchemaStoreImpl.register
  rw [hany]
  by_cases hconflict : (rows.any fun q => decide (q.key = new.key) && q.id != new.id) = true
  · obtain ⟨r, hr, hother⟩ := List.any_eq_true.mp hconflict
    obtain ⟨hkey, hid⟩ := Bool.and_eq_true_iff.mp hother
    rw [register_ignored hu hnew hr (of_decide_eq_true hkey) (bne_iff_ne.mp hid), if_pos hconflict]
    rfl
  · have hfirst : PgSchemaStoreImpl.upsertById rows new = some (Sql.upsert Row.id rows new) := if_neg hconflict
    have hrest : (rows.map Row.source).filter (fun q => q.id != new.source.id) =
        (Sql.deleteAt Row.id rows new.id).map Row.source := by
      rw [List.filter_map]
      refine congrArg (List.map Row.source) (List.filter_congr fun q _ => ?_)
      exact Bool.eq_iff_iff.mpr (bne_iff_ne.trans decide_eq_true_iff.symm)
    unfold PgSchemaStoreImpl.register
    rw [if_neg Bool.false_ne_true, hnew, Option.bind_some, if_neg Bool.false_ne_true, hfirst,
      if_neg hconflict, Source.replace, hrest, Option.map_some, Sql.upsert, List.map_append]
    rfl

end Ignored

def orderPlaced (id hash : String) (version : Int) : SchemaSource := ⟨id, hash, ⟨"orders", "OrderPlaced", version⟩⟩

/-- Two versions, the first of them with another hash later. -/
theorem registered_found_again : ∃ s : State (List (Row String)), s.owed.length = 2 ∧
    Found (PgSchemaStoreImpl.implementation false some) s := by
  obtain ⟨s, hs, howed⟩ := Machine.exists_reachableUnder
    (M := calls (PgSchemaStoreImpl.implementation false some)) (c := lands false some) rfl
    [.register (orderPlaced "orders/OrderPlaced/1/schema.json" "84e6" 1) "{}" ⟨true, false⟩,
      .register (orderPlaced "orders/OrderPlaced/2/schema.json" "24d4" 2) "{}" ⟨false, false⟩,
      .contains (orderPlaced "orders/OrderPlaced/2/schema.json" "24d4" 2),
      .register (orderPlaced "orders/OrderPlaced/1/schema.json" "97a1" 1) "[]" ⟨false, false⟩,
      .get ⟨"orders", "OrderPlaced", 1⟩]
    (fun s => s.owed.length) (b := 2) (by decide +kernel)
  exact ⟨s, howed, (registered_found false some).2 s hs⟩

/-- The schema was moved: its file has another name. The registration returns, and the
store neither has the identifier nor the new schema. -/
theorem moved_schema_lost : ¬ ((∀ s, (calls InMemSchemaStoreImpl.implementation).Reachable s →
      Found InMemSchemaStoreImpl.implementation s) ∧
    ∀ (isReadOnlyModeEnabled : Bool) (jsonb : String → Option String) (s : State (List (Row String))),
      (calls (PgSchemaStoreImpl.implementation isReadOnlyModeEnabled jsonb)).Reachable s →
        Found (PgSchemaStoreImpl.implementation isReadOnlyModeEnabled jsonb) s) := by
  rintro ⟨-, hall⟩
  let moved := orderPlaced "orders/OrderPlaced/1/moved.json" "24d4" 1
  obtain ⟨s, hs, hcomputed⟩ := Machine.exists_reachable
    (M := calls (PgSchemaStoreImpl.implementation false (some : String → Option String))) rfl
    [.register (orderPlaced "orders/OrderPlaced/1/schema.json" "84e6" 1) "{}" ⟨false, false⟩,
      .register moved "[]" ⟨false, false⟩]
    (fun s => (s.owed, PgSchemaStoreImpl.contains s.content moved)) (b := ([(moved, "[]")], some false))
    (by decide +kernel)
  obtain ⟨howed, hcontains⟩ := Prod.mk.inj hcomputed
  have hfound := (hall false some s hs (moved, "[]") (howed ▸ List.mem_singleton_self _)).1
  exact absurd (hcontains.symm.trans hfound) (by decide)

end FactCast.SchemaStore
