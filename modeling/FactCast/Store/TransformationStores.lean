import FactCast.Sql.Rows
import FactCast.Store.Registry

/-! The two stores of transformations.

A transformation has an identifier, a hash, and a step it is for: a namespace, a type
and two versions. The store in memory keeps the hash that was stored last under an
identifier, and apart from that the transformations by their steps. The store in
PostgreSQL keeps rows, whose identifiers are unique and whose steps are.

As long as an identifier stands for one step, the two cannot be told apart. They can
once a transformation was replaced by one with another identifier: it is gone from
the table, but its hash is still found in memory (`replaced_contained`). When they
agree is said by what was stored before (`agree_iff`).

Identifiers and hashes are given, and texts are without zero characters. A conflict is
the source and the hash it is told; the texts of the two exceptions differ in their
first word. -/
namespace FactCast

structure SingleTransformation where
  key : TransformationKey
  fromVersion : Int
  toVersion : Int
  transformationCode : Option String
deriving DecidableEq

namespace SingleTransformation

/-- The namespace and type are those of the list it is in. -/
def edge (t : SingleTransformation) : Edge := ⟨t.fromVersion, t.toVersion⟩

def of (source : TransformationSource) (transformation : Option String) : SingleTransformation :=
  ⟨source.key.1, source.key.2.fromVersion, source.key.2.toVersion, transformation⟩

end SingleTransformation

namespace TransformationStore

/-- What was stored: a row of the table. -/
structure Row where
  source : TransformationSource
  transformation : Option String
deriving DecidableEq

namespace Row

def id (r : Row) : String := r.source.id

/-- What it is for. -/
def step (r : Row) : TransformationKey × Edge := r.source.key

def single (r : Row) : SingleTransformation := .of r.source r.transformation

end Row

inductive Call where
  | store (source : TransformationSource) (transformation : Option String)
  | contains (source : TransformationSource)
  | get (key : TransformationKey)

inductive Answer where
  | stored
  /-- A statement fails, and with it the transaction. -/
  | dataAccess
  | contained (found : Bool)
  | conflict (source : TransformationSource) (stored : String)
  | found (transformations : List SingleTransformation)
deriving DecidableEq

/-- The same result; transformations in any order. -/
def Answer.same : Answer → Answer → Prop
  | .found ts, .found us => ∀ t, t ∈ ts ↔ t ∈ us
  | a, b => a = b

/-- What is answered for the stored hash. -/
def compare (source : TransformationSource) : Option String → Answer
  | some hash => if hash = source.hash then .contained true else .conflict source hash
  | none => .contained false

/-! ### In memory -/

structure InMemTransformationStoreImpl where
  id2hashMap : String → Option String
  transformationCache : TransformationKey → List SingleTransformation

namespace InMemTransformationStoreImpl

def empty : InMemTransformationStoreImpl := ⟨fun _ => none, fun _ => []⟩

def doStore (mem : InMemTransformationStoreImpl) (source : TransformationSource)
    (transformation : Option String) : InMemTransformationStoreImpl where
  id2hashMap := Function.update mem.id2hashMap source.id (some source.hash)
  transformationCache := Function.update mem.transformationCache source.key.1
    (Sql.put SingleTransformation.edge (.of source transformation) (mem.transformationCache source.key.1))

theorem doStore_id2hashMap (mem : InMemTransformationStoreImpl) (source : TransformationSource)
    (transformation : Option String) (id : String) : (mem.doStore source transformation).id2hashMap id =
      if id = source.id then some source.hash else mem.id2hashMap id :=
  Function.update_apply ..

theorem doStore_transformationCache (mem : InMemTransformationStoreImpl) (source : TransformationSource)
    (transformation : Option String) (key : TransformationKey) :
    (mem.doStore source transformation).transformationCache key =
      if key = source.key.1 then
        Sql.put SingleTransformation.edge (.of source transformation) (mem.transformationCache source.key.1)
      else mem.transformationCache key :=
  Function.update_apply ..

def contains (mem : InMemTransformationStoreImpl) (source : TransformationSource) : Answer :=
  compare source (mem.id2hashMap source.id)

def get (mem : InMemTransformationStoreImpl) (key : TransformationKey) : List SingleTransformation :=
  mem.transformationCache key

def call (mem : InMemTransformationStoreImpl) : Call → Answer × InMemTransformationStoreImpl
  | .store source transformation => (.stored, mem.doStore source transformation)
  | .contains source => (mem.contains source, mem)
  | .get key => (.found (mem.get key), mem)

end InMemTransformationStoreImpl

/-! ### In PostgreSQL -/

namespace PgTransformationStoreImpl

/-- The texts are not longer than their columns. -/
def fits (source : TransformationSource) : Bool :=
  Sql.varchar 2048 source.id && Sql.varchar 32 source.hash && Sql.varchar 255 source.key.1.ns &&
    Sql.varchar 255 source.key.1.type

/-- Neither the primary key nor the unique index may be violated. -/
def insert (rows : List Row) (r : Row) : Option (List Row) :=
  if fits r.source && (Sql.row Row.id rows r.id).isNone && (Sql.row Row.step rows r.step).isNone then
    some (rows ++ [r])
  else none

/-- What is for the same is deleted, then the row is inserted, in one transaction. -/
def doStore (isReadOnlyModeEnabled : Bool) (rows : List Row) (source : TransformationSource)
    (transformation : Option String) : Option (List Row) :=
  if isReadOnlyModeEnabled then some rows
  else insert (Sql.deleteAt Row.step rows source.key) ⟨source, transformation⟩

def contains (rows : List Row) (source : TransformationSource) : Answer :=
  compare source ((Sql.row Row.id rows source.id).map fun r => r.source.hash)

def get (rows : List Row) (key : TransformationKey) : List SingleTransformation :=
  (rows.filter fun r => decide (r.step.1 = key)).map fun r =>
    ⟨key, r.step.2.fromVersion, r.step.2.toVersion, r.transformation⟩

def call (isReadOnlyModeEnabled : Bool) (rows : List Row) : Call → Answer × List Row
  | .store source transformation =>
    match doStore isReadOnlyModeEnabled rows source transformation with
    | some rows => (.stored, rows)
    | none => (.dataAccess, rows)
  | .contains source => (contains rows source, rows)
  | .get key => (.found (get rows key), rows)

end PgTransformationStoreImpl

/-! ### Both -/

/-- Each call has the same result in both stores. -/
def Agree (isReadOnlyModeEnabled : Bool) :
    InMemTransformationStoreImpl → List Row → List Call → Prop
  | _, _, [] => True
  | mem, rows, call :: rest =>
    let left := mem.call call
    let right := PgTransformationStoreImpl.call isReadOnlyModeEnabled rows call
    left.1.same right.1 ∧ Agree isReadOnlyModeEnabled left.2 right.2 rest

/-- What was stored last for its step; the latest comes first. -/
def last (history : List Row) (r : Row) : Bool := decide (Sql.row Row.step history r.step = some r)

/-- A table takes what fits its columns, under an identifier that does not stand for
another step at the time. An identifier that was stored is one that stands for a step
still. In read-only mode nothing was stored that is asked for. -/
def admissible (isReadOnlyModeEnabled : Bool) (history : List Row) : Call → Bool
  | .store source _ =>
    isReadOnlyModeEnabled || PgTransformationStoreImpl.fits source &&
      history.all fun r => !last history r || r.id != source.id || decide (r.step = source.key)
  | .contains source =>
    history.all (fun r => r.id != source.id) ||
      !isReadOnlyModeEnabled && history.any fun r => last history r && r.id == source.id
  | .get key => !isReadOnlyModeEnabled || history.all fun r => decide (r.step.1 ≠ key)

def remember (history : List Row) : Call → List Row
  | .store source transformation => ⟨source, transformation⟩ :: history
  | _ => history

/-- Every call is admissible after those before it. -/
def Admissible (isReadOnlyModeEnabled : Bool) : List Row → List Call → Prop
  | _, [] => True
  | history, call :: rest =>
    admissible isReadOnlyModeEnabled history call = true ∧
      Admissible isReadOnlyModeEnabled (remember history call) rest

/-! ### What both hold -/

/-- The store in memory has the hash that was stored last under an identifier, and
what was stored last for a step; the table has the latter, and of each identifier
the one that was stored last. -/
structure Holds (isReadOnlyModeEnabled : Bool) (history : List Row) (mem : InMemTransformationStoreImpl)
    (rows : List Row) : Prop where
  hashes : ∀ id, mem.id2hashMap id = (Sql.row Row.id history id).map fun r => r.source.hash
  keyed : ∀ key, Sql.Keyed SingleTransformation.edge (mem.transformationCache key)
  cache : ∀ key t, t ∈ mem.transformationCache key ↔
    ∃ r, last history r = true ∧ r.step.1 = key ∧ r.single = t
  skipped : isReadOnlyModeEnabled = true → rows = []
  table : isReadOnlyModeEnabled = false → ∀ r, r ∈ rows ↔ last history r = true
  latest : ∀ r ∈ rows, Sql.row Row.id history r.id = some r

variable {readOnly : Bool} {history rows rows' : List Row} {mem : InMemTransformationStoreImpl}
  {r new : Row} {source : TransformationSource} {transformation : Option String}

theorem last_cons : last (new :: history) r = true ↔ r = new ∨ last history r = true ∧ r.step ≠ new.step := by
  unfold last
  rw [Sql.row_cons, decide_eq_true_iff, decide_eq_true_iff]
  split
  · rename_i heq
    constructor
    · exact fun h => .inl (Option.some.inj h).symm
    · rintro (rfl | ⟨-, hne⟩)
      · rfl
      · exact absurd heq.symm hne
  · rename_i hne
    constructor
    · exact fun h => .inr ⟨h, Ne.symm hne⟩
    · rintro (rfl | ⟨h, -⟩)
      · exact absurd rfl hne
      · exact h

theorem mem_of_last (h : last history r = true) : r ∈ history :=
  (Sql.mem_of_row (of_decide_eq_true h)).1

/-- For a step that something was stored for there is a last one. -/
theorem exists_last (hr : r ∈ history) : ∃ q, last history q = true ∧ q.step = r.step := by
  cases hrow : Sql.row Row.step history r.step with
  | none => exact absurd rfl (Sql.row_eq_none_iff.mp hrow r hr)
  | some q =>
    have hstep := (Sql.mem_of_row hrow).2
    exact ⟨q, decide_eq_true (hstep ▸ hrow), hstep⟩

theorem holds_empty : Holds readOnly [] .empty [] where
  hashes _ := rfl
  keyed _ := Sql.keyed_nil _
  cache _ _ := by simp [InMemTransformationStoreImpl.empty, last]
  skipped _ := rfl
  table _ _ := by simp [last]
  latest := by simp

/-- The store in memory after storing. -/
theorem cache_doStore (h : Holds readOnly history mem rows) (key : TransformationKey)
    (t : SingleTransformation) : t ∈ (mem.doStore new.source new.transformation).transformationCache key ↔
      ∃ r, last (new :: history) r = true ∧ r.step.1 = key ∧ r.single = t := by
  have hput : ∀ t, t ∈ (mem.doStore new.source new.transformation).transformationCache key ↔
      (key = new.step.1 ∧ t = new.single) ∨
        t ∈ mem.transformationCache key ∧ (key = new.step.1 → t.edge ≠ new.step.2) := by
    intro t
    rw [InMemTransformationStoreImpl.doStore_transformationCache]
    split
    · rename_i heq
      have hedge : (SingleTransformation.of new.source new.transformation).edge = new.step.2 := rfl
      rw [Sql.mem_put (h.keyed _), heq, hedge]
      simp [Row.step, Row.single]
    · rename_i hne
      simp [show key ≠ new.step.1 from hne]
  rw [hput, h.cache]
  constructor
  · rintro (⟨rfl, rfl⟩ | ⟨⟨r, hlast, rfl, rfl⟩, hother⟩)
    · exact ⟨new, last_cons.mpr (.inl rfl), rfl, rfl⟩
    · refine ⟨r, last_cons.mpr (.inr ⟨hlast, fun hstep => ?_⟩), rfl, rfl⟩
      exact hother (congrArg Prod.fst hstep) (congrArg Prod.snd hstep)
  · rintro ⟨r, hlast, rfl, rfl⟩
    rcases last_cons.mp hlast with rfl | ⟨hlast, hne⟩
    · exact .inl ⟨rfl, rfl⟩
    · exact .inr ⟨⟨r, hlast, rfl, rfl⟩, fun hkey hedge => hne (Prod.ext hkey hedge)⟩

/-- What is stored in memory is remembered; the table may have it or not. -/
theorem Holds.doStore (h : Holds readOnly history mem rows)
    (hskipped : readOnly = true → rows' = [])
    (hrows : readOnly = false → ∀ r, r ∈ rows' ↔ last (new :: history) r = true)
    (hlatest : ∀ r ∈ rows', Sql.row Row.id (new :: history) r.id = some r) :
    Holds readOnly (new :: history) (mem.doStore new.source new.transformation) rows' where
  hashes id := by
    rw [InMemTransformationStoreImpl.doStore_id2hashMap, Sql.row_cons, h.hashes]
    by_cases heq : id = new.source.id
    · simp [heq, Row.id]
    · simp [heq, show new.id ≠ id from Ne.symm heq]
  keyed key := by
    rw [InMemTransformationStoreImpl.doStore_transformationCache]
    split
    · exact (h.keyed _).put
    · exact h.keyed key
  cache := cache_doStore h
  skipped := hskipped
  table := hrows
  latest := hlatest

/-! ### One call -/

/-- No other row has the identifier once what is for the same was deleted. -/
def free (rows : List Row) (new : Row) : Bool :=
  (Sql.row Row.id (Sql.deleteAt Row.step rows new.step) new.id).isNone

theorem doStore_eq : PgTransformationStoreImpl.doStore false rows new.source new.transformation =
    if PgTransformationStoreImpl.fits new.source && free rows new then some (Sql.upsert Row.step rows new)
    else none := by
  have hstep : (Sql.row Row.step (Sql.deleteAt Row.step rows new.step) new.step).isNone = true := by
    rw [Sql.row_deleteAt, if_pos rfl]
    rfl
  have hinsert : PgTransformationStoreImpl.insert (Sql.deleteAt Row.step rows new.step) new =
      if PgTransformationStoreImpl.fits new.source && free rows new then some (Sql.upsert Row.step rows new)
      else none := by
    rw [PgTransformationStoreImpl.insert, hstep, Bool.and_true]
    rfl
  exact hinsert

theorem free_iff : free rows new = true ↔ ∀ r ∈ rows, r.step ≠ new.step → r.id ≠ new.id := by
  unfold free
  rw [Option.isNone_iff_eq_none, Sql.row_eq_none_iff]
  simp only [Sql.mem_deleteAt, and_imp]

/-- The table takes what may be stored. -/
theorem takes_iff (h : Holds false history mem rows) :
    (PgTransformationStoreImpl.fits new.source && free rows new) = true ↔
      admissible false history (.store new.source new.transformation) = true := by
  rw [admissible, Bool.false_or, Bool.and_eq_true, Bool.and_eq_true, free_iff, List.all_eq_true]
  simp only [Bool.or_eq_true, Bool.not_eq_true', bne_iff_ne, decide_eq_true_eq]
  refine and_congr_right fun _ => ⟨fun hfree r _ => ?_, fun hall r hr hstep hid => ?_⟩
  · by_cases hlast : last history r = true
    · by_cases hstep : r.step = new.step
      · exact .inr hstep
      · exact .inl (.inr (hfree r ((h.table rfl r).mpr hlast) hstep))
    · exact .inl (.inl (Bool.not_eq_true _ ▸ hlast))
  · have hlast := (h.table rfl r).mp hr
    rcases hall r (mem_of_last hlast) with (hnot | hne) | heq
    · exact Bool.false_ne_true (hnot.symm.trans hlast)
    · exact hne hid
    · exact hstep heq

theorem holds_upsert (h : Holds false history mem rows) (hfree : free rows new = true) :
    Holds false (new :: history) (mem.doStore new.source new.transformation)
      (Sql.upsert Row.step rows new) := by
  refine h.doStore nofun (fun _ r => ?_) fun r hr => ?_
  · rw [last_cons, Sql.mem_upsert, h.table rfl]
  · rw [Sql.row_cons]
    rcases Sql.mem_upsert.mp hr with rfl | ⟨hold, hstep⟩
    · exact if_pos rfl
    · rw [if_neg (Ne.symm (free_iff.mp hfree r hold hstep))]
      exact h.latest r hold

/-- What is skipped is remembered in memory only. -/
theorem holds_skipped (h : Holds true history mem rows) :
    Holds true (new :: history) (mem.doStore new.source new.transformation) rows := by
  have hrows : rows = [] := h.skipped rfl
  exact h.doStore (fun _ => hrows) nofun (by simp [hrows])

theorem compare_none {hash : String} (h : compare source none = compare source (some hash)) : False := by
  unfold compare at h
  dsimp only at h
  split at h
  · cases h
  · cases h

/-- The hash is the same unless the identifier is found in memory only. -/
theorem contains_iff (h : Holds readOnly history mem rows) :
    mem.contains source = PgTransformationStoreImpl.contains rows source ↔
      admissible readOnly history (.contains source) = true := by
  have hmem : mem.contains source =
      compare source ((Sql.row Row.id history source.id).map fun r => r.source.hash) := by
    rw [InMemTransformationStoreImpl.contains, h.hashes]
  rw [hmem, PgTransformationStoreImpl.contains]
  simp only [admissible, Bool.or_eq_true, Bool.and_eq_true, List.all_eq_true, List.any_eq_true,
    Bool.not_eq_true', bne_iff_ne, beq_iff_eq]
  cases hrow : Sql.row Row.id rows source.id with
  | some r =>
    obtain ⟨hr, hid⟩ := Sql.mem_of_row hrow
    have hfound : Sql.row Row.id history source.id = some r := hid ▸ h.latest r hr
    have hwrites : readOnly = false := by
      cases readOnly with
      | false => rfl
      | true => rw [h.skipped rfl] at hr; cases hr
    rw [hfound]
    exact iff_of_true rfl (.inr ⟨hwrites, r, (Sql.mem_of_row hfound).1, (h.table hwrites r).mp hr, hid⟩)
  | none =>
    cases hfound : Sql.row Row.id history source.id with
    | none => exact iff_of_true rfl (.inl (Sql.row_eq_none_iff.mp hfound))
    | some r =>
      refine iff_of_false (fun heq => compare_none heq.symm) ?_
      rintro (hnever | ⟨hwrites, q, -, hlast, hid⟩)
      · obtain ⟨hr, hid⟩ := Sql.mem_of_row hfound
        exact hnever r hr hid
      · exact Sql.row_eq_none_iff.mp hrow q ((h.table hwrites q).mpr hlast) hid

theorem get_iff {key : TransformationKey} (h : Holds readOnly history mem rows) :
    (Answer.found (mem.get key)).same (.found (PgTransformationStoreImpl.get rows key)) ↔
      admissible readOnly history (.get key) = true := by
  have hget : ∀ t, t ∈ PgTransformationStoreImpl.get rows key ↔
      ∃ r, r ∈ rows ∧ r.step.1 = key ∧ r.single = t := by
    intro t
    simp only [PgTransformationStoreImpl.get, List.mem_map, List.mem_filter, decide_eq_true_eq, and_assoc]
    refine exists_congr fun r => and_congr_right fun _ => and_congr_right fun hkey => ?_
    rw [← hkey]
    rfl
  simp only [Answer.same, InMemTransformationStoreImpl.get, h.cache, hget, admissible, Bool.or_eq_true,
    Bool.not_eq_true', List.all_eq_true, decide_eq_true_eq]
  cases readOnly with
  | false => exact iff_of_true (fun t => by simp only [h.table rfl]) (.inl rfl)
  | true =>
    rw [h.skipped rfl]
    constructor
    · intro hsame
      refine .inr fun r hr hkey => ?_
      obtain ⟨q, hlast, hstep⟩ := exists_last hr
      obtain ⟨_, hmem, -⟩ := (hsame q.single).mp ⟨q, hlast, hstep ▸ hkey, rfl⟩
      cases hmem
    · rintro (hfalse | hnever) t
      · cases hfalse
      · constructor
        · rintro ⟨r, hlast, hkey, -⟩
          exact absurd hkey (hnever r (mem_of_last hlast))
        · rintro ⟨_, hmem, -⟩
          cases hmem

/-- A call has the same result in both stores just when it is admissible, and both
hold what was stored afterwards. -/
theorem call_iff (h : Holds readOnly history mem rows) (call : Call) :
    ((mem.call call).1.same (PgTransformationStoreImpl.call readOnly rows call).1 ↔
        admissible readOnly history call = true) ∧
      (admissible readOnly history call = true →
        Holds readOnly (remember history call) (mem.call call).2
          (PgTransformationStoreImpl.call readOnly rows call).2) := by
  cases call with
  | store source transformation =>
    cases readOnly with
    | true => exact ⟨iff_of_true rfl rfl, fun _ => @holds_skipped history rows mem ⟨source, transformation⟩ h⟩
    | false =>
      have htakes := @takes_iff history rows mem ⟨source, transformation⟩ h
      have hstore := @doStore_eq rows ⟨source, transformation⟩
      by_cases hyes : admissible false history (.store source transformation) = true
      · rw [if_pos (htakes.mpr hyes)] at hstore
        simp only [InMemTransformationStoreImpl.call, PgTransformationStoreImpl.call, hstore]
        refine ⟨iff_of_true rfl hyes, fun _ => holds_upsert h ?_⟩
        exact (Bool.and_eq_true_iff.mp (htakes.mpr hyes)).2
      · rw [if_neg (fun h => hyes (htakes.mp h))] at hstore
        simp only [InMemTransformationStoreImpl.call, PgTransformationStoreImpl.call, hstore]
        exact ⟨iff_of_false nofun hyes, fun h => absurd h hyes⟩
  | contains source =>
    refine ⟨Iff.trans ?_ (contains_iff h), fun _ => h⟩
    have hcompare : ∀ hash ts, compare source hash ≠ .found ts := by
      intro hash ts
      unfold compare
      split
      · split <;> nofun
      · nofun
    cases hleft : mem.contains source with
    | found ts => exact absurd hleft (hcompare _ ts)
    | _ => simp [InMemTransformationStoreImpl.call, PgTransformationStoreImpl.call, hleft, Answer.same]
  | get key => exact ⟨get_iff h, fun _ => h⟩

theorem agree_iff_of_holds {calls : List Call} (h : Holds readOnly history mem rows) :
    Agree readOnly mem rows calls ↔ Admissible readOnly history calls := by
  induction calls generalizing history mem rows with
  | nil => exact Iff.rfl
  | cons call rest ih =>
    obtain ⟨hsame, hholds⟩ := call_iff h call
    unfold Agree Admissible
    constructor
    · rintro ⟨hanswer, hrest⟩
      exact ⟨hsame.mp hanswer, (ih (hholds (hsame.mp hanswer))).mp hrest⟩
    · rintro ⟨hyes, hrest⟩
      exact ⟨hsame.mpr hyes, (ih (hholds hyes)).mpr hrest⟩

/-- Two new stores give the same results for a sequence of calls just when every
call in it is admissible after those before it. -/
theorem agree_iff (isReadOnlyModeEnabled : Bool) (calls : List Call) :
    Agree isReadOnlyModeEnabled .empty [] calls ↔ Admissible isReadOnlyModeEnabled [] calls :=
  agree_iff_of_holds holds_empty

/-! ### The sources of the table

These are what the refresh of a registry knows of it. -/

theorem doStore_sources (hfits : PgTransformationStoreImpl.fits new.source = true) :
    (PgTransformationStoreImpl.doStore false rows new.source new.transformation).map (List.map Row.source) =
      AbstractSchemaRegistry.PgTransformationStoreImpl.doStore (rows.map Row.source) new.source := by
  have hrest : ((rows.map Row.source).filter fun r => decide (r.key ≠ new.source.key)) =
      (Sql.deleteAt Row.step rows new.step).map Row.source := List.filter_map ..
  unfold AbstractSchemaRegistry.PgTransformationStoreImpl.doStore
  rw [doStore_eq, hfits, Bool.true_and, hrest]
  dsimp only
  by_cases hfree : free rows new = true
  · have hnone : ((Sql.deleteAt Row.step rows new.step).map Row.source).any
        (fun r => r.id == new.source.id) = false := by
      rw [List.any_map, List.any_eq_false]
      intro r hr
      obtain ⟨hold, hstep⟩ := Sql.mem_deleteAt.mp hr
      exact fun heq => free_iff.mp hfree r hold hstep (beq_iff_eq.mp heq)
    rw [if_pos hfree, hnone, if_neg Bool.false_ne_true, Option.map_some, Sql.upsert, List.map_append]
    rfl
  · have hsome : ((Sql.deleteAt Row.step rows new.step).map Row.source).any
        (fun r => r.id == new.source.id) = true := by
      by_contra hnone
      refine hfree (free_iff.mpr fun r hold hstep hid => hnone ?_)
      rw [List.any_map, List.any_eq_true]
      exact ⟨r, Sql.mem_deleteAt.mpr ⟨hold, hstep⟩, beq_iff_eq.mpr hid⟩
    rw [if_neg hfree, hsome, if_pos rfl]
    rfl

theorem contains_sources : Source.contains (rows.map Row.source) source =
    match PgTransformationStoreImpl.contains rows source with
    | .contained found => some found
    | _ => none := by
  have hfind : ((rows.map Row.source).find? fun r => r.id == source.id) =
      (Sql.row Row.id rows source.id).map Row.source := by
    rw [List.find?_map]
    rfl
  unfold Source.contains PgTransformationStoreImpl.contains compare
  rw [hfind]
  cases Sql.row Row.id rows source.id with
  | none => rfl
  | some r =>
    dsimp only [Option.map_some]
    split <;> rfl

/-! ### A transformation that is replaced -/

/-- From the first version of an event to the second. -/
def upcast (id hash : String) : TransformationSource :=
  ⟨id, hash, (⟨"orders", "OrderPlaced"⟩, ⟨1, 2⟩)⟩

/-- Another identifier takes the step; the first is still found in memory. -/
theorem replaced_contained : ¬ ∀ (isReadOnlyModeEnabled : Bool) (calls : List Call),
    Agree isReadOnlyModeEnabled .empty [] calls := by
  intro hall
  have hcontained : Answer.contained true = Answer.contained false := (hall false
    [.store (upcast "synthetic/orders/OrderPlaced/1-2" "none") none,
      .store (upcast "orders/OrderPlaced/1-2/transform.js" "24d4") (some "function transform(event) {}"),
      .contains (upcast "synthetic/orders/OrderPlaced/1-2" "none")]).2.2.1
  cases hcontained

end TransformationStore
end FactCast
