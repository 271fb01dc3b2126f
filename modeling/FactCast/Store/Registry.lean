import FactCast.Machine.Run
import FactCast.Store.Transformation

/-! Keeping up with a schema registry.

A refresh fetches the registry's index and brings the stores up to date with it, one
source after the other. The fetcher remembers what identifies the index it was given
last, and presents it with its next request; a registry that has nothing newer
answers that nothing was modified, and the refresh is over.

What is remembered is remembered before the index is parsed, let alone processed. If
that fails, the next attempt is told that nothing was modified, and returns as if all
was well (`half_done_unmodified`). The first refresh of a persistent registry returns
even if it fails. Where no index is left half done, that one succeeds, and every store
takes what it is given, a refresh that returns has brought the stores up to date
(`refresh_completes`). -/
namespace FactCast

/-! ### What the stores hold -/

/-- Where a schema or a transformation comes from, and what it is for. -/
structure Source (K : Type) where
  id : String
  hash : String
  key : K
deriving DecidableEq

structure SchemaKey where
  ns : String
  type : String
  version : Int
deriving DecidableEq

abbrev SchemaSource := Source SchemaKey

/-- A transformation between two versions. -/
abbrev TransformationSource := Source (TransformationKey × Edge)

namespace Source
variable {K : Type}

/-- Whether a store has the source; neither if it has another one under its identifier. -/
def contains (rows : List (Source K)) (source : Source K) : Option Bool :=
  match rows.find? fun r => r.id == source.id with
  | some r => if r.hash = source.hash then some true else none
  | none => some false

/-- What a store has for a key. -/
def get [DecidableEq K] (rows : List (Source K)) (key : K) : Option (Source K) :=
  rows.find? fun r => decide (r.key = key)

/-- The store says that it has the source, and has it for its key. -/
def Has [DecidableEq K] (rows : List (Source K)) (source : Source K) : Prop :=
  contains rows source = some true ∧ get rows source.key = some source

/-- What was under the identifier is replaced. -/
def replace (rows : List (Source K)) (source : Source K) : List (Source K) :=
  rows.filter (fun r => r.id != source.id) ++ [source]

/-- No other identifier is for the same. -/
def vacant [DecidableEq K] (rows : List (Source K)) (source : Source K) : Bool :=
  rows.all fun r => r.id == source.id || decide (r.key ≠ source.key)

/-- What has the same identifier, or is for the same, is the same. -/
def consistent [DecidableEq K] (sources : List (Source K)) : Bool :=
  sources.all fun a => sources.all fun b => a == b || (a.id != b.id && decide (a.key ≠ b.key))

/-- A source is registered if it is not there, or if it may replace another one. -/
def update (isAllowSchemaReplace : Bool) (register : List (Source K) → Source K → Option (List (Source K)))
    (rows : List (Source K)) (source : Source K) : Option (List (Source K)) :=
  match contains rows source with
  | some true => some rows
  | some false => register rows source
  | none => if isAllowSchemaReplace then register rows source else none

/-- What is there is there for its key, and what is to be registered is taken. -/
def taken [DecidableEq K] (isAllowSchemaReplace takes : Bool) (rows : List (Source K))
    (source : Source K) : Bool :=
  match contains rows source with
  | some true => get rows source.key == some source
  | some false => takes
  | none => !isAllowSchemaReplace || takes

/-- What becomes of a store when a source is registered: it is there, and whatever has
nothing to do with it stays. -/
structure Registered [DecidableEq K] (rows rows' : List (Source K)) (source : Source K) : Prop where
  there : Has rows' source
  kept : ∀ other, other.id ≠ source.id → other.key ≠ source.key → Has rows other → Has rows' other

variable {rows rows' : List (Source K)} {source other : Source K}

theorem contains_replace_self : contains (replace rows source) source = some true := by
  have hfirst : (rows.filter fun r => r.id != source.id).find? (fun r => r.id == source.id) = none := by
    rw [List.find?_eq_none]
    intro r hr
    simpa using (List.mem_filter.mp hr).2
  simp [contains, replace, List.find?_append, hfirst]

/-- What is found first is still found first if only other rows are left out. -/
theorem find?_filter_append {p keep : Source K → Bool} {found : Source K}
    (h : rows.find? p = some found) (hkeep : keep found = true) :
    (rows.filter keep ++ [source]).find? p = some found := by
  have hfound : (rows.filter keep).find? p = some found := by
    induction rows with
    | nil => cases h
    | cons r rest ih =>
      rw [List.find?_cons] at h
      cases hr : p r with
      | true =>
        rw [hr] at h
        obtain rfl := Option.some.inj h
        rw [List.filter_cons_of_pos hkeep, List.find?_cons_of_pos hr]
      | false =>
        rw [hr] at h
        rw [List.filter_cons]
        split
        · rw [List.find?_cons_of_neg (by simp [hr]), ih h]
        · exact ih h
  rw [List.find?_append, hfound, Option.some_or]

section Registering
variable [DecidableEq K]

theorem consistent_iff {sources : List (Source K)} : consistent sources = true ↔
    ∀ a ∈ sources, ∀ b ∈ sources, a = b ∨ a.id ≠ b.id ∧ a.key ≠ b.key := by
  simp [consistent]

theorem vacant_iff : vacant rows source = true ↔ ∀ r ∈ rows, r.key = source.key → r.id = source.id := by
  unfold vacant
  rw [List.all_eq_true]
  refine forall₂_congr fun r _ => ?_
  by_cases hkey : r.key = source.key <;> simp [hkey]

/-- Maps in memory: what was put last is found first. -/
theorem registered_cons : Registered rows (source :: rows) source where
  there := by simp [Has, contains, get]
  kept := by
    intro other hid hkey h
    have hid' : (source.id == other.id) = false := beq_false_of_ne (Ne.symm hid)
    have hkey' : decide (source.key = other.key) = false := decide_eq_false (Ne.symm hkey)
    simpa [Has, contains, get, hid', hkey'] using h

/-- A table in which the row with the identifier is replaced. -/
theorem registered_replace (hvacant : vacant rows source = true) :
    Registered rows (replace rows source) source where
  there := by
    refine ⟨contains_replace_self, ?_⟩
    have hfirst : (rows.filter fun r => r.id != source.id).find? (fun r => decide (r.key = source.key)) =
        none := by
      rw [List.find?_eq_none]
      intro r hr hkey
      obtain ⟨hmem, hid⟩ := List.mem_filter.mp hr
      rw [vacant_iff.mp hvacant r hmem (of_decide_eq_true hkey)] at hid
      simp at hid
    simp [get, replace, List.find?_append, hfirst]
  kept := by
    intro other hid hkey ⟨hcontains, hget⟩
    constructor
    · unfold contains at hcontains ⊢
      cases hrow : rows.find? fun r => r.id == other.id with
      | none =>
        rw [hrow] at hcontains
        cases hcontains
      | some r =>
        have hrid : r.id = other.id := by simpa using List.find?_some hrow
        rw [replace, find?_filter_append hrow (by simp [hrid, hid]), ← hrow]
        exact hcontains
    · exact find?_filter_append hget (by simp [hid])

/-- A table in which the row with the key is replaced. Identifiers are primary keys. -/
theorem registered_moved (hids : ∀ a ∈ rows, ∀ b ∈ rows, a.id = b.id → a = b)
    (hnew : ∀ r ∈ rows, r.key ≠ source.key → r.id ≠ source.id) :
    Registered rows (rows.filter (fun r => decide (r.key ≠ source.key)) ++ [source]) source where
  there := by
    have hid : (rows.filter fun r => decide (r.key ≠ source.key)).find? (fun r => r.id == source.id) =
        none := by
      rw [List.find?_eq_none]
      intro r hr
      obtain ⟨hmem, hkey⟩ := List.mem_filter.mp hr
      simpa using hnew r hmem (of_decide_eq_true hkey)
    have hkey : (rows.filter fun r => decide (r.key ≠ source.key)).find?
        (fun r => decide (r.key = source.key)) = none := by
      rw [List.find?_eq_none]
      intro r hr
      simpa using (List.mem_filter.mp hr).2
    refine ⟨?_, ?_⟩
    · rw [contains, List.find?_append, hid, Option.none_or]
      simp
    · rw [get, List.find?_append, hkey, Option.none_or]
      simp
  kept := by
    intro other hid hkey ⟨hcontains, hget⟩
    have hother : other ∈ rows := List.mem_of_find?_eq_some hget
    constructor
    · unfold contains at hcontains ⊢
      cases hrow : rows.find? fun r => r.id == other.id with
      | none =>
        rw [hrow] at hcontains
        cases hcontains
      | some r =>
        have hrid : r.id = other.id := by simpa using List.find?_some hrow
        obtain rfl := hids r (List.mem_of_find?_eq_some hrow) other hother hrid
        rw [find?_filter_append hrow (by simp [hkey]), ← hrow]
        exact hcontains
    · exact find?_filter_append hget (by simp [hkey])

/-- After an update the source is there, and what has nothing to do with it still is. -/
theorem registered_update {isAllowSchemaReplace takes : Bool}
    {register : List (Source K) → Source K → Option (List (Source K))}
    (htaken : taken isAllowSchemaReplace takes rows source = true)
    (hregister : takes = true → register rows source = some rows' → Registered rows rows' source)
    (h : update isAllowSchemaReplace register rows source = some rows') : Registered rows rows' source := by
  unfold taken at htaken
  unfold update at h
  split at h
  · rename_i hcontains
    rw [hcontains] at htaken
    cases h
    exact ⟨⟨hcontains, beq_iff_eq.mp htaken⟩, fun _ _ _ hother => hother⟩
  · rename_i hmissing
    rw [hmissing] at htaken
    exact hregister htaken h
  · rename_i hconflict
    rw [hconflict] at htaken
    split at h
    · rename_i hallowed
      exact hregister (by simpa [hallowed] using htaken) h
    · cases h

end Registering

end Source

/-! ### The stores -/

namespace AbstractSchemaRegistry
open Source (contains get Has replace vacant consistent)

structure Config where
  isPersistentRegistry : Bool
  isReadOnlyModeEnabled : Bool
  isAllowSchemaReplace : Bool

/-- Inserting or updating fails if another identifier is for the same; the second
statement then finds that row, and leaves it alone. -/
def PgSchemaStoreImpl.register (rows : List SchemaSource) (source : SchemaSource) : List SchemaSource :=
  if rows.any fun r => decide (r.key = source.key) && r.id != source.id then rows
  else replace rows source

/-- What is for the same is deleted, then the source is inserted. This throws if its
identifier is for something else. -/
def PgTransformationStoreImpl.doStore (rows : List TransformationSource) (source : TransformationSource) :
    Option (List TransformationSource) :=
  let rest := rows.filter fun r => decide (r.key ≠ source.key)
  if rest.any fun r => r.id == source.id then none else some (rest ++ [source])

/-- A store in memory puts the hash under the identifier and the rest under the key: what it
was given is kept here in order, the latest first. -/
def schemaStore (cfg : Config) (rows : List SchemaSource) (source : SchemaSource) : Option (List SchemaSource) :=
  if cfg.isPersistentRegistry then
    some (if cfg.isReadOnlyModeEnabled then rows else PgSchemaStoreImpl.register rows source)
  else some (source :: rows)

def transformationStore (cfg : Config) (rows : List TransformationSource) (source : TransformationSource) :
    Option (List TransformationSource) :=
  if cfg.isPersistentRegistry then
    if cfg.isReadOnlyModeEnabled then some rows else PgTransformationStoreImpl.doStore rows source
  else some (source :: rows)

/-- What is to be registered is taken by a store in memory, and by one that may write and has
nothing else for the key. -/
def schemaTaken (cfg : Config) (rows : List SchemaSource) (source : SchemaSource) : Bool :=
  let takes := !cfg.isPersistentRegistry || (!cfg.isReadOnlyModeEnabled && vacant rows source)
  Source.taken cfg.isAllowSchemaReplace takes rows source

/-- A transformation may have had another identifier. -/
def transformationTaken (cfg : Config) (rows : List TransformationSource) (source : TransformationSource) :
    Bool :=
  let takes := !cfg.isPersistentRegistry || !cfg.isReadOnlyModeEnabled
  Source.taken cfg.isAllowSchemaReplace takes rows source

/-- The identifiers of a table are primary keys. -/
def Keyed (cfg : Config) (rows : List TransformationSource) : Prop :=
  cfg.isPersistentRegistry = true → ∀ a ∈ rows, ∀ b ∈ rows, a.id = b.id → a = b

section Stores
variable {cfg : Config}

theorem schemes_update {rows after : List SchemaSource} {source : SchemaSource}
    (htaken : schemaTaken cfg rows source = true)
    (h : Source.update cfg.isAllowSchemaReplace (schemaStore cfg) rows source = some after) :
    Source.Registered rows after source := by
  refine Source.registered_update htaken (fun htakes hafter => ?_) h
  unfold schemaStore at hafter
  split at hafter
  · rename_i hpersistent
    obtain ⟨hwrites, hvacant⟩ : cfg.isReadOnlyModeEnabled = false ∧ vacant rows source = true := by
      simpa [hpersistent] using htakes
    have hfree : (rows.any fun r => decide (r.key = source.key) && r.id != source.id) = false := by
      rw [List.any_eq_false]
      intro r hr
      simpa using Source.vacant_iff.mp hvacant r hr
    rw [hwrites, PgSchemaStoreImpl.register, hfree] at hafter
    cases hafter
    exact Source.registered_replace hvacant
  · cases hafter
    exact Source.registered_cons

theorem transformations_update {rows after : List TransformationSource} {source : TransformationSource}
    (hkeyed : Keyed cfg rows) (htaken : transformationTaken cfg rows source = true)
    (h : Source.update cfg.isAllowSchemaReplace (transformationStore cfg) rows source = some after) :
    Source.Registered rows after source := by
  refine Source.registered_update htaken (fun htakes hafter => ?_) h
  unfold transformationStore at hafter
  split at hafter
  · rename_i hpersistent
    have hwrites : cfg.isReadOnlyModeEnabled = false := by simpa [hpersistent] using htakes
    rw [hwrites, if_neg Bool.false_ne_true, PgTransformationStoreImpl.doStore] at hafter
    split at hafter
    · cases hafter
    · rename_i hfree
      cases hafter
      refine Source.registered_moved (hkeyed hpersistent) fun r hr hkey hid => hfree ?_
      exact List.any_eq_true.mpr ⟨r, List.mem_filter.mpr ⟨hr, decide_eq_true hkey⟩, beq_iff_eq.mpr hid⟩
  · cases hafter
    exact Source.registered_cons

theorem keyed_store {rows after : List TransformationSource} {source : TransformationSource}
    (hkeyed : Keyed cfg rows) (h : transformationStore cfg rows source = some after) : Keyed cfg after := by
  intro hpersistent
  rw [transformationStore, if_pos hpersistent] at h
  split at h
  · cases h
    exact hkeyed hpersistent
  · unfold PgTransformationStoreImpl.doStore at h
    dsimp only at h
    split at h
    · cases h
    · rename_i hfree
      cases h
      have hnew : ∀ r ∈ rows.filter (fun r => decide (r.key ≠ source.key)), r.id ≠ source.id :=
        fun r hr hid => hfree (List.any_eq_true.mpr ⟨r, hr, beq_iff_eq.mpr hid⟩)
      intro a ha b hb hid
      rcases List.mem_append.mp ha with ha | ha <;> rcases List.mem_append.mp hb with hb | hb
      · exact hkeyed hpersistent a (List.mem_filter.mp ha).1 b (List.mem_filter.mp hb).1 hid
      · obtain rfl := List.mem_singleton.mp hb
        exact absurd hid (hnew a ha)
      · obtain rfl := List.mem_singleton.mp ha
        exact absurd hid.symm (hnew b hb)
      · rw [List.mem_singleton.mp ha, List.mem_singleton.mp hb]

theorem keyed_update {rows after : List TransformationSource} {source : TransformationSource}
    (hkeyed : Keyed cfg rows)
    (h : Source.update cfg.isAllowSchemaReplace (transformationStore cfg) rows source = some after) :
    Keyed cfg after := by
  unfold Source.update at h
  split at h
  · cases h
    exact hkeyed
  · exact keyed_store hkeyed h
  · split at h
    · exact keyed_store hkeyed h
    · cases h

end Stores

/-! ### A refresh -/

structure RegistryIndex where
  schemes : List SchemaSource
  transformations : List TransformationSource
deriving DecidableEq

/-- An index as the registry serves it. -/
structure Page where
  etag : Option String
  lastModified : Option String
  index : RegistryIndex

/-- What a request presents. -/
abbrev Validators := Option String × Option String

def Page.validators (page : Page) : Validators := (page.etag, page.lastModified)

inductive Phase where
  | idle
  /-- About to make a request for the index, the how-manieth. -/
  | fetchIndex (attempt : Nat)
  /-- The registry has answered with an index. -/
  | readValue (attempt : Nat) (page : Page)
  /-- The sources that are left. -/
  | process (page : Page) (schemes : List SchemaSource) (transformations : List TransformationSource)
  /-- Without an error, with the index that the registry served. -/
  | returned (page : Page)

structure State where
  /-- What the registry serves, and all it ever served. -/
  page : Page
  served : List Page
  etag : Option String
  since : Option String
  schemes : List SchemaSource
  transformations : List TransformationSource
  /-- The refresh is the one at the start. -/
  initial : Bool
  phase : Phase
  /-- What the fetcher was given last, and whether that was processed to the end. -/
  given : Option Page
  completed : Bool

inductive Action where
  /-- The registry serves another index. -/
  | serve (page : Page)
  | refresh
  /-- It is skipped if another instance has the lock. -/
  | fetchInitial (locked : Bool)
  /-- No response, or one with another status. -/
  | unavailable
  | notModified
  | ok
  /-- The body is an index, or is none. -/
  | parsed
  | unparsed
  /-- The next source is updated. -/
  | update
  /-- A file cannot be fetched, or a statement fails, or whatever else may. -/
  | throw
  | finish
  | leave

/-- A refresh that fails throws. The initial one of a persistent registry returns. -/
def swallows (cfg : Config) (s : State) : Bool := s.initial && cfg.isPersistentRegistry

def fail (cfg : Config) (s : State) : State :=
  { s with phase := if swallows cfg s then .returned s.page else .idle }

/-- A request is made ten times before the error is passed on. -/
def retry (cfg : Config) (s : State) (attempt : Nat) : State :=
  if attempt < 10 then { s with phase := .fetchIndex (attempt + 1) } else fail cfg s

/-- The registry does not identify two indexes in the same way. -/
def tells (served : List Page) (page : Page) : Bool :=
  served.all fun old => old.validators != page.validators || page.validators == (none, none) ||
    decide (old.index = page.index)

/-- What is presented is that of the index that is served. -/
def unmodified (s : State) : Bool :=
  (s.etag, s.since) != (none, none) && (s.etag, s.since) == s.page.validators

def step (cfg : Config) (s : State) : Action → Option State
  | .serve page => if tells s.served page then some { s with page, served := page :: s.served } else none
  | .refresh =>
    match s.phase with
    | .idle => some { s with initial := false, phase := .fetchIndex 1 }
    | _ => none
  | .fetchInitial locked =>
    match s.phase with
    | .idle =>
      if cfg.isPersistentRegistry && locked then some s
      else some { s with initial := true, phase := .fetchIndex 1 }
    | _ => none
  | .unavailable =>
    match s.phase with
    | .fetchIndex attempt => some (retry cfg s attempt)
    | _ => none
  | .notModified =>
    match s.phase with
    | .fetchIndex _ => if unmodified s then some { s with phase := .returned s.page } else none
    | _ => none
  | .ok =>
    match s.phase with
    | .fetchIndex attempt =>
      if unmodified s then none
      else
        some { s with
          etag := s.page.etag, since := s.page.lastModified, given := some s.page, completed := false
          phase := .readValue attempt s.page }
    | _ => none
  | .parsed =>
    match s.phase with
    | .readValue _ page => some { s with phase := .process page page.index.schemes page.index.transformations }
    | _ => none
  | .unparsed =>
    match s.phase with
    | .readValue attempt _ => some (retry cfg s attempt)
    | _ => none
  | .update =>
    match s.phase with
    | .process page (source :: rest) transformations =>
      match Source.update cfg.isAllowSchemaReplace (schemaStore cfg) s.schemes source with
      | some schemes => some { s with schemes, phase := .process page rest transformations }
      | none => some (fail cfg s)
    | .process page [] (source :: rest) =>
      match Source.update cfg.isAllowSchemaReplace (transformationStore cfg) s.transformations source with
      | some transformations => some { s with transformations, phase := .process page [] rest }
      | none => some (fail cfg s)
    | _ => none
  | .throw =>
    match s.phase with
    | .idle | .returned _ => none
    | _ => some (fail cfg s)
  | .finish =>
    match s.phase with
    | .process page [] [] => some { s with phase := .returned page, completed := true }
    | _ => none
  | .leave =>
    match s.phase with
    | .returned _ => some { s with phase := .idle }
    | _ => none

/-- Any registry, stores that were filled before, and a fetcher that knows nothing. -/
structure Start (cfg : Config) (s : State) : Prop where
  served : s.served = [s.page]
  etag : s.etag = none
  since : s.since = none
  given : s.given = none
  completed : s.completed = false
  phase : s.phase = .idle
  keyed : Keyed cfg s.transformations

def refreshing (cfg : Config) : Machine State Action where
  Start := Start cfg
  step := step cfg

/-- The stores have every source of the index. -/
structure Complete (s : State) (index : RegistryIndex) : Prop where
  schemes : ∀ source ∈ index.schemes, Has s.schemes source
  transformations : ∀ source ∈ index.transformations, Has s.transformations source

/-- The step is the end of a refresh that fails. -/
def fails (cfg : Config) (s : State) : Action → Bool
  | .unavailable | .unparsed =>
    match s.phase with
    | .fetchIndex attempt | .readValue attempt _ => decide (10 ≤ attempt)
    | _ => false
  | .update =>
    match s.phase with
    | .process _ (source :: _) _ =>
      (Source.update cfg.isAllowSchemaReplace (schemaStore cfg) s.schemes source).isNone
    | .process _ [] (source :: _) =>
      (Source.update cfg.isAllowSchemaReplace (transformationStore cfg) s.transformations source).isNone
    | _ => false
  | .throw => true
  | _ => false

/-- The initial refresh of a persistent registry does not fail, an index is not unmodified
while it is half done, and each of its sources is one of its own; and the stores take the
sources they are given. -/
def sound (cfg : Config) (s : State) (a : Action) : Bool :=
  !(swallows cfg s && fails cfg s a) &&
  match a with
  | .notModified => s.completed
  | .parsed =>
    match s.phase with
    | .readValue _ page => consistent page.index.schemes && consistent page.index.transformations
    | _ => true
  | .update =>
    match s.phase with
    | .process _ (source :: _) _ => schemaTaken cfg s.schemes source
    | .process _ [] (source :: _) => transformationTaken cfg s.transformations source
    | _ => true
  | _ => true

/-! ### What a step does -/

inductive Move (cfg : Config) (s : State) : Action → State → Prop where
  | serve {page : Page} (htells : tells s.served page = true) :
    Move cfg s (.serve page) { s with page, served := page :: s.served }
  | refresh : Move cfg s .refresh { s with initial := false, phase := .fetchIndex 1 }
  | fetchInitial {locked : Bool} :
    Move cfg s (.fetchInitial locked) { s with initial := true, phase := .fetchIndex 1 }
  | skipped {locked : Bool} : Move cfg s (.fetchInitial locked) s
  /-- Neither the registry nor its answer is of any use. -/
  | again {a : Action} {attempt : Nat} (hattempt : attempt < 10) :
    Move cfg s a { s with phase := .fetchIndex (attempt + 1) }
  | fail {a : Action} (hfails : fails cfg s a = true) : Move cfg s a (fail cfg s)
  | notModified (hunmodified : unmodified s = true) :
    Move cfg s .notModified { s with phase := .returned s.page }
  | ok {attempt : Nat} :
    Move cfg s .ok
      { s with
        etag := s.page.etag, since := s.page.lastModified, given := some s.page, completed := false
        phase := .readValue attempt s.page }
  | parsed {attempt : Nat} {page : Page} (hphase : s.phase = .readValue attempt page) :
    Move cfg s .parsed { s with phase := .process page page.index.schemes page.index.transformations }
  | schema {page : Page} {source : SchemaSource} {rest schemes : List SchemaSource}
    {transformations : List TransformationSource}
    (hphase : s.phase = .process page (source :: rest) transformations)
    (hupdate : Source.update cfg.isAllowSchemaReplace (schemaStore cfg) s.schemes source = some schemes) :
    Move cfg s .update { s with schemes, phase := .process page rest transformations }
  | transformation {page : Page} {source : TransformationSource}
    {rest transformations : List TransformationSource}
    (hphase : s.phase = .process page [] (source :: rest))
    (hupdate : Source.update cfg.isAllowSchemaReplace (transformationStore cfg) s.transformations source =
      some transformations) :
    Move cfg s .update { s with transformations, phase := .process page [] rest }
  | finish {page : Page} (hphase : s.phase = .process page [] []) :
    Move cfg s .finish { s with phase := .returned page, completed := true }
  | leave : Move cfg s .leave { s with phase := .idle }

section Moves
variable {cfg : Config} {s s' : State} {a : Action} {page : Page}

theorem move_retry {attempt : Nat} (hfails : fails cfg s a = decide (10 ≤ attempt)) :
    Move cfg s a (retry cfg s attempt) := by
  unfold retry
  split
  · rename_i hattempt
    exact .again hattempt
  · rename_i hlast
    exact .fail (hfails.trans (decide_eq_true (Nat.le_of_not_lt hlast)))

theorem move_update (h : step cfg s .update = some s') : Move cfg s .update s' := by
  simp only [step] at h
  split at h
  · rename_i hphase
    split at h
    · rename_i hupdate
      cases h
      exact .schema hphase hupdate
    · rename_i hupdate
      cases h
      exact .fail (by simp [fails, hphase, hupdate])
  · rename_i hphase
    split at h
    · rename_i hupdate
      cases h
      exact .transformation hphase hupdate
    · rename_i hupdate
      cases h
      exact .fail (by simp [fails, hphase, hupdate])
  · cases h

theorem move_of_step (h : step cfg s a = some s') : Move cfg s a s' := by
  cases a with
  | serve page =>
    obtain ⟨htells, hs⟩ := Option.ite_none_right_eq_some.mp h
    cases hs
    exact .serve htells
  | refresh =>
    simp only [step] at h
    split at h
    · cases h
      exact .refresh
    · cases h
  | fetchInitial locked =>
    simp only [step] at h
    split at h
    · split at h
      · cases h
        exact .skipped
      · cases h
        exact .fetchInitial
    · cases h
  | unavailable =>
    simp only [step] at h
    split at h
    · rename_i hphase
      cases h
      exact move_retry (by simp only [fails, hphase])
    · cases h
  | notModified =>
    simp only [step] at h
    split at h
    · obtain ⟨hunmodified, hs⟩ := Option.ite_none_right_eq_some.mp h
      cases hs
      exact .notModified hunmodified
    · cases h
  | ok =>
    simp only [step] at h
    split at h
    · obtain ⟨_, hs⟩ := Option.ite_none_left_eq_some.mp h
      cases hs
      exact .ok
    · cases h
  | parsed =>
    simp only [step] at h
    split at h
    · rename_i hphase
      cases h
      exact .parsed hphase
    · cases h
  | unparsed =>
    simp only [step] at h
    split at h
    · rename_i hphase
      cases h
      exact move_retry (by simp only [fails, hphase])
    · cases h
  | update => exact move_update h
  | throw =>
    simp only [step] at h
    split at h
    · cases h
    · cases h
    · cases h
      exact .fail rfl
  | finish =>
    simp only [step] at h
    split at h
    · rename_i hphase
      cases h
      exact .finish hphase
    · cases h
  | leave =>
    simp only [step] at h
    split at h
    · cases h
      exact .leave
    · cases h

end Moves

/-! ### What holds along a refresh -/

/-- The sources that are left to process; the others are there. -/
structure Processing (s : State) (page : Page) (schemes : List SchemaSource)
    (transformations : List TransformationSource) : Prop where
  given : s.given = some page
  half : s.completed = false
  schemes_sub : ∀ source ∈ schemes, source ∈ page.index.schemes
  transformations_sub : ∀ source ∈ transformations, source ∈ page.index.transformations
  schemes_own : consistent page.index.schemes = true
  transformations_own : consistent page.index.transformations = true
  schemes_done : ∀ source ∈ page.index.schemes, source ∈ schemes ∨ Has s.schemes source
  transformations_done : ∀ source ∈ page.index.transformations,
    source ∈ transformations ∨ Has s.transformations source

/-- What each phase rests on. -/
def Placed (s : State) : Phase → Prop
  | .idle | .fetchIndex _ => True
  | .readValue _ page => s.given = some page ∧ s.completed = false
  | .process page schemes transformations => Processing s page schemes transformations
  | .returned page => Complete s page.index

structure Inv (cfg : Config) (s : State) : Prop where
  page : s.page ∈ s.served
  given : ∀ page, s.given = some page → page ∈ s.served
  told : ∀ p ∈ s.served, ∀ q ∈ s.served, p.validators = q.validators →
    p.validators = (none, none) ∨ p.index = q.index
  presented : (s.etag, s.since) = (s.given.map Page.validators).getD (none, none)
  completed : s.completed = true → ∀ page, s.given = some page → Complete s page.index
  keyed : Keyed cfg s.transformations
  placed : Placed s s.phase

section Invariant
variable {cfg : Config} {s s' : State} {a : Action} {page : Page}

/-- The next source of an index is there afterwards, as are those before it. -/
theorem done_update {K : Type} [DecidableEq K] {rows rows' all rest : List (Source K)} {source : Source K}
    (hregistered : Source.Registered rows rows' source) (hown : consistent all = true)
    (hsource : source ∈ all) (hdone : ∀ other ∈ all, other ∈ source :: rest ∨ Has rows other) :
    ∀ other ∈ all, other ∈ rest ∨ Has rows' other := by
  intro other hother
  rcases Source.consistent_iff.mp hown other hother source hsource with rfl | ⟨hid, hkey⟩
  · exact .inr hregistered.there
  · rcases hdone other hother with hleft | hdone
    · rcases List.mem_cons.mp hleft with rfl | hleft
      · exact absurd rfl hid
      · exact .inl hleft
    · exact .inr (hregistered.kept other hid hkey hdone)

theorem processing_schema {source : SchemaSource} {rest schemes : List SchemaSource}
    {transformations : List TransformationSource} (hp : Processing s page (source :: rest) transformations)
    (hregistered : Source.Registered s.schemes schemes source) :
    Processing { s with schemes, phase := .process page rest transformations } page rest transformations :=
  { hp with
    schemes_sub := fun other hother => hp.schemes_sub other (List.mem_cons_of_mem source hother)
    schemes_done := done_update hregistered hp.schemes_own
      (hp.schemes_sub source (List.mem_cons_self ..)) hp.schemes_done }

theorem processing_transformation {source : TransformationSource}
    {rest transformations : List TransformationSource}
    (hp : Processing s page [] (source :: rest))
    (hregistered : Source.Registered s.transformations transformations source) :
    Processing { s with transformations, phase := .process page [] rest } page [] rest :=
  { hp with
    transformations_sub := fun other hother =>
      hp.transformations_sub other (List.mem_cons_of_mem source hother)
    transformations_done := done_update hregistered hp.transformations_own
      (hp.transformations_sub source (List.mem_cons_self ..)) hp.transformations_done }

/-- What is presented is that of a given index, and that index is what is served. -/
theorem served_of_unmodified (hi : Inv cfg s) (h : unmodified s = true) :
    ∃ page, s.given = some page ∧ page.index = s.page.index := by
  simp only [unmodified, Bool.and_eq_true, bne_iff_ne, beq_iff_eq] at h
  cases hgiven : s.given with
  | none =>
    have hpresented := hi.presented
    rw [hgiven] at hpresented
    exact absurd hpresented h.1
  | some page =>
    have hpresented := hi.presented
    rw [hgiven] at hpresented
    have hvalidators : page.validators = s.page.validators := hpresented.symm.trans h.2
    rcases hi.told page (hi.given page hgiven) s.page hi.page hvalidators with hnone | hindex
    · exact absurd (hpresented.trans hnone) h.1
    · exact ⟨page, rfl, hindex⟩

/-- A step that only goes on. -/
theorem Inv.goOn (hi : Inv cfg s) {phase : Phase} {initial : Bool}
    (hplaced : Placed { s with initial, phase } phase) : Inv cfg { s with initial, phase } where
  page := hi.page
  given := hi.given
  told := hi.told
  presented := hi.presented
  completed hcompleted page hpage := { hi.completed hcompleted page hpage with }
  keyed := hi.keyed
  placed := hplaced

theorem inv_serve (hi : Inv cfg s) (htells : tells s.served page = true) :
    Inv cfg { s with page, served := page :: s.served } where
  page := List.mem_cons_self ..
  given old hold := List.mem_cons_of_mem page (hi.given old hold)
  told := by
    have htold : ∀ old ∈ s.served, old.validators = page.validators →
        page.validators = (none, none) ∨ old.index = page.index := by
      intro old hold hsame
      simpa [tells, hsame] using List.all_eq_true.mp htells old hold
    intro p hp q hq hsame
    rcases List.mem_cons.mp hp with rfl | hold
    · rcases List.mem_cons.mp hq with rfl | hold
      · exact .inr rfl
      · rw [hsame]
        exact (htold q hold hsame.symm).imp (hsame ▸ id) Eq.symm
    · rcases List.mem_cons.mp hq with rfl | hold'
      · rw [hsame]
        exact htold p hold hsame
      · exact hi.told p hold q hold' hsame
  presented := hi.presented
  completed hcompleted old hold := { hi.completed hcompleted old hold with }
  keyed := hi.keyed
  placed := by
    have hplaced := hi.placed
    cases hphase : s.phase with
    | idle => trivial
    | fetchIndex => trivial
    | readValue =>
      rw [hphase] at hplaced
      exact hplaced
    | process =>
      rw [hphase] at hplaced
      exact { hplaced with }
    | returned =>
      rw [hphase] at hplaced
      exact { hplaced with }

theorem inv_step (hi : Inv cfg s) (hc : sound cfg s a = true) (h : step cfg s a = some s') : Inv cfg s' := by
  obtain ⟨hswallows, hsound⟩ := Bool.and_eq_true_iff.mp hc
  have hplaced := hi.placed
  cases move_of_step h with
  | serve htells => exact inv_serve hi htells
  | refresh => exact hi.goOn trivial
  | fetchInitial => exact hi.goOn trivial
  | skipped => exact hi
  | again => exact hi.goOn trivial
  | fail hfails =>
    have hthrows : swallows cfg s = false := by simpa [hfails] using hswallows
    rw [fail, hthrows]
    exact hi.goOn trivial
  | notModified hunmodified =>
    obtain ⟨page, hpage, hindex⟩ := served_of_unmodified hi hunmodified
    have hcomplete := hi.completed hsound page hpage
    rw [hindex] at hcomplete
    exact hi.goOn { hcomplete with }
  | ok =>
    refine ⟨hi.page, fun page hpage => ?_, hi.told, rfl, by simp, hi.keyed, rfl, rfl⟩
    cases hpage
    exact hi.page
  | parsed hphase =>
    simp only [hphase, Bool.and_eq_true] at hsound
    rw [hphase] at hplaced
    exact hi.goOn
      ⟨hplaced.1, hplaced.2, fun _ => id, fun _ => id, hsound.1, hsound.2, fun _ => .inl, fun _ => .inl⟩
  | schema hphase hupdate =>
    simp only [hphase] at hsound
    rw [hphase] at hplaced
    have hp := processing_schema hplaced (schemes_update hsound hupdate)
    exact ⟨hi.page, hi.given, hi.told, hi.presented, fun hcompleted =>
      absurd (hp.half.symm.trans hcompleted) Bool.false_ne_true, hi.keyed, hp⟩
  | transformation hphase hupdate =>
    simp only [hphase] at hsound
    rw [hphase] at hplaced
    have hp := processing_transformation hplaced (transformations_update hi.keyed hsound hupdate)
    exact ⟨hi.page, hi.given, hi.told, hi.presented, fun hcompleted =>
      absurd (hp.half.symm.trans hcompleted) Bool.false_ne_true, keyed_update hi.keyed hupdate, hp⟩
  | @finish page hphase =>
    rw [hphase] at hplaced
    have hcomplete : Complete s page.index := by
      refine ⟨fun source hsource => ?_, fun source hsource => ?_⟩
      · exact (hplaced.schemes_done source hsource).resolve_left List.not_mem_nil
      · exact (hplaced.transformations_done source hsource).resolve_left List.not_mem_nil
    refine ⟨hi.page, hi.given, hi.told, hi.presented, fun _ old hold => ?_, hi.keyed, { hcomplete with }⟩
    obtain rfl := Option.some.inj (hplaced.given.symm.trans hold)
    exact { hcomplete with }
  | leave => exact hi.goOn trivial

end Invariant

/-- In every run in which no index is left half done and then unmodified, no failure of an
initial refresh is swallowed, and the stores take what they are given, a refresh that
returns has brought the stores up to date with the index that the registry answered for. -/
theorem refresh_completes (cfg : Config) (s : State) (page : Page)
    (h : (refreshing cfg).ReachableUnder (fun s a => sound cfg s a = true) s)
    (hreturned : s.phase = .returned page) : Complete s page.index := by
  have hi : Inv cfg s := by
    refine h.invariant (I := Inv cfg) (fun s hstart => ?_) fun s a s' hi hc hs => inv_step hi hc hs
    refine ⟨by simp [hstart.served], by simp [hstart.given], fun p hp q hq _ => ?_,
      by simp [hstart.etag, hstart.since, hstart.given], by simp [hstart.completed], hstart.keyed,
      by rw [hstart.phase]; trivial⟩
    rw [hstart.served, List.mem_singleton] at hp hq
    exact .inr (by rw [hp, hq])
  have hplaced := hi.placed
  rw [hreturned] at hplaced
  exact hplaced

/-! ### An index that is left half done -/

def replacing : Config := ⟨true, false, true⟩

/-- One schema, and one transformation to it. -/
def orderIndex : RegistryIndex where
  schemes := [⟨"orders/OrderPlaced/2/schema.json", "84e6", ⟨"orders", "OrderPlaced", 2⟩⟩]
  transformations := [⟨"orders/OrderPlaced/1-2/transform.js", "24d4", (⟨"orders", "OrderPlaced"⟩, ⟨1, 2⟩)⟩]

/-- The transformation had another identifier before. -/
def unread : State where
  page := ⟨some "1", none, orderIndex⟩
  served := [⟨some "1", none, orderIndex⟩]
  etag := none
  since := none
  schemes := []
  transformations := [⟨"synthetic/orders/OrderPlaced/1-2", "none", (⟨"orders", "OrderPlaced"⟩, ⟨1, 2⟩)⟩]
  initial := false
  phase := .idle
  given := none
  completed := false

theorem unread_start (cfg : Config) : Start cfg unread := by
  refine ⟨rfl, rfl, rfl, rfl, rfl, rfl, fun _ a ha b hb _ => ?_⟩
  rw [List.mem_singleton.mp ha, List.mem_singleton.mp hb]

/-- The index that a refresh has returned for. -/
def Phase.returned? : Phase → Option RegistryIndex
  | .returned page => some page.index
  | _ => none

theorem exists_page {phase : Phase} {index : RegistryIndex} (h : phase.returned? = some index) :
    ∃ page, phase = .returned page ∧ page.index = index := by
  cases phase with
  | returned page => exact ⟨page, rfl, Option.some.inj h⟩
  | _ => cases h

/-- The index is processed at the start, and then unmodified. -/
theorem refresh_completes_twice : ∃ s page, s.phase = .returned page ∧ page.index = orderIndex ∧
    Complete s page.index := by
  obtain ⟨s, hs, hcomputed⟩ := Machine.exists_reachableUnder (M := refreshing replacing)
    (c := sound replacing) (unread_start replacing)
    [.fetchInitial false, .unavailable, .ok, .parsed, .update, .update, .finish, .leave, .refresh, .notModified]
    (fun s => s.phase.returned?) (b := some orderIndex) (by decide +kernel)
  obtain ⟨page, hpage, hindex⟩ := exists_page hcomputed
  exact ⟨s, page, hpage, hindex, refresh_completes replacing s page hs hpage⟩

/-- The schema cannot be fetched, and the refresh throws; the next one is told that
nothing was modified, and returns. -/
theorem half_done_unmodified : ¬ ∀ (cfg : Config) (s : State) (page : Page),
    (refreshing cfg).Reachable s → s.phase = .returned page → Complete s page.index := by
  intro hall
  obtain ⟨s, hs, hcomputed⟩ := Machine.exists_reachable (M := refreshing replacing)
    (unread_start replacing) [.refresh, .ok, .parsed, .throw, .refresh, .notModified]
    (fun s => (s.phase.returned?, s.schemes)) (b := (some orderIndex, [])) (by decide +kernel)
  obtain ⟨page, hpage, hindex⟩ := exists_page (congrArg Prod.fst hcomputed)
  have hschemes : s.schemes = [] := congrArg Prod.snd hcomputed
  have hcomplete := (hall replacing s page hs hpage).schemes
  rw [hindex, hschemes] at hcomplete
  exact absurd (hcomplete _ (List.mem_cons_self ..)).1 (by decide)

end AbstractSchemaRegistry
end FactCast
