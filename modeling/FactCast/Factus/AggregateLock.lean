import FactCast.Factus.Apply
import FactCast.Factus.DeclaredFilters
import FactCast.Store.Stream

/-! The lock on an aggregate.

An aggregate is found by its class and its identifier: it goes on from a snapshot,
or else a new instance is given the identifier, and it is brought up to date. Where
nothing was ever applied to it, there is none. The lock is then on another new
instance, and that one is never given the identifier. No specifications can be made
for it: only what exists can be locked (`withLockOn_iff`).

What brings it up to date comes from the server: the rows that the query selects,
which does not ask for versions, as far as the filter behind it and the blacklist let
them through, in a version that was requested. A row that cannot be brought to one
ends the subscription. -/
namespace FactCast

/-- An instance. Its identifier may not have been set. -/
structure Aggregate (σ : Type) where
  aggregateId : Option UUID
  state : σ

/-- A class of aggregates whose handlers could be discovered. -/
structure AggregateClass (reader : UuidReader) (σ : Type) where
  type : ProjectionType
  methods : List Method
  dispatchInfo : Dispatchers
  discovered : Dispatchers.discoverDispatchInfo reader type methods = .ok dispatchInfo
  /-- What the constructor makes. -/
  newInstance : Aggregate σ
  invoke : Dispatcher → PgFact → σ → Except ProjectorImpl.Throwable σ
  /-- What the class makes of its specifications: nothing else, unless it is overridden. -/
  postprocess : List FactSpec → Option (List FactSpec) := some

/-- A stored instance, and the last fact that was applied to it. It is restored with
the identifier it was stored under. -/
structure AggregateSnapshot (σ : Type) where
  state : σ
  lastFactIdApplied : UUID

/-- The server that facts come from: how paths and scripts are read there, which facts are
on the blacklist, and what a fact is transformed to. -/
structure FactServer where
  path : JsonPath
  ef : JSEngineFactory
  isBlocked : UUID → Bool
  transform : TransformationRequest → Except ProjectorImpl.Throwable PgFact

/-- The rows that there are, and the snapshots. -/
structure Factus (σ : Type) extends FactServer where
  closed : Bool
  log : List FactRow
  snapshot : UUID → Option (AggregateSnapshot σ)

namespace FactServer
variable (server : FactServer) (reader : UuidReader) (specs : List FactSpec)

/-- The fact in a version that was requested, unless it cannot be had. -/
def turned (f : PgFact) : Except ProjectorImpl.Throwable PgFact :=
  match FactTransformers.prepareTransformation (FactTransformers.createFor specs) f with
  | none => .ok f
  | some request => server.transform request

/-- What the pipeline makes of a selected row. -/
def process (matcher : PostQueryMatcher) (row : FactRow) : Except ProjectorImpl.Throwable (Option PgFact) :=
  match PgFact.from_ reader row with
  | none => .error (.runtime "aggIds cannot be read")
  | some f =>
    if (matcher.canBeSkipped || matcher.test f) && !server.isBlocked f.id then (server.turned specs f).map some
    else .ok none

/-- Row by row, until one fails. -/
def processAll (matcher : PostQueryMatcher) : List FactRow → Except ProjectorImpl.Throwable (List PgFact)
  | [] => .ok []
  | row :: rest =>
    match server.process reader specs matcher row with
    | .error e => .error e
    | .ok delivered => (processAll matcher rest).map (delivered.toList ++ ·)

/-- What a catchup delivers of a log. -/
def catchup (startingAfter : Option UUID) (log : List FactRow) : Except ProjectorImpl.Throwable (List PgFact) :=
  match PgQueryBuilder.selected server.path specs (PgFactStream.retrieve log startingAfter),
    PostQueryMatcher.of_ server.ef specs with
  | some select, some matcher => server.processAll reader specs matcher (log.filter select)
  | _, _ => .error (.runtime "subscription failed")

end FactServer

namespace AggregateUtil

def aggregateId {σ : Type} (a : Aggregate σ) (idToSet : UUID) :
    Except ProjectorImpl.Throwable (Aggregate σ) :=
  if a.aggregateId.isSome then
    .error (.runtime "aggregateId is already set and not supposed to change.")
  else .ok { a with aggregateId := some idToSet }

end AggregateUtil

namespace AggregateClass
variable {reader : UuidReader} {σ : Type} (c : AggregateClass reader σ)

/-- The handler that a fact is given to. -/
def callHandlerFor (f : PgFact) : Except InvalidHandlerDefinition Dispatcher :=
  let coords : FactSpecCoordinates := ⟨f.ns, f.type, f.version⟩
  match c.dispatchInfo.get coords with
  | some dispatch => .ok dispatch
  | none =>
    match c.dispatchInfo.get { coords with version := 0 } with
    | some dispatch => .ok dispatch
    | none => .error ⟨"Unexpected Fact coordinates: '" ++ coords.toString ++ "'"⟩

/-- Fact by fact. -/
def apply (state : σ) : List PgFact → Except ProjectorImpl.Throwable σ
  | [] => .ok state
  | f :: rest =>
    match c.callHandlerFor f with
    | .error e => .error (.invalidHandlerDefinition e)
    | .ok dispatch =>
      match c.invoke dispatch f state with
      | .error e => .error e
      | .ok state => apply state rest

/-- The specifications of an instance. An identifier that is not set cannot be added. -/
def createFactSpecs (a : Aggregate σ) : Except ProjectorImpl.Throwable (List FactSpec) :=
  match a.aggregateId, c.dispatchInfo.values with
  | none, _ :: _ => .error (.runtime "aggId is marked non-null but is null")
  | id, _ =>
    match c.postprocess (Dispatchers.createFactSpecs c.dispatchInfo id) with
    | none | some [] => .error (.invalidHandlerDefinition ⟨"No FactSpecs discovered. " ++
        "Either add handler methods or implement postprocess(List<FactSpec)"⟩)
    | some ret => .ok ret

end AggregateClass

namespace Factus
variable {reader : UuidReader} {σ : Type} (factus : Factus σ) (c : AggregateClass reader σ)

def instantiate : Aggregate σ := c.newInstance

def initial (aggregateId : UUID) : Except ProjectorImpl.Throwable (Aggregate σ) :=
  AggregateUtil.aggregateId (instantiate c) aggregateId

/-- An instance is brought up to date. The identifier is that of the last fact applied. -/
def catchupProjection (projection : Aggregate σ) (stateOrNull : Option UUID) :
    Except ProjectorImpl.Throwable (Aggregate σ × Option UUID) := do
  let factSpecs ← c.createFactSpecs projection
  let facts ← factus.catchup reader factSpecs stateOrNull factus.log
  let state ← c.apply projection.state facts
  return ({ projection with state := state }, facts.getLast?.map fun f => f.id)

/-- If no fact has ever been applied, there is no aggregate. -/
def find (aggregateId : UUID) : Except ProjectorImpl.Throwable (Option (Aggregate σ)) :=
  if factus.closed then .error (.runtime "Already closed.")
  else do
    let new ← initial c aggregateId
    let (projectionInstance, lastFactIdApplied) :=
      match factus.snapshot aggregateId with
      | some snapshot => (⟨some aggregateId, snapshot.state⟩, some snapshot.lastFactIdApplied)
      | none => (new, none)
    let (aggregate, state) ← factus.catchupProjection c projectionInstance lastFactIdApplied
    return if state.isNone && lastFactIdApplied.isNone then none else some aggregate

/-- The instance that is locked, and what the lock is on. -/
structure Lock (σ : Type) where
  projection : Aggregate σ
  specs : List FactSpec

def withLockOn (id : UUID) : Except ProjectorImpl.Throwable (Lock σ) := do
  let found ← factus.find c id
  let fresh := found.getD (instantiate c)
  let specs ← c.createFactSpecs fresh
  return ⟨fresh, specs⟩

end Factus

/-! ### What a fetch receives -/

namespace AggregateClass
section Receives
variable {reader : UuidReader} {σ : Type} (c : AggregateClass reader σ) (server : FactServer) (id : UUID) (row : FactRow)

/-- What is asked for when the aggregate of an identifier is fetched. -/
def asked : List FactSpec :=
  (c.postprocess (Dispatchers.createFactSpecs c.dispatchInfo (some id))).getD []

/-- The query selects the row, wherever it begins. -/
def Selects : Prop :=
  ∃ spec ∈ c.asked id, ∀ k ∈ PgQueryBuilder.criteria spec, k.holds server.path row.fact.header.json = true

/-- The row is delivered as a fact. -/
def Delivers (g : PgFact) : Prop :=
  c.Selects server id row ∧ ∃ matcher, PostQueryMatcher.of_ server.ef (c.asked id) = some matcher ∧
    server.process reader (c.asked id) matcher row = .ok (some g)

/-- It is, and there is a handler that it is given to. -/
def Receives : Prop := ∃ g, c.Delivers server id row g ∧ ∃ dispatch, c.callHandlerFor g = .ok dispatch

/-- Nothing keeps the row from a handler behind the filter: it is not on the blacklist, and in
a version that was requested, which it can be brought to, some handler takes it. -/
def Handled (f : PgFact) : Prop :=
  server.isBlocked f.id = false ∧ ∃ g, server.turned (c.asked id) f = .ok g ∧
    ∃ dispatch, c.callHandlerFor g = .ok dispatch

/-- If a specification that accepts a row selects it, then the filter lets it through and it is
handled, and so is no other row that is selected. -/
structure Covered : Prop where
  received : Wanted server.path server.ef (c.asked id) row → ∃ f matcher, PgFact.from_ reader row = some f ∧
    PostQueryMatcher.of_ server.ef (c.asked id) = some matcher ∧ Passes matcher f ∧ c.Handled server id f
  only : ∀ f matcher, PgFact.from_ reader row = some f → PostQueryMatcher.of_ server.ef (c.asked id) = some matcher →
    c.Selects server id row → Passes matcher f → c.Handled server id f → Wanted server.path server.ef (c.asked id) row

end Receives

section Delivered
variable {server : FactServer} {reader : UuidReader} {specs : List FactSpec} {matcher : PostQueryMatcher}
  {row : FactRow} {rows : List FactRow} {g : PgFact} {facts : List PgFact}

theorem process_eq_some : server.process reader specs matcher row = .ok (some g) ↔
    ∃ f, PgFact.from_ reader row = some f ∧ Passes matcher f ∧ server.isBlocked f.id = false ∧
      server.turned specs f = .ok g := by
  unfold FactServer.process
  cases PgFact.from_ reader row with
  | none => simp
  | some f =>
    simp only [Option.some.injEq, exists_eq_left', passes_iff_test, ← Bool.or_eq_true]
    by_cases hlets : ((matcher.canBeSkipped || matcher.test f) && !server.isBlocked f.id) = true
    · rw [if_pos hlets]
      rw [Bool.and_eq_true, Bool.not_eq_true'] at hlets
      rw [and_iff_right hlets.1, and_iff_right hlets.2]
      cases server.turned specs f <;> simp [Except.map]
    · rw [if_neg hlets]
      rw [Bool.and_eq_true, Bool.not_eq_true'] at hlets
      exact iff_of_false nofun fun ⟨hpasses, hfree, _⟩ => hlets ⟨hpasses, hfree⟩

/-- Something is delivered if some row is. -/
theorem processAll_ne_nil (h : server.processAll reader specs matcher rows = .ok facts) :
    facts ≠ [] ↔ ∃ row ∈ rows, ∃ g, server.process reader specs matcher row = .ok (some g) := by
  induction rows generalizing facts with
  | nil =>
    cases h
    simp
  | cons row rest ih =>
    rw [FactServer.processAll] at h
    cases hrow : server.process reader specs matcher row with
    | error e =>
      rw [hrow] at h
      cases h
    | ok delivered =>
      rw [hrow] at h
      cases hrest : server.processAll reader specs matcher rest with
      | error e =>
        rw [hrest] at h
        cases h
      | ok others =>
        rw [hrest] at h
        obtain rfl : delivered.toList ++ others = facts := Except.ok.inj h
        simp only [List.mem_cons, exists_eq_or_imp, hrow, Except.ok.injEq, ← ih hrest]
        cases delivered <;> simp

end Delivered

variable {reader : UuidReader} {σ : Type} {c : AggregateClass reader σ} {server : FactServer} {id : UUID}
  {a : Aggregate σ} {row : FactRow}

theorem receives_iff : c.Receives server id row ↔ c.Selects server id row ∧ ∃ f matcher,
    PgFact.from_ reader row = some f ∧ PostQueryMatcher.of_ server.ef (c.asked id) = some matcher ∧
      Passes matcher f ∧ c.Handled server id f := by
  constructor
  · rintro ⟨g, ⟨hselects, matcher, hmatcher, hprocess⟩, hdispatch⟩
    obtain ⟨f, hf, hpasses, hfree, hturned⟩ := process_eq_some.mp hprocess
    exact ⟨hselects, f, matcher, hf, hmatcher, hpasses, hfree, g, hturned, hdispatch⟩
  · rintro ⟨hselects, f, matcher, hf, hmatcher, hpasses, hfree, g, hturned, hdispatch⟩
    exact ⟨g, ⟨hselects, matcher, hmatcher, process_eq_some.mpr ⟨f, hf, hpasses, hfree, hturned⟩⟩, hdispatch⟩

/-- What the specifications match is what is received, exactly if the row is covered. -/
theorem wanted_iff_receives :
    (Wanted server.path server.ef (c.asked id) row ↔ c.Receives server id row) ↔ c.Covered server id row := by
  have hselects : Wanted server.path server.ef (c.asked id) row → c.Selects server id row :=
    fun ⟨spec, hspec, hholds, _⟩ => ⟨spec, hspec, hholds⟩
  rw [receives_iff]
  constructor
  · refine fun h => ⟨fun hwanted => (h.mp hwanted).2, fun f matcher hf hmatcher hsel hpasses hhandled => ?_⟩
    exact h.mpr ⟨hsel, f, matcher, hf, hmatcher, hpasses, hhandled⟩
  · refine fun h => ⟨fun hwanted => ⟨hselects hwanted, h.received hwanted⟩, ?_⟩
    exact fun ⟨hsel, f, matcher, hf, hmatcher, hpasses, hhandled⟩ => h.only f matcher hf hmatcher hsel hpasses hhandled

theorem handlers_given : c.dispatchInfo.values ≠ [] := by
  intro hnil
  have h := c.discovered
  unfold Dispatchers.discoverDispatchInfo at h
  split at h
  · cases h
  · split at h
    · cases h
    · rename_i hgiven
      cases h
      exact hgiven (List.isEmpty_iff.mpr hnil)

theorem typed {d : Dispatcher} (hd : d ∈ c.dispatchInfo.values) : ∃ type, d.spec.type = some type := by
  obtain ⟨_, hspec⟩ := (Dispatchers.discovered c.discovered).1 d hd
  obtain ⟨handler, _, heq⟩ := ReflectionTools.discoverFactSpec_ok hspec
  obtain ⟨aggIds, _, hdiscover⟩ := handler.discoverFactSpec_eq
  exact ⟨handler.type, by rw [heq, hdiscover]⟩

theorem createFactSpecs_of_id (hid : a.aggregateId = some id) (hasked : c.asked id ≠ []) :
    c.createFactSpecs a = .ok (c.asked id) := by
  unfold asked at hasked ⊢
  unfold createFactSpecs
  rw [hid]
  cases hpost : c.postprocess (Dispatchers.createFactSpecs c.dispatchInfo (some id)) with
  | none => simp [hpost] at hasked
  | some ret =>
    cases ret with
    | nil => simp [hpost] at hasked
    | cons spec rest => simp [hpost]

theorem createFactSpecs_ok {specs : List FactSpec} (h : c.createFactSpecs a = .ok specs) :
    ∃ id, a.aggregateId = some id ∧ c.asked id ≠ [] ∧ specs = c.asked id := by
  unfold createFactSpecs at h
  cases hid : a.aggregateId with
  | none =>
    obtain ⟨d, rest, hvalues⟩ := List.exists_cons_of_ne_nil (handlers_given (c := c))
    simp [hid, hvalues] at h
  | some id =>
    rw [hid] at h
    refine ⟨id, rfl, ?_⟩
    unfold asked
    cases hpost : c.postprocess (Dispatchers.createFactSpecs c.dispatchInfo (some id)) with
    | none => simp [hpost] at h
    | some ret =>
      cases ret with
      | nil => simp [hpost] at h
      | cons spec rest =>
        simp only [hpost, Except.ok.injEq] at h
        simp [← h]

/-- A fact of the namespace and the type of some handler, in its version or for any, is given
to one. -/
theorem handler_of_named {g : PgFact} {d : Dispatcher} (hd : d ∈ c.dispatchInfo.values)
    (hns : d.spec.ns = g.ns) (htype : d.spec.type = g.type)
    (hversion : d.spec.version = 0 ∨ d.spec.version = g.version) :
    ∃ dispatch, c.callHandlerFor g = .ok dispatch := by
  have hget : ∀ key, d.spec.coordinates = key → ∃ dispatch, c.dispatchInfo.get key = some dispatch := by
    intro key hkey
    refine Option.isSome_iff_exists.mp (List.find?_isSome.mpr ⟨d, hd, ?_⟩)
    exact beq_iff_eq.mpr hkey
  unfold callHandlerFor
  cases hexact : c.dispatchInfo.get ⟨g.ns, g.type, g.version⟩ with
  | some dispatch => exact ⟨dispatch, by simp [hexact]⟩
  | none =>
    obtain ⟨dispatch, hany⟩ : ∃ dispatch, c.dispatchInfo.get ⟨g.ns, g.type, 0⟩ = some dispatch := by
      rcases hversion with hzero | hsame
      · exact hget _ (by rw [FactSpec.coordinates, hns, htype, hzero])
      · obtain ⟨dispatch, hsome⟩ := hget _ (by rw [FactSpec.coordinates, hns, htype, hsame])
        rw [hexact] at hsome
        cases hsome
    exact ⟨dispatch, by simp [hexact, hany]⟩

theorem mem_asked (hdefault : c.postprocess = some) {spec : FactSpec} :
    spec ∈ c.asked id ↔ ∃ d ∈ c.dispatchInfo.values, d.spec.copy.addAggId id = spec := by
  unfold asked
  rw [hdefault]
  simp [Dispatchers.createFactSpecs]

/-- A class that does no postprocessing and has no scripts, and whose handlers name their
namespaces in strings that can be spliced: what its specifications match is received, if it
can be read, is not on the blacklist, and comes in one of the versions requested. -/
theorem covered_of_default (hdefault : c.postprocess = some)
    (hplain : ∀ d ∈ c.dispatchInfo.values, d.spec.filterScript = none ∧ d.spec.ns ≠ "*" ∧
      (d.spec.copy.addAggId id).Spliceable)
    (hread : ∃ f, PgFact.from_ reader row = some f ∧ server.isBlocked f.id = false ∧
      ∀ request, request.toTransform = f → ∃ version ∈ request.targetVersions, ∃ payload,
        server.transform request = .ok (f.transformed version payload)) :
    c.Covered server id row := by
  obtain ⟨f, hf, hfree, htransform⟩ := hread
  have hscripts : ∀ spec ∈ c.asked id, spec.filterScript = none := by
    intro spec hspec
    obtain ⟨d, hd, rfl⟩ := (mem_asked hdefault).mp hspec
    exact (hplain d hd).1
  have hmatcher : PostQueryMatcher.of_ server.ef (c.asked id) = some ⟨true, []⟩ := by
    rw [PostQueryMatcher.of_, if_pos (by simpa using hscripts)]
  constructor
  · rintro ⟨spec, hspec, hholds, _⟩
    refine ⟨f, _, hf, hmatcher, passes_iff_test.mpr (.inl rfl), hfree, ?_⟩
    obtain ⟨d, hd, rfl⟩ := (mem_asked hdefault).mp hspec
    obtain ⟨_, hnamed, hspliceable⟩ := hplain d hd
    have hmatches := ((PgQueryBuilder.criteria_spliceable hspliceable).2 row.fact.header).mp hholds
    obtain ⟨type, htype⟩ := typed hd
    -- the row has the namespace and the type of the handler
    have hnames : (d.spec.copy.addAggId id).Names f := by
      obtain ⟨aggIds, _, rfl⟩ := Option.map_eq_some_iff.mp hf
      refine ⟨(Header.ns_of_get? (hmatches.ns.resolve_left hnamed)).symm, ?_, ?_⟩
      · exact Option.isSome_iff_exists.mpr ⟨type, htype⟩
      · show d.spec.type = textColumn row.fact.header "type"
        rw [htype, textColumn, hmatches.type type htype]
        rfl
    have hhandler : ∀ g : PgFact, g.ns = f.ns → g.type = f.type →
        (∃ spec ∈ c.asked id, spec.Names f ∧ (spec.version = 0 ∨ spec.version = g.version)) →
        ∃ dispatch, c.callHandlerFor g = .ok dispatch := by
      rintro g hns htype ⟨spec, hspec, hnames, hversion⟩
      obtain ⟨d, hd, rfl⟩ := (mem_asked hdefault).mp hspec
      exact handler_of_named hd (hnames.1.trans hns.symm) (hnames.2.2.trans htype.symm) hversion
    unfold FactServer.turned
    cases hprepare : FactTransformers.prepareTransformation (FactTransformers.createFor (c.asked id)) f with
    | none =>
      refine ⟨f, rfl, hhandler f rfl rfl ?_⟩
      rcases FactTransformers.prepareTransformation_none hprepare with hno | haccepts | hunnamed
      · rw [← hnames.2.2] at hno
        cases htype.symm.trans hno
      · obtain ⟨spec, hspec, hnames, hnone | hversion⟩ := haccepts
        · have htyped := hnames.2.1
          rw [hnone] at htyped
          cases htyped
        · exact ⟨spec, hspec, hnames, hversion⟩
      · exact absurd ⟨_, hspec, hnames⟩ hunnamed
    | some request =>
      obtain ⟨hfact, _, _, htargets⟩ := FactTransformers.prepareTransformation_some hprepare
      obtain ⟨version, hversion, payload, hturned⟩ := htransform request hfact
      obtain ⟨spec, hspec, hnames, rfl⟩ := (htargets version).mp hversion
      exact ⟨_, hturned, hhandler _ rfl rfl ⟨spec, hspec, hnames, .inr rfl⟩⟩
  · rintro _ _ _ _ ⟨spec, hspec, hholds⟩ _ _
    refine ⟨spec, hspec, hholds, ?_⟩
    rw [FactSpec.accepts, hscripts spec hspec]

end AggregateClass

/-! ### What can be locked -/

namespace Factus
variable {reader : UuidReader} {σ : Type} {factus : Factus σ} {c : AggregateClass reader σ} {id : UUID}

/-- The instance that a find goes on from, and the last fact that was applied to it. -/
def latest (factus : Factus σ) (c : AggregateClass reader σ) (id : UUID) : σ × Option UUID :=
  match factus.snapshot id with
  | some snapshot => (snapshot.state, some snapshot.lastFactIdApplied)
  | none => (c.newInstance.state, none)

/-- What is then applied. -/
def missing (factus : Factus σ) (c : AggregateClass reader σ) (id : UUID) :
    Except ProjectorImpl.Throwable (List PgFact) :=
  factus.catchup reader (c.asked id) (factus.latest c id).2 factus.log

/-- The aggregate exists: it has a snapshot, or a fact is delivered for it. -/
def Exists_ (factus : Factus σ) (c : AggregateClass reader σ) (id : UUID) : Prop :=
  (factus.snapshot id).isSome = true ∨
    ∃ row ∈ factus.log, 0 < row.ser ∧ ∃ g, c.Delivers factus.toFactServer id row g

/-- It can be brought up to date: whatever is missing can be delivered, and no handler throws. -/
structure Fetchable (factus : Factus σ) (c : AggregateClass reader σ) (id : UUID) : Prop where
  open_ : factus.closed = false
  unset : c.newInstance.aggregateId = none
  asked : c.asked id ≠ []
  applied : ∃ facts state, factus.missing c id = .ok facts ∧ c.apply (factus.latest c id).1 facts = .ok state

theorem exists_iff_missing {facts : List PgFact} (hmissing : factus.missing c id = .ok facts) :
    factus.Exists_ c id ↔ (factus.latest c id).2.isSome = true ∨ facts ≠ [] := by
  unfold missing latest FactServer.catchup at hmissing
  unfold Exists_ latest
  cases hsnapshot : factus.snapshot id with
  | some snapshot => simp
  | none =>
    simp only [hsnapshot] at hmissing
    split at hmissing
    · rename_i select matcher hselect hmatcher
      simp only [Option.isSome_none, Bool.false_eq_true, false_or]
      rw [AggregateClass.processAll_ne_nil hmissing]
      constructor
      · rintro ⟨row, hrow, hser, g, hselects, matcher', hmatcher', hprocess⟩
        obtain rfl := Option.some.inj (hmatcher.symm.trans hmatcher')
        refine ⟨row, List.mem_filter.mpr ⟨hrow, ?_⟩, g, hprocess⟩
        exact (PgQueryBuilder.selected_row hselect row).mpr ⟨by exact_mod_cast hser, hselects⟩
      · rintro ⟨row, hrow, g, hprocess⟩
        obtain ⟨hrow, hselected⟩ := List.mem_filter.mp hrow
        obtain ⟨hser, hselects⟩ := (PgQueryBuilder.selected_row hselect row).mp hselected
        exact ⟨row, hrow, by exact_mod_cast hser, g, hselects, matcher, hmatcher, hprocess⟩
    · cases hmissing

theorem catchupProjection_ok {a b : Aggregate σ} {stateOrNull last : Option UUID} :
    factus.catchupProjection c a stateOrNull = .ok (b, last) ↔
      ∃ specs facts, c.createFactSpecs a = .ok specs ∧
        factus.catchup reader specs stateOrNull factus.log = .ok facts ∧
        c.apply a.state facts = .ok b.state ∧ b.aggregateId = a.aggregateId ∧
        last = facts.getLast?.map fun f => f.id := by
  unfold catchupProjection
  refine ⟨fun h => ?_, fun ⟨specs, facts, hspecs, hfacts, happly, hid, hlast⟩ => ?_⟩
  · obtain ⟨specs, hspecs, h⟩ := ReflectionTools.bind_ok h
    obtain ⟨facts, hfacts, h⟩ := ReflectionTools.bind_ok h
    obtain ⟨state, happly, h⟩ := ReflectionTools.bind_ok h
    cases h
    exact ⟨specs, facts, hspecs, hfacts, happly, rfl, rfl⟩
  · obtain ⟨id, state⟩ := b
    obtain rfl : id = a.aggregateId := hid
    rw [hspecs]
    show (factus.catchup reader specs stateOrNull factus.log >>= _) = _
    rw [hfacts]
    show (c.apply _ _ >>= _) = _
    rw [happly, hlast]
    rfl

theorem initial_ok {new : Aggregate σ} : initial c id = .ok new ↔
    c.newInstance.aggregateId = none ∧ new = ⟨some id, c.newInstance.state⟩ := by
  unfold initial AggregateUtil.aggregateId instantiate
  cases c.newInstance.aggregateId with
  | none => simp [eq_comm]
  | some _ => simp

/-- A find returns exactly if the aggregate can be brought up to date, and with nothing
exactly if it does not exist. -/
theorem find_ok {found : Option (Aggregate σ)} : factus.find c id = .ok found ↔
    factus.Fetchable c id ∧ ∃ (a : Aggregate σ) (facts : List PgFact), a.aggregateId = some id ∧
      factus.missing c id = .ok facts ∧ c.apply (factus.latest c id).1 facts = .ok a.state ∧
      found = if (factus.latest c id).2.isSome = true ∨ facts ≠ [] then some a else none := by
  have hlatest : (match factus.snapshot id with
      | some snapshot => ((⟨some id, snapshot.state⟩ : Aggregate σ), some snapshot.lastFactIdApplied)
      | none => (⟨some id, c.newInstance.state⟩, none)) =
      (⟨some id, (factus.latest c id).1⟩, (factus.latest c id).2) := by
    unfold latest
    cases factus.snapshot id <;> rfl
  have hresult : ∀ (a : Aggregate σ) (facts : List PgFact),
      (if (facts.getLast?.map fun f => f.id).isNone && (factus.latest c id).2.isNone then none else some a) =
      if (factus.latest c id).2.isSome = true ∨ facts ≠ [] then some a else none := by
    intro a facts
    cases (factus.latest c id).2 <;> cases facts <;> simp
  unfold find
  refine ⟨fun h => ?_, fun ⟨hf, a, facts, hid, hmissing, happly, hfound⟩ => ?_⟩
  · split at h
    · cases h
    · rename_i hopen
      obtain ⟨new, hnew, h⟩ := ReflectionTools.bind_ok h
      obtain ⟨hunset, rfl⟩ := initial_ok.mp hnew
      simp only [hlatest] at h
      obtain ⟨⟨a, state⟩, hcatchup, h⟩ := ReflectionTools.bind_ok h
      obtain ⟨specs, facts, hspecs, hmissing, happly, hid, rfl⟩ := catchupProjection_ok.mp hcatchup
      obtain ⟨id', hid', hasked, rfl⟩ := AggregateClass.createFactSpecs_ok hspecs
      cases Option.some.inj hid'
      cases h
      exact ⟨⟨by simpa using hopen, hunset, hasked, facts, a.state, hmissing, happly⟩, a, facts, hid, hmissing,
        happly, hresult a facts⟩
  · have hcatchup : factus.catchupProjection c ⟨some id, (factus.latest c id).1⟩ (factus.latest c id).2 =
        .ok (a, facts.getLast?.map fun f => f.id) :=
      catchupProjection_ok.mpr
        ⟨c.asked id, facts, AggregateClass.createFactSpecs_of_id rfl hf.asked, hmissing, happly, hid, rfl⟩
    rw [if_neg (by simp [hf.open_]), initial_ok.mpr ⟨hf.unset, rfl⟩]
    simp only [bind, Except.bind, hlatest, hcatchup, pure, Except.pure]
    rw [hfound, ← hresult a facts]

theorem users_given : blank "users" = false := by decide

/-- Handles the creation of a user. -/
def onUserCreated : Method where
  toString := "void User.apply(Fact)"
  declaringClass := "User"
  parameterTypes := [.other "org.factcast.core.Fact"]
  handlerFor := some ⟨"users", "UserCreated", 0⟩

/-- Users, who count what happened to them. -/
def userClass : AggregateClass .canonical Nat where
  type := ⟨"User", [⟨"User", true, {}⟩], []⟩
  methods := [onUserCreated]
  dispatchInfo := Dispatchers.empty.put
    ⟨onUserCreated, { ns := "users", ns_given := users_given, type := some "UserCreated" }⟩ rfl
  discovered := rfl
  newInstance := ⟨none, 0⟩
  invoke := fun _ _ n => .ok (n + 1)

/-- Nothing is blocked, and nothing has to be transformed. -/
def noFacts : Factus Nat where
  path := .quoted
  ef _ _ _ := true
  isBlocked _ := false
  transform request := .ok request.toTransform
  closed := false
  log := []
  snapshot _ := none

def userCreated : FactRow where
  ser := 1
  fact :=
    { id := ⟨7⟩
      header := ⟨[("ns", .str "users"), ("type", .str "UserCreated"), ("aggIds", .arr [.str (⟨1⟩ : UUID).toString])],
        by decide, fun _ h => nomatch h⟩
      payload := .obj [] }

def created : PgFact := ⟨⟨7⟩, "users", some "UserCreated", 0, [⟨1⟩], userCreated.fact.header, .obj []⟩

end Factus
end FactCast
