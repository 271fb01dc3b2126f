import FactCast.Factus.Projector

/-! Which handler a fact gets to, and whether its filters admit it.

Filters are for the server. What is selected for one handler may be dispatched to
another one of the same namespace and type: the query does not ask for versions,
and the version the fact is delivered in decides. It is the stored one if some
handler is declared for it, or one with version zero; else it is any for which
there is a handler, depending on which transformations there are. Besides, the
copies of the specifications lose the keys that `meta` must or must not have, and
a handler for the namespace `*` is found by no fact of another one.

`Covered` collects the handlers that can get the fact; all is well for every
registry exactly if there is one and every one of them admits the fact
(`dispatched_admitted_iff`). It is so wherever the handlers of one namespace and
type declare the same filters, none of them on keys (`covered_of_uniform`). -/
namespace FactCast

/-- The handler is declared for the fact's namespace and type. -/
def Handler.For (h : Handler) (f : PgFact) : Prop := h.ns = f.ns ∧ f.type = some h.type

/-- The handler is the one for the stored version, or in the absence of that the
one for version zero, or in the absence of both any. -/
def MayTake (handlers : List Handler) (f : PgFact) (h : Handler) : Prop :=
  h.version = f.version ∨ (∀ other ∈ handlers, other.For f → other.version ≠ f.version) ∧
    (h.version = 0 ∨ ∀ other ∈ handlers, other.For f → other.version ≠ 0)

/-- Some handler is declared for the fact's namespace and type, and every such
handler that may be given the fact admits it. -/
structure Covered (handlers : List Handler) (f : PgFact) : Prop where
  declared : ∃ h ∈ handlers, h.For f
  admitted : ∀ h ∈ handlers, h.For f → MayTake handlers f h → h.Admits f.jsonHeader

/-! ### Handlers and their specifications -/

section Specs
variable {info : DispatchInfo} {aggregateId : Option UUID} {f : PgFact} {h : Handler} {version : Int}

/-- The specification is the one a handler asks the server with. -/
structure Handler.Asks (h : Handler) (spec : FactSpec) : Prop where
  ns : spec.ns = h.ns
  type : spec.type = some h.type
  version : spec.version = h.version
  «meta» : spec.meta = LinkedMap.empty.putAll (LinkedMap.empty.putAll h.filterByMeta).entries
  metaKeyExists : spec.metaKeyExists.entries = []
  aggIds : ∀ id ∈ h.filterByAggId, id ∈ spec.aggIds

theorem FactSpec.mem_addAggId {spec : FactSpec} {id other : UUID} :
    other ∈ (spec.addAggId id).aggIds ↔ other ∈ spec.aggIds ∨ other = id := by
  unfold FactSpec.addAggId
  by_cases hin : id ∈ spec.aggIds
  · simp only [hin, if_true]
    refine (or_iff_left_of_imp fun heq => ?_).symm
    rw [heq]
    exact hin
  · simp [hin]

theorem FactSpec.addAggId_foldl (ids : List UUID) (spec : FactSpec) :
    ∃ aggIds, ids.foldl FactSpec.addAggId spec = { spec with aggIds := aggIds } ∧
      ∀ id, id ∈ aggIds ↔ id ∈ ids ∨ id ∈ spec.aggIds := by
  induction ids generalizing spec with
  | nil => exact ⟨spec.aggIds, rfl, fun id => (or_iff_right List.not_mem_nil).symm⟩
  | cons id rest ih =>
    obtain ⟨aggIds, hrest, hmem⟩ := ih (spec.addAggId id)
    refine ⟨aggIds, hrest, fun other => ?_⟩
    rw [hmem, FactSpec.mem_addAggId, List.mem_cons, or_comm (a := other = id), or_assoc,
      or_comm (a := other = id)]

/-- The specification of a handler, whatever the order of its identifiers. -/
theorem Handler.discoverFactSpec_eq (h : Handler) : ∃ aggIds, (∀ id, id ∈ aggIds ↔ id ∈ h.filterByAggId) ∧
    h.discoverFactSpec =
      { ns := h.ns, ns_given := h.ns_given, type := some h.type, version := h.version, aggIds := aggIds
        «meta» := LinkedMap.empty.putAll h.filterByMeta
        metaKeyExists := (LinkedMap.empty.putAll (h.filterByMetaExists.map fun k => (k, true))).putAll
          (h.filterByMetaDoesNotExist.map fun k => (k, false)) } := by
  obtain ⟨aggIds, hspec, hmem⟩ := FactSpec.addAggId_foldl h.filterByAggId
    { ns := h.ns, ns_given := h.ns_given, type := some h.type, version := h.version
      «meta» := LinkedMap.empty.putAll h.filterByMeta
      metaKeyExists := (LinkedMap.empty.putAll (h.filterByMetaExists.map fun k => (k, true))).putAll
        (h.filterByMetaDoesNotExist.map fun k => (k, false)) }
  exact ⟨aggIds, fun id => (hmem id).trans (or_iff_left List.not_mem_nil), hspec⟩

theorem Handler.asks_copy : h.Asks h.discoverFactSpec.copy := by
  obtain ⟨aggIds, hmem, hspec⟩ := h.discoverFactSpec_eq
  rw [hspec]
  exact ⟨rfl, rfl, rfl, rfl, rfl, fun id hid => (hmem id).mpr hid⟩

theorem Handler.Asks.addAggId {spec : FactSpec} (ha : h.Asks spec) (id : UUID) :
    h.Asks (spec.addAggId id) :=
  ⟨ha.ns, ha.type, ha.version, ha.meta, ha.metaKeyExists,
    fun other hother => FactSpec.mem_addAggId.mpr (.inl (ha.aggIds other hother))⟩

theorem mem_createFactSpecs {spec : FactSpec}
    (hspec : spec ∈ ProjectorImpl.createFactSpecs info aggregateId) :
    ∃ h ∈ info.handlers, h.Asks spec := by
  unfold ProjectorImpl.createFactSpecs at hspec
  dsimp only at hspec
  split at hspec
  · rename_i id
    obtain ⟨spec', hspec', rfl⟩ := List.mem_map.mp hspec
    obtain ⟨h, hh, rfl⟩ := List.mem_map.mp hspec'
    exact ⟨h, hh, h.asks_copy.addAggId id⟩
  · obtain ⟨h, hh, rfl⟩ := List.mem_map.mp hspec
    exact ⟨h, hh, h.asks_copy⟩

theorem exists_createFactSpecs (hh : h ∈ info.handlers) :
    ∃ spec ∈ ProjectorImpl.createFactSpecs info aggregateId, h.Asks spec := by
  have hmem : h.discoverFactSpec.copy ∈ info.handlers.map fun h => h.discoverFactSpec.copy :=
    List.mem_map.mpr ⟨h, hh, rfl⟩
  unfold ProjectorImpl.createFactSpecs
  dsimp only
  split
  · rename_i id
    exact ⟨_, List.mem_map.mpr ⟨_, hmem, rfl⟩, h.asks_copy.addAggId id⟩
  · exact ⟨_, hmem, h.asks_copy⟩

/-- The versions that are named for a fact are those of its handlers. -/
theorem names_iff : (∃ spec ∈ ProjectorImpl.createFactSpecs info aggregateId,
    spec.Names f ∧ spec.version = version) ↔ ∃ h ∈ info.handlers, h.For f ∧ h.version = version := by
  constructor
  · rintro ⟨spec, hspec, ⟨hns, _, htype⟩, rfl⟩
    obtain ⟨h, hh, hasks⟩ := mem_createFactSpecs hspec
    exact ⟨h, hh, ⟨hasks.ns ▸ hns, htype ▸ hasks.type⟩, hasks.version.symm⟩
  · rintro ⟨h, hh, ⟨hns, htype⟩, rfl⟩
    obtain ⟨spec, hspec, hasks⟩ :
        ∃ spec ∈ ProjectorImpl.createFactSpecs info aggregateId, h.Asks spec := exists_createFactSpecs hh
    have htyped : spec.type.isSome = true := by
      rw [hasks.type]
      rfl
    exact ⟨spec, hspec, ⟨hasks.ns.trans hns, htyped, hasks.type.trans htype.symm⟩, hasks.version⟩

theorem exists_names (hh : h ∈ info.handlers) (hfor : h.For f) :
    ∃ spec ∈ ProjectorImpl.createFactSpecs info aggregateId, spec.Names f := by
  obtain ⟨spec, hspec, hnames, _⟩ := names_iff.mpr ⟨h, hh, hfor, rfl⟩
  exact ⟨spec, hspec, hnames⟩

theorem collect_ok {info' : DispatchInfo} {methods : List Handler}
    (h : ProjectorImpl.collect info methods = .ok info') :
    info'.handlers = info.handlers ++ methods := by
  induction methods generalizing info with
  | nil =>
    cases h
    exact (List.append_nil _).symm
  | cons m rest ih =>
    unfold ProjectorImpl.collect at h
    split at h
    · cases h
    · rw [ih h]
      exact List.append_assoc ..

theorem discoverDispatchInfo_ok {className : String} {methods : List Handler}
    (h : ProjectorImpl.discoverDispatchInfo className methods = .ok info) : info.handlers = methods := by
  unfold ProjectorImpl.discoverDispatchInfo at h
  split at h
  · cases h
  · rename_i info' hcollect
    split at h
    · cases h
    · cases h
      exact collect_ok hcollect

/-- Handlers of distinct coordinates are not refused. -/
theorem collect_of_nodup {methods : List Handler}
    (hnodup : ((info.handlers ++ methods).map Handler.coordinates).Nodup) :
    ∃ info', ProjectorImpl.collect info methods = .ok info' := by
  induction methods generalizing info with
  | nil => exact ⟨info, rfl⟩
  | cons m rest ih =>
    have hnew : info.get m.coordinates = none := by
      refine List.find?_eq_none.mpr fun other hother heq => ?_
      rw [List.map_append] at hnodup
      exact (List.nodup_append.mp hnodup).2.2 other.coordinates (List.mem_map_of_mem hother)
        m.coordinates (List.mem_cons_self ..) (beq_iff_eq.mp heq)
    unfold ProjectorImpl.collect
    split
    · rename_i hget
      rw [hnew] at hget
      cases hget
    · refine ih ?_
      show ((info.handlers ++ [m] ++ rest).map Handler.coordinates).Nodup
      rw [List.append_assoc]
      exact hnodup

theorem discoverDispatchInfo_of_nodup {className : String} (hsome : info.handlers ≠ []) :
    ProjectorImpl.discoverDispatchInfo className info.handlers = .ok info := by
  have hnodup : ((DispatchInfo.empty.handlers ++ info.handlers).map Handler.coordinates).Nodup :=
    info.keyed
  obtain ⟨info', hcollect⟩ := collect_of_nodup hnodup
  have hhandlers : info'.handlers = info.handlers := collect_ok hcollect
  have hinfo : info' = info := by
    cases info'
    cases info
    cases hhandlers
    rfl
  have hnonempty : ¬ info.handlers.isEmpty = true := fun hempty => hsome (List.isEmpty_iff.mp hempty)
  unfold ProjectorImpl.discoverDispatchInfo
  rw [hcollect, hinfo]
  exact if_neg hnonempty

/-- What is found under some coordinates has them. -/
theorem get_coordinates {coords : FactSpecCoordinates} (hget : info.get coords = some h) :
    h ∈ info.handlers ∧ h.coordinates = coords := by
  unfold DispatchInfo.get at hget
  exact ⟨List.mem_of_find?_eq_some hget, by simpa using List.find?_some hget⟩

/-- A handler is found under its coordinates, and nothing else is. -/
theorem get_eq_some {coords : FactSpecCoordinates} :
    info.get coords = some h ↔ h ∈ info.handlers ∧ h.coordinates = coords := by
  constructor
  · exact get_coordinates
  · rintro ⟨hh, rfl⟩
    cases hget : info.get h.coordinates with
    | none => exact absurd (beq_iff_eq.mpr rfl) (List.find?_eq_none.mp hget h hh)
    | some other =>
      obtain ⟨hother, hcoords⟩ := get_coordinates hget
      rw [List.inj_on_of_nodup_map info.keyed hother hh hcoords]

theorem get_fact {v : Int} : info.get ⟨f.ns, f.type, v⟩ = some h ↔
    h ∈ info.handlers ∧ h.For f ∧ h.version = v := by
  rw [get_eq_some]
  unfold Handler.coordinates Handler.For
  rw [FactSpecCoordinates.mk.injEq]
  constructor
  · rintro ⟨hh, hns, htype, hversion⟩
    exact ⟨hh, ⟨hns, htype.symm⟩, hversion⟩
  · rintro ⟨hh, ⟨hns, htype⟩, hversion⟩
    exact ⟨hh, hns, htype.symm, hversion⟩

theorem get_fact_none {v : Int} (h : ∀ other ∈ info.handlers, other.For f → other.version ≠ v) :
    info.get ⟨f.ns, f.type, v⟩ = none := by
  cases hget : info.get ⟨f.ns, f.type, v⟩ with
  | none => rfl
  | some other =>
    obtain ⟨hother, hfor, hversion⟩ := get_fact.mp hget
    exact absurd hversion (h other hother hfor)

end Specs

/-! ### A single fact on its way -/

namespace Header
variable {h : Header} {version : Int}

/-- Another version is no matter for a filter. -/
theorem get?_withVersion {name : String} (hname : name ≠ "version") :
    (h.withVersion version).json.get? name = h.json.get? name := by
  show (Jsonb.setMember h.members "version" _).lookup name = h.members.lookup name
  rw [Jsonb.lookup_setMember, if_neg hname]

theorem meta?_withVersion {key : String} : (h.withVersion version).meta? key = h.meta? key := by
  unfold meta?
  rw [get?_withVersion (by decide)]

end Header

/-- Filters look at `meta` and at the aggregate ids, and at nothing else. -/
theorem Handler.Admits.same {h : Handler} {header header' : Header} (ha : h.Admits header)
    (hmeta : ∀ key, header'.meta? key = header.meta? key)
    (haggIds : header'.json.get? "aggIds" = header.json.get? "aggIds") : h.Admits header' where
  filterByMeta := fun e he => (hmeta e.1).trans (ha.filterByMeta e he)
  filterByMetaExists := fun key hkey => hmeta key ▸ ha.filterByMetaExists key hkey
  filterByMetaDoesNotExist := fun key hkey => hmeta key ▸ ha.filterByMetaDoesNotExist key hkey
  filterByAggId := fun id hid => haggIds ▸ ha.filterByAggId id hid

theorem Handler.admits_withVersion {h : Handler} {header : Header} {version : Int} :
    h.Admits (header.withVersion version) ↔ h.Admits header :=
  ⟨fun ha => ha.same (fun _ => Header.meta?_withVersion.symm) (Header.get?_withVersion (by decide)).symm,
    fun ha => ha.same (fun _ => Header.meta?_withVersion) (Header.get?_withVersion (by decide))⟩

namespace BufferedTransformingServerPipeline
variable {p : BufferedTransformingServerPipeline} {f g : PgFact}

theorem run_untransformed (h : p.prepareTransformation f = none) :
    (run p [.fact f, .flush]).parent = [.fact f, .flush] := by
  simp [run, process, h, passOrBuffer, State.pass]

theorem run_transformed {request : TransformationRequest} (h : p.prepareTransformation f = some request)
    (hanswer : p.transform 0 [request] = .ok [g]) :
    (run p [.fact f, .flush]).parent = [.fact g, .flush] := by
  have hwait : ¬ p.maxBufferSize ≤ 1 := by
    have := p.admitted
    omega
  have hflush : [Supplier.signal Signal.flush].filterMap Supplier.request? = [] := rfl
  simp [run, process, h, flushIfNecessary, State.add, hwait, passOrBuffer, Signal.indicatesFlush, doFlush,
    answer, hflush, hanswer, Supplier.request?, State.pass, State.reset, resolve]

end BufferedTransformingServerPipeline

namespace FactTransformerService
variable {f : PgFact}

/-- A service that knows one transformation, which keeps the payload. -/
def between (f : PgFact) (version : Int) : FactTransformerService fun _ => some f where
  registry := fun _ => [⟨f.version, version⟩]
  search := fun _ _ target => if target = version then some [⟨f.version, version⟩] else none
  trans := fun _ payload => some payload
  cache := fun _ => .empty _

theorem pickFinalPath_of_all {paths : List (List Edge)} {path : List Edge} (hne : paths ≠ [])
    (hall : ∀ other ∈ paths, other = path) : pickFinalPath paths = some path := by
  unfold pickFinalPath
  have hshortest : (paths.filter fun l => paths.all fun m => decide (l.length ≤ m.length)) = paths := by
    refine List.filter_eq_self.mpr fun l hl => List.all_eq_true.mpr fun m hm => ?_
    rw [hall l hl, hall m hm]
    exact decide_eq_true (Nat.le_refl _)
  dsimp only
  rw [hshortest]
  cases hpick : paths.argmax versionSum with
  | none => exact absurd (List.argmax_eq_none.mp hpick) hne
  | some other => rw [hall other (List.argmax_mem hpick)]

theorem possiblePaths_between {version : Int} {requested : List Int} (hmem : version ∈ requested)
    (path : List Edge) :
    path ∈ (between f version).possiblePaths [⟨f.version, version⟩] f.version requested ↔
      path = [⟨f.version, version⟩] := by
  unfold possiblePaths
  rw [List.mem_filterMap]
  constructor
  · rintro ⟨target, _, hfound⟩
    have hsearch := (Option.filter_eq_some_iff.mp hfound).1
    unfold between at hsearch
    dsimp only at hsearch
    split at hsearch
    · exact (Option.some.inj hsearch).symm
    · cases hsearch
  · rintro rfl
    refine ⟨version, hmem, Option.filter_eq_some_iff.mpr ⟨if_pos rfl, ?_⟩⟩
    simp [hmem]

/-- It brings the fact to that version if it is asked to. -/
theorem between_transform {version : Int} {requested : List Int} (hmem : version ∈ requested) :
    (between f version).transform 0 [⟨f, requested⟩] = .ok [f.transformed version f.jsonPayload] := by
  have hpaths := possiblePaths_between (f := f) hmem
  have hpick : ∀ key, pickFinalPath ((between f version).possiblePaths ((between f version).registry key)
      f.version requested) = some [⟨f.version, version⟩] := by
    intro key
    apply pickFinalPath_of_all
    · intro hnil
      have hin : [⟨f.version, version⟩] ∈
          (between f version).possiblePaths ((between f version).registry key) f.version requested :=
        (hpaths _).mpr rfl
      rw [hnil] at hin
      cases hin
    · intro other hother
      exact (hpaths _).mp hother
  have hsome : requested.isEmpty = false := by
    cases requested with
    | nil => cases hmem
    | cons _ _ => rfl
  have hchain : ∃ id, (between f version).toChain ⟨f, requested⟩ =
      .ok ⟨id, ⟨f.ns, f.type.getD ""⟩, f.version, version, [⟨f.version, version⟩]⟩ := by
    refine ⟨versions [f.version, version], ?_⟩
    unfold toChain build
    dsimp only
    rw [hsome, hpick]
    rfl
  obtain ⟨id, hchain⟩ := hchain
  have hfound : ∀ keys, (between f version).findAll 0 keys = [] := by
    intro keys
    simp [findAll, between, TransformationCache.empty]
  have hresolve : ∀ chain : TransformationChain, chain.toVersion = version →
      (between f version).resolve [] (⟨f, requested⟩, chain) =
        .ok (f.transformed version f.jsonPayload) := by
    rintro chain rfl
    rfl
  unfold transform transformIn
  simp [hchain, hfound, hresolve, List.mapM_cons, Except.map, pure, Except.pure, bind, Except.bind]

end FactTransformerService
/-! ### Dispatching what is delivered -/

/-- The fact is given to a handler, and that one's filters admit it. -/
def Dispatched (info : DispatchInfo) (g : PgFact) : Prop :=
  ∃ h, ProjectorImpl.callHandlerFor info g = .ok h ∧ h.Admits g.jsonHeader

/-- Whatever the server makes of the fact, among others, for some specifications
is dispatched to a handler that admits it. -/
def AlwaysDispatched (info : DispatchInfo) (specs : List FactSpec) (f : PgFact) : Prop :=
  ∀ (table : UUID → Option PgFact) (service : FactTransformerService table) (maxBufferSize : Nat)
    (admitted : 2 < maxBufferSize) (received : List BufferedTransformingServerPipeline.Signal) (g : PgFact),
    (∀ f', .fact f' ∈ received → table f'.id = some f') → .fact f ∈ received →
    .fact g ∈ (BufferedTransformingServerPipeline.run
      (.create specs service maxBufferSize admitted) received).parent → g.id = f.id → Dispatched info g

section Dispatch
variable {info : DispatchInfo} {aggregateId : Option UUID} {f g : PgFact} {h : Handler}

/-- The handler of the version, or the one of version zero if there is none. -/
theorem callHandlerFor_ok (hh : h ∈ info.handlers) (hfor : h.For g)
    (hversion : h.version = g.version ∨
      (∀ other ∈ info.handlers, other.For g → other.version ≠ g.version) ∧ h.version = 0) :
    ProjectorImpl.callHandlerFor info g = .ok h := by
  unfold ProjectorImpl.callHandlerFor
  dsimp only
  rcases hversion with hown | ⟨hnone, hzero⟩
  · rw [get_fact.mpr ⟨hh, hfor, hown⟩]
  · rw [get_fact_none hnone]
    dsimp only
    rw [get_fact.mpr ⟨hh, hfor, hzero⟩]

/-- There is always a handler among those of the namespace and type. -/
theorem callHandlerFor_for (hcall : ProjectorImpl.callHandlerFor info g = .ok h) :
    h ∈ info.handlers ∧ h.For g := by
  unfold ProjectorImpl.callHandlerFor at hcall
  dsimp only at hcall
  split at hcall
  · rename_i hget
    cases hcall
    obtain ⟨hh, hfor, _⟩ := get_fact.mp hget
    exact ⟨hh, hfor⟩
  · split at hcall
    · rename_i hget
      cases hcall
      obtain ⟨hh, hfor, _⟩ := get_fact.mp hget
      exact ⟨hh, hfor⟩
    · cases hcall

/-- A handler whose version is the fact's, or zero. -/
theorem accepts_iff : (∃ spec ∈ ProjectorImpl.createFactSpecs info aggregateId,
    spec.Names f ∧ spec.AcceptsVersion f.version) ↔
      ∃ h ∈ info.handlers, h.For f ∧ (h.version = f.version ∨ h.version = 0) := by
  constructor
  · rintro ⟨spec, hspec, hnames, hnone | hzero | hversion⟩
    · have htyped := hnames.2.1
      rw [hnone] at htyped
      cases htyped
    · obtain ⟨h, hh, hfor, hv⟩ := names_iff.mp ⟨spec, hspec, hnames, hzero⟩
      exact ⟨h, hh, hfor, .inr hv⟩
    · obtain ⟨h, hh, hfor, hv⟩ := names_iff.mp ⟨spec, hspec, hnames, hversion⟩
      exact ⟨h, hh, hfor, .inl hv⟩
  · rintro ⟨h, hh, hfor, hown | hzero⟩
    · obtain ⟨spec, hspec, hnames, hv⟩ := names_iff.mpr ⟨h, hh, hfor, hown⟩
      exact ⟨spec, hspec, hnames, .inr (.inr hv)⟩
    · obtain ⟨spec, hspec, hnames, hv⟩ := names_iff.mpr ⟨h, hh, hfor, hzero⟩
      exact ⟨spec, hspec, hnames, .inr (.inl hv)⟩

/-- A fact as it was stored gets to a handler that may take it. -/
theorem dispatched_stored (hc : Covered info.handlers f)
    (hprepare : FactTransformers.prepareTransformation (FactTransformers.createFor
      (ProjectorImpl.createFactSpecs info aggregateId)) f = none) : Dispatched info f := by
  obtain ⟨d, hd, hdfor⟩ := hc.declared
  by_cases hown : ∃ h ∈ info.handlers, h.For f ∧ h.version = f.version
  · obtain ⟨h, hh, hfor, hversion⟩ := hown
    exact ⟨h, callHandlerFor_ok hh hfor (.inl hversion), hc.admitted h hh hfor (.inl hversion)⟩
  · -- it was not transformed, so some handler takes any version
    have hnone : ∀ other ∈ info.handlers, other.For f → other.version ≠ f.version :=
      fun other hother hfor hversion => hown ⟨other, hother, hfor, hversion⟩
    have hzero : ∃ h ∈ info.handlers, h.For f ∧ h.version = 0 := by
      rcases FactTransformers.prepareTransformation_none hprepare with htype | haccepts | hunnamed
      · rw [hdfor.2] at htype
        cases htype
      · obtain ⟨h, hh, hfor, hown' | hzero⟩ := accepts_iff.mp haccepts
        · exact absurd hown' (hnone h hh hfor)
        · exact ⟨h, hh, hfor, hzero⟩
      · exact absurd (exists_names hd hdfor) hunnamed
    obtain ⟨h, hh, hfor, hversion⟩ := hzero
    exact ⟨h, callHandlerFor_ok hh hfor (.inr ⟨hnone, hversion⟩),
      hc.admitted h hh hfor (.inr ⟨hnone, .inl hversion⟩)⟩

/-- What a fact turns into gets to a handler that may take the fact. -/
theorem dispatched_of_covered (hc : Covered info.handlers f)
    (hturns : Turns (FactTransformers.createFor (ProjectorImpl.createFactSpecs info aggregateId)) f g) :
    Dispatched info g := by
  rcases hturns with ⟨hprepare, rfl⟩ | ⟨request, version, payload, hprepare, hversion, rfl⟩
  · exact dispatched_stored hc hprepare
  · obtain ⟨_, hnot, _, htargets⟩ := FactTransformers.prepareTransformation_some hprepare
    obtain ⟨h, hh, hfor, hhversion⟩ := names_iff.mp ((htargets version).mp hversion)
    rw [accepts_iff] at hnot
    have hmay : MayTake info.handlers f h := by
      refine .inr ⟨fun other hother hofor hov => hnot ⟨other, hother, hofor, .inl hov⟩,
        .inr fun other hother hofor hov => hnot ⟨other, hother, hofor, .inr hov⟩⟩
    refine ⟨h, callHandlerFor_ok hh hfor (.inl hhversion), ?_⟩
    exact Handler.admits_withVersion.mpr (hc.admitted h hh hfor hmay)

open BufferedTransformingServerPipeline (run_untransformed run_transformed) in
/-- If all is well whatever the registry, it is so for one that offers the one
transformation that leads to a handler. -/
theorem covered_of_dispatched
    (hall : AlwaysDispatched info (ProjectorImpl.createFactSpecs info aggregateId) f) :
    Covered info.handlers f := by
  let specs := ProjectorImpl.createFactSpecs info aggregateId
  have halone : ∀ version g, .fact g ∈ (BufferedTransformingServerPipeline.run
      (.create specs (FactTransformerService.between f version) 3 (by decide)) [.fact f, .flush]).parent →
      g.id = f.id → Dispatched info g := by
    intro version g hg hid
    refine hall _ _ 3 (by decide) [.fact f, .flush] g (fun f' hf' => ?_) (List.mem_cons_self ..) hg hid
    rcases List.mem_cons.mp hf' with heq | hf'
    · cases heq
      rfl
    · cases List.mem_singleton.mp hf'
  cases hprepare : FactTransformers.prepareTransformation (FactTransformers.createFor specs) f with
  | none =>
    have hf : Dispatched info f := by
      refine halone 0 f ?_ rfl
      rw [run_untransformed hprepare]
      exact List.mem_cons_self ..
    obtain ⟨taken, hcall, hadmits⟩ := hf
    obtain ⟨htaken, htfor⟩ := callHandlerFor_for hcall
    refine ⟨⟨taken, htaken, htfor⟩, fun h hh hfor hmay => ?_⟩
    have hh' : ProjectorImpl.callHandlerFor info f = .ok h := by
      rcases hmay with hown | ⟨hnone, hzero | hnozero⟩
      · exact callHandlerFor_ok hh hfor (.inl hown)
      · exact callHandlerFor_ok hh hfor (.inr ⟨hnone, hzero⟩)
      · -- neither its version nor any: it would have been transformed
        rcases FactTransformers.prepareTransformation_none hprepare with htype | haccepts | hunnamed
        · rw [hfor.2] at htype
          cases htype
        · obtain ⟨other, hother, hofor, hov | hov⟩ := accepts_iff.mp haccepts
          · exact absurd hov (hnone other hother hofor)
          · exact absurd hov (hnozero other hother hofor)
        · exact absurd (exists_names hh hfor) hunnamed
    rw [Except.ok.inj (hcall.symm.trans hh')] at hadmits
    exact hadmits
  | some request =>
    obtain ⟨hfact, hnot, hnamed, htargets⟩ := FactTransformers.prepareTransformation_some hprepare
    rw [accepts_iff] at hnot
    obtain ⟨spec, hspec, hnames⟩ := hnamed
    obtain ⟨d, hd, hdfor, _⟩ := names_iff.mp ⟨spec, hspec, hnames, rfl⟩
    refine ⟨⟨d, hd, hdfor⟩, fun h hh hfor hmay => ?_⟩
    have hmem : h.version ∈ request.targetVersions :=
      (htargets h.version).mpr (names_iff.mpr ⟨h, hh, hfor, rfl⟩)
    have hrequest : request = ⟨f, request.targetVersions⟩ := by rw [← hfact]
    have hdispatched : Dispatched info (f.transformed h.version f.jsonPayload) := by
      refine halone h.version _ ?_ rfl
      have hanswer := FactTransformerService.between_transform (f := f) hmem
      rw [← hrequest] at hanswer
      rw [run_transformed hprepare hanswer]
      exact List.mem_cons_self ..
    obtain ⟨taken, hcall, hadmits⟩ := hdispatched
    have hown : ProjectorImpl.callHandlerFor info (f.transformed h.version f.jsonPayload) = .ok h :=
      callHandlerFor_ok hh hfor (.inl rfl)
    rw [Except.ok.inj (hcall.symm.trans hown)] at hadmits
    exact Handler.admits_withVersion.mp hadmits

end Dispatch

/-- Whatever the server delivers of a stored fact, for the specifications of a
projection class and any registry, is dispatched to one handler whose filters all
admit it, exactly if there is a handler for its namespace and type and every one
that may be given the fact admits it. -/
theorem dispatched_admitted_iff (className : String) (methods : List Handler) (info : DispatchInfo)
    (hinfo : ProjectorImpl.discoverDispatchInfo className methods = .ok info)
    (aggregateId : Option UUID) (f : PgFact) :
    AlwaysDispatched info (ProjectorImpl.createFactSpecs info aggregateId) f ↔ Covered methods f := by
  rw [← discoverDispatchInfo_ok hinfo]
  constructor
  · exact covered_of_dispatched
  · intro hc table service maxBufferSize admitted received g hstored hf hg hid
    obtain ⟨f', hf', hid', hturns⟩ := BufferedTransformingServerPipeline.delivered_turns
      (ProjectorImpl.createFactSpecs info aggregateId) service admitted hstored hg
    have hsame : some f = some f' := by rw [← hstored f hf, ← hstored f' hf', ← hid, hid']
    cases Option.some.inj hsame
    exact dispatched_of_covered hc hturns

/-! ### Classes whose handlers agree -/

/-- The handlers of one namespace and type declare the same filters, which are on
entries of `meta` and aggregate ids only, by strings that the query can hold. -/
structure Uniform (handlers : List Handler) : Prop where
  named : ∀ h ∈ handlers, h.ns ≠ "*"
  plain : ∀ h ∈ handlers, Json.Plain h.ns ∧ Json.Plain h.type ∧
    ∀ e ∈ h.filterByMeta, Json.Plain e.1 ∧ Json.Plain e.2
  keyless : ∀ h ∈ handlers, h.filterByMetaExists = [] ∧ h.filterByMetaDoesNotExist = []
  distinct : ∀ h ∈ handlers, (h.filterByMeta.map Prod.fst).Nodup
  same : ∀ h ∈ handlers, ∀ h' ∈ handlers, h.ns = h'.ns → h.type = h'.type →
    h.filterByMeta = h'.filterByMeta ∧ h.filterByAggId = h'.filterByAggId

theorem LinkedMap.putAll_of_nodup {β : Type} {m : LinkedMap β} {entries : List (String × β)}
    (hnodup : ((m.entries ++ entries).map Prod.fst).Nodup) :
    (m.putAll entries).entries = m.entries ++ entries := by
  induction entries generalizing m with
  | nil => exact (List.append_nil _).symm
  | cons e rest ih =>
    have hnew : e.1 ∉ m.entries.map Prod.fst := by
      intro hin
      rw [List.map_append] at hnodup
      exact (List.nodup_append.mp hnodup).2.2 e.1 hin e.1 (List.mem_cons_self ..) rfl
    have hput : (m.put e.1 e.2).entries = m.entries ++ [e] := by
      unfold LinkedMap.put
      rw [dif_neg hnew]
    have hrest := @ih (m.put e.1 e.2) (by rwa [hput, List.append_assoc])
    rw [hput, List.append_assoc] at hrest
    exact hrest

/-- What the query selects for a handler has what that one's filters ask for. -/
theorem Uniform.admits {handlers : List Handler} (hu : Uniform handlers) {db : Database} {h : Handler}
    (hh : h ∈ handlers) {spec : FactSpec} (hasks : h.Asks spec) {header : Header}
    (hholds : ∀ c ∈ PgQueryBuilder.criteria spec, c.holds db.path header.json = true) :
    header.ns = h.ns ∧ textColumn header "type" = some h.type ∧ h.Admits header := by
  have hmeta : spec.meta.entries = h.filterByMeta := by
    have hinner : (LinkedMap.empty.putAll h.filterByMeta).entries = h.filterByMeta :=
      LinkedMap.putAll_of_nodup (hu.distinct h hh)
    rw [hasks.meta, hinner]
    exact LinkedMap.putAll_of_nodup (hu.distinct h hh)
  obtain ⟨hns, htype, hentries⟩ := hu.plain h hh
  have hspliceable : spec.Spliceable := by
    refine ⟨hasks.ns ▸ hns, fun t ht => ?_, hmeta ▸ hentries, fun e he => ?_⟩
    · rw [hasks.type] at ht
      exact Option.some.inj ht ▸ htype
    · rw [hasks.metaKeyExists] at he
      cases he
  have hm : spec.Matches header := ((PgQueryBuilder.criteria_spliceable hspliceable).2 header).mp hholds
  refine ⟨?_, ?_, ⟨fun e he => hm.meta e (hmeta ▸ he), ?_, ?_, fun id hid => ?_⟩⟩
  · rcases hm.ns with hany | hget
    · exact absurd (hasks.ns ▸ hany) (hu.named h hh)
    · rw [Header.ns_of_get? hget, hasks.ns]
  · unfold textColumn
    rw [hm.type h.type hasks.type]
    rfl
  · rw [(hu.keyless h hh).1]
    simp
  · rw [(hu.keyless h hh).2]
    simp
  · have hmerged : id ∈ spec.mergedAggIds := by
      unfold FactSpec.mergedAggIds
      split
      · exact hasks.aggIds id hid
      · split
        · exact hasks.aggIds id hid
        · exact List.mem_append_left _ (hasks.aggIds id hid)
    obtain ⟨items, hitems, hall⟩ := hm.aggIds (List.ne_nil_of_mem hmerged)
    exact ⟨items, hitems, hall id hmerged⟩

/-- Every fact the query selects for such a class is covered. -/
theorem covered_of_uniform {info : DispatchInfo} (hu : Uniform info.handlers) {db : Database}
    {aggregateId : Option UUID} {reader : UuidReader} {row : FactRow} {f : PgFact}
    (hselected : PgFactStream.matching db
      { specs := ProjectorImpl.createFactSpecs info aggregateId } row = true)
    (hf : PgFact.from_ reader row = some f) : Covered info.handlers f := by
  obtain ⟨spec, hspec, hall⟩ := List.any_eq_true.mp hselected
  obtain ⟨h, hh, hasks⟩ := mem_createFactSpecs hspec
  obtain ⟨hns, htype, hadmits⟩ := hu.admits hh hasks (List.all_eq_true.mp hall)
  obtain ⟨aggIds, _, rfl⟩ := Option.map_eq_some_iff.mp hf
  refine ⟨⟨h, hh, hns.symm, htype⟩, fun other hother hfor _ => ?_⟩
  have hothertype : h.type = other.type := Option.some.inj (htype.symm.trans hfor.2)
  obtain ⟨hmeta, haggIds⟩ := hu.same h hh other hother (hns.symm.trans hfor.1.symm) hothertype
  refine ⟨hmeta ▸ hadmits.filterByMeta, ?_, ?_, haggIds ▸ hadmits.filterByAggId⟩
  · rw [(hu.keyless other hother).1]
    simp
  · rw [(hu.keyless other hother).2]
    simp

/-- Users, as one handler wants them. -/
def onUserCreated : Handler where
  method := "apply(UserCreated)"
  ns := "users"
  ns_given := by decide
  type := "UserCreated"
  version := 1
  filterByMeta := [("priority", "urgent")]

/-- The `meta` of an urgent user, or of another. -/
def userMeta (urgent : Bool) : List (String × Jsonb) :=
  if urgent then [("priority", .str "urgent")] else []

def userRow (urgent : Bool) : FactRow where
  ser := 1
  fact :=
    { id := ⟨1⟩
      header := ⟨[("ns", .str "users"), ("type", .str "UserCreated"), ("version", .num ⟨1, 0⟩),
        ("meta", .obj (userMeta urgent))], by cases urgent <;> decide, fun _ h => nomatch h⟩
      payload := .null }

def user (urgent : Bool) : PgFact where
  id := ⟨1⟩
  ns := "users"
  type := some "UserCreated"
  version := 1
  aggIds := []
  jsonHeader := (userRow urgent).fact.header
  jsonPayload := .null

def users (h : Handler) : DispatchInfo := ⟨[h], List.nodup_singleton _⟩

theorem dispatched_admitted_iff_urgent :
    ProjectorImpl.discoverDispatchInfo "Users" [onUserCreated] = .ok (users onUserCreated) ∧
      AlwaysDispatched (users onUserCreated) (ProjectorImpl.createFactSpecs (users onUserCreated) none)
        (user true) := by
  refine ⟨rfl, (dispatched_admitted_iff "Users" [onUserCreated] _ rfl none _).mpr ?_⟩
  refine ⟨⟨onUserCreated, List.mem_singleton_self _, rfl, rfl⟩, fun h hh _ _ => ?_⟩
  rw [List.mem_singleton.mp hh]
  refine ⟨fun e he => ?_, by simp [onUserCreated], by simp [onUserCreated], by simp [onUserCreated]⟩
  obtain rfl : e = ("priority", "urgent") := List.mem_singleton.mp he
  show (user true).jsonHeader.meta? "priority" = some (.str "urgent")
  rfl

/-! ### Filters that do not reach the server -/

/-- Only users with a priority. -/
def onPriority : Handler :=
  { onUserCreated with filterByMeta := [], filterByMetaExists := ["priority"] }

/-- A user without a priority is selected and gets to the handler. -/
theorem unprioritized_dispatched :
    ProjectorImpl.discoverDispatchInfo "Users" [onPriority] = .ok (users onPriority) ∧
      PgFactStream.matching .quoted { specs := ProjectorImpl.createFactSpecs (users onPriority) none }
        (userRow false) = true ∧
      PgFact.from_ .canonical (userRow false) = some (user false) ∧
      ¬ AlwaysDispatched (users onPriority) (ProjectorImpl.createFactSpecs (users onPriority) none)
        (user false) := by
  refine ⟨rfl, by decide +kernel, rfl, fun hall => ?_⟩
  have hadmits := (covered_of_dispatched hall).admitted onPriority (List.mem_singleton_self _)
    ⟨rfl, rfl⟩ (.inl rfl)
  exact absurd (hadmits.filterByMetaExists "priority" (List.mem_singleton_self _)) (by decide)

/-- All users in version 2, beside the urgent ones in version 1. -/
def bothVersions : DispatchInfo where
  handlers := [onUserCreated, { onUserCreated with version := 2, filterByMeta := [] }]
  keyed := by decide +kernel

/-- A user that the query selects for version 2 alone is stored in version 1, and
gets to the handler for that. -/
theorem not_urgent_dispatched :
    ProjectorImpl.discoverDispatchInfo "Users" bothVersions.handlers = .ok bothVersions ∧
      PgFactStream.matching .quoted { specs := ProjectorImpl.createFactSpecs bothVersions none }
        (userRow false) = true ∧
      PgFact.from_ .canonical (userRow false) = some (user false) ∧
      ¬ AlwaysDispatched bothVersions (ProjectorImpl.createFactSpecs bothVersions none) (user false) := by
  refine ⟨discoverDispatchInfo_of_nodup (by simp [bothVersions]), by decide +kernel, rfl, fun hall => ?_⟩
  have hadmits := (covered_of_dispatched hall).admitted onUserCreated (List.mem_cons_self ..)
    ⟨rfl, rfl⟩ (.inl rfl)
  have hurgent := hadmits.filterByMeta ("priority", "urgent") (List.mem_singleton_self _)
  cases hurgent

end FactCast
