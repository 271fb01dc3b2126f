import FactCast.Store.PipelineOrder
import FactCast.Store.Transformation

/-! The version a fact is delivered in.

Every fact the parent of the transforming stage is given was received, and is
either as it was received or in a version that was requested for its own
namespace and type (`delivered_turns`). Whether that is a version somebody asked
for who selects the fact, is another matter: the query takes `*` for any
namespace, while requested versions are looked up under the fact's own. A
specification of any namespace and some type requests nothing of the facts it
selects, unless another one of its type names their namespace.

`Agrees` says when this makes no difference; the guarantee holds of exactly those
facts (`requested_version_iff`). -/
namespace FactCast

/-! ### What specifications ask of a delivered fact -/

/-- The specification selects the fact by namespace and type. -/
def FactSpec.Selects (spec : FactSpec) (f : PgFact) : Prop :=
  (spec.ns = "*" ∨ spec.ns = f.ns) ∧ ∀ type, spec.type = some type → f.type = some type

/-- The version will do for the specification. -/
def FactSpec.AcceptsVersion (spec : FactSpec) (version : Int) : Prop :=
  spec.type = none ∨ spec.version = 0 ∨ spec.version = version

instance (spec : FactSpec) (version : Int) : Decidable (spec.AcceptsVersion version) :=
  inferInstanceAs (Decidable (_ ∨ _ ∨ _))

/-- The specification names the fact's namespace and its type. -/
def FactSpec.Names (spec : FactSpec) (f : PgFact) : Prop :=
  spec.ns = f.ns ∧ spec.type.isSome = true ∧ spec.type = f.type

/-- Some specification that selects the stored fact accepts the delivered one,
which is the stored one if that is accepted by one that gives its type. -/
structure Guaranteed (specs : List FactSpec) (stored delivered : PgFact) : Prop where
  accepted : ∃ spec ∈ specs, spec.Selects stored ∧ spec.AcceptsVersion delivered.version
  unchanged : (∃ spec ∈ specs, spec.Selects stored ∧ spec.type.isSome = true ∧
    spec.AcceptsVersion stored.version) → delivered = stored

/-- If some specification names the fact's namespace and type, then the stored
version is accepted by such a one or by none that gives the type; if there is no
such specification, the stored version is accepted anyway. -/
structure Agrees (specs : List FactSpec) (f : PgFact) : Prop where
  named : (∃ spec ∈ specs, spec.Names f) →
    (∃ spec ∈ specs, spec.Selects f ∧ spec.type.isSome = true ∧ spec.AcceptsVersion f.version) →
    ∃ spec ∈ specs, spec.Names f ∧ spec.AcceptsVersion f.version
  unnamed : (¬ ∃ spec ∈ specs, spec.Names f) →
    ∃ spec ∈ specs, spec.Selects f ∧ spec.AcceptsVersion f.version

/-- The fact needs no transformation and stays as it is, or comes out in one of
the versions requested. -/
def Turns (requested : RequestedVersions) (f g : PgFact) : Prop :=
  FactTransformers.prepareTransformation requested f = none ∧ g = f ∨
    ∃ request version payload, FactTransformers.prepareTransformation requested f = some request ∧
      version ∈ request.targetVersions ∧ g = f.transformed version payload

namespace FactTransformers
variable {specs : List FactSpec} {f g : PgFact} {ns type : String} {version : Int}

theorem mem_createFor : version ∈ createFor specs ns type ↔
    ∃ spec ∈ specs, spec.ns = ns ∧ spec.type = some type ∧ spec.version = version := by
  have hfold : ∀ next : RequestedVersions → FactSpec → RequestedVersions,
      (∀ c s, next c s = s.type.elim c fun type => c.add s.ns type s.version) →
      ∀ c : RequestedVersions, version ∈ specs.foldl next c ns type ↔ version ∈ c ns type ∨
        ∃ spec ∈ specs, spec.ns = ns ∧ spec.type = some type ∧ spec.version = version := by
    intro next hnext
    induction specs with
    | nil => simp
    | cons spec rest ih =>
      intro c
      rw [List.foldl_cons, ih, hnext]
      cases htype : spec.type with
      | none => simp [htype]
      | some t =>
        have hadd : version ∈ c.add spec.ns t spec.version ns type ↔
            version ∈ c ns type ∨ (spec.ns = ns ∧ t = type ∧ spec.version = version) := by
          unfold RequestedVersions.add
          split
          · rename_i hkey
            rw [List.mem_insert_iff, hkey.1, hkey.2]
            constructor
            · rintro (h | h)
              · exact .inr ⟨rfl, rfl, h.symm⟩
              · exact .inl h
            · rintro (h | h)
              · exact .inr h
              · exact .inl h.2.2.symm
          · rename_i hkey
            constructor
            · exact .inl
            · rintro (h | h)
              · exact h
              · exact absurd ⟨h.1.symm, h.2.1.symm⟩ hkey
        simp only [Option.elim_some, hadd, List.mem_cons, exists_eq_or_imp, htype, Option.some.injEq,
          or_assoc]
  have hempty : version ∈ createFor specs ns type ↔ version ∈ RequestedVersions.empty ns type ∨ _ :=
    hfold _ (fun c s => by cases s.type <;> rfl) .empty
  simpa only [RequestedVersions.empty, List.not_mem_nil, false_or] using hempty

/-- The versions of a fact are those of the specifications that name it. -/
theorem mem_requested (htype : f.type = some type) :
    version ∈ createFor specs f.ns type ↔ ∃ spec ∈ specs, spec.Names f ∧ spec.version = version := by
  rw [mem_createFor]
  refine exists_congr fun spec => and_congr_right fun _ => ?_
  unfold FactSpec.Names
  rw [htype]
  constructor
  · rintro ⟨hns, ht, hv⟩
    exact ⟨⟨hns, by rw [ht]; rfl, ht⟩, hv⟩
  · rintro ⟨⟨hns, _, ht⟩, hv⟩
    exact ⟨hns, ht, hv⟩

theorem names_selects {spec : FactSpec} (h : spec.Names f) : spec.Selects f :=
  ⟨.inr h.1, fun _ ht => h.2.2 ▸ ht⟩

/-- Whatever its type is for, a fact that is not transformed has no type, or the
specifications that name it have one that accepts its version, or there is none. -/
theorem prepareTransformation_none (h : prepareTransformation (createFor specs) f = none) :
    f.type = none ∨ (∃ spec ∈ specs, spec.Names f ∧ spec.AcceptsVersion f.version) ∨
      ¬ ∃ spec ∈ specs, spec.Names f := by
  unfold prepareTransformation at h
  split at h
  · rename_i htype
    exact .inl htype
  · rename_i type htype
    split at h
    · rename_i hmatches
      simp only [RequestedVersions.matches_, Bool.or_eq_true, List.contains_eq_mem,
        decide_eq_true_eq] at hmatches
      rcases hmatches with hmatches | hmatches
      · obtain ⟨spec, hspec, hnames, hzero⟩ := (mem_requested htype).mp hmatches
        exact .inr (.inl ⟨spec, hspec, hnames, .inr (.inl hzero)⟩)
      · obtain ⟨spec, hspec, hnames, hversion⟩ := (mem_requested htype).mp hmatches
        exact .inr (.inl ⟨spec, hspec, hnames, .inr (.inr hversion)⟩)
    · split at h
      · rename_i hempty
        refine .inr (.inr ?_)
        rintro ⟨spec, hspec, hnames⟩
        have hmem : spec.version ∈ createFor specs f.ns type :=
          (mem_requested htype).mpr ⟨spec, hspec, hnames, rfl⟩
        rw [List.isEmpty_iff.mp hempty] at hmem
        cases hmem
      · cases h

/-- A fact is transformed to a version that is named for it, if its own is not. -/
theorem prepareTransformation_some {request : TransformationRequest}
    (h : prepareTransformation (createFor specs) f = some request) :
    request.toTransform = f ∧ (¬ ∃ spec ∈ specs, spec.Names f ∧ spec.AcceptsVersion f.version) ∧
      (∃ spec ∈ specs, spec.Names f) ∧
      ∀ version, version ∈ request.targetVersions ↔
        ∃ spec ∈ specs, spec.Names f ∧ spec.version = version := by
  unfold prepareTransformation at h
  split at h
  · cases h
  · rename_i type htype
    split at h
    · cases h
    · rename_i hmatches
      split at h
      · cases h
      · rename_i hsome
        cases h
        simp only [RequestedVersions.matches_, Bool.or_eq_true, List.contains_eq_mem,
          decide_eq_true_eq, not_or] at hmatches
        refine ⟨rfl, ?_, ?_, fun version => mem_requested htype⟩
        · rintro ⟨spec, hspec, hnames, hnone | hzero | hversion⟩
          · have htyped := hnames.2.1
            rw [hnone] at htyped
            cases htyped
          · exact hmatches.1 ((mem_requested htype).mpr ⟨spec, hspec, hnames, hzero⟩)
          · exact hmatches.2 ((mem_requested htype).mpr ⟨spec, hspec, hnames, hversion⟩)
        · obtain ⟨version, hversion⟩ :=
            List.exists_mem_of_ne_nil _ (fun hnil => hsome (List.isEmpty_iff.mpr hnil))
          obtain ⟨spec, hspec, hnames, _⟩ := (mem_requested htype).mp hversion
          exact ⟨spec, hspec, hnames⟩

/-- The guarantee holds of what a fact turns into exactly if the specifications
agree on it. -/
theorem guaranteed_iff (hselected : ∃ spec ∈ specs, spec.Selects f)
    (hturns : Turns (createFor specs) f g) : Guaranteed specs f g ↔ Agrees specs f := by
  rcases hturns with ⟨hprepare, rfl⟩ | ⟨request, version, payload, hprepare, hversion, rfl⟩
  · rcases prepareTransformation_none hprepare with htype | ⟨spec, hspec, hnames, haccepts⟩ | hunnamed
    · -- a fact without a type is selected without one
      obtain ⟨spec, hspec, hselects⟩ := hselected
      have hnone : spec.type = none := by
        by_contra hne
        obtain ⟨type, ht⟩ := Option.ne_none_iff_exists'.mp hne
        have := hselects.2 type ht
        rw [htype] at this
        cases this
      have haccepted : ∃ spec ∈ specs, spec.Selects g ∧ spec.AcceptsVersion g.version :=
        ⟨spec, hspec, hselects, .inl hnone⟩
      refine ⟨fun _ => ⟨?_, fun _ => haccepted⟩, fun _ => ⟨haccepted, fun _ => rfl⟩⟩
      rintro ⟨spec, _, hnames⟩
      have htyped := hnames.2.1
      rw [hnames.2.2, htype] at htyped
      cases htyped
    · have haccepted : ∃ spec ∈ specs, spec.Names g ∧ spec.AcceptsVersion g.version :=
        ⟨spec, hspec, hnames, haccepts⟩
      refine ⟨fun _ => ⟨fun _ _ => haccepted, fun hno => absurd ⟨spec, hspec, hnames⟩ hno⟩,
        fun _ => ⟨⟨spec, hspec, names_selects hnames, haccepts⟩, fun _ => rfl⟩⟩
    · exact ⟨fun h => ⟨fun hnamed => absurd hnamed hunnamed, fun _ => h.accepted⟩,
        fun h => ⟨h.unnamed hunnamed, fun _ => rfl⟩⟩
  · obtain ⟨_, hnot, hnamed, htargets⟩ := prepareTransformation_some hprepare
    obtain ⟨target, htarget, hnames, heq⟩ := (htargets version).mp hversion
    have hchanged : f.transformed version payload ≠ f := by
      intro hsame
      have hstored : version = f.version := congrArg PgFact.version hsame
      exact hnot ⟨target, htarget, hnames, .inr (.inr (heq.trans hstored))⟩
    constructor
    · intro h
      exact ⟨fun _ haccepted => absurd (h.unchanged haccepted) hchanged,
        fun hno => absurd hnamed hno⟩
    · intro h
      exact ⟨⟨target, htarget, names_selects hnames, .inr (.inr heq)⟩,
        fun haccepted => absurd (h.named hnamed haccepted) hnot⟩

end FactTransformers

/-! ### What the service answers -/

namespace FactTransformerService
variable {table : UUID → Option PgFact} {service : FactTransformerService table} {α β : Type}

/-- The fact that was to be transformed, in one of the versions it was to have. -/
def Answers (r : TransformationRequest) (g : PgFact) : Prop :=
  ∃ version payload, version ∈ r.targetVersions ∧ g = r.toTransform.transformed version payload

theorem mapM_ok {f : α → Except Throwable β} {l : List α} {out : List β} (h : l.mapM f = .ok out) :
    List.Forall₂ (fun a b => f a = .ok b) l out := by
  induction l generalizing out with
  | nil =>
    cases h
    exact .nil
  | cons a rest ih =>
    rw [List.mapM_cons] at h
    cases ha : f a with
    | error e =>
      rw [ha] at h
      cases h
    | ok b =>
      rw [ha] at h
      cases hrest : rest.mapM f with
      | error e =>
        rw [hrest] at h
        cases h
      | ok bs =>
        rw [hrest] at h
        cases h
        exact .cons ha (ih hrest)

/-- A chain ends at a requested version. -/
theorem build_toVersion {key : TransformationKey} {version : Int} {requested : List Int}
    {chain : TransformationChain} (h : service.build key version requested = .ok chain) :
    chain.toVersion ∈ requested := by
  unfold build at h
  split at h
  · cases h
  · split at h
    · cases h
    · split at h
      · rename_i first rest hpath
        cases h
        have hmem : first :: rest ∈ service.possiblePaths (service.registry key) version requested :=
          (List.mem_filter.mp (List.argmax_mem hpath)).1
        obtain ⟨_, _, hfound⟩ := List.mem_filterMap.mp hmem
        have hcheck := (Option.filter_eq_some_iff.mp hfound).2
        rw [List.head?_cons, List.getLast?_eq_some_getLast (List.cons_ne_nil first rest)] at hcheck
        simp only [Bool.and_eq_true, List.contains_eq_mem, decide_eq_true_eq] at hcheck
        exact hcheck.1
      · cases h

/-- What is made, or was made before, is the fact in the version its chain ends at. -/
theorem resolve_ok {n : Nat} {pairs : List (TransformationRequest × TransformationChain)}
    (hstored : ∀ p ∈ pairs, table p.1.toTransform.id = some p.1.toTransform)
    (hsame : ∀ p ∈ pairs, ∀ q ∈ pairs, p.1.toTransform = q.1.toTransform → p = q)
    {p : TransformationRequest × TransformationChain} (hp : p ∈ pairs) {g : PgFact}
    (h : service.resolve (service.findAll n (pairs.map keyOf).dedup) p = .ok g) :
    ∃ payload, g = p.1.toTransform.transformed p.2.toVersion payload := by
  unfold resolve at h
  split at h
  · rename_i cached hfound
    cases h
    have hid : g.id = p.1.toTransform.id := by simpa using List.find?_some hfound
    obtain ⟨key, hkey, hcached⟩ := List.mem_filterMap.mp (List.mem_of_find?_eq_some hfound)
    obtain ⟨q, hq, rfl⟩ := List.mem_map.mp (List.mem_dedup.mp hkey)
    obtain ⟨e, payload, he, rfl⟩ := (service.cache n).made _ _ _ _ hcached
    obtain rfl : q.1.toTransform = e := Option.some.inj ((hstored q hq).symm.trans he)
    have hqp : q.1.toTransform.id = p.1.toTransform.id := hid
    have hfact : p.1.toTransform = q.1.toTransform :=
      Option.some.inj ((hstored p hp).symm.trans (hqp ▸ hstored q hq))
    rw [hsame p hp q hq hfact]
    exact ⟨payload, rfl⟩
  · unfold doTransform at h
    split at h
    · cases h
      exact ⟨_, rfl⟩
    · cases h

/-- One answer for each request: the fact it is about, in one of its versions. -/
theorem transform_ok {n : Nat} {requests : List TransformationRequest} {facts : List PgFact}
    (hstored : ∀ r ∈ requests, table r.toTransform.id = some r.toTransform)
    (hsame : ∀ r ∈ requests, ∀ r' ∈ requests, r.toTransform = r'.toTransform → r = r')
    (h : service.transform n requests = .ok facts) :
    List.Forall₂ Answers requests facts := by
  unfold transform transformIn at h
  split at h
  · rename_i hempty
    cases h
    rw [List.isEmpty_iff.mp hempty]
    exact .nil
  · split at h
    · cases h
    · rename_i pairs hpairs
      have hchains : List.Forall₂ (fun r p => r = p.1 ∧ service.toChain p.1 = .ok p.2) requests pairs := by
        refine (mapM_ok hpairs).imp fun r p hrp => ?_
        cases hchain : service.toChain r with
        | error e =>
          rw [hchain] at hrp
          cases hrp
        | ok chain =>
          rw [hchain] at hrp
          cases hrp
          exact ⟨rfl, hchain⟩
      have hfirst : requests = pairs.map Prod.fst := by
        rw [← List.forall₂_eq_eq_eq, List.forall₂_map_right_iff]
        exact hchains.imp fun _ _ hrp => hrp.1
      have hchain : ∀ p ∈ pairs, service.toChain p.1 = .ok p.2 := by
        have hflip : List.Forall₂ (fun p _ => service.toChain p.1 = .ok p.2 ∧ True) pairs requests :=
          hchains.flip.imp fun _ _ hrp => ⟨hrp.2, trivial⟩
        exact ((List.forall₂_and_left _ _).mp hflip).1
      have hmem : ∀ p ∈ pairs, p.1 ∈ requests := fun p hp => hfirst ▸ List.mem_map_of_mem hp
      have hpairs_same : ∀ p ∈ pairs, ∀ q ∈ pairs, p.1.toTransform = q.1.toTransform → p = q := by
        intro p hp q hq hfact
        have heq := hsame p.1 (hmem p hp) q.1 (hmem q hq) hfact
        have hp2 := hchain p hp
        rw [heq, hchain q hq] at hp2
        exact Prod.ext heq (Except.ok.inj hp2).symm
      rw [hfirst, List.forall₂_map_left_iff]
      refine ((List.forall₂_and_left _ _).mpr ⟨fun p hp => hp, mapM_ok h⟩).imp fun p g hpg => ?_
      obtain ⟨payload, rfl⟩ :=
        resolve_ok (fun p hp => hstored p.1 (hmem p hp)) hpairs_same hpg.1 hpg.2
      exact ⟨p.2.toVersion, payload, build_toVersion (hchain p hpg.1), rfl⟩

end FactTransformerService
/-! ### What the stage delivers -/

namespace BufferedTransformingServerPipeline
variable {p : BufferedTransformingServerPipeline} {R : TransformationRequest → PgFact → Prop}
  {received : List Signal} {s : State} {x : Signal}

/-- A fact comes out as it came in, or as an answer to its request. -/
def Stems (p : BufferedTransformingServerPipeline) (R : TransformationRequest → PgFact → Prop)
    (f g : PgFact) : Prop :=
  p.prepareTransformation f = none ∧ g = f ∨ ∃ request, p.prepareTransformation f = some request ∧ R request g

structure Traced (p : BufferedTransformingServerPipeline) (R : TransformationRequest → PgFact → Prop)
    (received : List Signal) (s : State) : Prop where
  buffer : ∀ supplier ∈ s.buffer, ∃ x ∈ received, supplier = p.supplier x
  parent : ∀ g, .fact g ∈ s.parent → ∃ f, .fact f ∈ received ∧ p.Stems R f g

/-- What takes a place was there or is an answer to what was asked for there. -/
theorem mem_resolve {buffer : List Supplier} {facts : List PgFact}
    (h : List.Forall₂ R (buffer.filterMap Supplier.request?) facts) {g : PgFact}
    (hg : .fact g ∈ resolve buffer facts) :
    .signal (.fact g) ∈ buffer ∨ ∃ request, .transformed request ∈ buffer ∧ R request g := by
  induction buffer generalizing facts with
  | nil => cases hg
  | cons supplier rest ih =>
    cases supplier with
    | signal x =>
      rcases List.mem_cons.mp hg with rfl | hg
      · exact .inl (List.mem_cons_self ..)
      · rcases ih h hg with hin | ⟨request, hin, hr⟩
        · exact .inl (List.mem_cons_of_mem _ hin)
        · exact .inr ⟨request, List.mem_cons_of_mem _ hin, hr⟩
    | transformed request =>
      have h : List.Forall₂ R (request :: rest.filterMap Supplier.request?) facts := h
      cases h with
      | cons hr hrest =>
        rcases List.mem_cons.mp hg with heq | hg
        · cases heq
          exact .inr ⟨request, List.mem_cons_self .., hr⟩
        · rcases ih hrest hg with hin | ⟨request', hin, hr'⟩
          · exact .inl (List.mem_cons_of_mem _ hin)
          · exact .inr ⟨request', List.mem_cons_of_mem _ hin, hr'⟩

theorem supplier_signal {g : PgFact} (h : .signal (.fact g) = p.supplier x) :
    x = .fact g ∧ p.prepareTransformation g = none := by
  unfold supplier at h
  split at h
  · rename_i f
    cases hf : p.prepareTransformation f with
    | none =>
      rw [hf] at h
      cases h
      exact ⟨rfl, hf⟩
    | some request =>
      rw [hf] at h
      cases h
  · rename_i hother
    cases h
    exact (hother g rfl).elim

theorem supplier_transformed {request : TransformationRequest} (h : .transformed request = p.supplier x) :
    ∃ f, x = .fact f ∧ p.prepareTransformation f = some request := by
  unfold supplier at h
  split at h
  · rename_i f
    cases hf : p.prepareTransformation f with
    | none =>
      rw [hf] at h
      cases h
    | some request' =>
      rw [hf] at h
      cases h
      exact ⟨f, rfl, hf⟩
  · cases h

/-- The service answers each request about a received fact. -/
def Serves (p : BufferedTransformingServerPipeline) (R : TransformationRequest → PgFact → Prop)
    (received : List Signal) : Prop :=
  ∀ n requests facts, (∀ r ∈ requests, ∃ f, .fact f ∈ received ∧ p.prepareTransformation f = some r) →
    p.transform n requests = .ok facts → List.Forall₂ R requests facts

theorem traced_doFlush (hserves : p.Serves R received) (h : Traced p R received s) :
    Traced p R received (doFlush p s) := by
  have hreset : ∀ signals, (∀ g, .fact g ∈ signals → ∃ f, .fact f ∈ received ∧ p.Stems R f g) →
      ∀ g, .fact g ∈ s.parent ++ signals → ∃ f, .fact f ∈ received ∧ p.Stems R f g := by
    intro signals hsignals g hg
    rcases List.mem_append.mp hg with hg | hg
    · exact h.parent g hg
    · exact hsignals g hg
  unfold doFlush
  split
  · exact h
  · split
    · exact ⟨by simp [State.reset], h.parent⟩
    · refine ⟨by simp [State.reset], ?_⟩
      unfold answer
      dsimp only
      split
      · rename_i facts htransform
        split
        · exact h.parent
        · have hfacts := hserves _ _ _ (fun r hr => ?_) htransform
          · refine hreset _ fun g hg => ?_
            rcases mem_resolve hfacts hg with hin | ⟨request, hin, hr⟩
            · obtain ⟨x, hx, heq⟩ := h.buffer _ hin
              obtain ⟨rfl, hnone⟩ := supplier_signal heq
              exact ⟨g, hx, .inl ⟨hnone, rfl⟩⟩
            · obtain ⟨x, hx, heq⟩ := h.buffer _ hin
              obtain ⟨f, rfl, hsome⟩ := supplier_transformed heq
              exact ⟨f, hx, .inr ⟨request, hsome, hr⟩⟩
          · obtain ⟨supplier, hin, hrequest⟩ := List.mem_filterMap.mp hr
            obtain ⟨x, hx, heq⟩ := h.buffer _ hin
            cases supplier with
            | signal _ => cases hrequest
            | transformed request =>
              cases hrequest
              obtain ⟨f, rfl, hsome⟩ := supplier_transformed heq
              exact ⟨f, hx, hsome⟩
      · refine hreset _ fun g hg => ?_
        cases List.mem_singleton.mp hg
      · exact h.parent

theorem traced_process (hserves : p.Serves R received) (hx : x ∈ received)
    (h : Traced p R received s) : Traced p R received (process p s x) := by
  rw [process_eq]
  split
  · rename_i hdirect
    refine ⟨h.buffer, fun g hg => ?_⟩
    rcases List.mem_append.mp hg with hg | hg
    · exact h.parent g hg
    · have hg : x = .fact g := (List.mem_singleton.mp hg).symm
      subst hg
      refine ⟨g, hx, .inl ⟨?_, rfl⟩⟩
      cases hsome : p.prepareTransformation g with
      | none => rfl
      | some request => simp [supplier, hsome, Supplier.request?] at hdirect
  · have hadded : Traced p R received ({ s with mode := .buffering }.add (p.supplier x)) := by
      refine ⟨fun supplier hsupplier => ?_, h.parent⟩
      rcases List.mem_append.mp hsupplier with hsupplier | hsupplier
      · exact h.buffer supplier hsupplier
      · exact ⟨x, hx, List.mem_singleton.mp hsupplier⟩
    unfold flushIfNecessary
    split
    · exact traced_doFlush hserves hadded
    · exact hadded

theorem traced_run (hserves : p.Serves R received) : Traced p R received (run p received) := by
  have hfold : ∀ (signals : List Signal) s, (∀ x ∈ signals, x ∈ received) → Traced p R received s →
      Traced p R received (signals.foldl (process p) s) := by
    intro signals
    induction signals with
    | nil => exact fun _ _ h => h
    | cons x rest ih =>
      intro s hsub h
      exact ih _ (fun y hy => hsub y (List.mem_cons_of_mem _ hy))
        (traced_process hserves (hsub x (List.mem_cons_self ..)) h)
  exact hfold received {} (fun _ hx => hx) ⟨by simp, by simp⟩

/-- Every fact the stage forwards was received, and is what that turns into. -/
theorem delivered_turns {table : UUID → Option PgFact} (specs : List FactSpec)
    (service : FactTransformerService table) {maxBufferSize : Nat} (admitted : 2 < maxBufferSize)
    {received : List Signal} (hstored : ∀ f, .fact f ∈ received → table f.id = some f) {g : PgFact}
    (hg : .fact g ∈ (run (.create specs service maxBufferSize admitted) received).parent) :
    ∃ f, .fact f ∈ received ∧ g.id = f.id ∧ Turns (FactTransformers.createFor specs) f g := by
  let p : BufferedTransformingServerPipeline := .create specs service maxBufferSize admitted
  have hserves : p.Serves FactTransformerService.Answers received := by
    intro n requests facts hrequests htransform
    refine FactTransformerService.transform_ok (fun r hr => ?_) (fun r hr r' hr' hfact => ?_) htransform
    · obtain ⟨f, hf, hsome⟩ := hrequests r hr
      rw [(FactTransformers.prepareTransformation_some hsome).1]
      exact hstored f hf
    · obtain ⟨f, hf, hsome⟩ := hrequests r hr
      obtain ⟨f', hf', hsome'⟩ := hrequests r' hr'
      rw [(FactTransformers.prepareTransformation_some hsome).1,
        (FactTransformers.prepareTransformation_some hsome').1] at hfact
      rw [hfact] at hsome
      exact Option.some.inj (hsome.symm.trans hsome')
  obtain ⟨f, hf, ⟨hnone, rfl⟩ | ⟨request, hsome, version, payload, hversion, rfl⟩⟩ :=
    (traced_run hserves).parent g hg
  · exact ⟨g, hf, rfl, .inl ⟨hnone, rfl⟩⟩
  · rw [(FactTransformers.prepareTransformation_some hsome).1]
    exact ⟨f, hf, rfl, .inr ⟨request, version, payload, hsome, hversion, rfl⟩⟩

/-- Whatever facts of a table a subscription's stage receives: what it delivers
of a fact that some specification selects is guaranteed to be in a version that
was asked for, and unchanged where it may be, exactly if the specifications agree
on the fact. -/
theorem requested_version_iff (table : UUID → Option PgFact) (specs : List FactSpec)
    (service : FactTransformerService table) (maxBufferSize : Nat) (admitted : 2 < maxBufferSize)
    (received : List Signal) (hstored : ∀ f, .fact f ∈ received → table f.id = some f) (f g : PgFact)
    (hf : .fact f ∈ received) (hselected : ∃ spec ∈ specs, spec.Selects f)
    (hg : .fact g ∈ (run (.create specs service maxBufferSize admitted) received).parent)
    (hid : g.id = f.id) : Guaranteed specs f g ↔ Agrees specs f := by
  obtain ⟨f', hf', hid', hturns⟩ := delivered_turns specs service admitted hstored hg
  have hsame : some f = some f' := by
    rw [← hstored f hf, ← hstored f' hf', ← hid, hid']
  cases Option.some.inj hsame
  exact FactTransformers.guaranteed_iff hselected hturns

/-! ### A namespace that is not looked up -/

/-- Orders of any namespace, in version 2. -/
def anyOrders : FactSpec where
  ns := "*"
  ns_given := any_given
  type := some "OrderPlaced"
  version := 2

/-- The same of one namespace. -/
def someOrders : FactSpec := { anyOrders with ns := "orders", ns_given := orders_given }

def placedOrder : PgFact := { order 1 with type := some "OrderPlaced" }

/-- From version 1 to version 2 in one step, which keeps the payload. -/
def oneStep : FactTransformerService fun _ => some placedOrder where
  registry := fun _ => [⟨1, 2⟩]
  search := fun _ _ _ => some [⟨1, 2⟩]
  trans := fun _ payload => some payload
  cache := fun _ => .empty _

def delivered (specs : List FactSpec) : List PgFact :=
  (run (.create specs oneStep 3 upcasting.admitted) [.fact placedOrder, .flush]).parent.filterMap
    fun | .fact f => some f | _ => none

theorem mem_delivered {specs : List FactSpec} {g : PgFact} (h : g ∈ delivered specs) :
    .fact g ∈ (run (.create specs oneStep 3 upcasting.admitted) [.fact placedOrder, .flush]).parent := by
  obtain ⟨x, hx, hg⟩ := List.mem_filterMap.mp h
  split at hg
  · cases hg
    exact hx
  · cases hg

/-- The one fact that is delivered, for a version that can be computed. -/
theorem exists_delivered {specs : List FactSpec} {version : Int}
    (h : (delivered specs).map (fun g => (g.id, g.version)) = [(placedOrder.id, version)]) :
    ∃ g ∈ delivered specs, g.id = placedOrder.id ∧ g.version = version := by
  have hmem : (placedOrder.id, version) ∈ (delivered specs).map fun g => (g.id, g.version) := by
    rw [h]
    exact List.mem_singleton_self _
  obtain ⟨g, hg, heq⟩ := List.mem_map.mp hmem
  exact ⟨g, hg, congrArg Prod.fst heq, congrArg Prod.snd heq⟩

theorem requested_version_iff_someOrders : ∃ g ∈ delivered [someOrders, anyOrders],
    g.version = 2 ∧ (Guaranteed [someOrders, anyOrders] placedOrder g ↔
      Agrees [someOrders, anyOrders] placedOrder) := by
  have hcomputed : (delivered [someOrders, anyOrders]).map (fun g => (g.id, g.version)) =
      [(placedOrder.id, 2)] := by decide +kernel
  obtain ⟨g, hg, hid, hversion⟩ := exists_delivered hcomputed
  refine ⟨g, hg, hversion, requested_version_iff _ [someOrders, anyOrders] oneStep 3 upcasting.admitted
    [.fact placedOrder, .flush] (fun f hf => ?_) placedOrder g (List.mem_cons_self ..) ?_
    (mem_delivered hg) hid⟩
  · rcases List.mem_cons.mp hf with heq | hf
    · cases heq
      rfl
    · cases List.mem_singleton.mp hf
  · exact ⟨someOrders, List.mem_cons_self .., .inr rfl, fun _ ht => ht⟩

/-- What selects the order asks for version 2, and version 1 is delivered. -/
theorem anyOrders_not_guaranteed : ∃ g ∈ delivered [anyOrders],
    (∃ spec ∈ [anyOrders], spec.Selects placedOrder) ∧ ¬ Guaranteed [anyOrders] placedOrder g := by
  have hcomputed : (delivered [anyOrders]).map (fun g => (g.id, g.version)) = [(placedOrder.id, 1)] := by
    decide +kernel
  obtain ⟨g, hg, hid, hversion⟩ := exists_delivered hcomputed
  refine ⟨g, hg, ⟨anyOrders, List.mem_singleton_self _, .inl rfl, fun _ ht => ht⟩, fun h => ?_⟩
  obtain ⟨spec, hspec, _, haccepts⟩ := h.accepted
  rw [List.mem_singleton.mp hspec, hversion] at haccepts
  exact absurd haccepts (by decide)

end BufferedTransformingServerPipeline
end FactCast
