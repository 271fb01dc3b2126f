import FactCast.Store.RequestedVersions
import FactCast.Store.TransformationChains

/-! Requests that are transformed together, against each one on its own.

On its own, a request that is met already gives the fact as it is, and the cache is
asked for the fact in the very version the chain ends at (`transformOne`). Together,
every request gets a chain, the cache is asked for all keys at once, and what it has
is assigned to the requests by the identifier of the fact (`transformIn`).

So a request that is met already is transformed nevertheless, and two requests for
one fact share what the cache has for either. `Aligned` excludes just that; the
lists are then the same, and only then (`batch_pointwise_iff`). -/
namespace FactCast.FactTransformerService
open TransformationChains (Searches)

variable {table : UUID → Option PgFact} (service : FactTransformerService table)

/-- A request on its own. -/
def transformOne (n : Nat) (request : TransformationRequest) : Except Throwable PgFact :=
  let e := request.toTransform
  if request.targetVersions.contains e.version || request.targetVersions.contains 0 then .ok e
  else
    match service.toChain request with
    | .error t => .error t
    | .ok chain =>
      match (service.cache n).find e.id chain.toVersion chain.id with
      | some cached => .ok cached
      | none => service.doTransform e chain

/-- The requests one after the other, each with the cache as it is by then. -/
def transformEach : Nat → List TransformationRequest → Except Throwable (List PgFact)
  | _, [] => .ok []
  | n, r :: rest =>
    match service.transformOne n r with
    | .error t => .error t
    | .ok g => (transformEach (n + 1) rest).map (g :: ·)

/-- The cache has what the transformations make of the facts. -/
def Consistent (n : Nat) : Prop :=
  ∀ (request : TransformationRequest) chain g,
    table request.toTransform.id = some request.toTransform → service.toChain request = .ok chain →
    (service.cache n).find request.toTransform.id chain.toVersion chain.id = some g →
    service.doTransform request.toTransform chain = .ok g

/-- The library finds the paths a request is about. -/
def Searched (request : TransformationRequest) : Prop :=
  Searches service ⟨request.toTransform.ns, request.toTransform.type.getD ""⟩
    request.toTransform.version request.targetVersions.toFinset

/-- No request is met already, and what the cache has for one request about a fact
is in the version that any request about this fact leads to. -/
structure Aligned (n : Nat) (requests : List TransformationRequest) : Prop where
  unmet : ∀ r ∈ requests, r.toTransform.version ∉ r.targetVersions ∧ 0 ∉ r.targetVersions
  same : ∀ r ∈ requests, ∀ r' ∈ requests, r.toTransform.id = r'.toTransform.id →
    ∀ chain chain', service.toChain r = .ok chain → service.toChain r' = .ok chain' →
    (service.cache n).find r'.toTransform.id chain'.toVersion chain'.id ≠ none →
    chain.toVersion = chain'.toVersion

variable {service} {n m : Nat} {requests : List TransformationRequest} {request : TransformationRequest}
  {chain : TransformationChain} {g : PgFact} {facts : List PgFact}

/-! ### Chains -/

/-- A chain goes along the path that is found for the version it ends at. -/
structure Along (service : FactTransformerService table) (request : TransformationRequest)
    (chain : TransformationChain) : Prop where
  found : service.search (service.registry chain.key) request.toTransform.version chain.toVersion =
    some chain.steps
  moves : chain.toVersion ≠ request.toTransform.version
  same : chain = ⟨versions (request.toTransform.version :: chain.steps.map Edge.toVersion),
    ⟨request.toTransform.ns, request.toTransform.type.getD ""⟩, request.toTransform.version,
    chain.toVersion, chain.steps⟩

theorem toChain_along (hsearched : service.Searched request) (h : service.toChain request = .ok chain) :
    Along service request chain := by
  unfold toChain build at h
  dsimp only at h
  split at h
  · cases h
  · split at h
    · cases h
    · split at h
      · rename_i first rest hpath
        cases h
        obtain ⟨v, hv, hfound⟩ := List.mem_filterMap.mp (TransformationChains.pickFinalPath_some hpath).1
        have hfound := (Option.filter_eq_some_iff.mp hfound).1
        have hshortest := (hsearched v (List.mem_toFinset.mpr hv)).1 _ hfound
        have hlast : ((first :: rest).getLast (by simp)).toVersion = v :=
          hshortest.1.last (List.getLast?_eq_some_getLast (List.cons_ne_nil first rest))
        have hfrom : first.fromVersion = request.toTransform.version := hshortest.1.2.1
        refine ⟨?_, ?_, ?_⟩
        · rw [hlast]
          exact hfound
        · -- there is no way to stay that takes a step and is shortest
          rw [hlast]
          intro hstay
          have hle := hshortest.2 [] hstay.symm
          exact absurd hle (by simp)
        · rw [← hfrom]
      · cases h

/-- Of one fact, only one chain leads to a version. -/
theorem Along.unique {request' : TransformationRequest} {chain' : TransformationChain}
    (h : Along service request chain) (h' : Along service request' chain')
    (hfact : request.toTransform = request'.toTransform) (hversion : chain.toVersion = chain'.toVersion) :
    chain = chain' := by
  have hkey : chain.key = chain'.key := by rw [h.same, h'.same, hfact]
  have hsteps : chain.steps = chain'.steps := by
    apply Option.some.inj
    rw [← h.found, ← h'.found, hkey, hfact, hversion]
  rw [h.same, h'.same, hfact, hversion, hsteps]

/-! ### Each request on its own -/

/-- What the cache has does not matter. -/
theorem transformOne_ok (hconsistent : service.Consistent n)
    (hstored : table request.toTransform.id = some request.toTransform)
    (hunmet : request.toTransform.version ∉ request.targetVersions ∧ 0 ∉ request.targetVersions) :
    service.transformOne n request = .ok g ↔
      ∃ chain, service.toChain request = .ok chain ∧ service.doTransform request.toTransform chain = .ok g := by
  unfold transformOne
  have hpass : (request.targetVersions.contains request.toTransform.version ||
      request.targetVersions.contains 0) = false := by simp [hunmet]
  simp only [hpass, Bool.false_eq_true, if_false]
  cases hchain : service.toChain request with
  | error t => simp
  | ok chain =>
    cases hfind : (service.cache n).find request.toTransform.id chain.toVersion chain.id with
    | none => simp [hfind]
    | some cached => simp [hfind, hconsistent request chain cached hstored hchain hfind]

/-- Neither does how it changes in between. -/
theorem transformEach_ok {Q : TransformationRequest → PgFact → Prop}
    (h : ∀ n, ∀ r ∈ requests, ∀ g, service.transformOne n r = .ok g ↔ Q r g) :
    service.transformEach m requests = .ok facts ↔ List.Forall₂ Q requests facts := by
  induction requests generalizing m facts with
  | nil => simp [transformEach, eq_comm]
  | cons r rest ih =>
    have hrest : ∀ gs, service.transformEach (m + 1) rest = .ok gs ↔ List.Forall₂ Q rest gs :=
      fun _ => ih fun n r' hr' => h n r' (List.mem_cons_of_mem r hr')
    have hfirst := h m r (List.mem_cons_self ..)
    rw [List.forall₂_cons_left_iff, transformEach]
    cases hg : service.transformOne m r with
    | error t =>
      rw [hg] at hfirst
      simp [← hfirst]
    | ok g =>
      rw [hg] at hfirst
      cases heach : service.transformEach (m + 1) rest with
      | error t =>
        rw [heach] at hrest
        simp [← hrest, Except.map]
      | ok gs =>
        rw [heach] at hrest
        simp [← hrest, ← hfirst, Except.map, eq_comm]

/-- Each fact is what a request gives on its own, at some time. -/
theorem transformEach_each (h : service.transformEach m requests = .ok facts) :
    List.Forall₂ (fun r g => ∃ n, service.transformOne n r = .ok g) requests facts := by
  induction requests generalizing m facts with
  | nil =>
    cases h
    exact .nil
  | cons r rest ih =>
    rw [transformEach] at h
    cases hg : service.transformOne m r with
    | error t =>
      rw [hg] at h
      cases h
    | ok g =>
      rw [hg] at h
      cases heach : service.transformEach (m + 1) rest with
      | error t =>
        rw [heach] at h
        cases h
      | ok gs =>
        rw [heach] at h
        cases h
        exact .cons ⟨m, hg⟩ (ih heach)

/-! ### All requests together -/

/-- The keys that are looked up. -/
def keysOf (service : FactTransformerService table) (requests : List TransformationRequest) : List Key :=
  (requests.filterMap fun r => (service.toChain r).toOption.map fun chain => keyOf (r, chain)).dedup

theorem mem_keysOf {k : Key} : k ∈ keysOf service requests ↔
    ∃ r ∈ requests, ∃ chain, service.toChain r = .ok chain ∧ k = keyOf (r, chain) := by
  unfold keysOf
  rw [List.mem_dedup, List.mem_filterMap]
  refine exists_congr fun r => and_congr_right fun _ => ?_
  cases service.toChain r with
  | error t => simp [Except.toOption]
  | ok chain => simp [Except.toOption, eq_comm]

theorem mapM_ok_iff {α β : Type} {f : α → Except Throwable β} {l : List α} {out : List β} :
    l.mapM f = .ok out ↔ List.Forall₂ (fun a b => f a = .ok b) l out := by
  refine ⟨mapM_ok, fun h => ?_⟩
  induction h with
  | nil => rfl
  | cons hab _ ih =>
    rw [List.mapM_cons, hab, ih]
    rfl

/-- The request with its chain. -/
def Paired (service : FactTransformerService table) (r : TransformationRequest)
    (p : TransformationRequest × TransformationChain) : Prop :=
  p.1 = r ∧ service.toChain r = .ok p.2

theorem mapM_paired {pairs : List (TransformationRequest × TransformationChain)} :
    (requests.mapM fun r => (service.toChain r).map fun chain => (r, chain)) = .ok pairs ↔
      List.Forall₂ (Paired service) requests pairs := by
  have hpaired : (fun r p => ((service.toChain r).map fun chain => (r, chain)) = .ok p) = Paired service := by
    funext r p
    unfold Paired
    cases service.toChain r with
    | error t => simp [Except.map]
    | ok chain => simp [Except.map, Prod.ext_iff, eq_comm]
  rw [mapM_ok_iff, hpaired]

theorem keysOf_eq {pairs : List (TransformationRequest × TransformationChain)}
    (h : List.Forall₂ (Paired service) requests pairs) :
    keysOf service requests = (pairs.map keyOf).dedup := by
  unfold keysOf
  congr 1
  induction h with
  | nil => rfl
  | cons hrp _ ih =>
    obtain ⟨rfl, hchain⟩ := hrp
    rw [List.filterMap_cons_some (b := keyOf _) (by rw [hchain]; rfl), ih]
    rfl

theorem forall₂_comp {α β γ : Type} {R : α → β → Prop} {S : β → γ → Prop} {l : List α} {out : List γ} :
    (∃ between, List.Forall₂ R l between ∧ List.Forall₂ S between out) ↔
      List.Forall₂ (fun a c => ∃ b, R a b ∧ S b c) l out := by
  constructor
  · rintro ⟨between, hr, hs⟩
    induction hr generalizing out with
    | nil =>
      cases hs
      exact .nil
    | cons hab _ ih =>
      cases hs with
      | cons hbc hrest => exact .cons ⟨_, hab, hbc⟩ (ih hrest)
  · intro h
    induction h with
    | nil => exact ⟨[], .nil, .nil⟩
    | cons hac _ ih =>
      obtain ⟨b, hab, hbc⟩ := hac
      obtain ⟨between, hr, hs⟩ := ih
      exact ⟨b :: between, .cons hab hr, .cons hbc hs⟩

theorem transformIn_pairs {enumerate : List Key → List Key} :
    service.transformIn n enumerate requests = .ok facts ↔
      ∃ pairs, List.Forall₂ (Paired service) requests pairs ∧ List.Forall₂ (fun p g => service.resolve
        (service.findAll n (enumerate (pairs.map keyOf).dedup)) p = .ok g) pairs facts := by
  simp only [← mapM_paired, ← mapM_ok_iff]
  unfold transformIn
  cases hempty : requests.isEmpty with
  | true =>
    rw [List.isEmpty_iff.mp hempty]
    simp [pure, Except.pure]
  | false =>
    cases requests.mapM fun r => (service.toChain r).map fun chain => (r, chain) with
    | error t => simp
    | ok pairs => simp

/-- Every request is resolved from what was found for all of them. -/
theorem transformIn_ok {enumerate : List Key → List Key} :
    service.transformIn n enumerate requests = .ok facts ↔
      List.Forall₂ (fun r g => ∃ chain, service.toChain r = .ok chain ∧
        service.resolve (service.findAll n (enumerate (keysOf service requests))) (r, chain) = .ok g)
        requests facts := by
  have hpaired : ∀ r g, (∃ p, Paired service r p ∧
      service.resolve (service.findAll n (enumerate (keysOf service requests))) p = .ok g) ↔
      ∃ chain, service.toChain r = .ok chain ∧
        service.resolve (service.findAll n (enumerate (keysOf service requests))) (r, chain) = .ok g := by
    intro r g
    constructor
    · rintro ⟨p, ⟨rfl, hchain⟩, hg⟩
      exact ⟨p.2, hchain, hg⟩
    · rintro ⟨chain, hchain, hg⟩
      exact ⟨(r, chain), ⟨rfl, hchain⟩, hg⟩
  simp only [← hpaired]
  rw [transformIn_pairs, ← forall₂_comp]
  refine exists_congr fun pairs => and_congr_right fun hpairs => ?_
  rw [keysOf_eq hpairs]

theorem doTransform_version {e : PgFact} (h : service.doTransform e chain = .ok g) :
    g.version = chain.toVersion := by
  unfold doTransform at h
  split at h
  · cases h
    rfl
  · cases h

section Resolves
variable {keys : List Key}

/-- What comes from the cache was looked up for a request about the same fact. -/
theorem resolve_from (hkeys : ∀ k ∈ keys, k ∈ keysOf service requests)
    (hstored : ∀ r ∈ requests, table r.toTransform.id = some r.toTransform) (hr : request ∈ requests)
    (hfound : (service.findAll n keys).find? (fun f => f.id == request.toTransform.id) = some g) :
    ∃ r ∈ requests, ∃ chain, r.toTransform = request.toTransform ∧ service.toChain r = .ok chain ∧
      (service.cache n).find r.toTransform.id chain.toVersion chain.id = some g ∧
      g.version = chain.toVersion := by
  have hid : g.id = request.toTransform.id := by simpa using List.find?_some hfound
  obtain ⟨k, hk, hcached⟩ := List.mem_filterMap.mp (List.mem_of_find?_eq_some hfound)
  obtain ⟨r, hrin, chain, hchain, rfl⟩ := mem_keysOf.mp (hkeys k hk)
  obtain ⟨e, payload, he, rfl⟩ := (service.cache n).made _ _ _ _ hcached
  obtain rfl : r.toTransform = e := Option.some.inj ((hstored r hrin).symm.trans he)
  have hsame : r.toTransform.id = request.toTransform.id := hid
  have hfact : r.toTransform = request.toTransform :=
    Option.some.inj ((hstored r hrin).symm.trans (hsame ▸ hstored request hr))
  exact ⟨r, hrin, chain, hfact, hchain, hcached, rfl⟩

/-- Together, no fact stays in its version. -/
theorem resolve_moves (hkeys : ∀ k ∈ keys, k ∈ keysOf service requests)
    (hstored : ∀ r ∈ requests, table r.toTransform.id = some r.toTransform)
    (hsearched : ∀ r ∈ requests, service.Searched r) (hr : request ∈ requests)
    (hchain : service.toChain request = .ok chain)
    (h : service.resolve (service.findAll n keys) (request, chain) = .ok g) :
    g.version ≠ request.toTransform.version := by
  unfold resolve at h
  split at h
  · rename_i cached hfound
    cases h
    obtain ⟨r, hrin, chain', hfact, hchain', _, hversion⟩ := resolve_from hkeys hstored hr hfound
    rw [hversion, ← hfact]
    exact (toChain_along (hsearched r hrin) hchain').moves
  · rw [doTransform_version h]
    exact (toChain_along (hsearched request hr) hchain).moves

/-- In an aligned list it does not matter what was found. -/
theorem resolve_aligned (haligned : service.Aligned n requests)
    (hkeys : ∀ k ∈ keys, k ∈ keysOf service requests)
    (hstored : ∀ r ∈ requests, table r.toTransform.id = some r.toTransform)
    (hsearched : ∀ r ∈ requests, service.Searched r) (hconsistent : service.Consistent n)
    (hr : request ∈ requests) (hchain : service.toChain request = .ok chain) :
    service.resolve (service.findAll n keys) (request, chain) =
      service.doTransform request.toTransform chain := by
  unfold resolve
  split
  · rename_i cached hfound
    obtain ⟨r, hrin, chain', hfact, hchain', hcached, _⟩ := resolve_from hkeys hstored hr hfound
    have hversion : chain.toVersion = chain'.toVersion := by
      apply haligned.same request hr r hrin (by rw [hfact]) chain chain' hchain hchain'
      rw [hcached]
      exact Option.some_ne_none _
    have hunique : chain = chain' := (toChain_along (hsearched request hr) hchain).unique
      (toChain_along (hsearched r hrin) hchain') hfact.symm hversion
    rw [hunique, ← hfact]
    exact (hconsistent r chain' cached (hstored r hrin) hchain' hcached).symm
  · rfl

/-- The key that comes first decides about its fact. -/
theorem resolve_first {k : Key} (hid : k.1 = request.toTransform.id)
    (hcached : (service.cache n).find k.1 k.2.1 k.2.2 = some g) (hg : g.id = k.1) :
    service.resolve (service.findAll n (k :: keys)) (request, chain) = .ok g := by
  have hfind : (service.findAll n (k :: keys)).find? (fun f => f.id == request.toTransform.id) = some g := by
    have hcons : service.findAll n (k :: keys) = g :: service.findAll n keys :=
      List.filterMap_cons_some (f := fun k : Key => (service.cache n).find k.1 k.2.1 k.2.2) hcached
    rw [hcons]
    exact List.find?_cons_of_pos (by simp [hg, hid])
  unfold resolve
  rw [hfind]

end Resolves

/-- What relates the elements of two lists, where it follows from something else that does. -/
theorem forall₂_imp_mem {α β : Type} {R S : α → β → Prop} {l : List α} {out : List β}
    (h : List.Forall₂ R l out) (himp : ∀ a ∈ l, ∀ b, R a b → S a b) : List.Forall₂ S l out :=
  ((List.forall₂_and_left l out).mpr ⟨fun _ ha => ha, h⟩).imp fun a b hab => himp a hab.1 b hab.2

theorem forall₂_left {α β : Type} {P : α → Prop} {l : List α} {out : List β}
    (h : List.Forall₂ (fun a _ => P a) l out) : ∀ a ∈ l, P a :=
  ((List.forall₂_and_left l out).mp (h.imp (S := fun a _ => P a ∧ True) fun _ _ ha => ⟨ha, trivial⟩)).1

/-- An aligned list gives the same either way. -/
theorem transformIn_aligned (haligned : service.Aligned n requests)
    (hstored : ∀ r ∈ requests, table r.toTransform.id = some r.toTransform)
    (hsearched : ∀ r ∈ requests, service.Searched r) (hconsistent : ∀ k, service.Consistent k)
    {enumerate : List Key → List Key} (henumerate : ∀ keys, (enumerate keys).Perm keys) :
    service.transformIn n enumerate requests = .ok facts ↔ service.transformEach m requests = .ok facts := by
  rw [transformIn_ok, transformEach_ok fun k r hr g =>
    transformOne_ok (hconsistent k) (hstored r hr) (haligned.unmet r hr)]
  have hkeys : ∀ k ∈ enumerate (keysOf service requests), k ∈ keysOf service requests :=
    fun k hk => (henumerate _).mem_iff.mp hk
  constructor
  · intro h
    refine forall₂_imp_mem h fun r hr g => ?_
    rintro ⟨chain, hchain, hg⟩
    rw [resolve_aligned haligned hkeys hstored hsearched (hconsistent n) hr hchain] at hg
    exact ⟨chain, hchain, hg⟩
  · intro h
    refine forall₂_imp_mem h fun r hr g => ?_
    rintro ⟨chain, hchain, hg⟩
    rw [← resolve_aligned haligned hkeys hstored hsearched (hconsistent n) hr hchain] at hg
    exact ⟨chain, hchain, hg⟩

instance : LawfulBEq Key := inferInstance

/-- The key before all others. -/
def frontOf (k : Key) (keys : List Key) : List Key := if k ∈ keys then k :: keys.erase k else keys

theorem frontOf_perm (k : Key) (keys : List Key) : (frontOf k keys).Perm keys := by
  unfold frontOf
  split
  · rename_i hk
    exact (List.perm_cons_erase hk).symm
  · exact .refl _

/-- A list that gives the same either way, in whatever order the keys are looked
up, is aligned. -/
theorem aligned_of_transformIn
    (hstored : ∀ r ∈ requests, table r.toTransform.id = some r.toTransform)
    (hsearched : ∀ r ∈ requests, service.Searched r) (hconsistent : ∀ k, service.Consistent k)
    (heach : service.transformEach m requests = .ok facts)
    (h : ∀ enumerate : List Key → List Key, (∀ keys, (enumerate keys).Perm keys) →
      service.transformIn n enumerate requests = .ok facts) : service.Aligned n requests := by
  have hunmet : ∀ r ∈ requests, r.toTransform.version ∉ r.targetVersions ∧ 0 ∉ r.targetVersions := by
    have htogether := transformIn_ok.mp (h id fun _ => .refl _)
    refine forall₂_left (List.Forall₂.mp (fun r g => ?_)
      (forall₂_imp_mem htogether fun r hr g hg => And.intro hr hg) (transformEach_each heach))
    rintro ⟨hr, chain, hchain, hg⟩ ⟨k, hone⟩
    have hmoves := resolve_moves (fun _ hk => hk) hstored hsearched hr hchain hg
    unfold transformOne at hone
    dsimp only at hone
    split at hone
    · cases hone
      exact absurd rfl hmoves
    · rename_i hpass
      simpa using hpass
  refine ⟨hunmet, fun r hr r' hr' hid chain chain' hchain hchain' hcached => ?_⟩
  -- what the cache has for the second request is found first, and taken for the first one
  obtain ⟨cached, hfind⟩ := Option.ne_none_iff_exists'.mp hcached
  obtain ⟨e, payload, he, rfl⟩ := (service.cache n).made _ _ _ _ hfind
  obtain rfl : r'.toTransform = e := Option.some.inj ((hstored r' hr').symm.trans he)
  have hkey : keyOf (r', chain') ∈ keysOf service requests := mem_keysOf.mpr ⟨r', hr', chain', hchain', rfl⟩
  have htogether := transformIn_ok.mp (h (frontOf (keyOf (r', chain'))) (frontOf_perm _))
  rw [frontOf, if_pos hkey] at htogether
  have halone := (transformEach_ok fun k r hr g =>
    transformOne_ok (hconsistent k) (hstored r hr) (hunmet r hr)).mp heach
  refine forall₂_left (P := fun a => a = r → chain.toVersion = chain'.toVersion)
    (List.Forall₂.mp (fun a g => ?_) htogether halone) r hr rfl
  rintro ⟨chain₁, _, hg₁⟩ ⟨chain₂, hchain₂, hg₂⟩ rfl
  have hfirst : service.resolve (service.findAll n (keyOf (r', chain') ::
      (keysOf service requests).erase (keyOf (r', chain')))) (a, chain₁) =
        .ok (r'.toTransform.transformed chain'.toVersion payload) := resolve_first hid.symm hfind rfl
  obtain rfl := Except.ok.inj (hfirst.symm.trans hg₁)
  obtain rfl := Except.ok.inj (hchain.symm.trans hchain₂)
  exact (doTransform_version hg₂).symm

/-- Where each request can be transformed on its own, the list gives the same facts
exactly if it is aligned; and an aligned list gives no facts that the requests would
not give on their own. -/
theorem batch_pointwise_iff (service : FactTransformerService table) (n m : Nat)
    (requests : List TransformationRequest)
    (hstored : ∀ r ∈ requests, table r.toTransform.id = some r.toTransform)
    (hsearched : ∀ r ∈ requests, service.Searched r) (hconsistent : ∀ k, service.Consistent k) :
    (∀ facts, service.transformEach m requests = .ok facts →
      ((∀ enumerate : List Key → List Key, (∀ keys, (enumerate keys).Perm keys) →
        service.transformIn n enumerate requests = .ok facts) ↔ service.Aligned n requests)) ∧
    (service.Aligned n requests → ∀ enumerate : List Key → List Key,
      (∀ keys, (enumerate keys).Perm keys) → ∀ facts,
      service.transformIn n enumerate requests = .ok facts → service.transformEach m requests = .ok facts) := by
  constructor
  · intro facts heach
    constructor
    · exact aligned_of_transformIn hstored hsearched hconsistent heach
    · intro haligned enumerate henumerate
      exact (transformIn_aligned haligned hstored hsearched hconsistent henumerate).mpr heach
  · intro haligned enumerate henumerate facts h
    exact (transformIn_aligned haligned hstored hsearched hconsistent henumerate).mp h

/-! ### One fact in two versions -/

open BufferedTransformingServerPipeline (placedOrder)

/-- To version 2, and from there to version 3; the payload stays. The order is there
in version 2 from the start, or not. -/
def upcaster (warm : Bool) : FactTransformerService fun _ => some placedOrder where
  registry := fun _ => [⟨1, 2⟩, ⟨2, 3⟩]
  search := fun _ _ v => if v = 2 then some [⟨1, 2⟩] else if v = 3 then some [⟨1, 2⟩, ⟨2, 3⟩] else none
  trans := fun _ payload => some payload
  cache := fun _ =>
    { find := fun id version chainId =>
        if warm = true ∧ id = placedOrder.id ∧ version = 2 ∧ chainId = "[1, 2]" then
          some (placedOrder.transformed 2 placedOrder.jsonPayload)
        else none
      made := by
        intro id version chainId g h
        split at h
        · rename_i hkey
          cases h
          exact ⟨placedOrder, _, rfl, by rw [hkey.2.2.1]⟩
        · cases h }

/-- The order in version 2 and in version 3. -/
def bothVersions : List TransformationRequest := [⟨placedOrder, [2]⟩, ⟨placedOrder, [3]⟩]

theorem bothVersions_stored : ∀ r ∈ bothVersions, some placedOrder = some r.toTransform := by
  intro r hr
  simp only [bothVersions, List.mem_cons, List.not_mem_nil, or_false] at hr
  rcases hr with rfl | rfl <;> rfl

theorem upcaster_consistent (warm : Bool) (n : Nat) : (upcaster warm).Consistent n := by
  intro request chain g hstored _ hcached
  rw [← Option.some.inj hstored]
  have hcached : (if warm = true ∧ request.toTransform.id = placedOrder.id ∧ chain.toVersion = 2 ∧
      chain.id = "[1, 2]" then some (placedOrder.transformed 2 placedOrder.jsonPayload) else none) =
      some g := hcached
  split at hcached
  · rename_i hkey
    cases hcached
    show Except.ok (placedOrder.transformed chain.toVersion placedOrder.jsonPayload) = _
    rw [hkey.2.2.1]
  · cases hcached

theorem upcaster_searched (warm : Bool) : ∀ r ∈ bothVersions, (upcaster warm).Searched r := by
  intro r hr
  simp only [bothVersions, List.mem_cons, List.not_mem_nil, or_false] at hr
  rcases hr with rfl | rfl
  · intro v hv
    obtain rfl : v = 2 := by simpa using hv
    refine ⟨fun path hpath => ?_, fun hnone => by cases hnone⟩
    cases hpath
    refine ⟨⟨List.mem_cons_self .., rfl, rfl⟩, fun other hother => ?_⟩
    cases other with
    | nil =>
      have hstay : placedOrder.version = 2 := hother
      exact absurd hstay (by decide)
    | cons => exact Nat.le_add_left 1 _
  · intro v hv
    obtain rfl : v = 3 := by simpa using hv
    refine ⟨fun path hpath => ?_, fun hnone => by cases hnone⟩
    cases hpath
    refine ⟨⟨List.mem_cons_self .., rfl, by simp [upcaster], rfl, rfl⟩, fun other hother => ?_⟩
    refine hother.two_le (by decide) fun e he hfrom => ?_
    simp only [upcaster, List.mem_cons, List.not_mem_nil, or_false] at he
    rcases he with rfl | rfl
    · decide
    · exact absurd hfrom (by decide)

/-- What comes out, for versions that can be computed. -/
theorem exists_facts {result : Except Throwable (List PgFact)} {vs : List Int}
    (h : (result.toOption.map fun facts => facts.map PgFact.version) = some vs) :
    ∃ facts, result = .ok facts ∧ facts.map PgFact.version = vs := by
  cases result with
  | error t => cases h
  | ok facts => exact ⟨facts, rfl, Option.some.inj h⟩

theorem upcaster_each (warm : Bool) :
    (((upcaster warm).transformEach 0 bothVersions).toOption.map fun facts =>
      facts.map PgFact.version) = some [2, 3] := by
  cases warm <;> decide +kernel

theorem upcaster_aligned : (upcaster false).Aligned 0 bothVersions := by
  refine ⟨by decide, fun r _ r' _ _ chain chain' _ _ hcached => absurd ?_ hcached⟩
  simp [upcaster]

theorem batch_pointwise_cold : ∃ facts, (upcaster false).transformEach 0 bothVersions = .ok facts ∧
    (upcaster false).transform 0 bothVersions = .ok facts ∧ facts.map PgFact.version = [2, 3] := by
  obtain ⟨facts, hfacts, hversions⟩ := exists_facts (upcaster_each false)
  have htogether := ((batch_pointwise_iff (upcaster false) 0 0 bothVersions bothVersions_stored
    (upcaster_searched false) (upcaster_consistent false)).1 facts hfacts).mpr upcaster_aligned
  exact ⟨facts, hfacts, htogether id fun _ => .refl _, hversions⟩

/-- With version 2 in the cache, it is what both requests give. -/
theorem warm_cache_shared : ¬ ∀ (service : FactTransformerService fun _ => some placedOrder) (n m : Nat)
    (requests : List TransformationRequest),
    (∀ r ∈ requests, some placedOrder = some r.toTransform) → (∀ r ∈ requests, service.Searched r) →
    (∀ k, service.Consistent k) → ∀ facts, service.transformEach m requests = .ok facts →
    ∀ enumerate : List Key → List Key, (∀ keys, (enumerate keys).Perm keys) →
      service.transformIn n enumerate requests = .ok facts := by
  intro hall
  obtain ⟨facts, hfacts, hversions⟩ := exists_facts (upcaster_each true)
  have htogether := hall (upcaster true) 0 0 bothVersions bothVersions_stored (upcaster_searched true)
    (upcaster_consistent true) facts hfacts id fun _ => .refl _
  have hcomputed : (((upcaster true).transformIn 0 id bothVersions).toOption.map fun facts =>
      facts.map PgFact.version) = some [2, 2] := by decide +kernel
  rw [htogether] at hcomputed
  exact absurd (hversions.symm.trans (Option.some.inj hcomputed)) (by decide)

end FactCast.FactTransformerService
