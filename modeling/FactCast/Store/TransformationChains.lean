import FactCast.Store.Transformation
import FactCast.Machine.Route
import Mathlib.Data.Finset.Dedup
import Mathlib.Data.Finset.Insert

/-! The chains that are found for a version and those requested.

Chains are kept by key, version and the set of requested versions, and built where
there is none yet (`get`). The set is gone through in any order. What is built is a
shortest route through the registered transformations to a requested version, and
a chain is missing only where there is no route; but of the routes found, that with
the highest sum is taken in 32 bits (`chain_right_iff`), so that versions that are
high enough count as low (`far_versions_lose`). -/
namespace FactCast.TransformationChains
open FactTransformerService (versions versionSum pickFinalPath)

abbrev Throwable := FactTransformerService.Throwable

/-- The chains that were built, as the registry had it then. -/
structure Chains {table : UUID → Option PgFact} (service : FactTransformerService table) where
  cache : TransformationKey → Int → Finset Int → Option TransformationChain
  built : ∀ key version requested chain, cache key version requested = some chain →
    ∃ order : List Int, order.toFinset = requested ∧ service.build key version order = .ok chain

variable {table : UUID → Option PgFact} {service : FactTransformerService table}

def Chains.empty (service : FactTransformerService table) : Chains service := ⟨fun _ _ _ => none, by simp⟩

/-- The chain is filed. -/
def Chains.add (chains : Chains service) (key : TransformationKey) (version : Int) (order : List Int)
    (chain : TransformationChain) (h : service.build key version order = .ok chain) : Chains service where
  cache k v r := if k = key ∧ v = version ∧ r = order.toFinset then some chain else chains.cache k v r
  built := by
    intro k v r other hother
    split at hother
    · rename_i heq
      obtain ⟨rfl, rfl, rfl⟩ := heq
      cases hother
      exact ⟨order, rfl, h⟩
    · exact chains.built k v r other hother

/-- The chain that is there, or is built. A failure is not kept. -/
def Chains.get (chains : Chains service) (key : TransformationKey) (version : Int) (order : List Int) :
    Except Throwable TransformationChain × Chains service :=
  match chains.cache key version order.toFinset with
  | some chain => (.ok chain, chains)
  | none =>
    match h : service.build key version order with
    | .ok chain => (.ok chain, chains.add key version order chain h)
    | .error e => (.error e, chains)

/-- The transformations of a key have changed. -/
def Chains.notifyFor (chains : Chains service) (key : TransformationKey) : Chains service where
  cache k v r := if k = key then none else chains.cache k v r
  built := by
    intro k v r chain hchain
    split at hchain
    · cases hchain
    · exact chains.built k v r chain hchain

/-! ### What a chain should be -/

section Requests
variable (service : FactTransformerService table) (key : TransformationKey) (version : Int)
  (requested : Finset Int)

/-- Registered transformations that bring the version to another one. -/
def Leads (path : List Edge) (v : Int) : Prop :=
  Route Edge.fromVersion Edge.toVersion (service.registry key) version path v

/-- The library finds a shortest path to every requested version that can be reached. -/
def Searches : Prop :=
  ∀ v ∈ requested, Route.Finds Edge.fromVersion Edge.toVersion (service.registry key) version
    (service.search (service.registry key) version v) v

/-- One of the shortest paths that were found. -/
structure Finalist (path : List Edge) : Prop where
  found : ∃ v ∈ requested, service.search (service.registry key) version v = some path
  shortest : ∀ v ∈ requested, ∀ other, service.search (service.registry key) version v = some other →
    path.length ≤ other.length

/-- A shortest route to a requested version, and of those found one with the highest sum. -/
structure Best (path : List Edge) : Prop where
  route : ∃ v ∈ requested, Leads service key version path v
  shortest : ∀ v ∈ requested, ∀ other, Leads service key version other v → path.length ≤ other.length
  latest : ∀ other, Finalist service key version requested other →
    (other.map Edge.toVersion).sum ≤ (path.map Edge.toVersion).sum

/-- A chain is the best there is, and is missing only if no requested version can be reached. -/
def Right : Except Throwable TransformationChain → Prop
  | .ok chain => Best service key version requested chain.steps ∧ chain.key = key ∧
      chain.fromVersion = version ∧ chain.toVersion ∈ requested ∧
      chain.id = versions (version :: chain.steps.map Edge.toVersion)
  | .error e => (∃ message, e = .transformationException message) ∧
      ∀ v ∈ requested, ∀ path, ¬ Leads service key version path v

/-- What has the highest sum in 32 bits has the highest sum. -/
def Agree : Prop :=
  ∀ path, Finalist service key version requested path →
    (∀ other, Finalist service key version requested other → versionSum other ≤ versionSum path) →
    ∀ other, Finalist service key version requested other →
      (other.map Edge.toVersion).sum ≤ (path.map Edge.toVersion).sum

end Requests

/-- So it is where the sums fit. -/
theorem agree_of_fits {key : TransformationKey} {version : Int} {requested : Finset Int}
    (h : ∀ path, Finalist service key version requested path →
      -(2 ^ 31) ≤ (path.map Edge.toVersion).sum ∧ (path.map Edge.toVersion).sum < 2 ^ 31) :
    Agree service key version requested := by
  have hsum : ∀ path, Finalist service key version requested path →
      versionSum path = (path.map Edge.toVersion).sum := by
    intro path hpath
    obtain ⟨hlow, hhigh⟩ := h path hpath
    exact Int.bmod_eq_of_le (by omega) (by omega)
  intro path hpath hhighest other hother
  rw [← hsum path hpath, ← hsum other hother]
  exact hhighest other hother

/-! ### What is picked -/

theorem pickFinalPath_some {paths : List (List Edge)} {path : List Edge}
    (h : pickFinalPath paths = some path) : path ∈ paths ∧ (∀ other ∈ paths, path.length ≤ other.length) ∧
      ∀ other ∈ paths, (∀ m ∈ paths, other.length ≤ m.length) → versionSum other ≤ versionSum path := by
  unfold pickFinalPath at h
  have hmem := List.mem_filter.mp (List.argmax_mem h)
  refine ⟨hmem.1, by simpa using hmem.2, fun other hother hshortest => ?_⟩
  apply List.le_of_mem_argmax (f := versionSum) _ h
  exact List.mem_filter.mpr ⟨hother, by simpa using hshortest⟩

theorem exists_shortest {paths : List (List Edge)} (hne : paths ≠ []) :
    ∃ path ∈ paths, ∀ other ∈ paths, path.length ≤ other.length := by
  cases hmin : paths.argmin List.length with
  | none => exact absurd (List.argmin_eq_none.mp hmin) hne
  | some path =>
    exact ⟨path, List.argmin_mem hmin, fun other hother => List.le_of_mem_argmin hother hmin⟩

theorem pickFinalPath_none {paths : List (List Edge)} (h : pickFinalPath paths = none) :
    paths = [] := by
  by_contra hne
  obtain ⟨path, hpath, hshortest⟩ := exists_shortest hne
  have hnil := List.argmax_eq_none.mp h
  have hmem : path ∈ paths.filter fun l => paths.all fun m => decide (l.length ≤ m.length) :=
    List.mem_filter.mpr ⟨hpath, by simpa using hshortest⟩
  rw [hnil] at hmem
  cases hmem

/-- Of the paths with the highest sum, the first is picked. -/
theorem pickFinalPath_cons {path : List Edge} {paths : List (List Edge)}
    (hshortest : ∀ other ∈ paths, path.length ≤ other.length)
    (hhighest : ∀ other ∈ paths, (∀ m ∈ path :: paths, other.length ≤ m.length) →
      versionSum other ≤ versionSum path) : pickFinalPath (path :: paths) = some path := by
  unfold pickFinalPath
  dsimp only
  rw [List.filter_cons_of_pos (by simpa using hshortest), List.argmax_cons]
  generalize hrest : (List.filter _ paths).argmax versionSum = best
  cases best with
  | none => rfl
  | some other =>
    have hmem := List.mem_filter.mp (List.argmax_mem hrest)
    have hle := hhighest other hmem.1 (by simpa using hmem.2)
    show (if versionSum path < versionSum other then some other else some path) = some path
    rw [if_neg (by omega)]

/-! ### What is built -/

section Builds
variable {key : TransformationKey} {version : Int} {requested : Finset Int} {order : List Int}
  {path : List Edge}

/-- The paths that are found lead where they should. -/
theorem mem_possiblePaths (hsearch : Searches service key version requested)
    (hnot : version ∉ requested) (horder : order.toFinset = requested) :
    path ∈ service.possiblePaths (service.registry key) version order ↔
      ∃ v ∈ requested, service.search (service.registry key) version v = some path := by
  have hin : ∀ v, v ∈ order ↔ v ∈ requested := by
    intro v
    rw [← horder, List.mem_toFinset]
  unfold FactTransformerService.possiblePaths
  rw [List.mem_filterMap]
  constructor
  · rintro ⟨v, hv, hfound⟩
    exact ⟨v, (hin v).mp hv, (Option.filter_eq_some_iff.mp hfound).1⟩
  · rintro ⟨v, hv, hfound⟩
    refine ⟨v, (hin v).mpr hv, Option.filter_eq_some_iff.mpr ⟨hfound, ?_⟩⟩
    have hroute := ((hsearch v hv).1 path hfound).1
    obtain ⟨first, last, hhead, hlast, hfrom, hto⟩ := hroute.ends fun heq => hnot (heq ▸ hv)
    simp [hhead, hlast, hfrom, hto, hin, hv]

theorem finalist_iff (hsearch : Searches service key version requested)
    (hnot : version ∉ requested) (horder : order.toFinset = requested) :
    Finalist service key version requested path ↔
      path ∈ service.possiblePaths (service.registry key) version order ∧
        ∀ other ∈ service.possiblePaths (service.registry key) version order,
          path.length ≤ other.length := by
  have hmem : ∀ p, p ∈ service.possiblePaths (service.registry key) version order ↔
      ∃ v ∈ requested, service.search (service.registry key) version v = some p :=
    fun _ => mem_possiblePaths hsearch hnot horder
  constructor
  · intro h
    refine ⟨(hmem path).mpr h.found, fun other hother => ?_⟩
    obtain ⟨v, hv, hfound⟩ := (hmem other).mp hother
    exact h.shortest v hv other hfound
  · rintro ⟨hpath, hshortest⟩
    exact ⟨(hmem path).mp hpath, fun v hv other hfound =>
      hshortest other ((hmem other).mpr ⟨v, hv, hfound⟩)⟩

/-- The chain that goes along a path. -/
structure Follows (chain : TransformationChain) (key : TransformationKey) (version : Int)
    (requested : Finset Int) (path : List Edge) : Prop where
  steps : chain.steps = path
  key : chain.key = key
  fromVersion : chain.fromVersion = version
  toVersion : chain.toVersion ∈ requested
  id : chain.id = versions (version :: path.map Edge.toVersion)

theorem build_picked (hne : requested.Nonempty) (horder : order.toFinset = requested)
    (hsearch : Searches service key version requested) (hnot : version ∉ requested)
    (hpick : pickFinalPath (service.possiblePaths (service.registry key) version order) = some path) :
    ∃ chain, service.build key version order = .ok chain ∧
      Follows chain key version requested path := by
  obtain ⟨v, hv, hfound⟩ :=
    (mem_possiblePaths hsearch hnot horder).mp (pickFinalPath_some hpick).1
  have hroute := ((hsearch v hv).1 path hfound).1
  have hsome : order.isEmpty = false := by
    cases order with
    | nil => exact absurd horder.symm hne.ne_empty
    | cons => rfl
  obtain ⟨first, last, hhead, hlast, hfrom, hto⟩ := hroute.ends fun heq => hnot (heq ▸ hv)
  cases path with
  | nil => cases hhead
  | cons e rest =>
    obtain rfl : e = first := Option.some.inj hhead
    have hregistry : (service.registry key).isEmpty = false := by
      cases hall : service.registry key with
      | nil => cases hall ▸ hroute.1
      | cons => rfl
    have hlast' : (e :: rest).getLast (by simp) = last :=
      Option.some.inj ((List.getLast?_eq_some_getLast _).symm.trans hlast)
    refine ⟨⟨versions (e.fromVersion :: (e :: rest).map Edge.toVersion), key, e.fromVersion,
      ((e :: rest).getLast (by simp)).toVersion, e :: rest⟩, ?_, ?_⟩
    · unfold FactTransformerService.build
      rw [hsome, hregistry, hpick]
      rfl
    · exact ⟨rfl, rfl, hfrom, by rw [hlast', hto]; exact hv, by rw [← hfrom]⟩

theorem build_unpicked (hne : requested.Nonempty) (horder : order.toFinset = requested)
    (hpick : pickFinalPath (service.possiblePaths (service.registry key) version order) = none) :
    ∃ message, service.build key version order = .error (.transformationException message) := by
  have hsome : order.isEmpty = false := by
    cases order with
    | nil => exact absurd horder.symm hne.ne_empty
    | cons => rfl
  unfold FactTransformerService.build
  rw [hsome, hpick]
  cases (service.registry key).isEmpty with
  | true => exact ⟨_, rfl⟩
  | false => exact ⟨_, rfl⟩

/-- A finalist is as short as any route to a requested version. -/
theorem Finalist.le (h : Finalist service key version requested path)
    (hsearch : Searches service key version requested) {v : Int} (hv : v ∈ requested)
    {other : List Edge} (hother : Leads service key version other v) : path.length ≤ other.length := by
  cases hfound : service.search (service.registry key) version v with
  | none => exact absurd hother ((hsearch v hv).2 hfound other)
  | some found =>
    exact Nat.le_trans (h.shortest v hv found hfound) (((hsearch v hv).1 found hfound).2 other hother)

/-- Whatever the order, what is built is right if the sums agree. -/
theorem build_right (hne : requested.Nonempty) (horder : order.toFinset = requested)
    (hsearch : Searches service key version requested) (hnot : version ∉ requested)
    (hagree : Agree service key version requested) :
    Right service key version requested (service.build key version order) := by
  cases hpick : pickFinalPath (service.possiblePaths (service.registry key) version order) with
  | none =>
    obtain ⟨message, hbuild⟩ := build_unpicked hne horder hpick
    rw [hbuild]
    refine ⟨⟨message, rfl⟩, fun v hv other hother => ?_⟩
    cases hfound : service.search (service.registry key) version v with
    | none => exact (hsearch v hv).2 hfound other hother
    | some found =>
      have hmem := (mem_possiblePaths hsearch hnot horder).mpr ⟨v, hv, hfound⟩
      rw [pickFinalPath_none hpick] at hmem
      cases hmem
  | some path =>
    obtain ⟨chain, hbuild, hfollows⟩ := build_picked hne horder hsearch hnot hpick
    obtain ⟨hmem, hshortest, hhighest⟩ := pickFinalPath_some hpick
    have hfinalist : Finalist service key version requested path :=
      (finalist_iff hsearch hnot horder).mpr ⟨hmem, hshortest⟩
    obtain ⟨v, hv, hfound⟩ := hfinalist.found
    rw [hbuild]
    refine ⟨?_, hfollows.key, hfollows.fromVersion, hfollows.toVersion, ?_⟩
    · rw [hfollows.steps]
      refine ⟨⟨v, hv, ((hsearch v hv).1 path hfound).1⟩, fun v hv other => hfinalist.le hsearch hv, ?_⟩
      apply hagree path hfinalist
      intro other hother
      have hother := (finalist_iff hsearch hnot horder).mp hother
      exact hhighest other hother.1 hother.2
    · rw [hfollows.steps]
      exact hfollows.id

/-- The set may be gone through from any of its versions. -/
theorem exists_order {v : Int} (hv : v ∈ requested) :
    ∃ rest : List Int, (v :: rest).Nodup ∧ (v :: rest).toFinset = requested := by
  obtain ⟨rest, hnodup, hrest⟩ := (requested.erase v).exists_list_nodup_eq
  refine ⟨rest, List.nodup_cons.mpr ⟨fun hmem => ?_, hnodup⟩, ?_⟩
  · rw [← List.mem_toFinset, hrest] at hmem
    exact Finset.notMem_erase v requested hmem
  · rw [List.toFinset_cons, hrest, Finset.insert_erase hv]

/-- If it is right in every order, the sums agree. -/
theorem agree_of_build (hne : requested.Nonempty) (hsearch : Searches service key version requested)
    (hnot : version ∉ requested)
    (hright : ∀ order : List Int, order.Nodup → order.toFinset = requested →
      Right service key version requested (service.build key version order)) :
    Agree service key version requested := by
  intro path hpath hhighest other hother
  obtain ⟨v, hv, hfound⟩ := hpath.found
  obtain ⟨rest, hnodup, horder⟩ := exists_order hv
  -- what is found first is picked
  obtain ⟨paths, hpaths⟩ : ∃ paths,
      service.possiblePaths (service.registry key) version (v :: rest) = path :: paths := by
    have hroute := ((hsearch v hv).1 path hfound).1
    obtain ⟨first, last, hhead, hlast, hfrom, hto⟩ := hroute.ends fun heq => hnot (heq ▸ hv)
    unfold FactTransformerService.possiblePaths
    rw [List.filterMap_cons_some (b := path)]
    · exact ⟨_, rfl⟩
    · refine Option.filter_eq_some_iff.mpr ⟨hfound, ?_⟩
      simp [hhead, hlast, hfrom, hto]
  have hpick : pickFinalPath (service.possiblePaths (service.registry key) version (v :: rest)) =
      some path := by
    have hiff : ∀ p, Finalist service key version requested p ↔
        p ∈ service.possiblePaths (service.registry key) version (v :: rest) ∧
          ∀ other ∈ service.possiblePaths (service.registry key) version (v :: rest),
            p.length ≤ other.length := fun _ => finalist_iff hsearch hnot horder
    rw [hpaths] at hiff ⊢
    apply pickFinalPath_cons
    · intro m hm
      exact ((hiff path).mp hpath).2 m (List.mem_cons_of_mem path hm)
    · intro m hm hshortest
      exact hhighest m ((hiff m).mpr ⟨List.mem_cons_of_mem path hm, hshortest⟩)
  obtain ⟨chain, hbuild, hfollows⟩ := build_picked hne horder hsearch hnot hpick
  have hbest := hright (v :: rest) hnodup horder
  rw [hbuild] at hbest
  have hlatest := hbest.1.latest other hother
  rwa [hfollows.steps] at hlatest

end Builds

theorem get_empty (key : TransformationKey) (version : Int) (order : List Int) :
    ((Chains.empty service).get key version order).1 = service.build key version order := by
  unfold Chains.get
  split
  · rename_i chain hchain
    cases hchain
  · split
    · rename_i hbuild
      exact hbuild.symm
    · rename_i hbuild
      exact hbuild.symm

/-- However the set is gone through, whatever chains were built before, the chain is
right, exactly if among the paths found the highest sum in 32 bits is the highest. -/
theorem chain_right_iff (service : FactTransformerService table) (key : TransformationKey)
    (version : Int) (requested : Finset Int) (hne : requested.Nonempty) (hnot : version ∉ requested)
    (hsearch : Searches service key version requested) :
    (∀ (chains : Chains service) (order : List Int), order.Nodup → order.toFinset = requested →
      Right service key version requested (chains.get key version order).1) ↔
      Agree service key version requested := by
  constructor
  · intro hright
    apply agree_of_build hne hsearch hnot
    intro order hnodup horder
    rw [← get_empty]
    exact hright (.empty service) order hnodup horder
  · intro hagree chains order _ horder
    unfold Chains.get
    split
    · rename_i chain hchain
      obtain ⟨order', horder', hbuild⟩ := chains.built _ _ _ _ hchain
      rw [← hbuild]
      exact build_right hne (horder'.trans horder) hsearch hnot hagree
    · have hright := build_right hne horder hsearch hnot hagree
      split
      · rename_i hbuild
        rwa [hbuild] at hright
      · rename_i hbuild
        rwa [hbuild] at hright

/-! ### Two ways to go -/

def orderPlaced : TransformationKey := ⟨"shop", "OrderPlaced"⟩

/-- From version 1, two steps lead to version 3, and two to a later version. -/
def fork (late : Int) : FactTransformerService fun _ => none where
  registry := fun _ => [⟨1, late⟩, ⟨late, late + 1⟩, ⟨1, 2⟩, ⟨2, 3⟩]
  search := fun _ _ v =>
    if v = 3 then some [⟨1, 2⟩, ⟨2, 3⟩] else if v = late + 1 then some [⟨1, late⟩, ⟨late, late + 1⟩]
    else none
  trans := fun _ payload => some payload
  cache := fun _ => .empty _

theorem fork_searches (late : Int) (h : 3 < late) : Searches (fork late) orderPlaced 1 {3, late + 1} := by
  have hroute : ∀ v, v = 3 ∨ v = late + 1 → ∀ other,
      Route Edge.fromVersion Edge.toVersion ((fork late).registry orderPlaced) 1 other v →
      2 ≤ other.length := by
    intro v hv other hother
    refine hother.two_le (by omega) fun e he hfrom => ?_
    simp only [fork, List.mem_cons, List.not_mem_nil, or_false] at he
    rcases he with rfl | rfl | rfl | rfl <;> simp at hfrom ⊢ <;> omega
  intro v hv
  simp only [Finset.mem_insert, Finset.mem_singleton] at hv
  rcases hv with rfl | rfl
  · refine ⟨fun path hpath => ?_, fun hnone => ?_⟩
    · cases hpath
      exact ⟨by simp [Route, fork], hroute 3 (.inl rfl)⟩
    · cases hnone
  · have hfound : (fork late).search ((fork late).registry orderPlaced) 1 (late + 1) =
        some [⟨1, late⟩, ⟨late, late + 1⟩] := by
      show (if late + 1 = 3 then _ else if late + 1 = late + 1 then _ else none) = _
      rw [if_neg (by omega), if_pos rfl]
    refine ⟨fun path hpath => ?_, fun hnone => ?_⟩
    · obtain rfl := Option.some.inj (hfound.symm.trans hpath)
      exact ⟨by simp [Route, fork], hroute (late + 1) (.inr rfl)⟩
    · cases hfound.symm.trans hnone

theorem fork_agrees : Agree (fork 4) orderPlaced 1 {3, 5} := by
  apply agree_of_fits
  rintro path ⟨⟨v, hv, hfound⟩, _⟩
  simp only [Finset.mem_insert, Finset.mem_singleton] at hv
  rcases hv with rfl | rfl
  · cases hfound
    decide
  · cases hfound
    decide

theorem chain_right_fork :
    Right (fork 4) orderPlaced 1 {3, 5} ((Chains.empty (fork 4)).get orderPlaced 1 [3, 5]).1 :=
  (chain_right_iff (fork 4) orderPlaced 1 {3, 5} (by simp) (by decide)
    (fork_searches 4 (by decide))).mpr fork_agrees (.empty _) [3, 5] (by decide) (by decide)

/-- Two billion and the version after that count less than two and three. -/
theorem far_versions_lose : ¬ ∀ (service : FactTransformerService fun _ => none) (key : TransformationKey)
    (version : Int) (requested : Finset Int), requested.Nonempty → version ∉ requested →
    Searches service key version requested → ∀ (chains : Chains service) (order : List Int),
      order.Nodup → order.toFinset = requested →
      Right service key version requested (chains.get key version order).1 := by
  intro hall
  have hsearch := fork_searches 2000000000 (by decide)
  have hright := hall (fork 2000000000) orderPlaced 1 {3, 2000000001} (by simp) (by decide) hsearch
    (.empty _) [3, 2000000001] (by decide) (by decide)
  have horder : [3, 2000000001].toFinset = ({3, 2000000001} : Finset Int) := by decide
  have hpick : pickFinalPath ((fork 2000000000).possiblePaths ((fork 2000000000).registry orderPlaced) 1
      [3, 2000000001]) = some [⟨1, 2⟩, ⟨2, 3⟩] := by decide
  obtain ⟨chain, hbuild, hfollows⟩ := build_picked (by simp) horder hsearch (by decide) hpick
  rw [get_empty, hbuild] at hright
  have hlate : Finalist (fork 2000000000) orderPlaced 1 {3, 2000000001}
      [⟨1, 2000000000⟩, ⟨2000000000, 2000000001⟩] :=
    (finalist_iff hsearch (by decide) horder).mpr (by decide)
  have hle := hright.1.latest _ hlate
  rw [hfollows.steps] at hle
  exact absurd hle (by decide)

end FactCast.TransformationChains
