import FactCast.Factus.Apply

/-! A batch, all of it or what came before the failure.

Whatever the calls to adapter, handlers and projection do, a projection that had no
transaction running has none afterwards (`leaves_doApply`). If the store keeps its
word, the committed state and position of a transactional projection are those
after the whole batch, or after the facts before the first whose handler throws
(`doApply_ok`, `doApply_fails`). -/
namespace FactCast.ProjectorImpl
variable {W τ σ : Type}

/-! ### No transaction is left running -/

def Idle (s : Target W τ) : Prop := s.runningTransaction = none

/-- A transaction is running, unless the projection has none. -/
def Projection.Begun (p : Projection W τ) (s : Target W τ) : Prop :=
  match p.awareness with
  | .transactionAware _ _ _ => s.runningTransaction.isSome = true
  | _ => Idle s

section Idle
variable {p : Projection W τ} {s : Target W τ} {adapter : TransactionAdapter W τ}

theorem leaves_within {call : W → Completion Throwable W} {P : Target W τ → Prop}
    (hP : ∀ w, P { s with world := w }) : (s.within call).Leaves P fun _ => P := by
  apply Completion.leaves_map
  cases call s.world with
  | normally w => exact hP w
  | abruptly e w => exact hP w

/-- What depends on the transaction alone is not touched by the world. -/
theorem begun_world (h : p.Begun s) (w : W) : p.Begun { s with world := w } := h

theorem idle_world (h : Idle s) (w : W) : Idle { s with world := w } := h

theorem leaves_begin (h : Idle s) : (beginIfTransactional p s).Leaves p.Begun fun _ => Idle := by
  unfold beginIfTransactional Projection.Begun
  cases p.awareness with
  | transactionAware adapter _ _ =>
    unfold TransactionBehavior.begin_
    rw [h]
    dsimp only
    rcases adapter.beginNewTransaction s.world with ⟨_ | t, w⟩
    · rfl
    · rfl
  | unaware => exact h
  | factStreamPositionAware _ => exact h

theorem leaves_finish {t : τ} (ht : s.runningTransaction = some t)
    (call : τ → W → Completion Throwable W) :
    (TransactionBehavior.finish s call).Leaves Idle fun _ => Idle := by
  unfold TransactionBehavior.finish
  rw [ht]
  dsimp only
  cases call t s.world with
  | normally w => rfl
  | abruptly e w => rfl

/-- A call that finishes the transaction, if the projection has one. -/
theorem leaves_ifTransactional {c : Completion Throwable (Target W τ)} (h : p.Begun s)
    (htx : ∀ adapter set direct, p.awareness = .transactionAware adapter set direct →
      ∃ call, c = TransactionBehavior.finish s call)
    (hnone : (∀ adapter set direct, p.awareness ≠ .transactionAware adapter set direct) → c = .normally s) :
    c.Leaves Idle fun _ => Idle := by
  unfold Projection.Begun at h
  split at h
  · rename_i adapter set direct hp
    obtain ⟨t, ht⟩ := Option.isSome_iff_exists.mp h
    obtain ⟨call, rfl⟩ := htx adapter set direct hp
    exact leaves_finish ht call
  · rename_i hp
    rw [hnone hp]
    exact h

theorem leaves_rollback (h : p.Begun s) : (rollbackIfTransactional p s).Leaves Idle fun _ => Idle := by
  apply leaves_ifTransactional h
  · intro adapter set direct hp
    exact ⟨adapter.rollback, by rw [rollbackIfTransactional, hp]; rfl⟩
  · intro hp
    unfold rollbackIfTransactional
    split
    · exact absurd ‹_› (hp _ _ _)
    · rfl

theorem leaves_commit (h : p.Begun s) : (commitIfTransactional p s).Leaves Idle fun _ => Idle := by
  apply leaves_ifTransactional h
  · intro adapter set direct hp
    exact ⟨adapter.commit, by rw [commitIfTransactional, hp]; rfl⟩
  · intro hp
    unfold commitIfTransactional
    split
    · exact absurd ‹_› (hp _ _ _)
    · rfl

theorem leaves_setPosition (latest : FactStreamPosition) (h : p.Begun s) :
    (setFactStreamPositionIfAware p latest s).Leaves p.Begun fun _ => p.Begun := by
  unfold setFactStreamPositionIfAware
  split
  · split
    · exact h
    · exact leaves_within (begun_world h)
  · exact leaves_within (begun_world h)
  · exact h

theorem leaves_setPositionNotTransactional (latest : FactStreamPosition) (h : p.Begun s) :
    (setFactStreamPositionIfAwareButNotTransactional p latest s).Leaves p.Begun fun _ => p.Begun := by
  unfold setFactStreamPositionIfAwareButNotTransactional
  split
  · exact h
  · exact leaves_setPosition _ h

theorem leaves_setPositionTransactional (latest : Option FactStreamPosition) (h : p.Begun s) :
    (setFactStreamPositionIfTransactional p latest s).Leaves p.Begun fun _ => p.Begun := by
  unfold setFactStreamPositionIfTransactional
  split
  · exact leaves_setPosition _ h
  · exact h

theorem leaves_dispatch {f : DeliveredFact} (h : p.Begun s) :
    (dispatch p f s).Leaves p.Begun fun _ => p.Begun := by
  unfold dispatch
  split
  · rename_i handler _
    have hcall : (s.within (p.invoke handler f s.runningTransaction)).Leaves p.Begun fun _ => p.Begun :=
      leaves_within (begun_world h)
    split
    · rename_i hw
      rw [hw] at hcall
      exact hcall
    · rename_i hw
      rw [hw] at hcall
      exact hcall
  · exact (leaves_within (begun_world h)).andThen fun _ h => h

/-- The loop ends where it began, as far as transactions are concerned. -/
theorem begun_loop (facts : List DeliveredFact) (latest : Option FactStreamPosition) (h : p.Begun s) :
    p.Begun (loop p latest s facts).state := by
  induction facts generalizing latest s with
  | nil => exact h
  | cons f rest ih =>
    have hcall : ((dispatch p f s).andThen (setFactStreamPositionIfAwareButNotTransactional p
        (.from_ f))).Leaves p.Begun fun _ => p.Begun :=
      (leaves_dispatch h).andThen fun _ h => leaves_setPositionNotTransactional _ h
    unfold loop
    cases hc : (dispatch p f s).andThen
        (setFactStreamPositionIfAwareButNotTransactional p (.from_ f)) with
    | normally s' =>
      rw [hc] at hcall
      exact ih _ hcall
    | abruptly e s' =>
      rw [hc] at hcall
      exact hcall

theorem leaves_onError {e : Throwable} (h : Idle s) :
    (s.within (p.onError e)).Leaves Idle fun _ => Idle :=
  leaves_within (idle_world h)

/-- **Whatever throws, no transaction is left running.** The induction follows the
batches that are applied again, each shorter than the one that failed. -/
theorem leaves_doApply (facts : List DeliveredFact) (h : Idle s) :
    (doApply p facts s).Leaves Idle fun _ => Idle := by
  induction hn : facts.length using Nat.strong_induction_on generalizing facts s with
  | _ n ih =>
    rw [doApply]
    refine (leaves_begin h).andThen fun s hs => ?_
    have hloop := begun_loop facts none hs
    split
    · rename_i f e s' hcaught
      rw [hcaught] at hloop
      refine (leaves_rollback hloop).andThen fun s hs => ?_
      refine Completion.Leaves.andThen (N := Idle) ?_ fun s hs =>
        (leaves_onError hs).andThen fun s hs => hs
      split
      · split
        · exact hs
        · rename_i k hk
          split
          · exact hs
          · have hlt := indexOf_lt hk
            exact ih k (by omega) (facts.take k) hs (by rw [List.length_take]; omega)
      · exact hs
    · rename_i latest s' hended
      rw [hended] at hloop
      have hset : (setFactStreamPositionIfTransactional p latest s').Leaves p.Begun fun _ => p.Begun :=
        leaves_setPositionTransactional latest hloop
      split
      · rename_i e s'' habrupt
        rw [habrupt] at hset
        exact (leaves_rollback hset).andThen fun s hs => (leaves_onError hs).andThen fun s hs => hs
      · rename_i s'' hnormal
        rw [hnormal] at hset
        have hcommit := leaves_commit hset
        split
        · rename_i hc
          rw [hc] at hcommit
          exact hcommit
        · rename_i hc
          rw [hc] at hcommit
          split
          · exact (leaves_onError hcommit).andThen fun s hs => hs
          · exact hcommit

end Idle

/-! ### What handlers make of a state -/

/-- What is kept for a projection. -/
structure Applied (σ : Type) where
  state : σ
  factStreamPosition : Option FactStreamPosition

/-- After some facts, which led to the state. -/
def Applied.after (v : Applied σ) (state : σ) (facts : List DeliveredFact) : Applied σ where
  state := state
  factStreamPosition := (facts.getLast?.map .from_).or v.factStreamPosition

/-- Deterministic handlers. -/
abbrev Handling (σ : Type) := Handler → DeliveredFact → σ → Except Throwable σ

/-- What dispatching a fact makes of a state, or what is thrown. -/
def effect (p : Projection W τ) (handling : Handling σ) (state : σ) (f : DeliveredFact) :
    Except Throwable σ :=
  match callHandlerFor p.dispatchInfo f.toPgFact with
  | .ok h =>
    match handling h f state with
    | .ok next => .ok next
    | .error e => .error e.toRuntime
  | .error e => .error (.invalidHandlerDefinition e)

def applyAll (p : Projection W τ) (handling : Handling σ) (state : σ) :
    List DeliveredFact → Except Throwable σ
  | [] => .ok state
  | f :: rest =>
    match effect p handling state f with
    | .ok next => applyAll p handling next rest
    | .error e => .error e

/-- The handlers of the first `n` facts lead to a state in which the next one throws. -/
def FailsAt (p : Projection W τ) (handling : Handling σ) (start : σ) (facts : List DeliveredFact)
    (n : Nat) (e : Throwable) (reached : σ) : Prop :=
  applyAll p handling start (facts.take n) = .ok reached ∧
    ∃ f, facts[n]? = some f ∧ effect p handling reached f = .error e

section Handling
variable {p : Projection W τ} {handling : Handling σ} {v : Applied σ} {state next : σ}
  {f : DeliveredFact} {facts rest : List DeliveredFact} {e : Throwable} {n : Nat}

theorem after_after : (v.after state [f]).after next rest = v.after next (f :: rest) := by
  unfold Applied.after
  cases hlast : rest.getLast? with
  | none => simp [List.getLast?_eq_none_iff.mp hlast]
  | some g => simp [List.getLast?_cons, hlast]

theorem last_cons (latest : Option FactStreamPosition) :
    (rest.getLast?.map FactStreamPosition.from_).or (some (.from_ f)) =
      ((f :: rest).getLast?.map .from_).or latest := by
  cases hlast : rest.getLast? with
  | none => simp [List.getLast?_eq_none_iff.mp hlast]
  | some g => simp [List.getLast?_cons, hlast]

theorem toRuntime_toRuntime : e.toRuntime.toRuntime = e.toRuntime := by cases e <;> rfl

/-- What is thrown needs no further wrapping. -/
theorem toRuntime_effect (h : effect p handling state f = .error e) : e.toRuntime = e := by
  unfold effect at h
  split at h
  · split at h
    · cases h
    · cases h
      exact toRuntime_toRuntime
  · cases h
    rfl

theorem applyAll_cons_ok (h : applyAll p handling state (f :: rest) = .ok next) :
    ∃ mid, effect p handling state f = .ok mid ∧ applyAll p handling mid rest = .ok next := by
  unfold applyAll at h
  split at h
  · exact ⟨_, ‹_›, h⟩
  · cases h

/-- The facts before the one that fails are found again by its identifier. -/
theorem indexOf_of_distinct (hdistinct : (facts.map fun f => f.id).Nodup) (h : facts[n]? = some f) :
    indexOf facts f = some n := by
  obtain ⟨hn, rfl⟩ := List.getElem?_eq_some_iff.mp h
  unfold indexOf
  rw [List.findIdx?_eq_some_iff_getElem]
  refine ⟨hn, beq_self_eq_true _, fun j hj hid => ?_⟩
  have hjlen : j < (facts.map fun f => f.id).length := by
    rw [List.length_map]
    omega
  have hnlen : n < (facts.map fun f => f.id).length := by rwa [List.length_map]
  have hsame : (facts.map fun f => f.id)[j] = (facts.map fun f => f.id)[n] := by simpa using hid
  have := (List.Nodup.getElem_inj_iff hdistinct).mp hsame
  omega

end Handling

/-! ### The loop, wherever it keeps what it does -/

/-- The target shows `v`, and a call for a fact takes it to what the handler makes of
it, or else leaves a trace of where it was. -/
structure Follows (p : Projection W τ) (handling : Handling σ)
    (Shows Trace : Applied σ → Target W τ → Prop) : Prop where
  handled : ∀ v s f next, Shows v s → effect p handling v.state f = .ok next →
    ∃ s', (dispatch p f s).andThen (setFactStreamPositionIfAwareButNotTransactional p (.from_ f)) =
      .normally s' ∧ Shows (v.after next [f]) s'
  failed : ∀ v s f e, Shows v s → effect p handling v.state f = .error e →
    ∃ s', (dispatch p f s).andThen (setFactStreamPositionIfAwareButNotTransactional p (.from_ f)) =
      .abruptly e s' ∧ Trace v s'

section Loop
variable {p : Projection W τ} {handling : Handling σ} {Shows Trace : Applied σ → Target W τ → Prop}
  {v : Applied σ} {s : Target W τ} {facts : List DeliveredFact} {reached : σ} {n : Nat}
  {e : Throwable}

theorem Follows.loop_ok (hp : Follows p handling Shows Trace) (latest : Option FactStreamPosition)
    (hs : Shows v s) (h : applyAll p handling v.state facts = .ok reached) :
    ∃ s', loop p latest s facts = .ended ((facts.getLast?.map .from_).or latest) s' ∧
      Shows (v.after reached facts) s' := by
  induction facts generalizing v s latest with
  | nil =>
    cases h
    exact ⟨s, rfl, hs⟩
  | cons f rest ih =>
    obtain ⟨mid, hmid, hrest⟩ := applyAll_cons_ok h
    obtain ⟨s', hstep, hs'⟩ := hp.handled v s f mid hs hmid
    obtain ⟨s'', hloop, hs''⟩ := ih (some (.from_ f)) hs' hrest
    refine ⟨s'', ?_, ?_⟩
    · unfold loop
      rw [hstep]
      dsimp only
      rw [hloop, last_cons latest]
    · rw [← after_after]
      exact hs''

theorem Follows.loop_fails (hp : Follows p handling Shows Trace) (latest : Option FactStreamPosition)
    (hs : Shows v s) (h : FailsAt p handling v.state facts n e reached) :
    ∃ f s', facts[n]? = some f ∧ e.toRuntime = e ∧ loop p latest s facts = .caught f e s' ∧
      Trace (v.after reached (facts.take n)) s' := by
  obtain ⟨hok, f, hf, herror⟩ := h
  induction facts generalizing v s latest n with
  | nil => cases hf
  | cons g rest ih =>
    cases n with
    | zero =>
      obtain rfl : g = f := by simpa using hf
      cases hok
      obtain ⟨s', hstep, htrace⟩ := hp.failed v s g e hs herror
      refine ⟨g, s', rfl, toRuntime_effect herror, ?_, htrace⟩
      unfold loop
      rw [hstep]
    | succ n =>
      rw [List.take_succ_cons] at hok
      obtain ⟨mid, hmid, hrest⟩ := applyAll_cons_ok hok
      obtain ⟨s', hstep, hs'⟩ := hp.handled v s g mid hs hmid
      obtain ⟨f', s'', hf', he, hloop, htrace⟩ := ih (some (.from_ g)) hs' hrest hf
      refine ⟨f', s'', hf', he, ?_, ?_⟩
      · unfold loop
        rw [hstep]
        exact hloop
      · rw [List.take_succ_cons, ← after_after]
        exact htrace

end Loop

/-! ### Stores that keep their word -/

/-- A transactional store whose begin, commit and rollback succeed: what is done in a
transaction is pending until it is committed, and gone if it is rolled back. -/
structure TransactionalStore (p : Projection W τ) (adapter : TransactionAdapter W τ)
    (set : FactStreamPosition → τ → W → Completion Throwable W) (handling : Handling σ) where
  committed : W → Applied σ
  pending : τ → W → Applied σ
  begins : ∀ w, ∃ t w', adapter.beginNewTransaction w = (.ok t, w') ∧ committed w' = committed w ∧
    pending t w' = committed w
  handles : ∀ h f t w next, handling h f (pending t w).state = .ok next →
    ∃ w', p.invoke h f (some t) w = .normally w' ∧ committed w' = committed w ∧
      pending t w' = { pending t w with state := next }
  throws : ∀ h f t w e, handling h f (pending t w).state = .error e →
    ∃ w', p.invoke h f (some t) w = .abruptly e w' ∧ committed w' = committed w
  sets : ∀ position t w, ∃ w', set position t w = .normally w' ∧ committed w' = committed w ∧
    pending t w' = { pending t w with factStreamPosition := some position }
  commits : ∀ t w, ∃ w', adapter.commit t w = .normally w' ∧ committed w' = pending t w
  rollsBack : ∀ t w, ∃ w', adapter.rollback t w = .normally w' ∧ committed w' = committed w
  /-- An exception is passed along, and potentially rethrown. -/
  passes : ∀ e w, ∃ w', (p.onError e w = .normally w' ∨ p.onError e w = .abruptly e.toRuntime w') ∧
    committed w' = committed w

/-- A store without transactions, where what is done is done. -/
structure DirectStore (p : Projection W τ)
    (set : FactStreamPosition → W → Completion Throwable W) (handling : Handling σ) where
  current : W → Applied σ
  handles : ∀ h f t w next, handling h f (current w).state = .ok next →
    ∃ w', p.invoke h f t w = .normally w' ∧ current w' = { current w with state := next }
  throws : ∀ h f t w e, handling h f (current w).state = .error e →
    ∃ w', p.invoke h f t w = .abruptly e w' ∧
      (current w').factStreamPosition = (current w).factStreamPosition
  sets : ∀ position w, ∃ w', set position w = .normally w' ∧
    current w' = { current w with factStreamPosition := some position }
  passes : ∀ e w, ∃ w', (p.onError e w = .normally w' ∨ p.onError e w = .abruptly e.toRuntime w') ∧
    (current w').factStreamPosition = (current w).factStreamPosition

section Transactional
variable {p : Projection W τ} {adapter : TransactionAdapter W τ}
  {set : FactStreamPosition → τ → W → Completion Throwable W}
  {direct : FactStreamPosition → W → Completion Throwable W} {handling : Handling σ}
  {store : TransactionalStore p adapter set handling} {w : W} {t : τ} {f : DeliveredFact}
  {facts : List DeliveredFact} {next reached : σ} {e : Throwable} {n : Nat}

theorem finish_normally {call : τ → W → Completion Throwable W} {w' : W} (h : call t w = .normally w') :
    TransactionBehavior.finish ⟨some t, w⟩ call = .normally ⟨none, w'⟩ := by
  unfold TransactionBehavior.finish
  dsimp only
  rw [h]

/-- After `onError`, the exception is thrown. -/
theorem TransactionalStore.passed (store : TransactionalStore p adapter set handling)
    (he : e.toRuntime = e) (s : Target W τ) :
    ∃ w', (s.within (p.onError e)).andThen (fun s => .abruptly e s) =
      .abruptly e { s with world := w' } ∧ store.committed w' = store.committed s.world := by
  obtain ⟨w', hcall | hcall, hw'⟩ := store.passes e s.world
  · exact ⟨w', by rw [Target.within, hcall]; rfl, hw'⟩
  · refine ⟨w', ?_, hw'⟩
    rw [Target.within, hcall, he]
    rfl

/-- In a transaction, what was committed stays; its position moves in the end. -/
def TransactionalStore.Shows (store : TransactionalStore p adapter set handling) (c : Applied σ)
    (v : Applied σ) (s : Target W τ) : Prop :=
  ∃ t w, s = ⟨some t, w⟩ ∧ store.committed w = c ∧ store.pending t w = { c with state := v.state }

def TransactionalStore.Trace (store : TransactionalStore p adapter set handling) (c : Applied σ)
    (_ : Applied σ) (s : Target W τ) : Prop :=
  ∃ t w, s = ⟨some t, w⟩ ∧ store.committed w = c

theorem TransactionalStore.follows (store : TransactionalStore p adapter set handling)
    (hp : p.awareness = .transactionAware adapter set direct) (c : Applied σ) :
    Follows p handling (store.Shows c) (store.Trace c) where
  handled := by
    rintro v _ f next ⟨t, w, rfl, hc, hpending⟩ heffect
    have hnone : ∀ s : Target W τ,
        setFactStreamPositionIfAwareButNotTransactional p (.from_ f) s = .normally s := by
      intro s
      rw [setFactStreamPositionIfAwareButNotTransactional, hp]
    unfold effect at heffect
    split at heffect
    · rename_i h hcall
      split at heffect
      · rename_i hhandling
        cases heffect
        rw [show v.state = (store.pending t w).state by rw [hpending]] at hhandling
        obtain ⟨w', hinvoke, hc', hpending'⟩ := store.handles h f t w _ hhandling
        refine ⟨⟨some t, w'⟩, ?_, t, w', rfl, hc'.trans hc, ?_⟩
        · rw [dispatch, hcall]
          dsimp only
          rw [Target.within, hinvoke]
          exact hnone _
        · rw [hpending', hpending]
          rfl
      · cases heffect
    · cases heffect
  failed := by
    rintro v _ f e ⟨t, w, rfl, hc, hpending⟩ heffect
    unfold effect at heffect
    split at heffect
    · rename_i h hcall
      split at heffect
      · cases heffect
      · rename_i e' hhandling
        cases heffect
        rw [show v.state = (store.pending t w).state by rw [hpending]] at hhandling
        obtain ⟨w', hinvoke, hc'⟩ := store.throws h f t w e' hhandling
        refine ⟨⟨some t, w'⟩, ?_, t, w', rfl, hc'.trans hc⟩
        rw [dispatch, hcall]
        dsimp only
        rw [Target.within, hinvoke]
        rfl
    · rename_i e' hcall
      cases heffect
      obtain ⟨w', hpassed, hc'⟩ := store.passed (e := .invalidHandlerDefinition e') rfl ⟨some t, w⟩
      refine ⟨⟨some t, w'⟩, ?_, t, w', rfl, hc'.trans hc⟩
      rw [dispatch, hcall]
      dsimp only
      rw [hpassed]
      rfl

/-- The position is set at the end of a batch that has facts. -/
theorem TransactionalStore.position (store : TransactionalStore p adapter set handling)
    (hp : p.awareness = .transactionAware adapter set direct) (latest : Option FactStreamPosition) :
    ∃ w', setFactStreamPositionIfTransactional p latest ⟨some t, w⟩ = .normally ⟨some t, w'⟩ ∧
      store.committed w' = store.committed w ∧ store.pending t w' =
        { store.pending t w with factStreamPosition := latest.or (store.pending t w).factStreamPosition } := by
  unfold setFactStreamPositionIfTransactional
  rw [hp]
  cases latest with
  | none => exact ⟨w, rfl, rfl, rfl⟩
  | some position =>
    obtain ⟨w', hset, hc, hpending⟩ := store.sets position t w
    refine ⟨w', ?_, hc, hpending⟩
    dsimp only
    rw [setFactStreamPositionIfAware, hp]
    dsimp only
    rw [Target.within, hset]
    rfl

/-- A batch without a failing handler is committed, with the position of its last fact. -/
theorem TransactionalStore.doApply_ok (store : TransactionalStore p adapter set handling)
    (hp : p.awareness = .transactionAware adapter set direct)
    (h : applyAll p handling (store.committed w).state facts = .ok reached) :
    ∃ w', doApply p facts ⟨none, w⟩ = .normally ⟨none, w'⟩ ∧
      store.committed w' = (store.committed w).after reached facts := by
  obtain ⟨t, w₁, hbegin, hc₁, hpending₁⟩ := store.begins w
  have hbegun : beginIfTransactional p ⟨none, w⟩ = .normally ⟨some t, w₁⟩ := by
    rw [beginIfTransactional, hp]
    dsimp only
    rw [TransactionBehavior.begin_, hbegin]
  have hshows : store.Shows (store.committed w) (store.committed w) ⟨some t, w₁⟩ :=
    ⟨t, w₁, rfl, hc₁, hpending₁⟩
  obtain ⟨_, hloop, t', w₂, rfl, hc₂, hpending₂⟩ :=
    (store.follows hp (store.committed w)).loop_ok none hshows h
  obtain ⟨w₃, hset, hc₃, hpending₃⟩ := store.position (t := t') (w := w₂) hp
    ((facts.getLast?.map .from_).or none)
  obtain ⟨w₄, hcommit, hc₄⟩ := store.commits t' w₃
  have hcommitted : commitIfTransactional p ⟨some t', w₃⟩ = .normally ⟨none, w₄⟩ := by
    rw [commitIfTransactional, hp]
    exact finish_normally hcommit
  refine ⟨w₄, ?_, ?_⟩
  · rw [doApply, hbegun]
    dsimp only [Completion.normally_andThen]
    rw [hloop]
    dsimp only
    rw [hset]
    dsimp only
    rw [hcommitted]
  · rw [hc₄, hpending₃, hpending₂]
    simp [Applied.after]

/-- A batch is rolled back if a handler fails, and what came before is committed. -/
theorem TransactionalStore.doApply_fails (store : TransactionalStore p adapter set handling)
    (hp : p.awareness = .transactionAware adapter set direct)
    (hdistinct : (facts.map fun f => f.id).Nodup)
    (h : FailsAt p handling (store.committed w).state facts n e reached) :
    ∃ w', doApply p facts ⟨none, w⟩ = .abruptly e ⟨none, w'⟩ ∧
      store.committed w' = (store.committed w).after reached (facts.take n) := by
  obtain ⟨t, w₁, hbegin, hc₁, hpending₁⟩ := store.begins w
  have hbegun : beginIfTransactional p ⟨none, w⟩ = .normally ⟨some t, w₁⟩ := by
    rw [beginIfTransactional, hp]
    dsimp only
    rw [TransactionBehavior.begin_, hbegin]
  have hshows : store.Shows (store.committed w) (store.committed w) ⟨some t, w₁⟩ :=
    ⟨t, w₁, rfl, hc₁, hpending₁⟩
  obtain ⟨f, _, hf, he, hloop, t', w₂, rfl, hc₂⟩ :=
    (store.follows hp (store.committed w)).loop_fails none hshows h
  obtain ⟨w₃, hrollback, hc₃⟩ := store.rollsBack t' w₂
  have hrolled : rollbackIfTransactional p ⟨some t', w₂⟩ = .normally ⟨none, w₃⟩ := by
    rw [rollbackIfTransactional, hp]
    exact finish_normally hrollback
  have hback : store.committed w₃ = store.committed w := hc₃.trans hc₂
  -- the facts before are applied again, to what was committed
  have hretry : ∃ w₄, (if n = 0 then .normally ⟨none, w₃⟩ else doApply p (facts.take n) ⟨none, w₃⟩) =
      (.normally ⟨none, w₄⟩ : Completion Throwable (Target W τ)) ∧
      store.committed w₄ = (store.committed w).after reached (facts.take n) := by
    have hok := h.1
    split
    · rename_i hn
      subst hn
      cases hok
      exact ⟨w₃, rfl, hback⟩
    · rw [← hback] at hok ⊢
      exact store.doApply_ok hp hok
  obtain ⟨w₄, hretry, hc₄⟩ := hretry
  obtain ⟨w₅, hpassed, hc₅⟩ := store.passed he ⟨none, w₄⟩
  refine ⟨w₅, ?_, hc₅.trans hc₄⟩
  rw [doApply, hbegun]
  dsimp only [Completion.normally_andThen]
  rw [hloop]
  dsimp only
  rw [hrolled]
  dsimp only [Completion.normally_andThen]
  have hn := indexOf_of_distinct hdistinct hf
  simp only [hp]
  split
  · rename_i hnone
    rw [hn] at hnone
    cases hnone
  · rename_i k hk
    obtain rfl : n = k := Option.some.inj (hn.symm.trans hk)
    rw [hretry, Completion.normally_andThen, he]
    exact hpassed

end Transactional

section Direct
variable {p : Projection W τ} {set : FactStreamPosition → W → Completion Throwable W}
  {handling : Handling σ} {w : W} {facts : List DeliveredFact} {reached : σ} {e : Throwable} {n : Nat}

theorem DirectStore.passed (store : DirectStore p set handling) (he : e.toRuntime = e)
    (s : Target W τ) :
    ∃ w', (s.within (p.onError e)).andThen (fun s => .abruptly e s) = .abruptly e { s with world := w' } ∧
      (store.current w').factStreamPosition = (store.current s.world).factStreamPosition := by
  obtain ⟨w', hcall | hcall, hw'⟩ := store.passes e s.world
  · exact ⟨w', by rw [Target.within, hcall]; rfl, hw'⟩
  · refine ⟨w', ?_, hw'⟩
    rw [Target.within, hcall, he]
    rfl

/-- Without a transaction, state and position move fact by fact. -/
theorem DirectStore.follows (store : DirectStore p set handling)
    (hp : p.awareness = .factStreamPositionAware set) :
    Follows p handling (fun v s => s.runningTransaction = none ∧ store.current s.world = v)
      (fun v s => s.runningTransaction = none ∧
        (store.current s.world).factStreamPosition = v.factStreamPosition) where
  handled := by
    rintro v s f next ⟨hs, rfl⟩ heffect
    unfold effect at heffect
    split at heffect
    · rename_i h hcall
      split at heffect
      · rename_i hhandling
        cases heffect
        obtain ⟨w', hinvoke, hw'⟩ := store.handles h f s.runningTransaction s.world _ hhandling
        obtain ⟨w'', hset, hw''⟩ := store.sets (.from_ f) w'
        refine ⟨{ s with world := w'' }, ?_, hs, ?_⟩
        · rw [dispatch, hcall]
          dsimp only
          rw [Target.within, hinvoke]
          dsimp only [Completion.map_normally, Completion.normally_andThen]
          rw [setFactStreamPositionIfAwareButNotTransactional, hp]
          dsimp only
          rw [setFactStreamPositionIfAware, hp]
          dsimp only
          rw [Target.within, hset]
          rfl
        · rw [hw'', hw']
          rfl
      · cases heffect
    · cases heffect
  failed := by
    rintro v s f e ⟨hs, rfl⟩ heffect
    unfold effect at heffect
    split at heffect
    · rename_i h hcall
      split at heffect
      · cases heffect
      · rename_i e' hhandling
        cases heffect
        obtain ⟨w', hinvoke, hw'⟩ := store.throws h f s.runningTransaction s.world e' hhandling
        refine ⟨{ s with world := w' }, ?_, hs, hw'⟩
        rw [dispatch, hcall]
        dsimp only
        rw [Target.within, hinvoke]
        rfl
    · rename_i e' hcall
      cases heffect
      obtain ⟨w', hpassed, hw'⟩ := store.passed (e := .invalidHandlerDefinition e') rfl s
      refine ⟨{ s with world := w' }, ?_, hs, hw'⟩
      rw [dispatch, hcall]
      dsimp only
      rw [hpassed]
      rfl

/-- What a batch without a failing handler leaves. -/
theorem DirectStore.doApply_ok (store : DirectStore p set handling)
    (hp : p.awareness = .factStreamPositionAware set)
    (h : applyAll p handling (store.current w).state facts = .ok reached) :
    ∃ w', doApply p facts ⟨none, w⟩ = .normally ⟨none, w'⟩ ∧
      store.current w' = (store.current w).after reached facts := by
  obtain ⟨⟨_, w'⟩, hloop, rfl, hw'⟩ :=
    (store.follows hp).loop_ok none (s := ⟨none, w⟩) ⟨rfl, rfl⟩ h
  have hset : ∀ latest (s : Target W τ), setFactStreamPositionIfTransactional p latest s = .normally s := by
    intro latest s
    unfold setFactStreamPositionIfTransactional
    rw [hp]
  refine ⟨w', ?_, hw'⟩
  rw [doApply, beginIfTransactional, hp]
  dsimp only [Completion.normally_andThen]
  rw [hloop]
  dsimp only
  rw [hset]
  dsimp only
  rw [commitIfTransactional, hp]

/-- The position stays with the last fact whose handler succeeded. -/
theorem DirectStore.doApply_fails (store : DirectStore p set handling)
    (hp : p.awareness = .factStreamPositionAware set)
    (h : FailsAt p handling (store.current w).state facts n e reached) :
    ∃ w', doApply p facts ⟨none, w⟩ = .abruptly e ⟨none, w'⟩ ∧
      (store.current w').factStreamPosition =
        ((store.current w).after reached (facts.take n)).factStreamPosition := by
  obtain ⟨f, ⟨_, w'⟩, _, he, hloop, rfl, hw'⟩ :=
    (store.follows hp).loop_fails none (s := ⟨none, w⟩) ⟨rfl, rfl⟩ h
  obtain ⟨w'', hpassed, hw''⟩ := store.passed he (⟨none, w'⟩ : Target W τ)
  refine ⟨w'', ?_, hw''.trans hw'⟩
  rw [doApply, beginIfTransactional, hp]
  dsimp only [Completion.normally_andThen]
  rw [hloop]
  dsimp only
  rw [rollbackIfTransactional, hp]
  dsimp only [Completion.normally_andThen]
  rw [he]
  exact hpassed

end Direct

/-- **A batch and its position stand or fall together.** -/
theorem apply_atomic (p : Projection W τ) (handling : Handling σ) (facts : List DeliveredFact)
    (hdistinct : (facts.map fun f => f.id).Nodup) :
    (∀ adapter set direct, p.awareness = .transactionAware adapter set direct →
      ∀ (store : TransactionalStore p adapter set handling) (w : W),
        (∀ n e reached, FailsAt p handling (store.committed w).state facts n e reached →
          ∃ w', doApply p facts ⟨none, w⟩ = .abruptly e ⟨none, w'⟩ ∧
            store.committed w' = (store.committed w).after reached (facts.take n)) ∧
        (∀ reached, applyAll p handling (store.committed w).state facts = .ok reached →
          ∃ w', doApply p facts ⟨none, w⟩ = .normally ⟨none, w'⟩ ∧
            store.committed w' = (store.committed w).after reached facts)) ∧
    (∀ set, p.awareness = .factStreamPositionAware set →
      ∀ (store : DirectStore p set handling) (w : W),
        (∀ n e reached, FailsAt p handling (store.current w).state facts n e reached →
          ∃ w', doApply p facts ⟨none, w⟩ = .abruptly e ⟨none, w'⟩ ∧
            (store.current w').factStreamPosition =
              ((store.current w).after reached (facts.take n)).factStreamPosition) ∧
        (∀ reached, applyAll p handling (store.current w).state facts = .ok reached →
          ∃ w', doApply p facts ⟨none, w⟩ = .normally ⟨none, w'⟩ ∧
            store.current w' = (store.current w).after reached facts)) ∧
    ∀ s : Target W τ, s.runningTransaction = none →
      (doApply p facts s).state.runningTransaction = none := by
  refine ⟨fun adapter set direct hp store w => ⟨fun n e reached h => ?_, fun reached h => ?_⟩,
    fun set hp store w => ⟨fun n e reached h => ?_, fun reached h => ?_⟩, fun s hs => ?_⟩
  · exact store.doApply_fails hp hdistinct h
  · exact store.doApply_ok hp h
  · exact store.doApply_fails hp h
  · exact store.doApply_ok hp h
  · exact (leaves_doApply facts hs).state

/-! ### A count of orders -/

def onOrderPlaced : Handler where
  method := "apply(OrderPlaced)"
  ns := "orders"
  ns_given := orders_given
  type := "OrderPlaced"

/-- The order with some serial. -/
def orderAt (n : Nat) : DeliveredFact :=
  { BufferedTransformingServerPipeline.placedOrder with id := ⟨.ofNat 128 n⟩, serial := some n }

/-- The third order is refused. -/
def counting : Handling Nat := fun _ f n =>
  if f.serial = some 3 then .error (.checked "refused") else .ok (n + 1)

/-- What is committed, and what is pending. -/
abbrev Versions := Applied Nat × Applied Nat

def versioned : TransactionAdapter Versions Unit where
  beginNewTransaction := fun w => (.ok (), (w.1, w.1))
  commit := fun _ w => .normally (w.2, w.2)
  rollback := fun _ w => .normally (w.1, w.1)

def setPending (position : FactStreamPosition) (_ : Unit) (w : Versions) : Completion Throwable Versions :=
  .normally (w.1, { w.2 with factStreamPosition := some position })

def setCommitted (position : FactStreamPosition) (w : Versions) : Completion Throwable Versions :=
  .normally ({ w.1 with factStreamPosition := some position }, w.2)

def orderCount : Projection Versions Unit where
  dispatchInfo := DispatchInfo.empty.put onOrderPlaced rfl
  invoke := fun h f _ w =>
    match counting h f w.2.state with
    | .ok n => .normally (w.1, { w.2 with state := n })
    | .error e => .abruptly e w
  onError := fun _ w => .normally w
  awareness := .transactionAware versioned setPending setCommitted

def orderStore : TransactionalStore orderCount versioned setPending counting where
  committed := Prod.fst
  pending := fun _ w => w.2
  begins := fun w => ⟨(), (w.1, w.1), rfl, rfl, rfl⟩
  handles := fun h f _ w next hnext => ⟨(w.1, { w.2 with state := next }), by
    unfold orderCount
    dsimp only
    rw [hnext], rfl, rfl⟩
  throws := fun h f _ w e he => ⟨w, by
    unfold orderCount
    dsimp only
    rw [he], rfl⟩
  sets := fun position _ w => ⟨(w.1, { w.2 with factStreamPosition := some position }), rfl, rfl, rfl⟩
  commits := fun _ w => ⟨(w.2, w.2), rfl, rfl⟩
  rollsBack := fun _ w => ⟨(w.1, w.1), rfl, rfl⟩
  passes := fun _ w => ⟨w, .inl rfl, rfl⟩

/-- The same count, without transactions. -/
def setDirectly (position : FactStreamPosition) (w : Applied Nat) : Completion Throwable (Applied Nat) :=
  .normally { w with factStreamPosition := some position }

def directCount : Projection (Applied Nat) Unit where
  dispatchInfo := DispatchInfo.empty.put onOrderPlaced rfl
  invoke := fun h f _ w =>
    match counting h f w.state with
    | .ok n => .normally { w with state := n }
    | .error e => .abruptly e w
  onError := fun _ w => .normally w
  awareness := .factStreamPositionAware setDirectly

def directStore : DirectStore directCount setDirectly counting where
  current := id
  handles := fun h f _ w next hnext => ⟨{ w with state := next }, by
    unfold directCount
    dsimp only
    rw [show counting h f w.state = .ok next from hnext], rfl⟩
  throws := fun h f _ w e he => ⟨w, by
    unfold directCount
    dsimp only
    rw [show counting h f w.state = .error e from he], rfl⟩
  sets := fun position w => ⟨{ w with factStreamPosition := some position }, rfl, rfl⟩
  passes := fun _ w => ⟨w, .inl rfl, rfl⟩

/-- Two orders are committed, and the third one's exception is thrown. Without transactions
the position is that of the second order as well. -/
theorem apply_atomic_refused :
    (∃ w', doApply orderCount [orderAt 1, orderAt 2, orderAt 3, orderAt 4] ⟨none, (⟨0, none⟩, ⟨0, none⟩)⟩ =
        .abruptly (.wrapped (.checked "refused")) ⟨none, w'⟩ ∧
      w'.1 = ⟨2, some (.from_ (orderAt 2))⟩) ∧
    ∃ w', doApply directCount [orderAt 1, orderAt 2, orderAt 3, orderAt 4] ⟨none, ⟨0, none⟩⟩ =
        .abruptly (.wrapped (.checked "refused")) ⟨none, w'⟩ ∧
      w'.factStreamPosition = some (.from_ (orderAt 2)) :=
  ⟨((apply_atomic orderCount counting [orderAt 1, orderAt 2, orderAt 3, orderAt 4] (by decide)).1
      versioned setPending setCommitted rfl orderStore (⟨0, none⟩, ⟨0, none⟩)).1 2 _ 2 ⟨rfl, orderAt 3, rfl, rfl⟩,
    ((apply_atomic directCount counting [orderAt 1, orderAt 2, orderAt 3, orderAt 4] (by decide)).2.1
      setDirectly rfl directStore ⟨0, none⟩).1 2 _ 2 ⟨rfl, orderAt 3, rfl, rfl⟩⟩

end FactCast.ProjectorImpl
