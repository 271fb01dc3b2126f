import FactCast.Factus.Atomic

/-! How far a projection has come, whatever fails.

A journal says of every world which facts have been applied and what the stored
position is, and what each call may do to them: a handler that throws has not
applied its fact, a commit that throws may or may not have happened. Then a batch
that completes has been applied, with the position of its last fact, and of one
that does not some first facts have been, with a position among them
(`doApply_progress`). -/
namespace FactCast.ProjectorImpl
variable {W τ : Type}

structure View where
  applied : List DeliveredFact
  factStreamPosition : Option FactStreamPosition

def View.apply (v : View) (f : DeliveredFact) : View := { v with applied := v.applied ++ [f] }

def View.move (v : View) (position : FactStreamPosition) : View :=
  { v with factStreamPosition := some position }

/-- What the calls of a projection owe to its journal. -/
structure Journal (p : Projection W τ) where
  committed : W → View
  /-- What a transaction would commit. -/
  pending : τ → W → View
  begins : ∀ adapter set direct, p.awareness = .transactionAware adapter set direct →
    ∀ w, committed (adapter.beginNewTransaction w).2 = committed w ∧
      ∀ t, (adapter.beginNewTransaction w).1 = .ok t →
        pending t (adapter.beginNewTransaction w).2 = committed w
  commits : ∀ adapter set direct, p.awareness = .transactionAware adapter set direct →
    ∀ t w, (adapter.commit t w).Leaves (fun w' => committed w' = pending t w)
      fun _ w' => committed w' = committed w ∨ committed w' = pending t w
  rollsBack : ∀ adapter set direct, p.awareness = .transactionAware adapter set direct →
    ∀ t w, (adapter.rollback t w).Leaves (fun w' => committed w' = committed w)
      fun _ w' => committed w' = committed w
  setsPending : ∀ adapter set direct, p.awareness = .transactionAware adapter set direct →
    ∀ position t w, (set position t w).Leaves
      (fun w' => committed w' = committed w ∧ pending t w' = (pending t w).move position)
      fun _ w' => committed w' = committed w
  sets : ∀ set, p.awareness.factStreamPosition? = some set → ∀ position w, (set position w).Leaves
    (fun w' => committed w' = (committed w).move position)
    fun _ w' => committed w' = committed w ∨ committed w' = (committed w).move position
  invokes : ∀ adapter set direct, p.awareness = .transactionAware adapter set direct →
    ∀ h f t w, (p.invoke h f (some t) w).Leaves
      (fun w' => committed w' = committed w ∧ pending t w' = (pending t w).apply f)
      fun _ w' => committed w' = committed w
  invokesDirectly : (∀ adapter set direct, p.awareness ≠ .transactionAware adapter set direct) →
    ∀ h f w, (p.invoke h f none w).Leaves (fun w' => committed w' = (committed w).apply f)
      fun _ w' => committed w' = committed w
  passes : ∀ e w, (p.onError e w).Leaves (fun w' => committed w' = committed w)
    fun _ w' => committed w' = committed w
  hooks : ∀ w, ((p.onCatchup w).Leaves (fun w' => committed w' = committed w)
      fun _ w' => committed w' = committed w) ∧
    (p.onComplete w).Leaves (fun w' => committed w' = committed w) fun _ w' => committed w' = committed w

/-- The whole batch was applied. -/
structure Done (p : Projection W τ) (v : View) (facts : List DeliveredFact) (v' : View) : Prop where
  applied : v'.applied = v.applied ++ facts
  position : v'.factStreamPosition = if p.awareness.factStreamPosition?.isSome
    then (facts.getLast?.map .from_).or v.factStreamPosition else v.factStreamPosition

/-- First facts of the batch were applied, and the position is one of theirs, if it
has moved. -/
structure Progress (v : View) (facts : List DeliveredFact) (v' : View) : Prop where
  applied : ∃ done, done <+: facts ∧ v'.applied = v.applied ++ done ∧
    (v'.factStreamPosition = v.factStreamPosition ∨
      ∃ f ∈ done, v'.factStreamPosition = some (.from_ f))

section Progress
variable {p : Projection W τ} {v v' : View} {facts more : List DeliveredFact}

theorem Progress.rfl' : Progress v facts v :=
  ⟨[], List.nil_prefix, (List.append_nil _).symm, .inl rfl⟩

theorem Progress.of_isPrefix (h : Progress v facts v') (hp : facts <+: more) : Progress v more v' := by
  obtain ⟨done, hdone, happlied, hposition⟩ := h.applied
  exact ⟨done, hdone.trans hp, happlied, hposition⟩

theorem last_mem {position : Option FactStreamPosition} :
    (facts.getLast?.map FactStreamPosition.from_).or position = position ∨
      ∃ f ∈ facts, (facts.getLast?.map FactStreamPosition.from_).or position = some (.from_ f) := by
  cases hlast : facts.getLast? with
  | none => exact .inl rfl
  | some f => exact .inr ⟨f, List.mem_of_getLast? hlast, rfl⟩

theorem Done.progress (h : Done p v facts v') : Progress v facts v' := by
  refine ⟨facts, List.prefix_refl _, h.applied, ?_⟩
  rw [h.position]
  split
  · exact last_mem
  · exact .inl rfl

end Progress

/-! ### One fact -/

section Dispatch
variable {p : Projection W τ} {f : DeliveredFact} {s : Target W τ} {t : τ}

/-- A handler that completes has applied the fact. -/
theorem dispatch_leaves {N : W → Prop} {A : W → Prop}
    (hinvoke : ∀ h, (p.invoke h f s.runningTransaction s.world).Leaves N fun _ => A)
    (hpasses : ∀ e, (p.onError e s.world).Leaves A fun _ => A) :
    (dispatch p f s).Leaves
      (fun s' => s'.runningTransaction = s.runningTransaction ∧ N s'.world)
      fun _ s' => s'.runningTransaction = s.runningTransaction ∧ A s'.world := by
  unfold dispatch
  split
  · rename_i h _
    have hcall : (s.within (p.invoke h f s.runningTransaction)).Leaves
        (fun s' => s'.runningTransaction = s.runningTransaction ∧ N s'.world)
        fun _ s' => s'.runningTransaction = s.runningTransaction ∧ A s'.world :=
      Completion.leaves_map ((hinvoke h).mono (fun _ hw => ⟨rfl, hw⟩) fun _ _ hw => ⟨rfl, hw⟩)
    split
    · rename_i hw
      rw [hw] at hcall
      exact hcall
    · rename_i hw
      rw [hw] at hcall
      exact hcall
  · rename_i e _
    have hcall : (s.within (p.onError (.invalidHandlerDefinition e))).Leaves
        (fun s' => s'.runningTransaction = s.runningTransaction ∧ A s'.world)
        fun _ s' => s'.runningTransaction = s.runningTransaction ∧ A s'.world :=
      Completion.leaves_map ((hpasses _).mono (fun _ hw => ⟨rfl, hw⟩) fun _ _ hw => ⟨rfl, hw⟩)
    exact hcall.andThen fun _ hw => hw

end Dispatch

/-! ### The loop -/

/-- How the loop ends, by whether it ended or a call was caught. -/
def Loop.Ends (l : Loop W τ) (N : Option FactStreamPosition → Target W τ → Prop)
    (A : Target W τ → Prop) : Prop :=
  match l with
  | .ended latest s => N latest s
  | .caught _ _ s => A s

/-- What one call keeps, the loop keeps. `P` is about the facts done so far, `Q` about
those of which some may have been done. -/
theorem loop_ends {p : Projection W τ} {P Q : List DeliveredFact → Target W τ → Prop}
    (hstep : ∀ done f s, P done s → ((dispatch p f s).andThen
      (setFactStreamPositionIfAwareButNotTransactional p (.from_ f))).Leaves (P (done ++ [f]))
        fun _ => Q (done ++ [f]))
    (hmore : ∀ some_ all s, some_ <+: all → Q some_ s → Q all s) (facts done : List DeliveredFact)
    (s : Target W τ) (latest : Option FactStreamPosition) (hs : P done s) :
    (loop p latest s facts).Ends
      (fun l s' => l = (facts.getLast?.map .from_).or latest ∧ P (done ++ facts) s') (Q (done ++ facts)) := by
  induction facts generalizing done s latest with
  | nil =>
    rw [List.append_nil]
    exact ⟨rfl, hs⟩
  | cons f rest ih =>
    have hcall := hstep done f s hs
    have hsplit : done ++ f :: rest = done ++ [f] ++ rest := by simp
    unfold loop
    cases hc : (dispatch p f s).andThen
        (setFactStreamPositionIfAwareButNotTransactional p (.from_ f)) with
    | normally s' =>
      rw [hc] at hcall
      have hrest := ih (done ++ [f]) s' (some (.from_ f)) hcall
      rw [last_cons latest] at hrest
      rw [hsplit]
      exact hrest
    | abruptly e s' =>
      rw [hc] at hcall
      rw [hsplit]
      exact hmore _ _ s' (List.prefix_append _ _) hcall

/-- Without transactions a batch is the loop over it. -/
theorem leaves_doApply_direct {p : Projection W τ} {P Q : List DeliveredFact → Target W τ → Prop}
    (hp : ∀ adapter set direct, p.awareness ≠ .transactionAware adapter set direct)
    (hstep : ∀ done f s, P done s → ((dispatch p f s).andThen
      (setFactStreamPositionIfAwareButNotTransactional p (.from_ f))).Leaves (P (done ++ [f]))
        fun _ => Q (done ++ [f]))
    (hmore : ∀ some_ all s, some_ <+: all → Q some_ s → Q all s)
    (honError : ∀ e done s, Q done s → (s.within (p.onError e)).Leaves (Q done) fun _ => Q done)
    (facts : List DeliveredFact) {s : Target W τ} (hs : P [] s) :
    (doApply p facts s).Leaves (P facts) fun _ => Q facts := by
  have hbegin : beginIfTransactional p s = .normally s := by
    unfold beginIfTransactional
    split
    · exact absurd ‹_› (hp _ _ _)
    · rfl
  have hrollback : ∀ s, rollbackIfTransactional p s = .normally s := by
    intro s
    unfold rollbackIfTransactional
    split
    · exact absurd ‹_› (hp _ _ _)
    · rfl
  have hcommit : ∀ s, commitIfTransactional p s = .normally s := by
    intro s
    unfold commitIfTransactional
    split
    · exact absurd ‹_› (hp _ _ _)
    · rfl
  have hset : ∀ latest s, setFactStreamPositionIfTransactional p latest s = .normally s := by
    intro latest s
    unfold setFactStreamPositionIfTransactional
    split
    · exact absurd ‹_› (hp _ _ _)
    · rfl
  have hloop := loop_ends hstep hmore facts [] s none hs
  rw [List.nil_append] at hloop
  rw [doApply, hbegin, Completion.normally_andThen]
  split
  · rename_i f e s' hcaught
    rw [hcaught] at hloop
    rw [hrollback, Completion.normally_andThen]
    dsimp only
    split
    · exact absurd ‹_› (hp _ _ _)
    · exact (honError e facts s' hloop).andThen fun _ h => h
  · rename_i latest s' hended
    rw [hended] at hloop
    rw [hset]
    dsimp only
    rw [hcommit]
    exact hloop.2

section Apply
variable {p : Projection W τ} (j : Journal p) {v : View} {done facts more : List DeliveredFact}
  {f : DeliveredFact} {s : Target W τ}

/-- Amid a batch, what was done is pending. -/
def Journal.Pending (v : View) (done : List DeliveredFact) (s : Target W τ) : Prop :=
  ∃ t, s.runningTransaction = some t ∧ j.committed s.world = v ∧
    j.pending t s.world = { v with applied := v.applied ++ done }

/-- Where a call in a transaction was caught, nothing has changed yet. -/
def Journal.Kept (v : View) (s : Target W τ) : Prop :=
  (∃ t, s.runningTransaction = some t) ∧ j.committed s.world = v

theorem Journal.pending_step {adapter : TransactionAdapter W τ} {set direct}
    (hp : p.awareness = .transactionAware adapter set direct) (h : j.Pending v done s) :
    ((dispatch p f s).andThen (setFactStreamPositionIfAwareButNotTransactional p (.from_ f))).Leaves
      (j.Pending v (done ++ [f])) fun _ => j.Kept v := by
  obtain ⟨t, ht, hc, hpending⟩ := h
  have hinvoke : ∀ handler, (p.invoke handler f s.runningTransaction s.world).Leaves
      (fun w => j.committed w = v ∧ j.pending t w = { v with applied := v.applied ++ (done ++ [f]) })
      fun _ w => j.committed w = v := by
    intro handler
    rw [ht]
    refine (j.invokes adapter set direct hp handler f t s.world).mono (fun w hw => ⟨hw.1.trans hc, ?_⟩)
      fun _ w hw => hw.trans hc
    rw [hw.2, hpending, View.apply, List.append_assoc]
  have hpasses : ∀ e, (p.onError e s.world).Leaves (fun w => j.committed w = v)
      fun _ w => j.committed w = v := fun e =>
    (j.passes e s.world).mono (fun w hw => hw.trans hc) fun _ w hw => hw.trans hc
  refine ((dispatch_leaves hinvoke hpasses).mono (fun s' hs' => hs') fun _ s' hs' => ?_).andThen
    fun s' hs' => ?_
  · exact ⟨⟨t, hs'.1.trans ht⟩, hs'.2⟩
  · rw [setFactStreamPositionIfAwareButNotTransactional, hp]
    exact ⟨t, hs'.1.trans ht, hs'.2⟩

/-- Without a transaction, what is done is done, one fact after another. -/
theorem Journal.direct_step (hp : ∀ adapter set direct, p.awareness ≠ .transactionAware adapter set direct)
    (h : s.runningTransaction = none ∧ Done p v done (j.committed s.world)) :
    ((dispatch p f s).andThen (setFactStreamPositionIfAwareButNotTransactional p (.from_ f))).Leaves
      (fun s' => s'.runningTransaction = none ∧ Done p v (done ++ [f]) (j.committed s'.world))
      fun _ s' => s'.runningTransaction = none ∧ Progress v (done ++ [f]) (j.committed s'.world) := by
  obtain ⟨hs, hdone⟩ := h
  have hinvoke : ∀ handler, (p.invoke handler f s.runningTransaction s.world).Leaves
      (fun w => j.committed w = (j.committed s.world).apply f)
      fun _ w => j.committed w = j.committed s.world := by
    intro handler
    rw [hs]
    exact j.invokesDirectly hp handler f s.world
  refine ((dispatch_leaves hinvoke fun e => j.passes e s.world).mono (fun s' hs' => hs')
    fun _ s' hs' => ?_).andThen fun s' hs' => ?_
  · refine ⟨hs'.1.trans hs, ?_⟩
    rw [hs'.2]
    exact hdone.progress.of_isPrefix (List.prefix_append _ _)
  · have happlied : ((j.committed s.world).apply f).applied = v.applied ++ (done ++ [f]) := by
      rw [View.apply, hdone.applied, List.append_assoc]
    have hmoved : ∀ w, j.committed w = ((j.committed s.world).apply f).move (.from_ f) →
        p.awareness.factStreamPosition?.isSome = true → Done p v (done ++ [f]) (j.committed w) := by
      intro w hw haware
      constructor
      · rw [hw]
        exact happlied
      · rw [hw, if_pos haware, List.getLast?_append]
        rfl
    cases hawareness : p.awareness with
    | transactionAware adapter set direct => exact absurd hawareness (hp _ _ _)
    | unaware =>
      rw [setFactStreamPositionIfAwareButNotTransactional, hawareness, setFactStreamPositionIfAware, hawareness]
      refine ⟨hs'.1.trans hs, ⟨by rw [hs'.2, happlied], ?_⟩⟩
      rw [hs'.2, View.apply, hdone.position, hawareness]
      rfl
    | factStreamPositionAware set =>
      have haware : p.awareness.factStreamPosition? = some set := by rw [hawareness]; rfl
      rw [setFactStreamPositionIfAwareButNotTransactional, hawareness, setFactStreamPositionIfAware, hawareness]
      refine Completion.leaves_map ((j.sets set haware (.from_ f) s'.world).mono (fun w hw => ?_)
        fun _ w hw => ?_)
      · rw [hs'.2] at hw
        exact ⟨hs'.1.trans hs, hmoved w hw (by rw [haware]; rfl)⟩
      · refine ⟨hs'.1.trans hs, ?_⟩
        rw [hs'.2] at hw
        rcases hw with hw | hw
        · -- the handler has applied the fact, and the position was not set
          obtain ⟨first, hfirst, _, hposition⟩ := hdone.progress.applied
          refine ⟨done ++ [f], List.prefix_refl _, by rw [hw, happlied], ?_⟩
          rw [hw]
          rcases hposition with hposition | hposition
          · exact .inl hposition
          · obtain ⟨g, hg, hgposition⟩ := hposition
            exact .inr ⟨g, List.mem_append_left _ (hfirst.subset hg), hgposition⟩
        · exact (hmoved w hw (by rw [haware]; rfl)).progress

theorem Journal.leaves_onError (e : Throwable) (s : Target W τ) :
    (s.within (p.onError e)).Leaves (fun s' => j.committed s'.world = j.committed s.world)
      fun _ s' => j.committed s'.world = j.committed s.world :=
  Completion.leaves_map (j.passes e s.world)

/-- An exception is thrown in the end, and what was committed stays. -/
theorem Journal.leaves_thrown {P : View → Prop} (e e' : Throwable) {s : Target W τ}
    (h : P (j.committed s.world)) {N : Target W τ → Prop} :
    ((s.within (p.onError e)).andThen fun s => .abruptly e' s).Leaves N
      fun _ s' => P (j.committed s'.world) := by
  have hkept : (s.within (p.onError e)).Leaves (fun s' => P (j.committed s'.world))
      fun _ s' => P (j.committed s'.world) :=
    (j.leaves_onError e s).mono (fun _ hs' => hs' ▸ h) fun _ _ hs' => hs' ▸ h
  apply hkept.andThen
  intro s' hs'
  exact hs'

theorem finish_leaves {t : τ} {call : τ → W → Completion Throwable W} {N A : W → Prop}
    (ht : s.runningTransaction = some t) (h : (call t s.world).Leaves N fun _ => A) :
    (TransactionBehavior.finish s call).Leaves (fun s' => N s'.world) fun _ s' => A s'.world := by
  unfold TransactionBehavior.finish
  rw [ht]
  dsimp only
  cases hc : call t s.world with
  | normally w =>
    rw [hc] at h
    exact h
  | abruptly e w =>
    rw [hc] at h
    exact h

section Transactional
variable {adapter : TransactionAdapter W τ} {set : FactStreamPosition → τ → W → Completion Throwable W}
  {direct : FactStreamPosition → W → Completion Throwable W}

theorem Journal.leaves_begin (hp : p.awareness = .transactionAware adapter set direct) (hs : Idle s) :
    (beginIfTransactional p s).Leaves (j.Pending (j.committed s.world) [])
      fun _ s' => j.committed s'.world = j.committed s.world := by
  rw [beginIfTransactional, hp]
  dsimp only
  rw [TransactionBehavior.begin_, hs]
  dsimp only
  obtain ⟨hc, hpending⟩ := j.begins adapter set direct hp s.world
  cases hbegin : adapter.beginNewTransaction s.world with
  | mk result w =>
    rw [hbegin] at hc hpending
    cases result with
    | ok t => exact ⟨t, rfl, hc, by rw [hpending t rfl, List.append_nil]⟩
    | error e => exact hc

theorem Journal.leaves_rollback (hp : p.awareness = .transactionAware adapter set direct)
    (hs : j.Kept v s) : (rollbackIfTransactional p s).Leaves
      (fun s' => Idle s' ∧ j.committed s'.world = v) fun _ s' => j.committed s'.world = v := by
  obtain ⟨⟨t, ht⟩, hc⟩ := hs
  rw [rollbackIfTransactional, hp]
  refine ((leaves_finish ht adapter.rollback).and
    (finish_leaves ht (j.rollsBack adapter set direct hp t s.world))).mono
    (fun s' hs' => ⟨hs'.1, hs'.2.trans hc⟩) fun _ s' hs' => hs'.2.trans hc

/-- The position is pending, too, when a batch that has facts is done. -/
theorem Journal.leaves_position (hp : p.awareness = .transactionAware adapter set direct)
    (latest : Option FactStreamPosition) (hs : j.Pending v facts s) :
    (setFactStreamPositionIfTransactional p latest s).Leaves
      (fun s' => ∃ t, s'.runningTransaction = some t ∧ j.committed s'.world = v ∧
        j.pending t s'.world = ⟨v.applied ++ facts, latest.or v.factStreamPosition⟩)
      fun _ => j.Kept v := by
  obtain ⟨t, ht, hc, hpending⟩ := hs
  unfold setFactStreamPositionIfTransactional
  rw [hp]
  cases latest with
  | none => exact ⟨t, ht, hc, hpending⟩
  | some position =>
    dsimp only
    rw [setFactStreamPositionIfAware, hp, ht]
    refine Completion.leaves_map ((j.setsPending adapter set direct hp position t s.world).mono
      (fun w hw => ⟨t, ht, hw.1.trans hc, ?_⟩) fun _ w hw => ⟨⟨t, ht⟩, hw.trans hc⟩)
    rw [hw.2, hpending]
    rfl

theorem Journal.leaves_commit (hp : p.awareness = .transactionAware adapter set direct) {t : τ}
    (ht : s.runningTransaction = some t) (hc : j.committed s.world = v)
    (hpending : Done p v facts (j.pending t s.world)) :
    (commitIfTransactional p s).Leaves (fun s' => Done p v facts (j.committed s'.world))
      fun _ s' => Progress v facts (j.committed s'.world) := by
  rw [commitIfTransactional, hp]
  refine finish_leaves (N := fun w => Done p v facts (j.committed w))
    (A := fun w => Progress v facts (j.committed w)) ht ?_
  refine (j.commits adapter set direct hp t s.world).mono (fun w hw => ?_) fun _ w hw => ?_
  · rw [hw]
    exact hpending
  · rcases hw with hw | hw
    · rw [hw, hc]
      exact .rfl'
    · rw [hw]
      exact hpending.progress

/-- **In a transaction** the batch is applied as a whole, or else its first facts are,
in another one. -/
theorem Journal.doApply_transactional (hp : p.awareness = .transactionAware adapter set direct)
    (facts : List DeliveredFact) (hs : Idle s) :
    (doApply p facts s).Leaves (fun s' => Done p (j.committed s.world) facts (j.committed s'.world))
      fun _ s' => Progress (j.committed s.world) facts (j.committed s'.world) := by
  induction hn : facts.length using Nat.strong_induction_on generalizing facts s with
  | _ n ih =>
    generalize hv : j.committed s.world = v
    have hunchanged : ∀ v' : View, v' = v → Progress v facts v' := by
      rintro _ rfl
      exact .rfl'
    have hbegin := j.leaves_begin hp hs
    rw [hv] at hbegin
    rw [doApply]
    refine (hbegin.mono (fun _ h => h) fun _ s' hs' => hunchanged _ hs').andThen fun s₁ hs₁ => ?_
    have hloop := loop_ends (P := j.Pending v) (Q := fun _ => j.Kept v)
      (fun done f s hs => j.pending_step hp hs) (fun _ _ _ _ h => h) facts [] s₁ none hs₁
    rw [List.nil_append] at hloop
    split
    · rename_i f e s₂ hcaught
      rw [hcaught] at hloop
      refine ((j.leaves_rollback hp hloop).mono (fun _ h => h)
        fun _ s' hs' => hunchanged _ hs').andThen fun s₃ hs₃ => ?_
      refine Completion.Leaves.andThen (N := fun s' => Progress v facts (j.committed s'.world)) ?_
        fun s₄ hs₄ => j.leaves_thrown e _ hs₄
      simp only [hp]
      split
      · exact hunchanged _ hs₃.2
      · rename_i k hk
        split
        · exact hunchanged _ hs₃.2
        · have hlt := indexOf_lt hk
          have hretry := ih k (by omega) (facts.take k) hs₃.1 (by rw [List.length_take]; omega)
          rw [hs₃.2] at hretry
          exact hretry.mono (fun _ h => h.progress.of_isPrefix (List.take_prefix _ _))
            fun _ _ h => h.of_isPrefix (List.take_prefix _ _)
    · rename_i latest s₂ hended
      rw [hended] at hloop
      obtain ⟨hlatest, hpending⟩ := hloop
      have hset := j.leaves_position hp latest hpending
      split
      · rename_i e s₃ habrupt
        rw [habrupt] at hset
        refine ((j.leaves_rollback hp hset).mono (fun _ h => h)
          fun _ s' hs' => hunchanged _ hs').andThen fun s₄ hs₄ => ?_
        exact j.leaves_thrown e _ (hunchanged _ hs₄.2)
      · rename_i s₃ hnormal
        rw [hnormal] at hset
        obtain ⟨t, ht, hc, hpending'⟩ := hset
        have hdone : Done p v facts (j.pending t s₃.world) := by
          rw [hpending', hlatest, Option.or_none]
          exact ⟨rfl, by rw [hp]; rfl⟩
        have hcommit := j.leaves_commit hp ht hc hdone
        split
        · rename_i hcommitted
          rw [hcommitted] at hcommit
          exact hcommit
        · rename_i e s₄ hcommitted
          rw [hcommitted] at hcommit
          split
          · exact j.leaves_thrown e _ hcommit
          · exact hcommit

end Transactional

/-- **Without a transaction** its first facts are applied, as far as it comes. -/
theorem Journal.doApply_direct
    (hp : ∀ adapter set direct, p.awareness ≠ .transactionAware adapter set direct)
    (facts : List DeliveredFact) (hs : Idle s) :
    (doApply p facts s).Leaves (fun s' => Done p (j.committed s.world) facts (j.committed s'.world))
      fun _ s' => Progress (j.committed s.world) facts (j.committed s'.world) := by
  generalize hv : j.committed s.world = v
  have hstart : s.runningTransaction = none ∧ Done p v [] (j.committed s.world) := by
    refine ⟨hs, ⟨by rw [hv, List.append_nil], ?_⟩⟩
    rw [hv]
    split
    · rfl
    · rfl
  refine (leaves_doApply_direct (P := fun done s => s.runningTransaction = none ∧
      Done p v done (j.committed s.world))
    (Q := fun done s => s.runningTransaction = none ∧ Progress v done (j.committed s.world)) hp
    (fun done f s hs => j.direct_step hp hs) (fun _ _ _ hmore h => ⟨h.1, h.2.of_isPrefix hmore⟩)
    (fun e done s h => ?_) facts hstart).mono (fun _ h => h.2) fun _ _ h => h.2
  exact Completion.leaves_map ((j.passes e s.world).mono (fun w hw => ⟨h.1, hw ▸ h.2⟩)
    fun _ w hw => ⟨h.1, hw ▸ h.2⟩)

/-- What a batch leaves, of whatever projection. -/
theorem Journal.doApply_progress (facts : List DeliveredFact) (hs : Idle s) :
    (doApply p facts s).Leaves
      (fun s' => Idle s' ∧ Done p (j.committed s.world) facts (j.committed s'.world))
      fun _ s' => Idle s' ∧ Progress (j.committed s.world) facts (j.committed s'.world) := by
  apply (leaves_doApply facts hs).and
  by_cases hp : ∃ adapter set direct, p.awareness = .transactionAware adapter set direct
  · obtain ⟨adapter, set, direct, hp⟩ := hp
    exact j.doApply_transactional hp facts hs
  · exact j.doApply_direct (fun adapter set direct h => hp ⟨adapter, set, direct, h⟩) facts hs

end Apply
end FactCast.ProjectorImpl
