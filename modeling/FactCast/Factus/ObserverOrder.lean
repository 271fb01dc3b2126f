import FactCast.Factus.Journal
import FactCast.Factus.Observer
import FactCast.Machine.Run

/-! Stored positions and what was applied before them.

A subscription calls its observer back: with facts of ascending serials, and with
everything else in any order. Once a callback has thrown, only the error is reported. A
stored position should never move back, and whatever was received up to it should have
been applied.

That is so as long as no fact comes from before the stored position, and no
fast-forward is taken that lies before it or, where the observer follows, passes
buffered facts (`position_sound`). The observer takes all three: it compares with the
last batch that it applied itself, not with what is stored, while following it does not
look at the buffer, and it does not look at the serials of facts at all. -/
namespace FactCast.FactusImpl
open ProjectorImpl (Journal View Done Progress Idle)

inductive Callback where
  | onNext (f : DeliveredFact)
  | flush
  | onFastForward (pos : FactStreamPosition)
  | onCatchup
  | onComplete
  | onError (exception : Throwable)

inductive Phase where
  | delivering
  /-- A callback has thrown. -/
  | thrown
  | ended
deriving DecidableEq

/-- An observer and what its subscription has called it with. -/
structure Subscribed (W τ : Type) where
  observer : FactObserver W τ
  phase : Phase
  received : List DeliveredFact

variable {W τ : Type} (o : Observation W τ)

def call : Callback → FactObserver W τ → Completion Throwable (FactObserver W τ)
  | .onNext f => onNext o f
  | .flush => flush o
  | .onFastForward pos => onFastForward o pos
  | .onCatchup => onCatchup o
  | .onComplete => onComplete o
  | .onError exception => onError o exception

namespace Callback

/-- Nothing follows. -/
def final : Callback → Bool
  | onComplete => true
  | onError _ => true
  | _ => false

def isError : Callback → Bool
  | onError _ => true
  | _ => false

def facts : Callback → List DeliveredFact
  | onNext f => [f]
  | _ => []

end Callback

namespace Subscribed

/-- Facts arrive in the order of their serials. -/
def permits (s : Subscribed W τ) : Callback → Bool
  | .onNext f => s.phase == .delivering && f.serial.isSome &&
      s.received.all fun g => decide ((FactStreamPosition.from_ g).serial < (FactStreamPosition.from_ f).serial)
  | .onError _ => s.phase != .ended
  | _ => s.phase == .delivering

def nextPhase (a : Callback) : Completion Throwable (FactObserver W τ) → Phase
  | .normally _ => if a.final then .ended else .delivering
  | .abruptly _ _ => if a.isError then .ended else .thrown

/-- After a callback that completed. -/
def after (s : Subscribed W τ) (a : Callback) (called : Completion Throwable (FactObserver W τ)) :
    Subscribed W τ where
  observer := called.state
  phase := nextPhase a called
  received := s.received ++ a.facts

end Subscribed

def step (s : Subscribed W τ) (a : Callback) : Option (Subscribed W τ) :=
  if s.permits a then some (s.after a (call o a s.observer)) else none

/-! ### What is to hold -/

/-- A journal of the projection that is observed. What is done after a batch is not
its business. -/
structure Observed (o : Observation W τ) extends Journal o.projection where
  processes : ∀ state afterProcessing, o.mode = .catchup state afterProcessing → ∀ id w,
    (afterProcessing id w).Leaves (fun w' => committed w' = committed w)
      fun _ w' => committed w' = committed w

variable {o} (j : Observed o)

/-- Applied facts and stored position. -/
def Observed.view (s : Subscribed W τ) : View := j.committed s.observer.target.world

def Observed.stored (s : Subscribed W τ) : Option FactStreamPosition := (j.view s).factStreamPosition

/-- Not at an earlier serial. -/
def NotBefore (later earlier : Option FactStreamPosition) : Prop :=
  ∀ p, earlier = some p → ∃ q, later = some q ∧ p.serial ≤ q.serial

/-- Whatever was received up to the stored position has been applied. -/
def Sound (s : Subscribed W τ) : Prop :=
  ∀ p, j.stored s = some p → ∀ f ∈ s.received, (FactStreamPosition.from_ f).serial ≤ p.serial →
    f ∈ (j.view s).applied

/-- A fact is behind the stored position. A position that is taken is not before the stored
one, and not behind what is still buffered. A buffer that is emptied first does not matter,
nor does the stored position then, as the last of the facts is behind it. -/
def keeps (s : Subscribed W τ) : Callback → Bool
  | .onNext f =>
    match j.stored s with
    | some p => decide (p.serial < (FactStreamPosition.from_ f).serial)
    | none => true
  | .onFastForward t =>
    let ahead := match j.stored s with
      | some p => decide (p.serial ≤ t.serial)
      | none => true
    o.projection.awareness.factStreamPosition?.isNone || !t.isAfter s.observer.position ||
      match o.mode with
      | .follow _ => ahead &&
          s.observer.buffer.all fun f => decide (t.serial < (FactStreamPosition.from_ f).serial)
      | .catchup _ _ => ahead || !s.observer.buffer.isEmpty
  | _ => true

/-- An observer starts with nothing but its projection. -/
structure Start (s : Subscribed W τ) : Prop where
  buffer : s.observer.buffer = []
  position : s.observer.position = none
  target : Idle s.observer.target
  phase : s.phase = .delivering
  received : s.received = []

def subscription (o : Observation W τ) : Machine (Subscribed W τ) Callback where
  Start := Start
  step := step o

/-! ### The invariant -/

/-- What is buffered lies behind the stored position, and all else that was received has
been applied while no callback has thrown. -/
structure Inv (s : Subscribed W τ) : Prop where
  idle : Idle s.observer.target
  sound : Sound j s
  applied : s.phase = .delivering → ∀ f ∈ s.received, f ∈ s.observer.buffer ∨ f ∈ (j.view s).applied
  ascending : s.observer.buffer.Pairwise fun f g =>
    (FactStreamPosition.from_ f).serial < (FactStreamPosition.from_ g).serial
  behind : ∀ f ∈ s.observer.buffer, ∀ p, j.stored s = some p → p.serial < (FactStreamPosition.from_ f).serial
  buffered : s.observer.buffer ⊆ s.received
  /-- An observer that catches up throws with an empty buffer. -/
  emptied : s.phase ≠ .delivering → (∃ state after, o.mode = .catchup state after) → s.observer.buffer = []

/-- A callback keeps the invariant and does not move the position back. -/
structure Fine (s s' : Subscribed W τ) : Prop where
  inv : Inv j s'
  forward : NotBefore (j.stored s') (j.stored s)

section Proofs
variable {j : Observed o} {s s' : Subscribed W τ} {a : Callback} {facts : List DeliveredFact}

theorem notBefore_rfl (p : Option FactStreamPosition) : NotBefore p p := fun q hq => ⟨q, hq, le_refl _⟩

theorem NotBefore.trans {p q r : Option FactStreamPosition} (h : NotBefore p q) (h' : NotBefore q r) :
    NotBefore p r := by
  intro x hx
  obtain ⟨y, hy, hxy⟩ := h' x hx
  obtain ⟨z, hz, hyz⟩ := h y hy
  exact ⟨z, hz, hxy.trans hyz⟩

theorem Fine.trans {s'' : Subscribed W τ} (h : NotBefore (j.stored s') (j.stored s))
    (h' : Fine j s' s'') : Fine j s s'' :=
  ⟨h'.inv, h'.forward.trans h⟩

/-- The world may change as long as the journal does not. -/
theorem Inv.same (h : Inv j s) (hview : j.view s' = j.view s) (hidle : Idle s'.observer.target)
    (hbuffer : s'.observer.buffer = s.observer.buffer) (hreceived : s'.received = s.received)
    (hphase : s'.phase = .delivering → s.phase = .delivering)
    (hemptied : s'.phase ≠ .delivering → (∃ state after, o.mode = .catchup state after) →
      s.observer.buffer = []) : Fine j s s' := by
  have hstored : j.stored s' = j.stored s := by rw [Observed.stored, hview]; rfl
  refine ⟨⟨hidle, ?_, ?_, ?_, ?_, ?_, ?_⟩, ?_⟩
  · intro p hp f hf hle
    rw [hstored] at hp
    rw [hreceived] at hf
    rw [hview]
    exact h.sound p hp f hf hle
  · intro hd f hf
    rw [hreceived] at hf
    rw [hview, hbuffer]
    exact h.applied (hphase hd) f hf
  · rw [hbuffer]
    exact h.ascending
  · intro f hf p hp
    rw [hbuffer] at hf
    rw [hstored] at hp
    exact h.behind f hf p hp
  · rw [hbuffer, hreceived]
    exact h.buffered
  · intro hne hmode
    rw [hbuffer]
    exact hemptied hne hmode
  · rw [hstored]
    exact notBefore_rfl _

/-- A batch was taken from the buffer, and all of it or its first facts were applied. -/
theorem Inv.taken (h : Inv j s) (hidle : Idle s'.observer.target)
    (hprogress : Progress (j.view s) s.observer.buffer (j.view s')) (hbuffer : s'.observer.buffer = [])
    (hreceived : s'.received = s.received)
    (hdone : s'.phase = .delivering → s.phase = .delivering ∧ Done o.projection (j.view s) s.observer.buffer (j.view s'))
    (hphase : s.phase = .delivering) : Fine j s s' := by
  obtain ⟨done, hinit, happlied, hposition⟩ := hprogress.applied
  -- a position that has moved is that of a fact that was applied
  have hmoved : ∀ p, j.stored s' = some p → j.stored s = some p ∨ ∃ g ∈ done, p = .from_ g := by
    intro p hp
    rcases hposition with hsame | ⟨g, hg, hgp⟩
    · exact .inl (hsame.symm.trans hp)
    · exact .inr ⟨g, hg, Option.some.inj (hp.symm.trans hgp)⟩
  refine ⟨⟨hidle, ?_, ?_, ?_, ?_, ?_, ?_⟩, ?_⟩
  · intro p hp f hf hle
    rw [hreceived] at hf
    rw [happlied]
    apply List.mem_append.mpr
    rcases h.applied hphase f hf with hfb | hfa
    · refine .inr ?_
      rcases hmoved p hp with hold | ⟨g, hg, rfl⟩
      · have := h.behind f hfb p hold
        omega
      · -- a buffered fact up to an applied one stands before it in the batch
        obtain ⟨rest, hrest⟩ := hinit
        have hasc := h.ascending
        rw [← hrest] at hasc hfb
        rcases List.mem_append.mp hfb with hfd | hfr
        · exact hfd
        · have := (List.pairwise_append.mp hasc).2.2 g hg f hfr
          omega
    · exact .inl hfa
  · intro hd f hf
    rw [hreceived] at hf
    obtain ⟨_, hall⟩ := hdone hd
    rw [hall.applied, List.mem_append, or_comm (a := f ∈ (j.view s).applied)]
    exact .inr (h.applied hphase f hf)
  · rw [hbuffer]
    exact List.Pairwise.nil
  · rw [hbuffer]
    intro f hf
    cases hf
  · rw [hbuffer]
    exact List.nil_subset _
  · intro _ _
    exact hbuffer
  · intro p hp
    rcases hposition with hsame | ⟨g, hg, hgp⟩
    · exact ⟨p, hsame.trans hp, le_refl _⟩
    · exact ⟨_, hgp, (h.behind g (hinit.subset hg) p hp).le⟩

/-- A position ahead was stored, and nothing up to it is buffered. -/
theorem Inv.moved {t : FactStreamPosition} (h : Inv j s) (hidle : Idle s'.observer.target)
    (hview : j.view s' = (j.view s).move t) (hbuffer : s'.observer.buffer = s.observer.buffer)
    (hreceived : s'.received = s.received)
    (hphase : s.phase = .delivering)
    (hemptied : (∃ state after, o.mode = .catchup state after) → s.observer.buffer = [])
    (hahead : ∀ p, j.stored s = some p → p.serial ≤ t.serial)
    (hbehind : ∀ f ∈ s.observer.buffer, t.serial < (FactStreamPosition.from_ f).serial) :
    Fine j s s' := by
  have hstored : j.stored s' = some t := by rw [Observed.stored, hview]; rfl
  have happlied : (j.view s').applied = (j.view s).applied := by rw [hview]; rfl
  refine ⟨⟨hidle, ?_, ?_, ?_, ?_, ?_, ?_⟩, ?_⟩
  · intro p hp f hf hle
    obtain rfl : t = p := Option.some.inj (hstored.symm.trans hp)
    rw [hreceived] at hf
    rw [happlied]
    rcases h.applied hphase f hf with hfb | hfa
    · have := hbehind f hfb
      omega
    · exact hfa
  · intro _ f hf
    rw [hreceived] at hf
    rw [happlied, hbuffer]
    exact h.applied hphase f hf
  · rw [hbuffer]
    exact h.ascending
  · intro f hf p hp
    obtain rfl : t = p := Option.some.inj (hstored.symm.trans hp)
    rw [hbuffer] at hf
    exact hbehind f hf
  · rw [hbuffer, hreceived]
    exact h.buffered
  · intro _ hmode
    rw [hbuffer]
    exact hemptied hmode
  · intro p hp
    exact ⟨t, hstored, hahead p hp⟩

/-! ### The callbacks -/

/-- A fact behind all others, and behind the stored position. -/
theorem Inv.received {f : DeliveredFact} (h : Inv j s) (hphase : s.phase = .delivering)
    (hpermitted : ∀ g ∈ s.received, (FactStreamPosition.from_ g).serial < (FactStreamPosition.from_ f).serial)
    (hbehind : ∀ p, j.stored s = some p → p.serial < (FactStreamPosition.from_ f).serial) :
    Inv j { s with
      observer := { s.observer with buffer := s.observer.buffer ++ [f] }
      received := s.received ++ [f] } := by
  refine ⟨h.idle, ?_, ?_, ?_, ?_, ?_, ?_⟩
  · intro p hp g hg hle
    rcases List.mem_append.mp hg with hg | hg
    · exact h.sound p hp g hg hle
    · rw [List.mem_singleton.mp hg] at hle
      have := hbehind p hp
      omega
  · intro _ g hg
    rcases List.mem_append.mp hg with hg | hg
    · exact (h.applied hphase g hg).imp_left (List.mem_append_left _)
    · exact .inl (List.mem_append_right _ hg)
  · refine List.pairwise_append.mpr ⟨h.ascending, List.pairwise_singleton _ _, fun g hg f' hf' => ?_⟩
    rw [List.mem_singleton.mp hf']
    exact hpermitted g (h.buffered hg)
  · intro g hg p hp
    rcases List.mem_append.mp hg with hg | hg
    · exact h.behind g hg p hp
    · rw [List.mem_singleton.mp hg]
      exact hbehind p hp
  · exact List.append_subset.mpr ⟨fun g hg => List.mem_append_left _ (h.buffered hg), List.subset_append_right _ _⟩
  · intro hne
    exact absurd hphase hne

/-- What a call that concerns the projection leaves of an observer. -/
structure Within (x x' : FactObserver W τ) : Prop where
  buffer : x'.buffer = x.buffer
  position : x'.position = x.position
  running : x'.target.runningTransaction = x.target.runningTransaction

theorem within_leaves {x : FactObserver W τ} {c : W → Completion Throwable W} {N A : W → Prop}
    (h : (c x.target.world).Leaves N fun _ => A) :
    (x.within c).Leaves (fun x' => Within x x' ∧ N x'.target.world)
      fun _ x' => Within x x' ∧ A x'.target.world :=
  Completion.leaves_map (Completion.leaves_map
    (h.mono (fun _ hw => ⟨⟨rfl, rfl, rfl⟩, hw⟩) fun _ _ hw => ⟨⟨rfl, rfl, rfl⟩, hw⟩))

variable (j) in
/-- A batch is applied, or the first of its facts are. -/
theorem onNextFacts_leaves {x : FactObserver W τ} (hne : facts ≠ []) (hidle : Idle x.target) :
    (onNextFacts o facts hne x).Leaves
      (fun x' => Idle x'.target ∧ x'.buffer = x.buffer ∧
        x'.position = some (.from_ (facts.getLast hne)) ∧
        Done o.projection (j.committed x.target.world) facts (j.committed x'.target.world))
      fun _ x' => Idle x'.target ∧ x'.buffer = x.buffer ∧
        Progress (j.committed x.target.world) facts (j.committed x'.target.world) := by
  have happly : (apply o facts x).Leaves
      (fun x' => (Idle x'.target ∧
        Done o.projection (j.committed x.target.world) facts (j.committed x'.target.world)) ∧
        x'.buffer = x.buffer)
      fun _ x' => (Idle x'.target ∧
        Progress (j.committed x.target.world) facts (j.committed x'.target.world)) ∧
        x'.buffer = x.buffer :=
    Completion.leaves_map ((j.doApply_progress facts hidle).mono (fun _ h => ⟨h, rfl⟩)
      fun _ _ h => ⟨h, rfl⟩)
  unfold onNextFacts
  cases hmode : o.mode with
  | follow tokenIsValid =>
    dsimp only
    split
    · exact (happly.mono (fun _ h => h) fun _ _ h => ⟨h.1.1, h.2, h.1.2⟩).andThen
        fun _ h => ⟨h.1.1, h.2, rfl, h.1.2⟩
    · exact ⟨hidle, rfl, .rfl'⟩
  | catchup state afterProcessing =>
    refine (happly.mono (fun _ h => h) fun _ _ h => ⟨h.1.1, h.2, h.1.2⟩).andThen fun x' h => ?_
    refine (within_leaves (j.processes state afterProcessing hmode _ _)).mono
      (fun x'' h'' => ?_) fun _ x'' h'' => ?_
    · refine ⟨h''.1.running.trans h.1.1, h''.1.buffer.trans h.2, h''.1.position, ?_⟩
      rw [h''.2]
      exact h.1.2
    · refine ⟨h''.1.running.trans h.1.1, h''.1.buffer.trans h.2, ?_⟩
      rw [h''.2]
      exact h.1.2.progress

/-- The buffer is empty after a flush, whatever became of its facts. -/
theorem Inv.leaves_flush (h : Inv j s) (hphase : s.phase = .delivering) :
    (flush o s.observer).Leaves
      (fun x => Fine j s { s with observer := x } ∧ x.buffer = [] ∧
        (s.observer.buffer = [] → x = s.observer) ∧
        (s.observer.buffer ≠ [] → o.projection.awareness.factStreamPosition?.isSome = true →
          (j.committed x.target.world).factStreamPosition = x.position))
      fun _ x => Fine j s { s with observer := x, phase := .thrown } ∧ x.buffer = [] := by
  unfold flush
  split
  · rename_i hbuffer
    exact ⟨h.same rfl h.idle rfl rfl (fun h => h) fun hne => absurd hphase hne, hbuffer,
      fun _ => rfl, fun hne => absurd hbuffer hne⟩
  · rename_i first rest hbuffer
    have hbatch := onNextFacts_leaves j (x := { s.observer with buffer := [] })
      (List.cons_ne_nil first rest) h.idle
    refine hbatch.mono (fun x hx => ?_) fun _ x hx => ?_
    · have hdone : Done o.projection (j.view s) s.observer.buffer (j.committed x.target.world) := by
        rw [hbuffer]
        exact hx.2.2.2
      refine ⟨h.taken hx.1 hdone.progress hx.2.1 rfl (fun _ => ⟨hphase, hdone⟩) hphase, hx.2.1,
        fun hempty => ?_, fun _ haware => ?_⟩
      · rw [hbuffer] at hempty
        cases hempty
      · rw [hx.2.2.2.position, if_pos haware, hx.2.2.1, List.getLast?_eq_some_getLast]
        rfl
    · have hprogress : Progress (j.view s) s.observer.buffer (j.committed x.target.world) := by
        rw [hbuffer]
        exact hx.2.2
      exact ⟨h.taken hx.1 hprogress hx.2.1 rfl (fun hd => nomatch hd) hphase, hx.2.1⟩

theorem Inv.fine (h : Inv j s) : Fine j s s := ⟨h, notBefore_rfl _⟩

/-- Only a callback that reports an error may come when another has thrown. -/
theorem permits_phase (h : s.permits a = true) : a.isError = true ∨ s.phase = .delivering := by
  cases a with
  | onError e => exact .inl rfl
  | onNext f => exact .inr (by simp_all [Subscribed.permits])
  | flush => exact .inr (by simpa [Subscribed.permits] using h)
  | onFastForward t => exact .inr (by simpa [Subscribed.permits] using h)
  | onCatchup => exact .inr (by simpa [Subscribed.permits] using h)
  | onComplete => exact .inr (by simpa [Subscribed.permits] using h)

theorem nextPhase_normally (x : FactObserver W τ) (h : a.isError = true ∨ s.phase = .delivering)
    (hd : Subscribed.nextPhase a (.normally x) = .delivering) : s.phase = .delivering := by
  rcases h with h | h
  · cases a with
    | onError e => cases hd
    | _ => cases h
  · exact h

theorem nextPhase_abruptly (x : FactObserver W τ) (e : Throwable) :
    Subscribed.nextPhase a (.abruptly e x) ≠ .delivering := by
  unfold Subscribed.nextPhase
  cases a.isError
  · exact nofun
  · exact nofun

/-- A callback without facts that left the projection alone. -/
theorem Inv.completed {x : FactObserver W τ} (h : Inv j { s with observer := x }) (hfacts : a.facts = [])
    (hphase : a.isError = true ∨ s.phase = .delivering)
    (hemptied : (∃ state after, o.mode = .catchup state after) → x.buffer = []) {x' : FactObserver W τ}
    (hwithin : Within x x') (hsame : j.committed x'.target.world = j.committed x.target.world) :
    Fine j { s with observer := x } (s.after a (.normally x')) ∧
      ∀ e, Fine j { s with observer := x } (s.after a (.abruptly e x')) := by
  have hreceived : s.received ++ a.facts = s.received := by rw [hfacts, List.append_nil]
  have hidle : Idle x'.target := hwithin.running.trans h.idle
  refine ⟨h.same hsame hidle hwithin.buffer hreceived (nextPhase_normally x' hphase)
    fun _ hmode => hemptied hmode, fun e => ?_⟩
  exact h.same hsame hidle hwithin.buffer hreceived
    (fun hd => absurd hd (nextPhase_abruptly x' e)) fun _ hmode => hemptied hmode

/-- A callback without facts that threw when its buffer was emptied. -/
theorem Fine.abruptly {x : FactObserver W τ} {e : Throwable}
    (h : Fine j s { s with observer := x, phase := .thrown }) (hbuffer : x.buffer = [])
    (hfacts : a.facts = []) : Fine j s (s.after a (.abruptly e x)) := by
  have hreceived : s.received ++ a.facts = s.received := by rw [hfacts, List.append_nil]
  exact .trans h.forward (h.inv.same rfl h.inv.idle rfl hreceived
    (fun hd => absurd hd (nextPhase_abruptly x e)) fun _ _ => hbuffer)

theorem Inv.leaves_flushIfCatchup (h : Inv j s) : (flushIfCatchup o s.observer).Leaves
    (fun x => Fine j s { s with observer := x } ∧
      ((∃ state after, o.mode = .catchup state after) → x.buffer = []))
    fun _ x => Fine j s { s with observer := x, phase := .thrown } ∧ x.buffer = [] := by
  unfold flushIfCatchup
  split
  · rename_i valid hmode
    refine ⟨h.fine, fun ⟨state, after, hcatchup⟩ => ?_⟩
    rw [hmode] at hcatchup
    cases hcatchup
  · rename_i state after hmode
    by_cases hphase : s.phase = .delivering
    · exact (h.leaves_flush hphase).mono (fun x hx => ⟨hx.1, fun _ => hx.2.1⟩) fun _ x hx => hx
    · have hbuffer := h.emptied hphase ⟨state, after, hmode⟩
      have hnothing : flush o s.observer = .normally s.observer := by
        unfold flush
        rw [hbuffer]
      rw [hnothing]
      exact ⟨h.fine, fun _ => hbuffer⟩

/-- The callbacks that empty the buffer, if at all, and then call the projection. -/
theorem Inv.leaves_hook {c : W → Completion Throwable W} (h : Inv j s) (hfacts : a.facts = [])
    (hphase : a.isError = true ∨ s.phase = .delivering)
    (hc : ∀ w, (c w).Leaves (fun w' => j.committed w' = j.committed w)
      fun _ w' => j.committed w' = j.committed w) :
    ((flushIfCatchup o s.observer).andThen fun x => x.within c).Leaves
      (fun x => Fine j s (s.after a (.normally x))) fun e x => Fine j s (s.after a (.abruptly e x)) := by
  refine (h.leaves_flushIfCatchup.mono (fun x hx => hx) fun e x hx => hx.1.abruptly hx.2 hfacts).andThen
    fun x hx => ?_
  refine (within_leaves (hc x.target.world)).mono (fun x' hx' => ?_) fun e x' hx' => ?_
  · exact .trans hx.1.forward (hx.1.inv.completed hfacts hphase hx.2 hx'.1 hx'.2).1
  · exact .trans hx.1.forward ((hx.1.inv.completed hfacts hphase hx.2 hx'.1 hx'.2).2 e)

/-- The position is set to one ahead of everything that was applied. -/
theorem Inv.leaves_setFactStreamPosition {x : FactObserver W τ} {t : FactStreamPosition}
    (h : Inv j { s with observer := x }) (hphase : s.phase = .delivering)
    (hemptied : (∃ state after, o.mode = .catchup state after) → x.buffer = [])
    (hahead : o.projection.awareness.factStreamPosition?.isSome = true →
      (∀ p, (j.committed x.target.world).factStreamPosition = some p → p.serial ≤ t.serial) ∧
      ∀ f ∈ x.buffer, t.serial < (FactStreamPosition.from_ f).serial) :
    (setFactStreamPosition o t x).Leaves
      (fun x' => Fine j { s with observer := x } (s.after (.onFastForward t) (.normally x')))
      fun e x' => Fine j { s with observer := x } (s.after (.onFastForward t) (.abruptly e x')) := by
  have hreceived : s.received ++ Callback.facts (.onFastForward t) = s.received := List.append_nil _
  unfold setFactStreamPosition
  split
  · rename_i set haware
    obtain ⟨hle, hlt⟩ := hahead (by rw [haware]; rfl)
    refine (within_leaves (j.sets set haware t x.target.world)).mono (fun x' hx' => ?_)
      fun e x' hx' => ?_
    · exact h.moved (hx'.1.running.trans h.idle) hx'.2 hx'.1.buffer hreceived hphase hemptied hle hlt
    · rcases hx'.2 with hsame | hmoved
      · exact (h.completed rfl (.inr hphase) hemptied hx'.1 hsame).2 e
      · exact h.moved (hx'.1.running.trans h.idle) hmoved hx'.1.buffer hreceived hphase hemptied hle hlt
  · exact (h.completed rfl (.inr hphase) hemptied ⟨rfl, rfl, rfl⟩ rfl).1

/-- What the observer remembers as its own position is not part of the invariant. -/
theorem Fine.repositioned {x : FactObserver W τ} (h : Fine j s (s'.after a (.normally x)))
    (position : Option FactStreamPosition) :
    Fine j s (s'.after a (.normally { x with position := position })) where
  inv := ⟨h.inv.idle, h.inv.sound, h.inv.applied, h.inv.ascending, h.inv.behind, h.inv.buffered,
    h.inv.emptied⟩
  forward := h.forward

theorem Fine.normally {x : FactObserver W τ} (h : Fine j s { s with observer := x })
    (hfacts : a.facts = []) (hphase : a.isError = true ∨ s.phase = .delivering)
    (hemptied : (∃ state after, o.mode = .catchup state after) → x.buffer = []) :
    Fine j s (s.after a (.normally x)) :=
  .trans h.forward (h.inv.completed hfacts hphase hemptied ⟨rfl, rfl, rfl⟩ rfl).1

theorem Inv.leaves_onNext {f : DeliveredFact} (h : Inv j s) (hphase : s.phase = .delivering)
    (hpermitted : ∀ g ∈ s.received, (FactStreamPosition.from_ g).serial < (FactStreamPosition.from_ f).serial)
    (hkeeps : keeps j s (.onNext f) = true) :
    (onNext o f s.observer).Leaves (fun x => Fine j s (s.after (.onNext f) (.normally x)))
      fun e x => Fine j s (s.after (.onNext f) (.abruptly e x)) := by
  have hbehind : ∀ p, j.stored s = some p → p.serial < (FactStreamPosition.from_ f).serial := by
    intro p hp
    simpa [keeps, hp] using hkeeps
  have hreceived := h.received hphase hpermitted hbehind
  obtain ⟨observer, phase, received⟩ := s
  obtain rfl : phase = .delivering := hphase
  unfold onNext
  dsimp only
  split
  · exact (hreceived.leaves_flush rfl).mono (fun x hx => ⟨hx.1.inv, hx.1.forward⟩)
      fun e x hx => ⟨hx.1.inv, hx.1.forward⟩
  · exact ⟨hreceived, notBefore_rfl _⟩

theorem Inv.leaves_onFastForward {t : FactStreamPosition} (h : Inv j s) (hphase : s.phase = .delivering)
    (hkeeps : keeps j s (.onFastForward t) = true) :
    (onFastForward o t s.observer).Leaves
      (fun x => Fine j s (s.after (.onFastForward t) (.normally x)))
      fun e x => Fine j s (s.after (.onFastForward t) (.abruptly e x)) := by
  unfold keeps at hkeeps
  simp only [Bool.or_eq_true, Option.isNone_iff_eq_none, Bool.not_eq_true'] at hkeeps
  have hstored : ∀ p, j.stored s = some p → (match j.stored s with
      | some p => decide (p.serial ≤ t.serial)
      | none => true) = true → p.serial ≤ t.serial := by
    intro p hp hahead
    rw [hp] at hahead
    exact of_decide_eq_true hahead
  unfold onFastForward
  split
  · rename_i valid hmode
    have hfollow : ¬ ∃ state after, o.mode = .catchup state after := by
      rintro ⟨state, after, hcatchup⟩
      rw [hmode] at hcatchup
      cases hcatchup
    rw [hmode] at hkeeps
    split
    · rename_i hafter
      refine h.leaves_setFactStreamPosition hphase (fun hmode => absurd hmode hfollow) fun haware => ?_
      rcases hkeeps with (hnone | hnot) | htaken
      · rw [hnone] at haware
        cases haware
      · rw [hafter] at hnot
        cases hnot
      · obtain ⟨hahead, hall⟩ := Bool.and_eq_true_iff.mp htaken
        exact ⟨fun p hp => hstored p hp hahead,
          fun f hf => of_decide_eq_true (List.all_eq_true.mp hall f hf)⟩
    · exact h.fine.normally rfl (.inr hphase) fun hmode => absurd hmode hfollow
  · rename_i state afterProcessing hmode
    rw [hmode] at hkeeps
    refine ((h.leaves_flush hphase).mono (fun x hx => hx) fun e x hx => hx.1.abruptly hx.2 rfl).andThen
      fun x hx => ?_
    obtain ⟨hfine, hbuffer, hsame, hlast⟩ := hx
    split
    · rename_i hafter
      have hset := hfine.inv.leaves_setFactStreamPosition (t := t) hphase (fun _ => hbuffer) fun haware => by
        refine ⟨fun p hp => ?_, fun f hf => by rw [hbuffer] at hf; cases hf⟩
        by_cases hempty : s.observer.buffer = []
        · obtain rfl := hsame hempty
          rcases hkeeps with (hnone | hnot) | htaken
          · rw [hnone] at haware
            cases haware
          · rw [hafter] at hnot
            cases hnot
          · rw [hempty] at htaken
            exact hstored p hp (by simpa using htaken)
        · -- the last of the buffered facts is what the target was compared with
          rw [hlast hempty haware] at hp
          rw [hp] at hafter
          exact (of_decide_eq_true hafter).le
      refine (hset.mono (fun x' hx' => hx') fun e x' hx' => .trans hfine.forward hx').andThen
        fun x' hx' => ?_
      split
      · exact .trans hfine.forward (hx'.repositioned (some t))
      · exact .trans hfine.forward hx'
    · exact hfine.normally rfl (.inr hphase) fun _ => hbuffer

theorem Inv.leaves_call (h : Inv j s) (hpermits : s.permits a = true) (hkeeps : keeps j s a = true) :
    (call o a s.observer).Leaves (fun x => Fine j s (s.after a (.normally x)))
      fun e x => Fine j s (s.after a (.abruptly e x)) := by
  have hphase := permits_phase hpermits
  cases a with
  | onNext f =>
    simp only [Subscribed.permits, Bool.and_eq_true, beq_iff_eq, List.all_eq_true,
      decide_eq_true_eq] at hpermits
    exact h.leaves_onNext hpermits.1.1 hpermits.2 hkeeps
  | flush =>
    refine (h.leaves_flush (hphase.resolve_left nofun)).mono (fun x hx => ?_) fun e x hx => ?_
    · exact hx.1.normally rfl hphase fun _ => hx.2.1
    · exact hx.1.abruptly hx.2 rfl
  | onFastForward t => exact h.leaves_onFastForward (hphase.resolve_left nofun) hkeeps
  | onCatchup => exact h.leaves_hook rfl hphase fun w => (j.hooks w).1
  | onComplete => exact h.leaves_hook rfl hphase fun w => (j.hooks w).2
  | onError e => exact h.leaves_hook rfl hphase (j.passes e)

/-- What one callback does to the stored position. -/
theorem Inv.step (h : Inv j s) (hkeeps : keeps j s a = true) (hs : FactusImpl.step o s a = some s') :
    Fine j s s' := by
  unfold FactusImpl.step at hs
  split at hs
  · rename_i hpermits
    cases hs
    have hcall := h.leaves_call hpermits hkeeps
    cases hc : call o a s.observer with
    | normally x =>
      rw [hc] at hcall
      exact hcall
    | abruptly e x =>
      rw [hc] at hcall
      exact hcall
  · cases hs

theorem inv_start (h : Start s) : Inv j s where
  idle := h.target
  sound := fun p _ f hf => by rw [h.received] at hf; cases hf
  applied := fun _ f hf => by rw [h.received] at hf; cases hf
  ascending := by rw [h.buffer]; exact List.Pairwise.nil
  behind := fun f hf => by rw [h.buffer] at hf; cases hf
  buffered := by rw [h.buffer]; exact List.nil_subset _
  emptied := fun hne => absurd h.phase hne

theorem inv_reachable (h : (subscription o).ReachableUnder (fun s a => keeps j s a = true) s) : Inv j s :=
  h.invariant (fun _ hstart => inv_start hstart) fun _ _ _ hinv hkeeps hs => (hinv.step hkeeps hs).inv

end Proofs

/-- **A stored position implies that everything before it was applied**, and it never
moves back, as long as no fact comes from before the stored position, and the observer is
not fast-forwarded to before it, nor past facts that are buffered while it follows. -/
theorem position_sound (o : Observation W τ) (j : Observed o) (s : Subscribed W τ)
    (h : (subscription o).ReachableUnder (fun s a => keeps j s a = true) s) :
    Sound j s ∧ ∀ a s', keeps j s a = true → (subscription o).step s a = some s' →
      NotBefore (j.stored s') (j.stored s) :=
  ⟨(inv_reachable h).sound, fun _ _ hkeeps hs => ((inv_reachable h).step hkeeps hs).forward⟩

/-! ### A ledger that is fast-forwarded -/

/-- A projection that keeps its position beside what it applied. -/
def ledger : ProjectorImpl.Projection View Unit where
  dispatchInfo := ProjectorImpl.orderCount.dispatchInfo
  invoke := fun _ f _ w => .normally (w.apply f)
  onError := fun _ w => .normally w
  awareness := .factStreamPositionAware fun position w => .normally (w.move position)

def ledgerJournal : Journal ledger where
  committed := id
  pending := fun _ w => w
  begins := fun _ _ _ h => nomatch h
  commits := fun _ _ _ h => nomatch h
  rollsBack := fun _ _ _ h => nomatch h
  setsPending := fun _ _ _ h => nomatch h
  sets := fun set hset position w => by
    cases hset
    rfl
  invokes := fun _ _ _ h => nomatch h
  invokesDirectly := fun _ _ _ _ => rfl
  passes := fun _ _ => rfl
  hooks := fun _ => ⟨rfl, rfl⟩

def following : Observation View Unit where
  projection := ledger
  mode := .follow fun _ => true
  maxNumberOfFactsToBuffer := 1000
  positive := Nat.succ_pos 999

/-- Catching up from a fact. -/
def catchingUp : Observation View Unit :=
  { following with mode := .catchup (some ⟨1⟩) fun _ w => .normally w }

def followed : Observed following := { ledgerJournal with processes := fun _ _ h => nomatch h }

def caughtUp : Observed catchingUp where
  toJournal := ledgerJournal
  processes := fun _ _ h _ _ => by
    cases h
    rfl

/-- Nothing was applied yet. -/
def fresh (stored : Option FactStreamPosition) : Subscribed View Unit where
  observer := { target := ⟨none, ⟨[], stored⟩⟩ }
  phase := .delivering
  received := []

def positionAt (n : Int) : FactStreamPosition := ⟨none, n⟩

/-- A fast-forward to before a fact that is buffered, and ahead of what is stored. -/
theorem position_sound_fresh : ∃ s, (subscription following).ReachableUnder
      (fun s a => keeps followed s a = true) s ∧
    followed.stored s = some (positionAt 4) ∧ Sound followed s := by
  have hstart : (subscription following).Start (fresh none) := ⟨rfl, rfl, rfl, rfl, rfl⟩
  obtain ⟨s, hs, hstored⟩ := Machine.exists_reachableUnder (c := keeps followed) hstart
    [.onFastForward (positionAt 3), .onNext (ProjectorImpl.orderAt 5), .onFastForward (positionAt 4)]
    (fun s => followed.stored s) (b := some (positionAt 4)) (by decide +kernel)
  exact ⟨s, hs, hstored, (position_sound following followed s hs).1⟩

/-- A second fast-forward that is behind the first moves the position back; one that
follows a buffered fact passes it; one that is behind a stored position moves that
back, also while catching up; and so does a fact that was passed before it came. -/
theorem fastForward_unsound :
    (∃ s s', (subscription following).Reachable s ∧
      (subscription following).step s (.onFastForward (positionAt 50)) = some s' ∧
      ¬ NotBefore (followed.stored s') (followed.stored s)) ∧
    (∃ s, (subscription following).Reachable s ∧ ¬ Sound followed s) ∧
    (∃ s s', (subscription catchingUp).Start s ∧
      (subscription catchingUp).step s (.onFastForward (positionAt 5)) = some s' ∧
      ¬ NotBefore (caughtUp.stored s') (caughtUp.stored s)) ∧
    ∃ s s', (subscription following).Reachable s ∧ (subscription following).step s .flush = some s' ∧
      ¬ NotBefore (followed.stored s') (followed.stored s) := by
  have hstart : (subscription following).Start (fresh none) := ⟨rfl, rfl, rfl, rfl, rfl⟩
  have hback : ∀ m n : Int, m < n → ¬ NotBefore (some (positionAt m)) (some (positionAt n)) := by
    intro m n hmn h
    obtain ⟨q, hq, hle⟩ := h _ rfl
    cases hq
    exact absurd (show n ≤ m from hle) (by omega)
  refine ⟨?_, ?_, ?_, ?_⟩
  · obtain ⟨s, hs, hstored⟩ := Machine.exists_reachable hstart [.onFastForward (positionAt 100)]
      (fun s => (followed.stored s, (step following s (.onFastForward (positionAt 50))).map followed.stored))
      (b := (some (positionAt 100), some (some (positionAt 50)))) (by decide +kernel)
    obtain ⟨hfirst, hsecond⟩ := Prod.mk.injEq .. ▸ hstored
    obtain ⟨s', hs', hstored'⟩ := Option.map_eq_some_iff.mp hsecond
    refine ⟨s, s', hs, hs', ?_⟩
    rw [hfirst, hstored']
    exact hback 50 100 (by omega)
  · obtain ⟨s, hs, hstored⟩ := Machine.exists_reachable hstart
      [.onNext (ProjectorImpl.orderAt 1), .onFastForward (positionAt 5)]
      (fun s => (followed.stored s, s.received.map FactStreamPosition.from_,
        (followed.view s).applied.map FactStreamPosition.from_))
      (b := (some (positionAt 5), [.from_ (ProjectorImpl.orderAt 1)], [])) (by decide +kernel)
    obtain ⟨hposition, hlists⟩ := Prod.mk.injEq .. ▸ hstored
    obtain ⟨hreceived, happlied⟩ := Prod.mk.injEq .. ▸ hlists
    obtain ⟨f, hf, hfrom⟩ := List.mem_map.mp (hreceived ▸ List.mem_singleton_self _)
    refine ⟨s, hs, fun hsound => ?_⟩
    have hmem := hsound _ hposition f hf (by rw [hfrom]; decide)
    rw [List.map_eq_nil_iff.mp happlied] at hmem
    cases hmem
  · have hstored : (step catchingUp (fresh (some (positionAt 10))) (.onFastForward (positionAt 5))).map
        caughtUp.stored = some (some (positionAt 5)) := by decide +kernel
    obtain ⟨s', hs', hstored'⟩ := Option.map_eq_some_iff.mp hstored
    refine ⟨fresh (some (positionAt 10)), s', ⟨rfl, rfl, rfl, rfl, rfl⟩, hs', ?_⟩
    rw [hstored']
    exact hback 5 10 (by omega)
  · obtain ⟨s, hs, hstored⟩ := Machine.exists_reachable hstart
      [.onFastForward (positionAt 3), .onNext (ProjectorImpl.orderAt 2)]
      (fun s => (followed.stored s, (step following s .flush).map fun s => (followed.stored s).map FactStreamPosition.serial))
      (b := (some (positionAt 3), some (some 2))) (by decide +kernel)
    obtain ⟨hfirst, hsecond⟩ := Prod.mk.injEq .. ▸ hstored
    obtain ⟨s', hs', hstored'⟩ := Option.map_eq_some_iff.mp hsecond
    obtain ⟨p, hp, hserial⟩ := Option.map_eq_some_iff.mp hstored'
    refine ⟨s, s', hs, hs', fun h => ?_⟩
    obtain ⟨q, hq, hle⟩ := h _ hfirst
    obtain rfl := Option.some.inj (hp.symm.trans hq)
    rw [hserial] at hle
    exact absurd hle (by decide)

end FactCast.FactusImpl
