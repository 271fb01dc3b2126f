import FactCast.Store.StreamSignals

/-! What a connected stream does next by itself.

Its phase says what that is (`Phase.next`), that it can be done if the statement of the
request can be executed (`isSome_next`), and what is then the case (`leads_of_next`).
Everything else that befalls it is done by others (`next_of_step`). -/
namespace FactCast.PgFactStream

/-- The executor is registered. -/
def Phase.follows : Phase → Bool
  | .idle => true
  | .latest _ => true
  | .running _ _ => true
  | _ => false

/-- What a connected stream does next by itself. -/
def Phase.next : Phase → Option Action
  | .connecting => some .connect
  | .jumping => some .jump
  | .catchup _ => some .catchup
  | .fetching _ [] => some .finish
  | .fetching _ (_ :: _) => some .row
  | .fastForward => some .fastForward
  | .readTarget _ _ => some .readTarget
  | .signalCatchup => some .signalCatchup
  | .register => some .register
  | .latest _ => some .query
  | .running _ [] => some .finish
  | .running _ (_ :: _) => some .row
  | .idle => none
  | .ended => none

/-- What is neither done by others nor by a stream that is closed or fails. -/
def Action.own : Action → Bool
  | .publish _ => false
  | .queryTarget => false
  | .setTarget => false
  | .trigger => false
  | .close => false
  | .skip => false
  | .failRow _ => false
  | .fail => false
  | _ => true

/-- What a connected stream has done then. -/
def Phase.Leads (request : SubscriptionRequest) (s s' : State) : Phase → Prop
  | .connecting => s'.phase = if request.ephemeral then .jumping else .catchup false
  | .jumping => s'.phase = .fastForward
  | .catchup second => ∃ rows, s'.phase = .fetching second rows
  | .fetching second [] => s'.phase = afterCatchup second
  | .fetching second (_ :: todo) => s'.phase = .fetching second todo
  | .fastForward => ∃ startedSer targetId, s'.phase = .readTarget startedSer targetId
  | .readTarget _ _ => s'.phase = .signalCatchup
  | .signalCatchup => s'.phase = .register
  | .register => s'.phase = if request.continuous then .idle else .ended
  | .latest n => s'.snapshot = s.log ∧ ∃ rows, s'.phase = .running n rows
  | .running n (_ :: todo) => s'.snapshot = s.snapshot ∧ s'.phase = .running n todo
  | .running n [] => s'.snapshot = s.snapshot ∧ s'.phase = .idle ∧ s'.serial = max n s.serial ∧
      s'.facts = s.facts
  | .idle => False
  | .ended => False

/-- The statement of the request can be executed. -/
def Executes (db : Database) (request : SubscriptionRequest) : Prop :=
  ∀ serial log, (select db request serial log).isSome

section Next
variable {db : Database} {request : SubscriptionRequest} {s s' : State} {a : Action}

/-- All that others do to it is to commit facts, to set the target and to trigger it. -/
theorem next_of_step (hc : s.disconnected = false) (hs : step db request s a = some s') :
    s.phase.next = some a ∨ (∃ rows, a = .publish rows) ∨ a = .queryTarget ∨ a = .setTarget ∨ a = .trigger ∨
      a = .close ∨ a = .fail ∨ ∃ handed, a = .failRow handed := by
  cases step_cases hs with
  | publish hasc hpos => exact .inr (.inl ⟨_, rfl⟩)
  | skipFetched hclosed hphase => cases hclosed.symm.trans hc
  | skipFollowed hclosed hphase => cases hclosed.symm.trans hc
  | connect hphase => exact .inl (by rw [hphase]; rfl)
  | jump hphase => exact .inl (by rw [hphase]; rfl)
  | passCatchup hphase => exact .inl (by rw [hphase]; rfl)
  | catchup hphase => exact .inl (by rw [hphase]; rfl)
  | fetchRow hphase => exact .inl (by rw [hphase]; rfl)
  | followRow hphase => exact .inl (by rw [hphase]; rfl)
  | finishCatchup hphase => exact .inl (by rw [hphase]; rfl)
  | finishRun hphase => exact .inl (by rw [hphase]; rfl)
  | passFastForward hphase => exact .inl (by rw [hphase]; rfl)
  | fastForward hphase => exact .inl (by rw [hphase]; rfl)
  | noTarget hphase => exact .inl (by rw [hphase]; rfl)
  | passTarget hphase => exact .inl (by rw [hphase]; rfl)
  | readTarget hphase => exact .inl (by rw [hphase]; rfl)
  | passSignal hphase => exact .inl (by rw [hphase]; rfl)
  | signalCatchup hphase => exact .inl (by rw [hphase]; rfl)
  | passRegister hphase => exact .inl (by rw [hphase]; rfl)
  | register hphase => exact .inl (by rw [hphase]; rfl)
  | complete hphase => exact .inl (by rw [hphase]; rfl)
  | query hphase => exact .inl (by rw [hphase]; rfl)
  | _ => simp

theorem own_of_next {phase : Phase} (h : phase.next = some a) : a.own = true := by
  cases phase with
  | fetching second todo => cases todo <;> cases h <;> rfl
  | running n todo => cases todo <;> cases h <;> rfl
  | _ => cases h <;> rfl

theorem isSome_next (hexec : Executes db request) (hc : s.disconnected = false) (hnext : s.phase.next = some a) :
    (step db request s a).isSome := by
  cases hphase : s.phase with
  | idle => simp [hphase, Phase.next] at hnext
  | ended => simp [hphase, Phase.next] at hnext
  | connecting =>
    obtain rfl : .connect = a := by simpa [hphase, Phase.next] using hnext
    simp [step, initializeSerialToStartAfter, hphase]
  | jumping =>
    obtain rfl : .jump = a := by simpa [hphase, Phase.next] using hnext
    simp [step, jump, hphase]
  | catchup second =>
    obtain rfl : .catchup = a := by simpa [hphase, Phase.next] using hnext
    simpa [step, catchup, hphase, hc] using hexec _ _
  | fetching second todo =>
    cases todo with
    | nil =>
      obtain rfl : .finish = a := by simpa [hphase, Phase.next] using hnext
      simp [step, finish, hphase]
    | cons r todo =>
      obtain rfl : .row = a := by simpa [hphase, Phase.next] using hnext
      simp [step, row, hphase]
  | fastForward =>
    obtain rfl : .fastForward = a := by simpa [hphase, Phase.next] using hnext
    simp [step, fastForward, hphase, hc]
  | readTarget startedSer targetId =>
    obtain rfl : .readTarget = a := by simpa [hphase, Phase.next] using hnext
    cases targetId with
    | none => simp [step, readTarget, hphase]
    | some id =>
      simp only [step, readTarget, hphase]
      split <;> rfl
  | signalCatchup =>
    obtain rfl : .signalCatchup = a := by simpa [hphase, Phase.next] using hnext
    simp [step, signalCatchup, hphase, hc]
  | register =>
    obtain rfl : .register = a := by simpa [hphase, Phase.next] using hnext
    simp only [step, register, hphase, hc]
    cases request.continuous <;> rfl
  | latest latest =>
    obtain rfl : .query = a := by simpa [hphase, Phase.next] using hnext
    simpa [step, query, hphase] using hexec _ _
  | running latest todo =>
    cases todo with
    | nil =>
      obtain rfl : .finish = a := by simpa [hphase, Phase.next] using hnext
      simp [step, finish, hphase]
    | cons r todo =>
      obtain rfl : .row = a := by simpa [hphase, Phase.next] using hnext
      simp [step, row, hphase, hc]

theorem leads_of_next (hc : s.disconnected = false) (hnext : s.phase.next = some a)
    (hs : step db request s a = some s') :
    s'.disconnected = false ∧ s'.log = s.log ∧ s.phase.Leads request s s' := by
  cases step_cases hs with
  | connect hphase =>
    rw [hphase]
    exact ⟨hc, rfl, rfl⟩
  | jump hphase =>
    rw [hphase]
    exact ⟨hc, rfl, rfl⟩
  | catchup hphase =>
    rw [hphase]
    exact ⟨hc, rfl, _, rfl⟩
  | fetchRow hphase =>
    rw [hphase]
    exact ⟨hc, rfl, rfl⟩
  | followRow hphase =>
    rw [hphase]
    exact ⟨hc, rfl, rfl, rfl⟩
  | finishCatchup hphase =>
    rw [hphase]
    exact ⟨hc, rfl, rfl⟩
  | finishRun hphase =>
    rw [hphase]
    exact ⟨hc, rfl, rfl, rfl, rfl, (facts_send s .flush).trans (List.append_nil _)⟩
  | fastForward hphase =>
    rw [hphase]
    exact ⟨hc, rfl, _, _, rfl⟩
  | noTarget hphase =>
    rw [hphase]
    exact ⟨hc, rfl, rfl⟩
  | passTarget hphase =>
    rw [hphase]
    exact ⟨hc, rfl, rfl⟩
  | readTarget hphase =>
    rw [hphase]
    exact ⟨hc, rfl, rfl⟩
  | signalCatchup hphase =>
    rw [hphase]
    exact ⟨hc, rfl, rfl⟩
  | register hphase _ hcontinuous =>
    rw [hphase]
    exact ⟨hc, rfl, by simp [Phase.Leads, hcontinuous]⟩
  | complete hphase _ hends =>
    rw [hphase]
    exact ⟨hc, rfl, by simp [Phase.Leads, hends]⟩
  | query hphase =>
    rw [hphase]
    exact ⟨hc, rfl, rfl, _, rfl⟩
  | passCatchup _ hclosed => cases hclosed.symm.trans hc
  | passFastForward _ hclosed => cases hclosed.symm.trans hc
  | passSignal _ hclosed => cases hclosed.symm.trans hc
  | passRegister _ hclosed => cases hclosed.symm.trans hc
  -- what others do, or a stream that is closed or fails, is not next
  | _ => cases own_of_next hnext

/-- A stream that is closed remains so. -/
theorem connected_of_step (hs : step db request s a = some s') (hc : s'.disconnected = false) :
    s.disconnected = false := by
  cases step_cases hs with
  | close => cases hc
  | failFetched => cases hc
  | failFollowed => cases hc
  | failConnect => cases hc
  | _ => exact hc

theorem phase_of_fail (hs : step db request s .fail = some s') :
    s'.disconnected = true ∨ s.phase.follows = true ∧ s'.phase = .idle := by
  cases step_cases hs with
  | failLatest hphase => exact .inr ⟨by rw [hphase]; rfl, rfl⟩
  | failRun hphase => exact .inr ⟨by rw [hphase]; rfl, rfl⟩
  | failConnect => exact .inl rfl

theorem closed_of_failRow {handed : Bool} (hs : step db request s (.failRow handed) = some s') :
    s'.disconnected = true := by
  cases step_cases hs with
  | failFetched => rfl
  | failFollowed => rfl

/-- As long as it is connected, a stream that is to follow does not end. -/
theorem unended_of_step (hcontinuous : request.continuous = true) (h : s.phase ≠ .ended)
    (hs : step db request s a = some s') (hc : s'.disconnected = false) : s'.phase ≠ .ended := by
  have hold := connected_of_step hs hc
  cases step_cases hs with
  | publish => exact h
  | queryTarget => exact h
  | setTarget => exact h
  | close => exact h
  | connect =>
    show (if request.ephemeral then Phase.jumping else .catchup false) ≠ .ended
    split <;> simp
  | passCatchup _ hclosed => cases hclosed.symm.trans hold
  | @finishCatchup second => cases second <;> simp [afterCatchup]
  | passRegister _ hclosed => cases hclosed.symm.trans hold
  | complete _ _ hends => cases hcontinuous.symm.trans hends
  | failFetched => cases hc
  | failConnect => cases hc
  | _ => simp

theorem unended (hcontinuous : request.continuous = true) (h : (streaming db request).Reachable s)
    (hc : s.disconnected = false) : s.phase ≠ .ended := by
  revert hc
  refine h.invariant (I := fun s => s.disconnected = false → s.phase ≠ .ended) (fun s hstart _ => ?_) ?_
  · simp [hstart.phase]
  · exact fun s a s' hi _ hs hc => unended_of_step hcontinuous (hi (connected_of_step hs hc)) hs hc

end Next

/-! ### On its way to follow -/

/-- How far a stream is from waiting for a trigger. -/
def Phase.rank : Phase → Nat × Nat
  | .connecting => (11, 0)
  | .jumping => (10, 0)
  | .catchup false => (10, 0)
  | .fetching false todo => (9, todo.length)
  | .catchup true => (8, 0)
  | .fetching true todo => (7, todo.length)
  | .fastForward => (6, 0)
  | .readTarget _ _ => (5, 0)
  | .signalCatchup => (4, 0)
  | .register => (3, 0)
  | .latest _ => (2, 0)
  | .running _ todo => (1, todo.length)
  | .idle => (0, 0)
  | .ended => (0, 0)

/-- By itself a stream that is to follow comes closer. -/
theorem rank_of_leads {request : SubscriptionRequest} (hcontinuous : request.continuous = true) {s s' : State}
    {phase : Phase} (h : phase.Leads request s s') :
    Prod.Lex (· < ·) (· < ·) s'.phase.rank phase.rank := by
  have hlower : ∀ {m n i j : Nat}, m < n → Prod.Lex (· < ·) (· < ·) (m, i) (n, j) := fun h => .left _ _ h
  cases phase with
  | connecting =>
    rw [show s'.phase = _ from h]
    split <;> exact hlower (by decide)
  | jumping =>
    rw [show s'.phase = _ from h]
    exact hlower (by decide)
  | catchup second =>
    obtain ⟨rows, hphase⟩ := h
    rw [hphase]
    cases second <;> exact hlower (by decide)
  | fetching second todo =>
    cases todo with
    | nil =>
      rw [show s'.phase = _ from h]
      cases second <;> exact hlower (by decide)
    | cons r todo =>
      rw [show s'.phase = _ from h]
      cases second <;> exact .right _ (Nat.lt_succ_self _)
  | fastForward =>
    obtain ⟨startedSer, targetId, hphase⟩ := h
    rw [hphase]
    exact hlower (by decide)
  | readTarget startedSer targetId =>
    rw [show s'.phase = _ from h]
    exact hlower (by decide)
  | signalCatchup =>
    rw [show s'.phase = _ from h]
    exact hlower (by decide)
  | register =>
    rw [show s'.phase = _ from h, if_pos hcontinuous]
    exact hlower (by decide)
  | latest n =>
    obtain ⟨_, rows, hphase⟩ := h
    rw [hphase]
    exact hlower (by decide)
  | running n todo =>
    cases todo with
    | nil =>
      rw [h.2.1]
      exact hlower (by decide)
    | cons r todo =>
      rw [h.2]
      exact .right _ (Nat.lt_succ_self _)
  | idle => exact h.elim
  | ended => exact h.elim

end FactCast.PgFactStream
