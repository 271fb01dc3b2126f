import FactCast.Client.Resilience
import FactCast.Machine.Run
import Mathlib.Data.List.Basic
import Mathlib.Order.Basic

/-! The budget of retries.

All calls of a store share one list of times (`timestamps`). Every attempt of a call is
entered there, be it the first or a retry, and however it ends. When a call fails, the
list is cleaned of what lies before the window, and if there are too many left, the call
is not retried.

What the budget is to count are the retries. It counts right as long as a call finds, when
it has failed, that the attempts of all kinds are still too few, or that the retries alone
are enough (`spare`). Then every call is retried for which there is a retry left
(`budget_kept`). -/
namespace FactCast.RetryBudget

structure ResilienceConfiguration where
  enabled : Bool
  /-- In milliseconds. -/
  window : Nat
  attempts : Nat

inductive Phase where
  | idle
  /-- About to make an attempt: the first, or another one. -/
  | starting (again : Bool)
  | running
  /-- What the call has thrown, decoded. -/
  | failed (e : Throwable)
  /-- It has read the clock. -/
  | cleaning (e : Throwable) (now : Nat)
  | counting (e : Throwable) (now : Nat)
  | returned
  | thrown (e : Throwable)

/-- What has been decided on a failure, and the retries there had been. -/
structure Decision where
  exception : Throwable
  now : Nat
  retries : List Nat
  retried : Bool

/-- Calls are numbered. The last four fields are a record: of the attempts, and the retries
among them, of the latest time that the list was cleaned for, and of the decisions. -/
structure State where
  now : Nat
  timestamps : List Nat
  phase : Nat → Phase
  registered : List Nat
  retries : List Nat
  cleaned : Nat
  decisions : List Decision

inductive Action where
  | tick (millis : Nat)
  | begin (call : Nat)
  | registerAttempt (call : Nat)
  | succeed (call : Nat)
  | fail (call : Nat) (e : Throwable)
  | shouldRetry (call : Nat)
  | removeOlder (call : Nat)
  | attemptsExhausted (call : Nat)

def State.setPhase (s : State) (call : Nat) (phase : Phase) : State :=
  { s with phase := Function.update s.phase call phase }

def within (window now : Nat) (times : List Nat) : List Nat := times.filter fun t => now - t ≤ window

section Steps
variable (cfg : ResilienceConfiguration) (s : State) (call : Nat)

def registerAttempt (again : Bool) : State :=
  { s.setPhase call .running with
    timestamps := s.timestamps ++ [s.now]
    registered := s.registered ++ [s.now]
    retries := if again then s.retries ++ [s.now] else s.retries }

/-- Only where it matters are the attempts looked at. -/
def examine (e : Throwable) : State :=
  if cfg.enabled && ClientExceptionHelper.isRetryable e then s.setPhase call (.cleaning e s.now)
  else s.setPhase call (.thrown e)

def removeOlder (e : Throwable) (now : Nat) : State :=
  { s.setPhase call (.counting e now) with
    timestamps := within cfg.window now s.timestamps
    cleaned := max s.cleaned now }

def decideRetry (e : Throwable) (now : Nat) : State :=
  let retried := shouldRetry cfg.enabled (cfg.attempts ≤ s.timestamps.length) e
  { s.setPhase call (if retried then .starting true else .thrown e) with
    decisions := ⟨e, now, s.retries, retried⟩ :: s.decisions }

def step : Action → Option State
  | .tick millis => some { s with now := s.now + millis }
  | .begin call =>
    match s.phase call with
    | .idle => some (s.setPhase call (.starting false))
    | _ => none
  | .registerAttempt call =>
    match s.phase call with
    | .starting again => some (registerAttempt s call again)
    | _ => none
  | .succeed call =>
    match s.phase call with
    | .running => some (s.setPhase call .returned)
    | _ => none
  | .fail call e =>
    match s.phase call with
    | .running => some (s.setPhase call (.failed (ClientExceptionHelper.from_ e)))
    | _ => none
  | .shouldRetry call =>
    match s.phase call with
    | .failed e => some (examine cfg s call e)
    | _ => none
  | .removeOlder call =>
    match s.phase call with
    | .cleaning e now => some (removeOlder cfg s call e now)
    | _ => none
  | .attemptsExhausted call =>
    match s.phase call with
    | .counting e now => some (decideRetry cfg s call e now)
    | _ => none

end Steps

def machine (cfg : ResilienceConfiguration) : Machine State Action where
  Start s := s.timestamps = [] ∧ s.registered = [] ∧ s.retries = [] ∧ s.decisions = [] ∧
    s.cleaned ≤ s.now ∧ ∀ call, s.phase call = .idle
  step := step cfg

/-! ### What is expected -/

/-- There is a retry left. -/
def Decision.entitled (cfg : ResilienceConfiguration) (d : Decision) : Prop :=
  cfg.enabled = true ∧ ClientExceptionHelper.isRetryable d.exception = true ∧
    (within cfg.window d.now d.retries).length < cfg.attempts

/-- Every call is retried for which there is a retry left. -/
def BudgetKept (cfg : ResilienceConfiguration) (s : State) : Prop :=
  ∀ d ∈ s.decisions, d.entitled cfg → d.retried = true

/-- The attempts of all kinds are too few for the budget, or the retries are enough. -/
def spare (cfg : ResilienceConfiguration) (s : State) : Action → Bool
  | .attemptsExhausted call =>
    match s.phase call with
    | .counting _ now => decide ((within cfg.window s.cleaned s.registered).length < cfg.attempts ∨
        cfg.attempts ≤ (within cfg.window now s.retries).length)
    | _ => true
  | _ => true

section Proofs
variable {cfg : ResilienceConfiguration} {s s' : State} {a : Action} {call : Nat} {e : Throwable} {now : Nat}

theorem within_within {window t u : Nat} {times : List Nat} :
    within window u (within window t times) = within window (max t u) times := by
  rw [within, within, within, List.filter_filter]
  refine List.filter_congr fun r _ => ?_
  rw [← Bool.decide_and, decide_eq_decide]
  omega

/-- What happens now is within any window. -/
theorem within_append {window t : Nat} {times : List Nat} (h : t ≤ now) :
    within window t (times ++ [now]) = within window t times ++ [now] := by
  have hnow : decide (t - now ≤ window) = true := decide_eq_true (by omega)
  rw [within, List.filter_append, List.filter_singleton, hnow, cond_true, within]

/-- The list holds the attempts since the latest cleaning. -/
structure Recorded (cfg : ResilienceConfiguration) (s : State) : Prop where
  timestamps : s.timestamps = within cfg.window s.cleaned s.registered
  cleaned : s.cleaned ≤ s.now
  clock : ∀ call e now, s.phase call = .cleaning e now → now ≤ s.now

theorem Recorded.setPhase {phase : Phase} (h : Recorded cfg s)
    (hclock : ∀ e now, phase = .cleaning e now → now ≤ s.now) : Recorded cfg (s.setPhase call phase) where
  timestamps := h.timestamps
  cleaned := h.cleaned
  clock := fun other e now hphase => by
    by_cases heq : other = call
    · rw [heq, State.setPhase] at hphase
      exact hclock e now ((Function.update_self ..).symm.trans hphase)
    · exact h.clock other e now ((Function.update_of_ne heq ..).symm.trans hphase)

/-- What a step makes of the decisions: one is added where the attempts are counted. -/
theorem decisions_step (hs : step cfg s a = some s') : s'.decisions = s.decisions ∨
    ∃ call e now, a = .attemptsExhausted call ∧ s.phase call = .counting e now ∧
      s'.decisions = ⟨e, now, s.retries, shouldRetry cfg.enabled (cfg.attempts ≤ s.timestamps.length) e⟩ ::
        s.decisions := by
  cases a with
  | tick millis =>
    cases hs
    exact .inl rfl
  | shouldRetry call =>
    simp only [step] at hs
    split at hs
    · cases hs
      rw [examine]
      split <;> exact .inl rfl
    · exact nomatch hs
  | attemptsExhausted call =>
    simp only [step] at hs
    split at hs
    · rename_i e now hphase
      cases hs
      exact .inr ⟨call, e, now, rfl, hphase, rfl⟩
    · exact nomatch hs
  | _ call =>
    simp only [step] at hs
    split at hs
    · cases hs
      exact .inl rfl
    · exact nomatch hs

theorem Recorded.step (h : Recorded cfg s) (hs : RetryBudget.step cfg s a = some s') : Recorded cfg s' := by
  cases a with
  | tick millis =>
    cases hs
    exact ⟨h.timestamps, Nat.le_trans h.cleaned (Nat.le_add_right _ _),
      fun call e now hphase => Nat.le_trans (h.clock call e now hphase) (Nat.le_add_right _ _)⟩
  | registerAttempt call =>
    simp only [RetryBudget.step] at hs
    split at hs
    · cases hs
      have hphase : Recorded cfg (s.setPhase call .running) := h.setPhase nofun
      refine ⟨?_, h.cleaned, hphase.clock⟩
      show s.timestamps ++ [s.now] = within cfg.window s.cleaned (s.registered ++ [s.now])
      rw [within_append h.cleaned, ← h.timestamps]
    · exact nomatch hs
  | shouldRetry call =>
    simp only [RetryBudget.step] at hs
    split at hs
    · cases hs
      rw [examine]
      split
      · exact h.setPhase fun e now hphase => by
          injection hphase with _ hnow
          exact Nat.le_of_eq hnow.symm
      · exact h.setPhase nofun
    · exact nomatch hs
  | removeOlder call =>
    simp only [RetryBudget.step] at hs
    split at hs
    · rename_i e now hcleaning
      cases hs
      have hphase : Recorded cfg (s.setPhase call (.counting e now)) := h.setPhase nofun
      refine ⟨?_, Nat.max_le.mpr ⟨h.cleaned, h.clock call e now hcleaning⟩, hphase.clock⟩
      show within cfg.window now s.timestamps = within cfg.window (max s.cleaned now) s.registered
      rw [h.timestamps, within_within]
    · exact nomatch hs
  | attemptsExhausted call =>
    simp only [RetryBudget.step] at hs
    split at hs
    · rename_i e now _
      cases hs
      have hphase : ∀ phase, (∀ e now, phase ≠ .cleaning e now) → Recorded cfg (s.setPhase call phase) :=
        fun phase hne => h.setPhase fun e now heq => absurd heq (hne e now)
      have hnext := hphase (if shouldRetry cfg.enabled (cfg.attempts ≤ s.timestamps.length) e then .starting true
        else .thrown e) fun e' now' heq => by split at heq <;> exact nomatch heq
      exact ⟨hnext.timestamps, hnext.cleaned, hnext.clock⟩
    · exact nomatch hs
  | _ call =>
    simp only [RetryBudget.step] at hs
    split at hs
    · cases hs
      exact h.setPhase nofun
    · exact nomatch hs

theorem reachable_recorded (h : (machine cfg).Reachable s) : Recorded cfg s := by
  refine h.invariant (fun s hstart => ?_) fun s a s' hs _ hstep => hs.step hstep
  obtain ⟨htimestamps, hregistered, _, _, hcleaned, hidle⟩ := hstart
  refine ⟨?_, hcleaned, fun call e now hphase => ?_⟩
  · rw [htimestamps, hregistered]
    rfl
  · rw [hidle call] at hphase
    exact nomatch hphase

/-- A decision is right just if there is something to spare. -/
theorem spare_iff (h : Recorded cfg s) (hphase : s.phase call = .counting e now) (henabled : cfg.enabled = true)
    (hretryable : ClientExceptionHelper.isRetryable e = true) : spare cfg s (.attemptsExhausted call) = true ↔
      ((within cfg.window now s.retries).length < cfg.attempts →
        shouldRetry cfg.enabled (cfg.attempts ≤ s.timestamps.length) e = true) := by
  have hretry : shouldRetry cfg.enabled (cfg.attempts ≤ s.timestamps.length) e = true ↔
      s.timestamps.length < cfg.attempts := by
    rw [shouldRetry, henabled, hretryable]
    simp
  rw [hretry, h.timestamps]
  simp only [spare, hphase, decide_eq_true_eq]
  omega

end Proofs

theorem budget_kept (cfg : ResilienceConfiguration) (s : State)
    (h : (machine cfg).ReachableUnder (fun s a => spare cfg s a = true) s) : BudgetKept cfg s := by
  refine h.invariant_from (fun s hstart => ?_) fun s a s' hreach hkept hspare hstep => ?_
  · intro d hd
    rw [hstart.2.2.2.1] at hd
    exact absurd hd List.not_mem_nil
  · cases decisions_step hstep with
    | inl hsame =>
      rw [BudgetKept, hsame]
      exact hkept
    | inr hnew =>
      obtain ⟨call, e, now, rfl, hphase, hdecisions⟩ := hnew
      intro d hd ⟨henabled, hretryable, hleft⟩
      rw [hdecisions] at hd
      cases List.mem_cons.mp hd with
      | inl heq =>
        subst heq
        exact (spare_iff (reachable_recorded hreach.reachable) hphase henabled hretryable).mp hspare hleft
      | inr hold => exact hkept d hold ⟨henabled, hretryable, hleft⟩

def defaults : ResilienceConfiguration := ⟨true, 30000, 10⟩

def initial : State := ⟨0, [], fun _ => .idle, [], [], 0, []⟩

def unavailable : Throwable := .status { code := .unavailable }

/-- A call that goes well. -/
def success (call : Nat) : List Action := [.begin call, .registerAttempt call, .succeed call]

/-- A call that fails, and what is decided. -/
def failure (call : Nat) : List Action :=
  [.begin call, .registerAttempt call, .fail call unavailable, .shouldRetry call, .removeOlder call,
    .attemptsExhausted call]

/-- One failure after one success. -/
theorem budget_kept_once : ∃ t, (machine defaults).ReachableUnder (fun s a => spare defaults s a = true) t ∧
    t.decisions.map Decision.retried = [true] ∧ BudgetKept defaults t := by
  have hstart : (machine defaults).Start initial := ⟨rfl, rfl, rfl, rfl, Nat.le_refl 0, fun _ => rfl⟩
  have hrun : ((machine defaults).runUnder (spare defaults) initial (success 0 ++ failure 1)).map
      (fun t => t.decisions.map Decision.retried) = some [true] := rfl
  obtain ⟨t, hreach, hdecisions⟩ := Machine.exists_reachableUnder hstart _ _ hrun
  exact ⟨t, hreach, hdecisions, budget_kept defaults t hreach⟩

/-- After ten calls that have gone well the first failure is final. -/
theorem spent_by_successes : ¬ ∀ cfg s, (machine cfg).Reachable s → BudgetKept cfg s := by
  intro h
  have hstart : (machine defaults).Start initial := ⟨rfl, rfl, rfl, rfl, Nat.le_refl 0, fun _ => rfl⟩
  have hrun : ((machine defaults).run initial ((List.range 10).flatMap success ++ failure 10)).map
      State.decisions = some [⟨.retryable { code := .unavailable }, 0, [], false⟩] := rfl
  obtain ⟨t, hreach, hdecisions⟩ := Machine.exists_reachable hstart _ _ hrun
  have hretried := h defaults t hreach ⟨.retryable { code := .unavailable }, 0, [], false⟩
    (by rw [hdecisions]; exact List.mem_singleton_self _) ⟨rfl, rfl, by decide⟩
  exact nomatch hretried

end FactCast.RetryBudget
