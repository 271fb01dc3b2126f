import FactCast.Machine.Run
import FactCast.Server.NotificationStream

/-! Waiting until the client takes more.

Several threads send on one stream: the one that serves the subscription, and a timer that
keeps the stream alive. A call of `onNext` takes the lock. While the transport is not
ready it waits, without the lock and not more than `retryCount` times. Then it gives the
transport what it has to give, or it ends quietly since the stream is cancelled, or it
throws. What completes or fails the stream goes past the lock (`pass`).

The transport changes when it likes, so every look at it is a step. Somebody who waits is
woken by it, by the clock, or for no reason; no handler is to be relied on, as the one for
cancellation is replaced when the subscription begins. -/
namespace FactCast.BlockingStreamObserver

def retryCount : Nat := 300

def waitTimeMillis : Nat := 1000

inductive Outcome where
  | given
  /-- Quietly. -/
  | cancelled
  | thrown
deriving DecidableEq

/-- Where a call is. -/
inductive Pc where
  | entering
  | locking
  | ready
  | waiting (attempt since : Nat)
  | relocking (attempt : Nat)
  | looking (attempt : Nat)
  | lookingOn (attempt : Nat)
  | waited
  | waitedReady
  | last
  | lastReady
  | lastCancelled
  | giving
  | leaving (outcome : Outcome)
deriving DecidableEq

/-- With the lock. -/
def Pc.inside : Pc → Bool
  | .entering => false
  | .locking => false
  | .waiting _ _ => false
  | .relocking _ => false
  | _ => true

/-- What a call does: it goes on, takes the lock, waits, gives, or returns. -/
inductive Move where
  | goto (pc : Pc)
  | take (pc : Pc)
  | wait (attempt : Nat)
  | give
  | back (outcome : Outcome) (unlocks : Bool)

section Next
variable (isReady isCancelled : Bool)

/-- Waiting ends by itself. -/
def Pc.next : Pc → Option Move
  | .entering => some (if isCancelled then .back .cancelled false else .goto .locking)
  | .locking => some (.take .ready)
  | .ready => some (if isReady then .goto .last else .wait 1)
  | .waiting _ _ => none
  | .relocking attempt => some (.take (.looking attempt))
  | .looking attempt => some (.goto (if isReady then .waited else .lookingOn attempt))
  | .lookingOn attempt =>
    some (if isCancelled ∨ retryCount ≤ attempt then .goto .waited else .wait (attempt + 1))
  | .waited => some (.goto (if isCancelled then .leaving .cancelled else .waitedReady))
  | .waitedReady => some (.goto (if isReady then .last else .leaving .thrown))
  | .last => some (.goto (if isCancelled then .leaving .cancelled else .lastReady))
  | .lastReady => some (.goto (if isReady then .giving else .lastCancelled))
  | .lastCancelled => some (.goto (.leaving (if isCancelled then .cancelled else .thrown)))
  | .giving => some .give
  | .leaving outcome => some (.back outcome true)

end Next

/-- The last three fields are a record: how often it waited, how long, and its steps. -/
structure Call (V : Type) where
  value : V
  pc : Pc := .entering
  waits : Nat := 0
  millis : Nat := 0
  steps : Nat := 0

structure Ended (V : Type) where
  thread : Nat
  call : Call V
  outcome : Outcome

/-- Threads are numbered, and each makes one call at a time. The last three fields are a
record: of the calls, of what the transport was given, and of how the calls ended. -/
structure State (V : Type) where
  now : Nat := 0
  isReady : Bool
  isCancelled : Bool := false
  lock : Option Nat := none
  calls : Nat → Option (Call V)
  made : List (Nat × V) := []
  given : List (Nat × V) := []
  ended : List (Ended V) := []

inductive Action (V : Type) where
  | tick (millis : Nat)
  | setReady (isReady : Bool)
  | cancel
  | call (t : Nat) (value : V)
  | go (t : Nat)
  | wake (t : Nat)
  | pass (t : Nat) (value : V)

section Steps
variable {V : Type} (s : State V)

def State.set (t : Nat) (call : Option (Call V)) : State V := { s with calls := Function.update s.calls t call }

/-- One step more. -/
def Call.goto (c : Call V) (pc : Pc) : Call V := { c with pc := pc, steps := c.steps + 1 }

def act (t : Nat) (c : Call V) : Move → Option (State V)
  | .goto pc => some (s.set t (some (c.goto pc)))
  | .take pc => if s.lock = none then some { s.set t (some (c.goto pc)) with lock := some t } else none
  | .wait attempt => some { s.set t (some (c.goto (.waiting attempt s.now))) with lock := none }
  | .give => some { s.set t (some (c.goto (.leaving .given))) with given := s.given ++ [(t, c.value)] }
  | .back outcome unlocks =>
    some { s.set t none with
      lock := if unlocks then none else s.lock
      ended := s.ended ++ [⟨t, c.goto c.pc, outcome⟩] }

def wake (t : Nat) (c : Call V) : Option (State V) :=
  match c.pc with
  | .waiting attempt since =>
    some (s.set t (some { c.goto (.relocking attempt) with
      waits := c.waits + 1
      millis := c.millis + (s.now - since) }))
  | _ => none

def step : Action V → Option (State V)
  | .tick millis => some { s with now := s.now + millis }
  | .setReady isReady => some { s with isReady := isReady }
  | .cancel => some { s with isCancelled := true }
  | .call t value =>
    if (s.calls t).isNone then some { s.set t (some { value := value }) with made := s.made ++ [(t, value)] } else none
  | .go t => (s.calls t).bind fun c => (c.pc.next s.isReady s.isCancelled).bind (act s t c)
  | .wake t => (s.calls t).bind (wake s t)
  | .pass t value =>
    if (s.calls t).isNone then
      some { s with
        made := s.made ++ [(t, value)]
        given := s.given ++ [(t, value)]
        ended := s.ended ++ [⟨t, { value := value }, .given⟩] }
    else none

end Steps

def sending (V : Type) : Machine (State V) (Action V) where
  Start s := s.isCancelled = false ∧ s.lock = none ∧ (∀ t, s.calls t = none) ∧ s.made = [] ∧ s.given = [] ∧ s.ended = []
  step := step

/-- The clock does not pass the end of a wait. -/
def Timely {V : Type} (s : State V) (a : Action V) : Prop :=
  ∀ millis t c attempt since, a = .tick millis → s.calls t = some c → c.pc = .waiting attempt since →
    s.now + millis ≤ since + waitTimeMillis

/-- What is a thread's. -/
def ofThread {V : Type} (t : Nat) (l : List (Nat × V)) : List V := (l.filter fun p => p.1 == t).map Prod.snd

/-- How its calls ended. -/
def State.endedOf {V : Type} (s : State V) (t : Nat) : List (Ended V) := s.ended.filter fun e => e.thread == t

/-! ### One step of a call -/

/-- How a call is about to return. -/
def Pc.left? : Pc → Option Outcome
  | .leaving outcome => some outcome
  | _ => none

/-- How often it has waited when it is there. -/
def Pc.Waited : Pc → Nat → Prop
  | .entering, waits => waits = 0
  | .locking, waits => waits = 0
  | .ready, waits => waits = 0
  | .waiting attempt _, waits => waits + 1 = attempt ∧ attempt ≤ retryCount
  | .relocking attempt, waits => waits = attempt ∧ attempt ≤ retryCount
  | .looking attempt, waits => waits = attempt ∧ attempt ≤ retryCount
  | .lookingOn attempt, waits => waits = attempt ∧ attempt ≤ retryCount
  | _, waits => waits ≤ retryCount

/-- Steps that are left, at most. -/
def Pc.rank : Pc → Nat
  | .leaving _ => 1
  | .giving => 2
  | .lastCancelled => 2
  | .lastReady => 3
  | .last => 4
  | .waitedReady => 5
  | .waited => 6
  | .lookingOn attempt => 7 + 4 * (retryCount - attempt)
  | .looking attempt => 8 + 4 * (retryCount - attempt)
  | .relocking attempt => 9 + 4 * (retryCount - attempt)
  | .waiting attempt _ => 10 + 4 * (retryCount - attempt)
  | .ready => 7 + 4 * retryCount
  | .locking => 8 + 4 * retryCount
  | .entering => 9 + 4 * retryCount

/-- Going on, with the lock or without it. -/
structure Pc.Onward (isCancelled : Bool) (pc pc' : Pc) : Prop where
  stays : pc.left? = none
  moving : ∀ attempt since, pc' ≠ .waiting attempt since
  inside : pc'.inside = pc.inside
  given : pc'.left? ≠ some .given
  cancelled : pc'.left? = some .cancelled → isCancelled = true
  rank : pc'.rank < pc.rank
  waited : ∀ waits, pc.Waited waits → pc'.Waited waits

/-- What a call does, and when. -/
inductive Moves (isCancelled : Bool) (pc : Pc) : Move → Prop where
  | goto {pc' : Pc} (h : pc.Onward isCancelled pc') : Moves isCancelled pc (.goto pc')
  | take {pc' : Pc} (hstays : pc.left? = none) (hoff : pc.inside = false) (hin : pc'.inside = true)
      (hleft : pc'.left? = none) (hrank : pc'.rank < pc.rank)
      (hwaited : ∀ waits, pc.Waited waits → pc'.Waited waits) : Moves isCancelled pc (.take pc')
  | wait {attempt : Nat} (hstays : pc.left? = none) (hin : pc.inside = true)
      (hrank : ∀ since, (Pc.waiting attempt since).rank < pc.rank)
      (hwaited : ∀ waits since, pc.Waited waits → (Pc.waiting attempt since).Waited waits) :
      Moves isCancelled pc (.wait attempt)
  | give (h : pc = .giving) : Moves isCancelled pc .give
  | returned {outcome : Outcome} (h : pc = .leaving outcome) : Moves isCancelled pc (.back outcome true)
  | quietly (h : pc = .entering) (hcancelled : isCancelled = true) : Moves isCancelled pc (.back .cancelled false)

section Moves
variable {isReady isCancelled : Bool} {pc : Pc} {m : Move}

theorem Moves.plain {pc' : Pc} (hstays : pc.left? = none) (hinside : pc'.inside = pc.inside) (hleft : pc'.left? = none)
    (hmoving : ∀ attempt since, pc' ≠ .waiting attempt since) (hrank : pc'.rank < pc.rank)
    (hwaited : ∀ waits, pc.Waited waits → pc'.Waited waits) : Moves isCancelled pc (.goto pc') :=
  .goto ⟨hstays, hmoving, hinside, by simp [hleft], by simp [hleft], hrank, hwaited⟩

theorem Moves.leave {outcome : Outcome} (hstays : pc.left? = none) (hinside : pc.inside = true)
    (hgiven : outcome ≠ .given) (hcancelled : outcome = .cancelled → isCancelled = true) (hrank : 1 < pc.rank)
    (hwaited : ∀ waits, pc.Waited waits → waits ≤ retryCount) : Moves isCancelled pc (.goto (.leaving outcome)) := by
  refine .goto ⟨hstays, by simp, hinside.symm, fun h => hgiven (Option.some.inj h), fun h => ?_, hrank, hwaited⟩
  exact hcancelled (Option.some.inj h)

theorem moves (h : pc.next isReady isCancelled = some m) : Moves isCancelled pc m := by
  cases pc with
  | entering =>
    cases isCancelled
    · cases h
      exact .plain rfl rfl rfl (by simp) (by decide) fun _ h => h
    · cases h
      exact .quietly rfl rfl
  | locking =>
    cases h
    exact .take rfl rfl rfl rfl (by decide) fun _ h => h
  | ready =>
    cases isReady
    · cases h
      refine .wait rfl rfl (fun _ => by simp [Pc.rank, retryCount]) fun waits _ h => ⟨?_, by decide⟩
      rw [show waits = 0 from h]
    · cases h
      exact .plain rfl rfl rfl (by simp) (by decide) fun waits h => by
        rw [show waits = 0 from h]
        exact Nat.zero_le _
  | waiting attempt since => cases h
  | relocking attempt =>
    cases h
    exact .take rfl rfl rfl rfl (by simp [Pc.rank]) fun _ h => h
  | looking attempt =>
    cases isReady
    · cases h
      exact .plain rfl rfl rfl (by simp) (by simp [Pc.rank]) fun _ h => h
    · cases h
      have hrank : Pc.rank .waited < (Pc.looking attempt).rank := by
        simp only [Pc.rank]
        omega
      exact .plain rfl rfl rfl (by simp) hrank fun waits h => h.1 ▸ h.2
  | lookingOn attempt =>
    simp only [Pc.next, Option.some.injEq] at h
    split at h
    · cases h
      exact .plain rfl rfl rfl (by simp) (by simp only [Pc.rank]; omega) fun waits h => h.1 ▸ h.2
    · rename_i hagain
      have hattempt : attempt < retryCount := by
        rw [not_or] at hagain
        omega
      cases h
      exact .wait rfl rfl (fun _ => by simp only [Pc.rank]; omega) fun waits _ h => ⟨by rw [h.1], hattempt⟩
  | waited =>
    cases isCancelled
    · cases h
      exact .plain rfl rfl rfl (by simp) (by decide) fun _ h => h
    · cases h
      exact .leave rfl rfl (by decide) (fun _ => rfl) (by decide) fun _ h => h
  | waitedReady =>
    cases isReady
    · cases h
      exact .leave rfl rfl (by decide) (by simp) (by decide) fun _ h => h
    · cases h
      exact .plain rfl rfl rfl (by simp) (by decide) fun _ h => h
  | last =>
    cases isCancelled
    · cases h
      exact .plain rfl rfl rfl (by simp) (by decide) fun _ h => h
    · cases h
      exact .leave rfl rfl (by decide) (fun _ => rfl) (by decide) fun _ h => h
  | lastReady =>
    cases isReady
    · cases h
      exact .plain rfl rfl rfl (by simp) (by decide) fun _ h => h
    · cases h
      exact .plain rfl rfl rfl (by simp) (by decide) fun _ h => h
  | lastCancelled =>
    cases isCancelled
    · cases h
      exact .leave rfl rfl (by decide) (by simp) (by decide) fun _ h => h
    · cases h
      exact .leave rfl rfl (by decide) (fun _ => rfl) (by decide) fun _ h => h
  | giving =>
    cases h
    exact .give rfl
  | leaving outcome =>
    cases h
    exact .returned rfl

/-- Whoever does not wait has a step. -/
theorem isSome_next (h : ∀ attempt since, pc ≠ .waiting attempt since) : (pc.next isReady isCancelled).isSome := by
  cases pc with
  | waiting attempt since => exact absurd rfl (h attempt since)
  | _ => rfl

end Moves

/-! ### Thread by thread -/

section Threads
variable {V : Type} {s s' : State V} {a : Action V} {t u : Nat} {v : V}

theorem ofThread_append (l l' : List (Nat × V)) : ofThread t (l ++ l') = ofThread t l ++ ofThread t l' := by
  simp [ofThread]

@[simp] theorem ofThread_self : ofThread t [(t, v)] = [v] := by simp [ofThread]

theorem ofThread_other (h : u ≠ t) : ofThread u [(t, v)] = [] := by simp [ofThread, h.symm]

/-- What a step leaves of a thread. -/
structure Same (s s' : State V) (u : Nat) : Prop where
  calls : s'.calls u = s.calls u
  made : ofThread u s'.made = ofThread u s.made
  given : ofThread u s'.given = ofThread u s.given
  ended : s'.endedOf u = s.endedOf u

/-- Whose step it is. -/
def Action.thread? : Action V → Option Nat
  | .call t _ => some t
  | .go t => some t
  | .wake t => some t
  | .pass t _ => some t
  | _ => none

theorem go_eq (h : step s (.go t) = some s') : ∃ c m, s.calls t = some c ∧
    c.pc.next s.isReady s.isCancelled = some m ∧ act s t c m = some s' := by
  obtain ⟨c, hc, h⟩ := Option.bind_eq_some_iff.mp h
  obtain ⟨m, hm, h⟩ := Option.bind_eq_some_iff.mp h
  exact ⟨c, m, hc, hm, h⟩

theorem wake_eq (h : step s (.wake t) = some s') : ∃ c attempt since, s.calls t = some c ∧
    c.pc = .waiting attempt since ∧ s' = s.set t (some { c.goto (.relocking attempt) with
      waits := c.waits + 1
      millis := c.millis + (s.now - since) }) := by
  obtain ⟨c, hc, h⟩ := Option.bind_eq_some_iff.mp h
  unfold wake at h
  split at h
  · rename_i attempt since hpc
    exact ⟨c, attempt, since, hc, hpc, (Option.some.inj h).symm⟩
  · cases h

theorem call_eq (h : step s (.call t v) = some s') : s.calls t = none ∧
    s' = { s.set t (some { value := v }) with made := s.made ++ [(t, v)] } := by
  simp only [step] at h
  split at h
  · rename_i hnone
    exact ⟨Option.isNone_iff_eq_none.mp hnone, (Option.some.inj h).symm⟩
  · cases h

theorem pass_eq (h : step s (.pass t v) = some s') : s.calls t = none ∧
    s' = { s with
      made := s.made ++ [(t, v)]
      given := s.given ++ [(t, v)]
      ended := s.ended ++ [⟨t, { value := v }, .given⟩] } := by
  simp only [step] at h
  split at h
  · rename_i hnone
    exact ⟨Option.isNone_iff_eq_none.mp hnone, (Option.some.inj h).symm⟩
  · cases h

theorem set_self (c : Option (Call V)) : (s.set t c).calls t = c := Function.update_self ..

theorem set_other (c : Option (Call V)) (h : u ≠ t) : (s.set t c).calls u = s.calls u := Function.update_of_ne h ..

/-- The lock is taken when it is free. -/
theorem take_eq {c : Call V} {pc : Pc} (h : act s t c (.take pc) = some s') :
    s.lock = none ∧ s' = { s.set t (some (c.goto pc)) with lock := some t } := by
  simp only [act] at h
  split at h
  · rename_i hfree
    exact ⟨hfree, (Option.some.inj h).symm⟩
  · cases h

theorem same_act {c : Call V} {m : Move} (hne : u ≠ t) (h : act s t c m = some s') : Same s s' u := by
  cases m with
  | goto pc =>
    cases h
    exact ⟨set_other _ hne, rfl, rfl, rfl⟩
  | take pc =>
    obtain ⟨_, rfl⟩ := take_eq h
    exact ⟨set_other _ hne, rfl, rfl, rfl⟩
  | wait attempt =>
    cases h
    exact ⟨set_other _ hne, rfl, rfl, rfl⟩
  | give =>
    cases h
    exact ⟨set_other _ hne, rfl, by simp [ofThread_append, ofThread_other hne], rfl⟩
  | back outcome unlocks =>
    cases h
    exact ⟨set_other _ hne, rfl, rfl, by simp [State.endedOf, hne.symm]⟩

theorem same_of_step (hne : a.thread? ≠ some u) (h : step s a = some s') : Same s s' u := by
  have hother : ∀ t, a.thread? = some t → u ≠ t := fun t ht hu => hne (hu ▸ ht)
  cases a with
  | tick millis =>
    cases h
    exact ⟨rfl, rfl, rfl, rfl⟩
  | setReady isReady =>
    cases h
    exact ⟨rfl, rfl, rfl, rfl⟩
  | cancel =>
    cases h
    exact ⟨rfl, rfl, rfl, rfl⟩
  | call t v =>
    obtain ⟨_, rfl⟩ := call_eq h
    have hu := hother t rfl
    exact ⟨set_other _ hu, by simp [ofThread_append, ofThread_other hu], rfl, rfl⟩
  | go t =>
    obtain ⟨c, m, _, _, h⟩ := go_eq h
    exact same_act (hother t rfl) h
  | wake t =>
    obtain ⟨c, attempt, since, _, _, rfl⟩ := wake_eq h
    exact ⟨set_other _ (hother t rfl), rfl, rfl, rfl⟩
  | pass t v =>
    obtain ⟨_, rfl⟩ := pass_eq h
    have hu := hother t rfl
    exact ⟨rfl, by simp [ofThread_append, ofThread_other hu], by simp [ofThread_append, ofThread_other hu],
      by simp [State.endedOf, hu.symm]⟩

theorem same_other (ht : a.thread? = some t) (hu : u ≠ t) (h : step s a = some s') : Same s s' u :=
  same_of_step (fun heq => hu (Option.some.inj (heq.symm.trans ht))) h

theorem isCancelled_of_step (h : step s a = some s') (hc : s.isCancelled = true) : s'.isCancelled = true := by
  cases a with
  | tick millis =>
    cases h
    exact hc
  | setReady isReady =>
    cases h
    exact hc
  | cancel =>
    cases h
    rfl
  | call t v =>
    obtain ⟨_, rfl⟩ := call_eq h
    exact hc
  | go t =>
    obtain ⟨c, m, _, _, h⟩ := go_eq h
    cases m with
    | take pc =>
      obtain ⟨_, rfl⟩ := take_eq h
      exact hc
    | _ =>
      cases h
      exact hc
  | wake t =>
    obtain ⟨c, attempt, since, _, _, rfl⟩ := wake_eq h
    exact hc
  | pass t v =>
    obtain ⟨_, rfl⟩ := pass_eq h
    exact hc

end Threads

/-! ### Invariants -/

/-- Steps of a call, at most. -/
def stepCount : Nat := 9 + 4 * retryCount

section Invariants
variable {V : Type} {s s' : State V} {a : Action V} {t u : Nat} {v : V} {c c' : Call V}

/-- It has waited as often as it should have, and its steps are reckoned with. -/
structure Call.Within (c : Call V) : Prop where
  waited : c.pc.Waited c.waits
  steps : c.steps + c.pc.rank ≤ stepCount

theorem Call.Within.goto {pc : Pc} (h : c.Within) (hrank : pc.rank < c.pc.rank)
    (hwaited : ∀ waits, c.pc.Waited waits → pc.Waited waits) : (c.goto pc).Within := by
  refine ⟨hwaited _ h.waited, ?_⟩
  have hsteps := h.steps
  show c.steps + 1 + pc.rank ≤ stepCount
  omega

/-- The calls of a thread, how they ended, and what the transport was given for them. -/
structure Fits (s : State V) (t : Nat) : Prop where
  made : ofThread t s.made = (s.endedOf t).map (fun e => e.call.value) ++ (s.calls t).toList.map Call.value
  given : ofThread t s.given =
    ((s.endedOf t).filter fun e => e.outcome = .given).map (fun e => e.call.value) ++
      ((s.calls t).toList.filter fun c => c.pc.left? = some .given).map Call.value
  cancelled : ∀ e ∈ s.endedOf t, e.outcome = .cancelled → s.isCancelled = true
  quiet : ∀ c, s.calls t = some c → c.pc.left? = some .cancelled → s.isCancelled = true
  within : ∀ c, s.calls t = some c → c.Within
  bounded : ∀ e ∈ s.endedOf t, e.call.waits ≤ retryCount ∧ e.call.steps ≤ stepCount

theorem Fits.of_same (h : Fits s u) (hsame : Same s s' u) (hc : s.isCancelled = true → s'.isCancelled = true) :
    Fits s' u := by
  refine ⟨?_, ?_, ?_, ?_, ?_, ?_⟩
  · rw [hsame.made, hsame.ended, hsame.calls, h.made]
  · rw [hsame.given, hsame.ended, hsame.calls, h.given]
  · rw [hsame.ended]
    exact fun e he ho => hc (h.cancelled e he ho)
  · rw [hsame.calls]
    exact fun c hcall hleft => hc (h.quiet c hcall hleft)
  · rw [hsame.calls]
    exact h.within
  · rw [hsame.ended]
    exact h.bounded

/-- A call that goes on, not to be given. -/
theorem Fits.moved (h : Fits s t) (hcall : s.calls t = some c) (hcall' : s'.calls t = some c')
    (hmade : s'.made = s.made) (hgiven : s'.given = s.given) (hended : s'.ended = s.ended)
    (hcancelled : s'.isCancelled = s.isCancelled) (hvalue : c'.value = c.value) (hstays : c.pc.left? = none)
    (hleft : c'.pc.left? ≠ some .given) (hquiet : c'.pc.left? = some .cancelled → s.isCancelled = true)
    (hwithin : c'.Within) : Fits s' t := by
  have hendedOf : s'.endedOf t = s.endedOf t := congrArg (List.filter _) hended
  refine ⟨?_, ?_, ?_, ?_, ?_, ?_⟩
  · rw [hmade, hendedOf, hcall', h.made, hcall]
    simp [hvalue]
  · rw [hgiven, hendedOf, hcall', h.given, hcall]
    simp [hstays, hleft]
  · rw [hendedOf, hcancelled]
    exact h.cancelled
  · intro c hc hleft
    cases hcall'.symm.trans hc
    exact hcancelled ▸ hquiet hleft
  · intro c hc
    cases hcall'.symm.trans hc
    exact hwithin
  · rw [hendedOf]
    exact h.bounded

theorem endedOf_append (e : Ended V) (h : e.thread = t) (hended : s'.ended = s.ended ++ [e]) :
    s'.endedOf t = s.endedOf t ++ [e] := by
  simp [State.endedOf, hended, h]

/-- A call that returns. -/
theorem Fits.returned {outcome : Outcome} (h : Fits s t) (hcall : s.calls t = some c) (hcall' : s'.calls t = none)
    (hmade : s'.made = s.made) (hgiven : s'.given = s.given)
    (hended : s'.ended = s.ended ++ [⟨t, c.goto c.pc, outcome⟩]) (hcancelled : s'.isCancelled = s.isCancelled)
    (hleft : c.pc.left? = some .given ↔ outcome = .given) (hquiet : outcome = .cancelled → s.isCancelled = true)
    (hwaits : c.waits ≤ retryCount) (hsteps : c.steps + 1 ≤ stepCount) : Fits s' t := by
  have hendedOf := endedOf_append _ rfl hended
  refine ⟨?_, ?_, ?_, ?_, ?_, ?_⟩
  · rw [hmade, hendedOf, hcall', h.made, hcall]
    simp [Call.goto]
  · rw [hgiven, hendedOf, hcall', h.given, hcall]
    by_cases ho : outcome = .given
    · simp [ho, hleft.mpr ho, Call.goto]
    · have hnot : c.pc.left? ≠ some .given := fun hl => ho (hleft.mp hl)
      simp [ho, hnot]
  · rw [hendedOf, hcancelled]
    exact List.forall_mem_append.mpr ⟨h.cancelled, List.forall_mem_singleton.mpr hquiet⟩
  · rw [hcall']
    exact fun c hc => by cases hc
  · rw [hcall']
    exact fun c hc => by cases hc
  · rw [hendedOf]
    exact List.forall_mem_append.mpr ⟨h.bounded, List.forall_mem_singleton.mpr ⟨hwaits, hsteps⟩⟩

theorem Fits.act {m : Move} (h : Fits s t) (hcall : s.calls t = some c) (hm : Moves s.isCancelled c.pc m)
    (hs : act s t c m = some s') : Fits s' t := by
  have hwithin := h.within c hcall
  cases hm with
  | goto honward =>
    cases hs
    exact h.moved hcall (set_self _) rfl rfl rfl rfl rfl honward.stays honward.given honward.cancelled
      (hwithin.goto honward.rank honward.waited)
  | @take pc' hstays hoff hin hleft hrank hwaited =>
    obtain ⟨_, rfl⟩ := take_eq hs
    have hself : (s.set t (some (c.goto pc'))).calls t = some (c.goto pc') := set_self _
    exact h.moved hcall hself rfl rfl rfl rfl rfl hstays (by simp [Call.goto, hleft]) (by simp [Call.goto, hleft])
      (hwithin.goto hrank hwaited)
  | @wait attempt hstays hin hrank hwaited =>
    cases hs
    have hself : (s.set t (some (c.goto (.waiting attempt s.now)))).calls t = some (c.goto (.waiting attempt s.now)) :=
      set_self _
    exact h.moved hcall hself rfl rfl rfl rfl rfl hstays (by simp [Call.goto, Pc.left?])
      (by simp [Call.goto, Pc.left?]) (hwithin.goto (hrank _) fun waits => hwaited waits _)
  | give hpc =>
    cases hs
    have hnot : c.pc.left? ≠ some .given := by simp [hpc, Pc.left?]
    refine ⟨?_, ?_, h.cancelled, ?_, ?_, h.bounded⟩
    · show ofThread t s.made = _ ++ ((s.set t _).calls t).toList.map Call.value
      rw [set_self, h.made, hcall]
      rfl
    · show ofThread t (s.given ++ [(t, c.value)]) = _ ++ (((s.set t _).calls t).toList.filter _).map Call.value
      have hleft : (c.goto (.leaving .given)).pc.left? = some .given := rfl
      have hvalue : (c.goto (.leaving .given)).value = c.value := rfl
      rw [set_self, ofThread_append, ofThread_self, h.given, hcall]
      simp [hnot, hleft, hvalue, State.endedOf, State.set]
    · intro c' hc' hleft
      cases (set_self _).symm.trans hc'
      cases hleft
    · intro c' hc'
      cases (set_self _).symm.trans hc'
      exact hwithin.goto (by rw [hpc]; decide) (by rw [hpc]; exact fun _ h => h)
  | @returned outcome hpc =>
    cases hs
    have hsteps := hwithin.steps
    have hwaits := hwithin.waited
    rw [hpc] at hsteps hwaits
    refine h.returned hcall (set_self _) rfl rfl rfl rfl (by simp [hpc, Pc.left?]) (fun ho => ?_) hwaits hsteps
    exact h.quiet c hcall (by rw [hpc, ho]; rfl)
  | quietly hpc hcancelled =>
    cases hs
    have hsteps := hwithin.steps
    have hwaits := hwithin.waited
    rw [hpc] at hsteps hwaits
    refine h.returned hcall (set_self _) rfl rfl rfl rfl (by simp [hpc, Pc.left?]) (fun _ => hcancelled) ?_ ?_
    · rw [show c.waits = 0 from hwaits]
      exact Nat.zero_le _
    · simp only [Pc.rank] at hsteps
      omega

theorem Fits.step (h : Fits s u) (hs : step s a = some s') : Fits s' u := by
  by_cases hne : a.thread? = some u
  · cases a with
    | call t v =>
      cases hne
      obtain ⟨hnone, rfl⟩ := call_eq hs
      have hcall : ({ s.set u (some { value := v }) with made := s.made ++ [(u, v)] } : State V).calls u =
          some { value := v } := set_self _
      refine ⟨?_, ?_, h.cancelled, ?_, ?_, h.bounded⟩
      · show ofThread u (s.made ++ [(u, v)]) = _
        rw [hcall, ofThread_append, ofThread_self, h.made, hnone]
        simp [State.endedOf, State.set]
      · show ofThread u s.given = _
        rw [hcall, h.given, hnone]
        simp [State.endedOf, State.set, Pc.left?]
      · intro c hc hleft
        cases hcall.symm.trans hc
        cases hleft
      · intro c hc
        cases hcall.symm.trans hc
        exact ⟨rfl, Nat.le_of_eq (Nat.zero_add _)⟩
    | go t =>
      cases hne
      obtain ⟨c, m, hcall, hm, hs⟩ := go_eq hs
      exact h.act hcall (moves hm) hs
    | wake t =>
      cases hne
      obtain ⟨c, attempt, since, hcall, hpc, rfl⟩ := wake_eq hs
      have hwithin := h.within c hcall
      have hwaits := hwithin.waited
      have hsteps := hwithin.steps
      rw [hpc] at hwaits hsteps
      refine h.moved hcall (set_self _) rfl rfl rfl rfl rfl (by simp [hpc, Pc.left?]) (by simp [Call.goto, Pc.left?])
        (by simp [Call.goto, Pc.left?]) ⟨hwaits, ?_⟩
      show c.steps + 1 + (Pc.relocking attempt).rank ≤ stepCount
      simp only [Pc.rank] at hsteps ⊢
      omega
    | pass t v =>
      cases hne
      obtain ⟨hnone, rfl⟩ := pass_eq hs
      have hended := @endedOf_append V s { s with
        made := s.made ++ [(u, v)]
        given := s.given ++ [(u, v)]
        ended := s.ended ++ [⟨u, { value := v }, .given⟩] } u ⟨u, { value := v }, .given⟩ rfl rfl
      refine ⟨?_, ?_, ?_, h.quiet, h.within, ?_⟩
      · show ofThread u (s.made ++ [(u, v)]) = _ ++ (s.calls u).toList.map Call.value
        rw [hended, ofThread_append, ofThread_self, h.made, hnone]
        simp
      · show ofThread u (s.given ++ [(u, v)]) = _ ++ ((s.calls u).toList.filter _).map Call.value
        rw [hended, ofThread_append, ofThread_self, h.given, hnone]
        simp
      · rw [hended]
        exact List.forall_mem_append.mpr ⟨h.cancelled, List.forall_mem_singleton.mpr fun ho => by cases ho⟩
      · rw [hended]
        exact List.forall_mem_append.mpr
          ⟨h.bounded, List.forall_mem_singleton.mpr ⟨Nat.zero_le _, Nat.zero_le _⟩⟩
    | _ => cases hne
  · exact h.of_same (same_of_step hne hs) (isCancelled_of_step hs)

theorem Fits.start (h : (sending V).Start s) : Fits s t := by
  obtain ⟨hcancelled, hlock, hcalls, hmade, hgiven, hended⟩ := h
  have hendedOf : s.endedOf t = [] := by simp [State.endedOf, hended]
  refine ⟨?_, ?_, ?_, ?_, ?_, ?_⟩
  · rw [hmade, hendedOf, hcalls]
    rfl
  · rw [hgiven, hendedOf, hcalls]
    rfl
  · rw [hendedOf]
    exact fun e he => absurd he List.not_mem_nil
  · rw [hcalls]
    exact fun c hc => by cases hc
  · rw [hcalls]
    exact fun c hc => by cases hc
  · rw [hendedOf]
    exact fun e he => absurd he List.not_mem_nil

theorem fits (h : (sending V).Reachable s) : Fits s t :=
  h.invariant (fun _ hstart => Fits.start hstart) fun _ _ _ h _ hs => Fits.step h hs

/-! ### The lock -/

/-- Who has the lock is inside. -/
def Locked (s : State V) : Prop := ∀ t, s.lock = some t ↔ ∃ c, s.calls t = some c ∧ c.pc.inside = true

/-- A call goes on, with the lock as before. -/
theorem Locked.kept (h : Locked s) (hlock : s'.lock = s.lock) (hother : ∀ u, u ≠ t → s'.calls u = s.calls u)
    (hself : (∃ c, s'.calls t = some c ∧ c.pc.inside = true) ↔ ∃ c, s.calls t = some c ∧ c.pc.inside = true) :
    Locked s' := by
  intro u
  rw [hlock, h u]
  by_cases hu : u = t
  · rw [hu]
    exact hself.symm
  · rw [hother u hu]

/-- A call takes the lock. -/
theorem Locked.taken (h : Locked s) (hfree : s.lock = none) (hlock : s'.lock = some t)
    (hother : ∀ u, u ≠ t → s'.calls u = s.calls u) (hself : ∃ c, s'.calls t = some c ∧ c.pc.inside = true) :
    Locked s' := by
  intro u
  rw [hlock]
  by_cases hu : u = t
  · rw [hu]
    exact ⟨fun _ => hself, fun _ => rfl⟩
  · rw [hother u hu, ← h u, hfree]
    exact ⟨fun heq => absurd (Option.some.inj heq).symm hu, fun heq => absurd heq (by simp)⟩

/-- The call that has the lock releases it. -/
theorem Locked.released (h : Locked s) (hcall : s.calls t = some c) (hin : c.pc.inside = true) (hlock : s'.lock = none)
    (hother : ∀ u, u ≠ t → s'.calls u = s.calls u) (hself : ∀ c, s'.calls t = some c → c.pc.inside = false) :
    Locked s' := by
  intro u
  rw [hlock]
  by_cases hu : u = t
  · rw [hu]
    refine ⟨fun heq => absurd heq (by simp), ?_⟩
    rintro ⟨c, hc, hinside⟩
    rw [hself c hc] at hinside
    cases hinside
  · have hheld : s.lock = some t := (h t).mpr ⟨c, hcall, hin⟩
    rw [hother u hu, ← h u, hheld]
    exact ⟨fun heq => absurd heq (by simp), fun heq => absurd (Option.some.inj heq).symm hu⟩

theorem Locked.act {m : Move} (h : Locked s) (hcall : s.calls t = some c) (hm : Moves s.isCancelled c.pc m)
    (hs : act s t c m = some s') : Locked s' := by
  have hother : ∀ u, u ≠ t → s'.calls u = s.calls u := fun u hu => (same_act hu hs).calls
  cases hm with
  | goto honward =>
    cases hs
    refine h.kept rfl hother ?_
    rw [set_self, hcall]
    simp [Call.goto, honward.inside]
  | take hstays hoff hin hleft hrank hwaited =>
    obtain ⟨hfree, rfl⟩ := take_eq hs
    exact h.taken hfree rfl hother ⟨_, set_self _, hin⟩
  | wait hstays hin hrank hwaited =>
    cases hs
    refine h.released hcall hin rfl hother fun c' hc' => ?_
    cases (set_self _).symm.trans hc'
    rfl
  | give hpc =>
    cases hs
    refine h.kept rfl hother ⟨fun _ => ⟨c, hcall, by rw [hpc]; rfl⟩, fun _ => ⟨_, set_self _, rfl⟩⟩
  | returned hpc =>
    cases hs
    refine h.released hcall (by rw [hpc]; rfl) rfl hother fun c' hc' => ?_
    cases (set_self _).symm.trans hc'
  | quietly hpc hcancelled =>
    cases hs
    refine h.kept rfl hother ?_
    rw [hcall]
    show (∃ c', (s.set t none).calls t = some c' ∧ _) ↔ _
    rw [set_self]
    simp [hpc, Pc.inside]

theorem Locked.step (h : Locked s) (hs : step s a = some s') : Locked s' := by
  cases a with
  | call t v =>
    obtain ⟨hnone, rfl⟩ := call_eq hs
    refine h.kept rfl (fun u hu => set_other _ hu) ?_
    rw [hnone]
    show (∃ c', (s.set t _).calls t = some c' ∧ _) ↔ _
    rw [set_self]
    simp [Pc.inside]
  | go t =>
    obtain ⟨c, m, hcall, hm, hs⟩ := go_eq hs
    exact h.act hcall (moves hm) hs
  | wake t =>
    obtain ⟨c, attempt, since, hcall, hpc, rfl⟩ := wake_eq hs
    refine h.kept rfl (fun u hu => set_other _ hu) ?_
    rw [set_self, hcall]
    simp [Call.goto, hpc, Pc.inside]
  | pass t v =>
    obtain ⟨_, rfl⟩ := pass_eq hs
    exact h
  | _ =>
    cases hs
    exact h

theorem locked (h : (sending V).Reachable s) : Locked s := by
  refine h.invariant (I := Locked) ?_ fun _ _ _ h _ hs => Locked.step h hs
  rintro s ⟨_, hlock, hcalls, _⟩ t
  rw [hlock, hcalls]
  simp

/-! ### Waiting -/

/-- No wait lasts longer than it is to. -/
structure InTime (s : State V) (t : Nat) : Prop where
  call : ∀ c, s.calls t = some c → c.millis ≤ waitTimeMillis * c.waits
  waiting : ∀ c attempt since, s.calls t = some c → c.pc = .waiting attempt since → s.now ≤ since + waitTimeMillis
  ended : ∀ e ∈ s.endedOf t, e.call.millis ≤ waitTimeMillis * e.call.waits

theorem InTime.of_same (h : InTime s u) (hsame : Same s s' u) (hnow : s'.now = s.now) : InTime s' u := by
  refine ⟨?_, ?_, ?_⟩
  · rw [hsame.calls]
    exact h.call
  · rw [hsame.calls, hnow]
    exact h.waiting
  · rw [hsame.ended]
    exact h.ended

/-- A call that goes on, and is not long in a wait. -/
theorem InTime.moved (h : InTime s t) (hcall' : s'.calls t = some c') (hended : s'.ended = s.ended)
    (hmillis : c'.millis ≤ waitTimeMillis * c'.waits)
    (hwaiting : ∀ attempt since, c'.pc = .waiting attempt since → s'.now ≤ since + waitTimeMillis) : InTime s' t := by
  refine ⟨fun c hc => ?_, fun c attempt since hc => ?_, ?_⟩
  · cases hcall'.symm.trans hc
    exact hmillis
  · cases hcall'.symm.trans hc
    exact hwaiting attempt since
  · rw [show s'.endedOf t = s.endedOf t from congrArg (List.filter _) hended]
    exact h.ended

/-- Another call has ended. -/
theorem InTime.over (h : InTime s t) (e : Ended V) (he : e.thread = t) (hcall' : s'.calls t = none)
    (hended : s'.ended = s.ended ++ [e]) (hmillis : e.call.millis ≤ waitTimeMillis * e.call.waits) : InTime s' t := by
  refine ⟨?_, ?_, ?_⟩
  · rw [hcall']
    exact fun c hc => by cases hc
  · rw [hcall']
    exact fun c _ _ hc => by cases hc
  · rw [endedOf_append e he hended]
    exact List.forall_mem_append.mpr ⟨h.ended, List.forall_mem_singleton.mpr hmillis⟩

theorem now_act {m : Move} (h : act s t c m = some s') : s'.now = s.now := by
  cases m with
  | take pc =>
    obtain ⟨_, rfl⟩ := take_eq h
    rfl
  | _ =>
    cases h
    rfl

theorem InTime.act {m : Move} (h : InTime s t) (hcall : s.calls t = some c) (hm : Moves s.isCancelled c.pc m)
    (hs : act s t c m = some s') : InTime s' t := by
  have hmillis := h.call c hcall
  cases hm with
  | goto honward =>
    cases hs
    exact h.moved (set_self _) rfl hmillis fun attempt since hpc => absurd hpc (honward.moving attempt since)
  | @take pc' hstays hoff hin hleft hrank hwaited =>
    obtain ⟨_, rfl⟩ := take_eq hs
    refine h.moved (set_self _) rfl hmillis fun attempt since hpc => ?_
    rw [show pc' = .waiting attempt since from hpc] at hin
    cases hin
  | wait hstays hin hrank hwaited =>
    cases hs
    refine h.moved (set_self _) rfl hmillis fun attempt since hpc => ?_
    injection hpc with _ hsince
    rw [← hsince]
    exact Nat.le_add_right _ _
  | give hpc =>
    cases hs
    exact h.moved (set_self _) rfl hmillis fun attempt since hpc => absurd hpc (by simp [Call.goto])
  | returned hpc =>
    cases hs
    exact h.over _ rfl (set_self _) rfl hmillis
  | quietly hpc hcancelled =>
    cases hs
    exact h.over _ rfl (set_self _) rfl hmillis

theorem InTime.step (h : InTime s u) (hc : Timely s a) (hs : step s a = some s') : InTime s' u := by
  cases a with
  | tick millis =>
    cases hs
    exact ⟨h.call, fun c attempt since hcall hpc => hc millis u c attempt since rfl hcall hpc, h.ended⟩
  | call t v =>
    by_cases hu : u = t
    · rw [hu] at h ⊢
      obtain ⟨_, rfl⟩ := call_eq hs
      exact h.moved (set_self _) rfl (Nat.zero_le _) fun attempt since hpc => by cases hpc
    · have hsame := same_other rfl hu hs
      obtain ⟨_, rfl⟩ := call_eq hs
      exact h.of_same hsame rfl
  | go t =>
    obtain ⟨c, m, hcall, hm, hs⟩ := go_eq hs
    by_cases hu : u = t
    · rw [hu] at h ⊢
      exact h.act hcall (moves hm) hs
    · exact h.of_same (same_act hu hs) (now_act hs)
  | wake t =>
    by_cases hu : u = t
    · rw [hu] at h ⊢
      obtain ⟨c, attempt, since, hcall, hpc, rfl⟩ := wake_eq hs
      have hmillis := h.call c hcall
      have hnow := h.waiting c attempt since hcall hpc
      refine h.moved (set_self _) rfl ?_ fun attempt since hpc => absurd hpc (by simp [Call.goto])
      show c.millis + (s.now - since) ≤ waitTimeMillis * (c.waits + 1)
      rw [Nat.mul_succ]
      omega
    · have hsame := same_other rfl hu hs
      obtain ⟨c, attempt, since, hcall, hpc, rfl⟩ := wake_eq hs
      exact h.of_same hsame rfl
  | pass t v =>
    by_cases hu : u = t
    · rw [hu] at h ⊢
      obtain ⟨hnone, rfl⟩ := pass_eq hs
      exact h.over ⟨t, { value := v }, .given⟩ rfl hnone rfl (Nat.zero_le _)
    · have hsame := same_other rfl hu hs
      obtain ⟨_, rfl⟩ := pass_eq hs
      exact h.of_same hsame rfl
  | _ =>
    cases hs
    exact ⟨h.call, h.waiting, h.ended⟩

theorem inTime (h : (sending V).ReachableUnder Timely s) : InTime s t := by
  refine h.invariant (I := fun s => InTime s t) ?_ fun _ _ _ h hc hs => InTime.step h hc hs
  rintro s ⟨_, _, hcalls, _, _, hended⟩
  refine ⟨?_, ?_, ?_⟩
  · rw [hcalls]
    exact fun c hc => by cases hc
  · rw [hcalls]
    exact fun c _ _ hc => by cases hc
  · simp [State.endedOf, hended]

/-! ### Getting on -/

/-- A step of a call, or out of a wait. -/
def Action.own : Action V → Bool
  | .go _ => true
  | .wake _ => true
  | _ => false

theorem isSome_go {m : Move} (hcall : s.calls t = some c) (hm : c.pc.next s.isReady s.isCancelled = some m)
    (h : s.lock = none ∨ ∀ pc, m ≠ .take pc) : (step s (.go t)).isSome := by
  have hact : (act s t c m).isSome := by
    cases m with
    | take pc =>
      obtain hfree | htakes := h
      · simp [act, hfree]
      · exact absurd rfl (htakes pc)
    | _ => rfl
  simp only [step, hcall, hm, Option.bind_some]
  exact hact

/-- While there is a call, somebody can get on with one. -/
theorem movable (h : Locked s) (hcall : s.calls t = some c) : ∃ a : Action V, a.own = true ∧ (step s a).isSome := by
  by_cases hwaits : ∃ attempt since, c.pc = .waiting attempt since
  · obtain ⟨attempt, since, hpc⟩ := hwaits
    refine ⟨.wake t, rfl, ?_⟩
    simp [step, hcall, wake, hpc]
  · have hmoves : ∀ attempt since, c.pc ≠ .waiting attempt since :=
      fun attempt since hpc => hwaits ⟨attempt, since, hpc⟩
    cases hlock : s.lock with
    | none =>
      obtain ⟨m, hm⟩ := Option.isSome_iff_exists.mp (isSome_next hmoves)
      exact ⟨.go t, rfl, isSome_go hcall hm (.inl hlock)⟩
    | some u =>
      obtain ⟨d, hd, hin⟩ := (h u).mp hlock
      have hinside : ∀ attempt since, d.pc ≠ .waiting attempt since := by
        intro attempt since hpc
        rw [hpc] at hin
        cases hin
      obtain ⟨m, hm⟩ := Option.isSome_iff_exists.mp (isSome_next hinside)
      refine ⟨.go u, rfl, isSome_go hd hm (.inr fun pc htake => ?_)⟩
      rw [htake] at hm
      cases moves hm with
      | take _ hoff => rw [hoff] at hin; cases hin

/-! ### What the transport is given -/

theorem given_sublist (h : Fits s t) : (ofThread t s.given).Sublist (ofThread t s.made) := by
  rw [h.given, h.made]
  exact (List.filter_sublist.map _).append (List.filter_sublist.map _)

theorem given_eq (h : Fits s t) (hover : s.calls t = none) (hcancelled : s.isCancelled = false)
    (hthrown : ∀ e ∈ s.ended, e.thread = t → e.outcome ≠ .thrown) : ofThread t s.given = ofThread t s.made := by
  have hgiven : ∀ e ∈ s.endedOf t, e.outcome = .given := by
    intro e he
    have hmem := List.mem_filter.mp he
    cases ho : e.outcome with
    | given => rfl
    | cancelled =>
      have := h.cancelled e he ho
      rw [hcancelled] at this
      cases this
    | thrown => exact absurd ho (hthrown e hmem.1 (beq_iff_eq.mp hmem.2))
  rw [h.given, h.made, hover, List.filter_eq_self.mpr fun e he => decide_eq_true (hgiven e he)]
  rfl

theorem Pc.Waited.le {pc : Pc} {waits : Nat} (h : pc.Waited waits) : waits ≤ retryCount := by
  cases pc with
  | entering => exact Nat.le_trans (Nat.le_of_eq h) (Nat.zero_le _)
  | locking => exact Nat.le_trans (Nat.le_of_eq h) (Nat.zero_le _)
  | ready => exact Nat.le_trans (Nat.le_of_eq h) (Nat.zero_le _)
  | waiting attempt since => exact Nat.le_trans (Nat.le_succ _) (Nat.le_trans (Nat.le_of_eq h.1) h.2)
  | relocking attempt => exact h.1 ▸ h.2
  | looking attempt => exact h.1 ▸ h.2
  | lookingOn attempt => exact h.1 ▸ h.2
  | _ => exact h

/-- A call that still runs is within the bounds of one that is over. -/
theorem Call.Within.bounded {c : Call V} (h : c.Within) : c.waits ≤ retryCount ∧ c.steps ≤ stepCount :=
  ⟨h.waited.le, Nat.le_trans (Nat.le_add_right _ _) h.steps⟩

/-- How long a call has waited by now. -/
def Call.waited (c : Call V) (now : Nat) : Nat :=
  match c.pc with
  | .waiting _ since => c.millis + (now - since)
  | _ => c.millis

theorem waited_le {c : Call V} (hfits : Fits s t) (htime : InTime s t) (hcall : s.calls t = some c) :
    c.waited s.now ≤ waitTimeMillis * retryCount := by
  have hwithin := hfits.within c hcall
  have hmillis := htime.call c hcall
  unfold Call.waited
  split
  · rename_i attempt since hpc
    have hwaited := hwithin.waited
    rw [hpc] at hwaited
    have hnow := htime.waiting c attempt since hcall hpc
    have hnext : waitTimeMillis * (c.waits + 1) ≤ waitTimeMillis * retryCount :=
      Nat.mul_le_mul_left _ (hwaited.1 ▸ hwaited.2)
    rw [Nat.mul_succ] at hnext
    omega
  · exact Nat.le_trans hmillis (Nat.mul_le_mul_left _ hwithin.waited.le)

theorem ended_of_mem {e : Ended V} (he : e ∈ s.ended) : e ∈ s.endedOf e.thread :=
  List.mem_filter.mpr ⟨he, beq_self_eq_true _⟩

end Invariants

/-- Whatever the transport does. Only who has the lock is inside. Of each thread, the
transport is given some of its calls, each once and in their order, and all of them as long
as the stream is not cancelled and none has thrown. No call, over or not, waits more often
than it is to, or makes more steps, or is in the way of all others for good; and if no wait
is longer than it is to be, no call waits for more than five minutes. -/
theorem given_in_order {V : Type} (s : State V) (h : (sending V).Reachable s) :
    Locked s ∧
    (∀ t, (ofThread t s.given).Sublist (ofThread t s.made)) ∧
    (∀ t, s.calls t = none → s.isCancelled = false → (∀ e ∈ s.ended, e.thread = t → e.outcome ≠ .thrown) →
      ofThread t s.given = ofThread t s.made) ∧
    (∀ e ∈ s.ended, e.call.waits ≤ 300 ∧ e.call.steps ≤ 1209) ∧
    (∀ t c, s.calls t = some c → c.waits ≤ 300 ∧ c.steps ≤ 1209) ∧
    (∀ t, (s.calls t).isSome → ∃ a : Action V, a.own = true ∧ (step s a).isSome) ∧
    ((sending V).ReachableUnder Timely s →
      (∀ e ∈ s.ended, e.call.millis ≤ 300000) ∧ ∀ t c, s.calls t = some c → c.waited s.now ≤ 300000) := by
  have hlocked := locked h
  refine ⟨hlocked, fun t => given_sublist (fits h), fun t => given_eq (fits h), fun e he => ?_, fun t c hcall => ?_,
    fun t hcall => ?_, fun htimely => ⟨fun e he => ?_, fun t c hcall => waited_le (fits h) (inTime htimely) hcall⟩⟩
  · exact (fits h).bounded e (ended_of_mem he)
  · exact ((fits h).within c hcall).bounded
  · obtain ⟨c, hc⟩ := Option.isSome_iff_exists.mp hcall
    exact movable hlocked hc
  · have hwaits : e.call.waits ≤ 300 := ((fits h).bounded e (ended_of_mem he)).1
    have hmillis : e.call.millis ≤ 1000 * e.call.waits := (inTime htimely).ended e (ended_of_mem he)
    omega

/-- A call that finds the transport ready. -/
def straight {V : Type} (t : Nat) (v : V) : List (Action V) := .call t v :: List.replicate 7 (.go t)

/-- A thread waits, another one too, and the client takes one thing more. -/
def slowClient : List (Action Nat) :=
  [.call 0 7, .go 0, .go 0, .go 0, .call 1 8, .go 1, .go 1, .go 1, .tick 400, .setReady true, .wake 0, .wake 1,
    .go 0, .go 0, .go 0, .go 0, .go 0, .go 0, .go 0, .setReady false, .go 0, .go 1, .go 1, .go 1]

/-- The first thread has got through, the other one waits for the second time. -/
theorem given_in_order_slowClient : ∃ s : State Nat, (sending Nat).Reachable s ∧ s.given = [(0, 7)] ∧
    (s.calls 1).map Call.pc = some (.waiting 2 400) ∧ ofThread 0 s.given = ofThread 0 s.made := by
  have hstart : (sending Nat).Start ({ isReady := false, calls := fun _ => none } : State Nat) :=
    ⟨rfl, rfl, fun _ => rfl, rfl, rfl, rfl⟩
  obtain ⟨s, hs, hseen⟩ := Machine.exists_reachable hstart slowClient
    (fun s => (s.given, (s.calls 1).map Call.pc, (s.calls 0).isNone, s.isCancelled,
      s.ended.map fun e => e.outcome))
    (b := ([(0, 7)], some (.waiting 2 400), true, false, [.given])) (by decide +kernel)
  simp only [Prod.mk.injEq] at hseen
  obtain ⟨hgiven, hpc, hover, hcancelled, hended⟩ := hseen
  refine ⟨s, hs, hgiven, hpc, (given_in_order s hs).2.2.1 0 (Option.isNone_iff_eq_none.mp hover) hcancelled ?_⟩
  intro e he _ hthrown
  have hmem : e.outcome ∈ s.ended.map fun e => e.outcome := List.mem_map_of_mem he
  rw [hended, List.mem_singleton] at hmem
  rw [hmem] at hthrown
  cases hthrown

/-! ### Over the wire -/

section Wire
open Transport
variable {s : State Message} {t : Nat}

theorem mem_ofThread {V : Type} {l : List (Nat × V)} {v : V} : v ∈ ofThread t l ↔ (t, v) ∈ l := by
  simp [ofThread]

/-- Who only keeps the stream alive does not tell anything. -/
theorem filter_tells {l : List (Nat × Message)} (h : ∀ p ∈ l, p.1 ≠ t → p.2.tells = false) :
    (l.map Prod.snd).filter Message.tells = (ofThread t l).filter Message.tells := by
  induction l with
  | nil => rfl
  | cons p rest ih =>
    have hrest := ih fun p hp => h p (List.mem_cons_of_mem _ hp)
    have happend : ofThread t (p :: rest) = ofThread t [p] ++ ofThread t rest := ofThread_append [p] rest
    rw [List.map_cons, List.filter_cons, hrest, happend, List.filter_append]
    obtain ⟨u, m⟩ := p
    by_cases hu : u = t
    · rw [hu, ofThread_self, List.filter_cons, List.filter_nil]
      split <;> rfl
    · have hm : m.tells = false := h (u, m) List.mem_cons_self hu
      rw [if_neg (by simp [hm]), ofThread_other (Ne.symm hu)]
      rfl

theorem made_of_given {p : Nat × Message} (h : (sending Message).Reachable s) (hp : p ∈ s.given) : p ∈ s.made :=
  mem_ofThread.mp ((given_sublist (fits h)).subset (mem_ofThread.mpr hp))

/-- A thread's messages are what is told. -/
theorem carries (info : FactStreamInfo) (h : (sending Message).Reachable s)
    (hothers : ∀ p ∈ s.made, p.1 ≠ t → p.2.tells = false) :
    Carries info ((ofThread t s.given).filter Message.tells) (s.given.map fun p => p.2.frame info) :=
  ⟨s.given.map Prod.snd, filter_tells fun p hp => hothers p (made_of_given h hp), by simp [Function.comp_def]⟩

end Wire

/-- One thread serves the subscription, and nobody else sends anything that tells. The
client's subscription is told what the messages that thread got through say. If the stream
is not cancelled and none of its calls has thrown, and facts of ASCII texts fit one by one,
it is told of all calls made on the adapter, in order, exactly if they all get through the
buffer: however often the client was not ready. -/
theorem lossless_though_waiting (info : FactStreamInfo) (requested : Int) (supportsFastForward : Bool)
    (calls : List Transport.Call) (ending : Transport.Ending) (t : Nat) (s : State Transport.Message)
    (h : (sending Transport.Message).Reachable s) (hvalid : ∀ p ∈ s.made, p.2.Valid)
    (hothers : ∀ p ∈ s.made, p.1 ≠ t → p.2.tells = false) :
    Transport.toldOverWire requested (s.given.map fun p => p.2.frame info) =
      (Transport.ClientStreamObserver.receiveAll {} (Transport.cut (Transport.calculateMaxInboundMessageSize requested)
        info ((ofThread t s.given).filter Transport.Message.tells))).told ∧
    (s.calls t = none → s.isCancelled = false → (∀ e ∈ s.ended, e.thread = t → e.outcome ≠ .thrown) →
      (ofThread t s.made).filter Transport.Message.tells =
        (Transport.transported requested supportsFastForward calls ending).sent →
      (∀ fact ∈ Transport.factsOf calls, (Transport.Ascii fact.jsonHeader ∧ Transport.Ascii fact.jsonPayload) ∧
        Transport.serializedSize [fact] ≤ Transport.calculateMaxInboundMessageSize requested) →
      (Transport.toldOverWire requested (s.given.map fun p => p.2.frame info) = Transport.given calls ending ↔
        (Transport.GrpcObserverAdapter.of_ requested supportsFastForward).takesAll calls = true)) := by
  have htold := @Transport.told_cut info requested _ _ (fun m hm =>
    hvalid (t, m) (made_of_given h (mem_ofThread.mp (List.mem_filter.mp hm).1))) (carries info h hothers)
  refine ⟨htold, fun hover hcancelled hthrown hmade hfacts => ?_⟩
  have hwithin : Transport.WithinSize requested (Transport.factsOf calls) :=
    (Transport.withinSize_iff fun fact hfact => (hfacts fact hfact).2).mpr
      (Transport.budgetSuffices_of_ascii fun fact hfact => (hfacts fact hfact).1)
  rw [given_eq (fits h) hover hcancelled hthrown, hmade,
    Transport.cut_eq_self (Transport.size_transported (hwithin supportsFastForward calls ending rfl))] at htold
  rw [htold]
  exact ⟨fun hgiven => Transport.takesAll_of_lossless (Transport.lossless_of_told hgiven),
    fun htakes => (Transport.lossless_of_takesAll htakes).2⟩

/-- Who sends a message. -/
def sender (m : Transport.Message) : Nat := if m = .onNext .keepAlive then 1 else 0

/-- The messages of a fact and a catchup, behind a keep-alive. -/
def plainSending : List (Action Transport.Message) :=
  Transport.plainMessages.flatMap fun m =>
    if m = .onCompleted then [.pass (sender m) m] else straight (sender m) m

theorem lossless_though_waiting_plain : ∃ s : State Transport.Message, (sending Transport.Message).Reachable s ∧
    Transport.toldOverWire 0 (s.given.map fun p => p.2.frame ⟨0, 7⟩) =
      [.fact Transport.plainFact, .catchup, .complete] := by
  have hstart : (sending Transport.Message).Start
      ({ isReady := true, calls := fun _ => none } : State Transport.Message) :=
    ⟨rfl, rfl, fun _ => rfl, rfl, rfl, rfl⟩
  obtain ⟨s, hs, hseen⟩ := Machine.exists_reachable hstart plainSending
    (fun s => (s.made, (s.calls 0).isNone, s.isCancelled, s.ended.all fun e => e.outcome = .given))
    (b := (Transport.plainMessages.map fun m => (sender m, m), true, false, true)) (by decide +kernel)
  simp only [Prod.mk.injEq] at hseen
  obtain ⟨hmade, hover, hcancelled, hended⟩ := hseen
  have hvalid : ∀ p ∈ s.made, p.2.Valid := by
    rw [hmade]
    intro p hp
    obtain ⟨m, hm, rfl⟩ := List.mem_map.mp hp
    obtain rfl | hsent := List.mem_cons.mp hm
    · exact trivial
    · exact Transport.valid_transported Transport.plainCalls_valid m hsent
  have hothers : ∀ p ∈ s.made, p.1 ≠ 0 → p.2.tells = false := by
    rw [hmade]
    decide +kernel
  have htells : (ofThread 0 s.made).filter Transport.Message.tells =
      (Transport.transported 0 true Transport.plainCalls .onComplete).sent := by
    rw [hmade]
    decide +kernel
  refine ⟨s, hs, ((lossless_though_waiting ⟨0, 7⟩ 0 true Transport.plainCalls .onComplete 0 s hs hvalid hothers).2
    (Option.isNone_iff_eq_none.mp hover) hcancelled (fun e he _ => ?_) htells Transport.plainCalls_fit).mpr
    Transport.plainCalls_taken⟩
  have hgiven := of_decide_eq_true (List.all_eq_true.mp hended e he)
  simp [hgiven]

end FactCast.BlockingStreamObserver
