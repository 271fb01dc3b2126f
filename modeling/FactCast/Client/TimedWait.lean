import FactCast.Machine.Run
import Mathlib.Data.Int.Order.Basic
import Mathlib.Order.Basic

/-! Waiting on a resilient subscription for a limited time.

A call (`delegate`) computes the time that remains, gets the current subscription
(`getAndBlock`), for which it waits if there is none, and waits on that. The time that
remains is computed once for both, so that it is out of date when the clock has moved on
in between. And no time that remains is, for the first of the two, no limit.

The clock, the connection and the underlying subscriptions move as they like, between
any two steps of the call. `prompt` says when a step of the call does not go wrong: a
subscription is there, or the clock has not moved since the time that remains was
computed, and that was not nothing. Under it no wait exceeds what remains
(`delegate_bounded`), and after the deadline the call is over in a few steps. -/
namespace FactCast.TimedWait

/-- How a subscription is settled, which it is once. -/
inductive Outcome where
  | signalled
  | failed
deriving DecidableEq

/-- Where the call is. It remembers when it computed the time that remains (`pausedAt`),
and when it asked for the subscription (`acquiredAt`). A wait begins `since` a time, and
has a timeout. -/
inductive Pc where
  | top
  | pause
  | acquire (pausedAt : Nat)
  | holder (pausedAt acquiredAt : Nat)
  | look (pausedAt acquiredAt : Nat)
  /-- In `Object.wait`, for which 0 is no timeout. -/
  | waiting (pausedAt acquiredAt since timeout : Nat)
  | accept (pausedAt : Nat) (cur : Nat)
  /-- In `Future.get`, which does not wait where the timeout is not positive. -/
  | awaiting (cur : Nat) (since : Nat) (timeout : Int)
  | caught
  | check
  | returned (cur : Nat)
  | timedOut
  | thrown
deriving DecidableEq

/-- Subscriptions are numbered. -/
structure State where
  now : Nat
  startTime : Nat
  current : Option Nat
  settled : Nat → Option Outcome
  closed : Bool
  pc : Pc

/-- A step of the call: by itself, out of a wait, or by the decision on a retry. -/
inductive Move where
  | go
  /-- Notified, interrupted, or for no reason. -/
  | wake
  | retry (again : Bool)
deriving DecidableEq

inductive Action where
  | tick (millis : Nat)
  | connect (subscription : Nat)
  | disconnect
  | settle (subscription : Nat) (outcome : Outcome)
  | close
  | call (move : Move)
deriving DecidableEq

section Call
variable (waitTimeInMillis : Nat) (s : State)

/-- The time that remained at a time. -/
def maxPause (pausedAt : Nat) : Int := waitTimeInMillis - (pausedAt - s.startTime)

/-- The end of the loop in `getAndBlock`. -/
def woken (pausedAt acquiredAt : Nat) : Pc :=
  match s.current with
  | some n => .accept pausedAt n
  | none => .holder pausedAt acquiredAt

def look (pausedAt acquiredAt : Nat) : Pc :=
  match s.current with
  | some n => .accept pausedAt n
  | none =>
    let maxPause := maxPause waitTimeInMillis s pausedAt
    let waitTime := acquiredAt + maxPause - s.now
    if maxPause = 0 then .waiting pausedAt acquiredAt s.now 0
    else if waitTime < 1 then .timedOut
    else .waiting pausedAt acquiredAt s.now waitTime.toNat

def proceed : Move → Option Pc
  | .go =>
    match s.pc with
    | .top => some (if s.closed then .thrown else .pause)
    | .pause => some (.acquire s.now)
    | .acquire pausedAt => some (.holder pausedAt s.now)
    | .holder pausedAt acquiredAt => some (if s.closed then .caught else .look pausedAt acquiredAt)
    | .look pausedAt acquiredAt => some (look waitTimeInMillis s pausedAt acquiredAt)
    | .waiting pausedAt acquiredAt since timeout =>
      if timeout ≠ 0 ∧ since + timeout ≤ s.now then some (woken s pausedAt acquiredAt) else none
    | .accept pausedAt cur => some (.awaiting cur s.now (maxPause waitTimeInMillis s pausedAt))
    | .awaiting cur since timeout =>
      match s.settled cur with
      | some .signalled => some (.returned cur)
      | some .failed => some .caught
      | none => if since + timeout.toNat ≤ s.now then some .timedOut else none
    | .check => some (if waitTimeInMillis < s.now - s.startTime then .timedOut else .top)
    | _ => none
  | .wake =>
    match s.pc with
    | .waiting pausedAt acquiredAt _ _ => some (woken s pausedAt acquiredAt)
    | .awaiting _ _ _ => some .caught
    | _ => none
  | .retry again =>
    match s.pc with
    | .caught => some (if again then .check else .thrown)
    | _ => none

end Call

def step (waitTimeInMillis : Nat) (s : State) : Action → Option State
  | .tick millis => some { s with now := s.now + millis }
  | .connect n => some { s with current := some n }
  | .disconnect => some { s with current := none }
  | .settle n outcome =>
    if s.settled n = none then some { s with settled := Function.update s.settled n (some outcome) } else none
  | .close => some { s with closed := true }
  | .call move => (proceed waitTimeInMillis s move).map fun pc => { s with pc := pc }

/-- A call of `awaitCatchup` or `awaitComplete`, whatever the connection. -/
def machine (waitTimeInMillis : Nat) : Machine State Action where
  Start s := s.pc = .top ∧ s.startTime = s.now
  step := step waitTimeInMillis

/-! ### What is expected -/

section Spec
variable (waitTimeInMillis : Nat) (s : State)

def deadline : Nat := s.startTime + waitTimeInMillis

/-- No wait is without bound, or goes beyond the deadline. What is returned has been
signalled, and a timeout is one. -/
structure Bounded : Prop where
  wait : ∀ pausedAt acquiredAt since timeout, s.pc = .waiting pausedAt acquiredAt since timeout →
    timeout ≠ 0 ∧ since + timeout ≤ deadline waitTimeInMillis s
  await : ∀ cur since timeout, s.pc = .awaiting cur since timeout →
    since + timeout.toNat ≤ max since (deadline waitTimeInMillis s)
  returned : ∀ cur, s.pc = .returned cur → s.settled cur = some .signalled
  timedOut : s.pc = .timedOut → deadline waitTimeInMillis s ≤ s.now

/-- The call has come to an end. -/
def finished : Bool :=
  match s.pc with
  | .returned _ => true
  | .timedOut => true
  | .thrown => true
  | _ => false

def isCall : Action → Bool
  | .call _ => true
  | _ => false

/-- The step reads the clock in time. A wait for a subscription that would be over does
not begin. -/
def prompt : Action → Bool
  | .call .go =>
    match s.pc with
    | .look pausedAt acquiredAt => s.current.isSome || pausedAt != deadline waitTimeInMillis s &&
        (acquiredAt == pausedAt || decide (deadline waitTimeInMillis s + (acquiredAt - pausedAt) ≤ s.now))
    | .accept pausedAt _ => s.now == pausedAt || decide (deadline waitTimeInMillis s ≤ pausedAt)
    | _ => true
  | _ => true

/-- The call goes on, without being woken, and ends within ten of its steps. -/
structure Ends : Prop where
  goes : finished s = false → ∃ move s', move ≠ .wake ∧ step waitTimeInMillis s (.call move) = some s'
  soon : ∀ as t, (machine waitTimeInMillis).runUnder (prompt waitTimeInMillis) s as = some t →
    as.countP isCall ≤ 10

end Spec

section Proofs
variable {W : Nat} {s s' : State} {a : Action} {m : Move} {pc : Pc}

/-! ### What the call does -/

/-- What a step of the call does, from a place to a place. -/
inductive Proceeds (W : Nat) (s : State) : Move → Pc → Pc → Prop where
  | refused : Proceeds W s .go .top .thrown
  | top : Proceeds W s .go .top .pause
  | pause : Proceeds W s .go .pause (.acquire s.now)
  | acquire (p : Nat) : Proceeds W s .go (.acquire p) (.holder p s.now)
  | abandoned (p q : Nat) : Proceeds W s .go (.holder p q) .caught
  | holder (p q : Nat) : Proceeds W s .go (.holder p q) (.look p q)
  | look (p q : Nat) : Proceeds W s .go (.look p q) (look W s p q)
  | woken (m : Move) (p q since timeout : Nat) : Proceeds W s m (.waiting p q since timeout) (woken s p q)
  | accept (p n : Nat) : Proceeds W s .go (.accept p n) (.awaiting n s.now (maxPause W s p))
  | signalled (n since : Nat) (timeout : Int) (h : s.settled n = some .signalled) :
      Proceeds W s .go (.awaiting n since timeout) (.returned n)
  | failed (m : Move) (n since : Nat) (timeout : Int) : Proceeds W s m (.awaiting n since timeout) .caught
  | late (n since : Nat) (timeout : Int) (h : since + timeout.toNat ≤ s.now) :
      Proceeds W s .go (.awaiting n since timeout) .timedOut
  | expired (h : W < s.now - s.startTime) : Proceeds W s .go .check .timedOut
  | again (h : s.now - s.startTime ≤ W) : Proceeds W s .go .check .top
  | retry (m : Move) : Proceeds W s m .caught .check
  | final (m : Move) : Proceeds W s m .caught .thrown

theorem proceeds_go (hs : proceed W s .go = some pc) : Proceeds W s .go s.pc pc := by
  cases hpc : s.pc with
  | top =>
    simp only [proceed, hpc, Option.some.injEq] at hs
    subst hs
    cases s.closed
    · exact .top
    · exact .refused
  | pause =>
    simp only [proceed, hpc, Option.some.injEq] at hs
    exact hs ▸ .pause
  | acquire p =>
    simp only [proceed, hpc, Option.some.injEq] at hs
    exact hs ▸ .acquire p
  | holder p q =>
    simp only [proceed, hpc, Option.some.injEq] at hs
    subst hs
    cases s.closed
    · exact .holder p q
    · exact .abandoned p q
  | look p q =>
    simp only [proceed, hpc, Option.some.injEq] at hs
    exact hs ▸ .look p q
  | waiting p q since timeout =>
    simp only [proceed, hpc, Option.ite_none_right_eq_some, Option.some.injEq] at hs
    exact hs.2 ▸ .woken .go p q since timeout
  | accept p n =>
    simp only [proceed, hpc, Option.some.injEq] at hs
    exact hs ▸ .accept p n
  | awaiting n since timeout =>
    simp only [proceed, hpc] at hs
    split at hs
    · rename_i hsettled
      exact Option.some.inj hs ▸ .signalled n since timeout hsettled
    · exact Option.some.inj hs ▸ .failed .go n since timeout
    · obtain ⟨hlate, hs⟩ := Option.ite_none_right_eq_some.mp hs
      exact Option.some.inj hs ▸ .late n since timeout hlate
  | check =>
    simp only [proceed, hpc, Option.some.injEq] at hs
    subst hs
    split
    · rename_i hlate
      exact .expired hlate
    · rename_i hearly
      exact .again (Nat.le_of_not_lt hearly)
  | _ =>
    rw [proceed, hpc] at hs
    exact nomatch hs

/-- The step is one of these. -/
theorem exists_proceeds (hs : proceed W s m = some pc) : ∃ p, s.pc = p ∧ Proceeds W s m p pc := by
  cases m with
  | go => exact ⟨s.pc, rfl, proceeds_go hs⟩
  | wake =>
    cases hpc : s.pc with
    | waiting p q since timeout =>
      simp only [proceed, hpc, Option.some.injEq] at hs
      exact ⟨_, rfl, hs ▸ .woken .wake p q since timeout⟩
    | awaiting n since timeout =>
      simp only [proceed, hpc, Option.some.injEq] at hs
      exact ⟨_, rfl, hs ▸ .failed .wake n since timeout⟩
    | _ =>
      rw [proceed, hpc] at hs
      exact nomatch hs
  | retry again =>
    cases hpc : s.pc with
    | caught =>
      simp only [proceed, hpc, Option.some.injEq] at hs
      subst hs
      cases again
      · exact ⟨_, rfl, .final _⟩
      · exact ⟨_, rfl, .retry _⟩
    | _ =>
      rw [proceed, hpc] at hs
      exact nomatch hs

/-! ### Clock readings -/

/-- Readings are in their order. -/
def Clocked (W : Nat) (s : State) : Prop :=
  s.startTime ≤ s.now ∧
    match s.pc with
    | .acquire pausedAt => s.startTime ≤ pausedAt ∧ pausedAt ≤ s.now
    | .holder pausedAt acquiredAt => s.startTime ≤ pausedAt ∧ pausedAt ≤ acquiredAt ∧ acquiredAt ≤ s.now
    | .look pausedAt acquiredAt => s.startTime ≤ pausedAt ∧ pausedAt ≤ acquiredAt ∧ acquiredAt ≤ s.now
    | .waiting pausedAt acquiredAt since _ => s.startTime ≤ pausedAt ∧ pausedAt ≤ acquiredAt ∧ acquiredAt ≤ since ∧
        since ≤ s.now
    | .accept pausedAt _ => s.startTime ≤ pausedAt ∧ pausedAt ≤ s.now
    | .awaiting _ since timeout => since ≤ s.now ∧ (deadline W s : Int) ≤ since + timeout
    | _ => True

/-- Neither in a wait nor at an end that something is said about. -/
def Pc.quiet : Pc → Bool
  | .waiting _ _ _ _ => false
  | .awaiting _ _ _ => false
  | .returned _ => false
  | .timedOut => false
  | _ => true

theorem Bounded.of_quiet (h : s.pc.quiet = true) : Bounded W s where
  wait := fun _ _ _ _ hpc => by
    rw [hpc] at h
    exact nomatch h
  await := fun _ _ _ hpc => by
    rw [hpc] at h
    exact nomatch h
  returned := fun _ hpc => by
    rw [hpc] at h
    exact nomatch h
  timedOut := fun hpc => by
    rw [hpc] at h
    exact nomatch h

theorem woken_cases {p q : Nat} : (∃ n, woken s p q = .accept p n) ∨ woken s p q = .holder p q := by
  rw [woken]
  cases s.current with
  | some n => exact .inl ⟨n, rfl⟩
  | none => exact .inr rfl

/-- What comes of the look at the subscription: it is there, or the time is over, or the
call waits, by a timeout that may be none. -/
theorem look_cases {p q : Nat} (hq : p ≤ q) :
    (∃ n, s.current = some n ∧ look W s p q = .accept p n) ∨
    (s.current = none ∧ p = deadline W s ∧ look W s p q = .waiting p q s.now 0) ∨
    (s.current = none ∧ p ≠ deadline W s ∧ deadline W s + (q - p) ≤ s.now ∧ look W s p q = .timedOut) ∨
    s.current = none ∧ p ≠ deadline W s ∧ s.now < deadline W s + (q - p) ∧
      look W s p q = .waiting p q s.now (deadline W s + (q - p) - s.now) := by
  rw [look]
  cases s.current with
  | some n => exact .inl ⟨n, rfl, rfl⟩
  | none =>
    have hzero : maxPause W s p = 0 ↔ p = deadline W s := by
      rw [maxPause, deadline]
      omega
    have hover : q + maxPause W s p - s.now < 1 ↔ deadline W s + (q - p) ≤ s.now := by
      rw [maxPause, deadline]
      omega
    have hwait : (q + maxPause W s p - s.now).toNat = deadline W s + (q - p) - s.now := by
      rw [maxPause, deadline]
      omega
    refine .inr ?_
    by_cases hp0 : p = deadline W s
    · exact .inl ⟨rfl, hp0, if_pos (hzero.mpr hp0)⟩
    · refine .inr ?_
      by_cases hlate : deadline W s + (q - p) ≤ s.now
      · exact .inl ⟨rfl, hp0, hlate, (if_neg (mt hzero.mp hp0)).trans (if_pos (hover.mpr hlate))⟩
      · refine .inr ⟨rfl, hp0, Nat.lt_of_not_le hlate, ?_⟩
        rw [← hwait]
        exact (if_neg (mt hzero.mp hp0)).trans (if_neg (mt hover.mp hlate))

theorem Clocked.woken {p q : Nat} (hp : s.startTime ≤ p) (hq : p ≤ q) (hnow : q ≤ s.now) :
    Clocked W { s with pc := woken s p q } := by
  have hstart : s.startTime ≤ s.now := by omega
  obtain ⟨n, heq⟩ | heq := woken_cases (s := s) (p := p) (q := q)
  · rw [heq]
    exact ⟨hstart, hp, Nat.le_trans hq hnow⟩
  · rw [heq]
    exact ⟨hstart, hp, hq, hnow⟩

theorem Clocked.look {p q : Nat} (hp : s.startTime ≤ p) (hq : p ≤ q) (hnow : q ≤ s.now) :
    Clocked W { s with pc := look W s p q } := by
  have hstart : s.startTime ≤ s.now := by omega
  obtain ⟨n, _, heq⟩ | ⟨_, _, heq⟩ | ⟨_, _, _, heq⟩ | ⟨_, _, _, heq⟩ := look_cases (W := W) (s := s) hq
  · rw [heq]
    exact ⟨hstart, hp, Nat.le_trans hq hnow⟩
  · rw [heq]
    exact ⟨hstart, hp, hq, hnow, Nat.le_refl _⟩
  · rw [heq]
    exact ⟨hstart, trivial⟩
  · rw [heq]
    exact ⟨hstart, hp, hq, hnow, Nat.le_refl _⟩

/-- A step of the call keeps the readings in order. -/
theorem Clocked.call (h : Clocked W s) (hs : proceed W s m = some pc) : Clocked W { s with pc := pc } := by
  obtain ⟨hstart, hpcs⟩ := h
  obtain ⟨p, hpc, hproceeds⟩ := exists_proceeds hs
  rw [hpc] at hpcs
  cases hproceeds with
  | pause => exact ⟨hstart, hstart, Nat.le_refl _⟩
  | acquire p => exact ⟨hstart, hpcs.1, hpcs.2, Nat.le_refl _⟩
  | holder p q => exact ⟨hstart, hpcs⟩
  | look p q => exact Clocked.look hpcs.1 hpcs.2.1 hpcs.2.2
  | woken _ p q since timeout => exact Clocked.woken hpcs.1 hpcs.2.1 (Nat.le_trans hpcs.2.2.1 hpcs.2.2.2)
  | accept p n =>
    refine ⟨hstart, Nat.le_refl _, ?_⟩
    show (deadline W s : Int) ≤ s.now + maxPause W s p
    rw [deadline, maxPause]
    omega
  | _ => exact ⟨hstart, trivial⟩

theorem Clocked.step (h : Clocked W s) (hs : TimedWait.step W s a = some s') : Clocked W s' := by
  cases a with
  | tick millis =>
    cases hs
    obtain ⟨hstart, hpcs⟩ := h
    refine ⟨Nat.le_trans hstart (Nat.le_add_right _ _), ?_⟩
    cases hpc : s.pc with
    | awaiting n since timeout =>
      simp only [hpc, deadline] at hpcs ⊢
      omega
    | _ => simp only [hpc] at hpcs ⊢ <;> omega
  | connect n =>
    cases hs
    exact h
  | disconnect =>
    cases hs
    exact h
  | settle n outcome =>
    rw [TimedWait.step] at hs
    split at hs
    · cases hs
      exact h
    · exact nomatch hs
  | close =>
    cases hs
    exact h
  | call move =>
    obtain ⟨pc, hpc, rfl⟩ := Option.map_eq_some_iff.mp hs
    exact h.call hpc

/-! ### The waits -/

/-- Before a step of the call, what `prompt` says. -/
theorem prompt_look {p q : Nat} (hpc : s.pc = .look p q) (h : prompt W s (.call .go) = true)
    (hnone : s.current = none) : p ≠ deadline W s ∧ (q = p ∨ deadline W s + (q - p) ≤ s.now) := by
  simpa [prompt, hpc, hnone] using h

theorem prompt_accept {p n : Nat} (hpc : s.pc = .accept p n) (h : prompt W s (.call .go) = true) :
    s.now = p ∨ deadline W s ≤ p := by
  simpa [prompt, hpc] using h

theorem Bounded.woken {p q : Nat} : Bounded W { s with pc := woken s p q } := by
  obtain ⟨n, heq⟩ | heq := woken_cases (s := s) (p := p) (q := q)
  · exact .of_quiet (by rw [heq]; rfl)
  · exact .of_quiet (by rw [heq]; rfl)

/-- It has come to a timeout, after the deadline. -/
theorem Bounded.of_timedOut (h : deadline W s ≤ s.now) : Bounded W { s with pc := .timedOut } where
  wait := nofun
  await := nofun
  returned := nofun
  timedOut := fun _ => h

/-- A step of the call that is in time begins no wait that is too long. -/
theorem Bounded.call (hclocked : Clocked W s) (hprompt : prompt W s (.call m) = true)
    (hs : proceed W s m = some pc) : Bounded W { s with pc := pc } := by
  obtain ⟨hstart, hpcs⟩ := hclocked
  obtain ⟨p, hpc, hproceeds⟩ := exists_proceeds hs
  rw [hpc] at hpcs
  cases hproceeds with
  | look p q =>
    obtain ⟨n, _, heq⟩ | ⟨hnone, hzero, _⟩ | ⟨_, _, hlate, heq⟩ | ⟨hnone, _, hearly, heq⟩ :=
      look_cases (W := W) (s := s) hpcs.2.1
    · exact .of_quiet (by rw [heq]; rfl)
    · exact absurd hzero (prompt_look hpc hprompt hnone).1
    · rw [heq]
      exact .of_timedOut (Nat.le_trans (Nat.le_add_right _ _) hlate)
    · have hsame := (prompt_look hpc hprompt hnone).2
      rw [heq]
      refine ⟨fun p' q' since timeout hwait => ?_, nofun, nofun, nofun⟩
      injection hwait with _ _ hsince htimeout
      show timeout ≠ 0 ∧ since + timeout ≤ deadline W s
      omega
  | woken _ p q since timeout => exact .woken
  | accept p n =>
    refine ⟨nofun, fun cur since timeout hawait => ?_, nofun, nofun⟩
    injection hawait with _ hsince htimeout
    have hcases := prompt_accept hpc hprompt
    obtain ⟨hle, _⟩ := hpcs
    show since + timeout.toNat ≤ max since (deadline W s)
    rw [← htimeout, maxPause]
    rw [deadline] at hcases ⊢
    omega
  | signalled n since timeout hsignalled =>
    exact ⟨nofun, nofun, fun cur hcur => by cases hcur; exact hsignalled, nofun⟩
  | late n since timeout hlate =>
    obtain ⟨_, hdeadline⟩ := hpcs
    exact .of_timedOut (by omega)
  | expired hlate =>
    refine .of_timedOut ?_
    rw [deadline]
    omega
  | _ => exact .of_quiet rfl

/-- And one that is not in time does begin one. -/
theorem prompt_of_bounded (hclocked : Clocked W s) (h : Bounded W { s with pc := pc })
    (hs : proceed W s m = some pc) : prompt W s (.call m) = true := by
  obtain ⟨hstart, hpcs⟩ := hclocked
  cases m with
  | go =>
    cases hpc : s.pc with
    | look p q =>
      simp only [proceed, hpc, Option.some.injEq] at hs hpcs
      subst hs
      simp only [prompt, hpc, Bool.or_eq_true, Bool.and_eq_true, bne_iff_ne, beq_iff_eq, decide_eq_true_eq]
      obtain ⟨n, hsome, _⟩ | ⟨_, _, heq⟩ | ⟨_, hne, hlate, _⟩ | ⟨_, hne, hearly, heq⟩ :=
        look_cases (W := W) (s := s) hpcs.2.1
      · rw [hsome]
        exact .inl rfl
      · exact absurd rfl (h.wait p q s.now 0 heq).1
      · exact .inr ⟨hne, .inr hlate⟩
      · have hle : s.now + (deadline W s + (q - p) - s.now) ≤ deadline W s := (h.wait p q s.now _ heq).2
        exact .inr ⟨hne, .inl (by omega)⟩
    | accept p n =>
      simp only [proceed, hpc, Option.some.injEq] at hs hpcs
      subst hs
      simp only [prompt, hpc, Bool.or_eq_true, beq_iff_eq, decide_eq_true_eq]
      have hle : s.now + (maxPause W s p).toNat ≤ max s.now (deadline W s) := h.await n s.now _ rfl
      rw [maxPause, deadline] at hle
      rw [deadline]
      omega
    | _ => simp only [prompt, hpc]
  | wake => rfl
  | retry again => rfl

theorem Bounded.step (h : Bounded W s) (hclocked : Clocked W s) (hprompt : prompt W s a = true)
    (hs : TimedWait.step W s a = some s') : Bounded W s' := by
  cases a with
  | tick millis =>
    cases hs
    exact ⟨h.wait, h.await, h.returned, fun hpc => Nat.le_trans (h.timedOut hpc) (Nat.le_add_right _ _)⟩
  | connect n =>
    cases hs
    exact ⟨h.wait, h.await, h.returned, h.timedOut⟩
  | disconnect =>
    cases hs
    exact ⟨h.wait, h.await, h.returned, h.timedOut⟩
  | settle n outcome =>
    rw [TimedWait.step] at hs
    split at hs
    · rename_i hopen
      cases hs
      refine ⟨h.wait, h.await, fun cur hpc => ?_, h.timedOut⟩
      have hcur := h.returned cur hpc
      have hne : cur ≠ n := fun heq => by
        rw [heq, hopen] at hcur
        exact nomatch hcur
      exact (Function.update_of_ne hne _ _).trans hcur
    · exact nomatch hs
  | close =>
    cases hs
    exact ⟨h.wait, h.await, h.returned, h.timedOut⟩
  | call move =>
    obtain ⟨pc, hpc, rfl⟩ := Option.map_eq_some_iff.mp hs
    exact .call hclocked hprompt hpc

/-! ### After the deadline -/

/-- How many steps there can be to the end. -/
def rank : Pc → Nat
  | .top => 10
  | .pause => 9
  | .acquire _ => 8
  | .waiting _ _ _ _ => 7
  | .holder _ _ => 6
  | .look _ _ => 5
  | .accept _ _ => 4
  | .awaiting _ _ _ => 3
  | .caught => 2
  | .check => 1
  | _ => 0

theorem rank_le : rank pc ≤ 10 := by
  cases pc <;> simp [rank]

theorem rank_woken {p q : Nat} : rank (woken s p q) < 7 := by
  obtain ⟨n, heq⟩ | heq := woken_cases (s := s) (p := p) (q := q)
  · rw [heq]
    simp [rank]
  · rw [heq]
    simp [rank]

/-- After the deadline the loops are not gone through again. -/
theorem rank_call (hclocked : Clocked W s) (hprompt : prompt W s (.call m) = true)
    (hlate : deadline W s < s.now) (hs : proceed W s m = some pc) : rank pc < rank s.pc := by
  obtain ⟨hstart, hpcs⟩ := hclocked
  obtain ⟨p, hpc, hproceeds⟩ := exists_proceeds hs
  rw [hpc] at hpcs ⊢
  cases hproceeds with
  | look p q =>
    obtain ⟨n, _, heq⟩ | ⟨hnone, hzero, _⟩ | ⟨_, _, _, heq⟩ | ⟨hnone, _, hearly, _⟩ :=
      look_cases (W := W) (s := s) hpcs.2.1
    · rw [heq]
      simp [rank]
    · exact absurd hzero (prompt_look hpc hprompt hnone).1
    · rw [heq]
      simp [rank]
    · have hsame := (prompt_look hpc hprompt hnone).2
      omega
  | woken _ p q since timeout => exact rank_woken
  | again hearly =>
    rw [deadline] at hlate
    omega
  | _ => simp [rank]

/-- The others leave the call where it is, and the clock does not go back. -/
theorem step_of_not_call (ha : isCall a = false) (hs : step W s a = some s') :
    s'.pc = s.pc ∧ deadline W s' = deadline W s ∧ s.now ≤ s'.now := by
  cases a with
  | tick millis =>
    cases hs
    exact ⟨rfl, rfl, Nat.le_add_right _ _⟩
  | connect n =>
    cases hs
    exact ⟨rfl, rfl, Nat.le_refl _⟩
  | disconnect =>
    cases hs
    exact ⟨rfl, rfl, Nat.le_refl _⟩
  | settle n outcome =>
    rw [step] at hs
    split at hs
    · cases hs
      exact ⟨rfl, rfl, Nat.le_refl _⟩
    · exact nomatch hs
  | close =>
    cases hs
    exact ⟨rfl, rfl, Nat.le_refl _⟩
  | call move => exact nomatch ha

theorem exists_call (h : isCall a = true) : ∃ move, a = .call move := by
  cases a with
  | call move => exact ⟨move, rfl⟩
  | _ => exact absurd h Bool.false_ne_true

theorem rank_step (hclocked : Clocked W s) (hprompt : prompt W s a = true) (hlate : deadline W s < s.now)
    (ha : isCall a = true) (hs : step W s a = some s') :
    rank s'.pc < rank s.pc ∧ deadline W s' = deadline W s ∧ s'.now = s.now := by
  obtain ⟨move, rfl⟩ := exists_call ha
  obtain ⟨pc, hpc, rfl⟩ := Option.map_eq_some_iff.mp hs
  exact ⟨rank_call hclocked hprompt hlate hpc, rfl, rfl⟩

/-- The steps of the call are counted by what they take from the rank. -/
theorem countP_isCall_le {as : List Action} (hclocked : Clocked W s) (hlate : deadline W s < s.now)
    (hrun : (machine W).runUnder (prompt W) s as = some s') : as.countP isCall + rank s'.pc ≤ rank s.pc := by
  induction as generalizing s with
  | nil =>
    obtain rfl := Option.some.inj hrun
    exact Nat.le_of_eq (Nat.zero_add _)
  | cons a rest ih =>
    rw [Machine.runUnder, Option.ite_none_right_eq_some] at hrun
    obtain ⟨hprompt, hrun⟩ := hrun
    obtain ⟨t, ht, hrest⟩ := Option.bind_eq_some_iff.mp hrun
    have hclocked' : Clocked W t := hclocked.step ht
    by_cases ha : isCall a = true
    · obtain ⟨hlt, hdeadline, hnow⟩ := rank_step hclocked hprompt hlate ha ht
      have hle := ih hclocked' (by omega) hrest
      rw [List.countP_cons_of_pos ha]
      omega
    · rw [Bool.not_eq_true] at ha
      obtain ⟨hpc, hdeadline, hnow⟩ := step_of_not_call ha ht
      rw [List.countP_cons_of_neg (by simp [ha]), ← hpc]
      exact ih hclocked' (by omega) hrest

/-- After the deadline no wait holds the call up. -/
theorem exists_step (h : Bounded W s) (hclocked : Clocked W s) (hlate : deadline W s < s.now)
    (hrunning : finished s = false) : ∃ move s', move ≠ .wake ∧ step W s (.call move) = some s' := by
  have hgo : ∀ move, move ≠ .wake → (proceed W s move).isSome = true →
      ∃ move s', move ≠ .wake ∧ step W s (.call move) = some s' := fun move hne hsome => by
    obtain ⟨pc, hpc⟩ := Option.isSome_iff_exists.mp hsome
    exact ⟨move, { s with pc := pc }, hne, by rw [step, hpc]; rfl⟩
  cases hpc : s.pc with
  | waiting p q since timeout =>
    obtain ⟨hbounded, hle⟩ := h.wait p q since timeout hpc
    refine hgo .go nofun ?_
    simp only [proceed, hpc]
    rw [if_pos ⟨hbounded, by omega⟩]
    rfl
  | awaiting n since timeout =>
    have hle := h.await n since timeout hpc
    have hpcs := hclocked.2
    simp only [hpc] at hpcs
    refine hgo .go nofun ?_
    simp only [proceed, hpc]
    cases s.settled n with
    | none =>
      rw [if_pos (by omega)]
      rfl
    | some outcome => cases outcome <;> rfl
  | caught =>
    refine hgo (.retry true) nofun ?_
    rw [proceed, hpc]
    rfl
  | returned cur =>
    rw [finished, hpc] at hrunning
    exact nomatch hrunning
  | timedOut =>
    rw [finished, hpc] at hrunning
    exact nomatch hrunning
  | thrown =>
    rw [finished, hpc] at hrunning
    exact nomatch hrunning
  | _ =>
    refine hgo .go nofun ?_
    rw [proceed, hpc]
    rfl

theorem reachable_bounded (h : (machine W).ReachableUnder (fun s a => prompt W s a = true) s) :
    Clocked W s ∧ Bounded W s := by
  refine h.invariant (I := fun s => Clocked W s ∧ Bounded W s) (fun s hstart => ?_) fun s a s' hs hprompt hstep => ?_
  · obtain ⟨hpc, hnow⟩ := hstart
    refine ⟨⟨Nat.le_of_eq hnow, ?_⟩, .of_quiet ?_⟩
    · rw [hpc]
      trivial
    · rw [hpc]
      rfl
  · exact ⟨hs.1.step hstep, hs.2.step hs.1 hprompt hstep⟩

end Proofs

theorem delegate_bounded (waitTimeInMillis : Nat) (s : State)
    (h : (machine waitTimeInMillis).ReachableUnder (fun s a => prompt waitTimeInMillis s a = true) s) :
    Bounded waitTimeInMillis s ∧ (deadline waitTimeInMillis s < s.now → Ends waitTimeInMillis s) := by
  obtain ⟨hclocked, hbounded⟩ := reachable_bounded h
  refine ⟨hbounded, fun hlate => ⟨exists_step hbounded hclocked hlate, fun as t hrun => ?_⟩⟩
  exact Nat.le_trans (Nat.le_of_add_right_le (countP_isCall_le hclocked hlate hrun)) rank_le

/-- Nothing has happened yet. -/
def initial : State := ⟨0, 0, none, fun _ => none, false, .top⟩

/-- A subscription comes, and it is signalled, all in time. -/
theorem delegate_bounded_signalled : ∃ t, (machine 100).ReachableUnder (fun s a => prompt 100 s a = true) t ∧
    t.pc = .returned 0 ∧ Bounded 100 t := by
  let s : State := ⟨60, 0, some 0, Function.update (fun _ => none) 0 (some .signalled), false, .returned 0⟩
  have hrun : (machine 100).runUnder (prompt 100) initial
      (List.replicate 5 (.call .go) ++
        [.connect 0, .call .wake, .call .go, .tick 60, .settle 0 .signalled, .call .go]) = some s := rfl
  have hreach : (machine 100).ReachableUnder (fun s a => prompt 100 s a = true) s :=
    .run (.start ⟨rfl, rfl⟩) (prompt 100) (fun _ _ h => h) _ hrun
  exact ⟨s, hreach, rfl, (delegate_bounded 100 s hreach).1⟩

/-- Nothing is to be waited, and the wait has no bound. -/
theorem zero_waits_unbounded : ¬ ∀ waitTimeInMillis s, (machine waitTimeInMillis).Reachable s →
    Bounded waitTimeInMillis s ∧ (deadline waitTimeInMillis s < s.now → Ends waitTimeInMillis s) := by
  intro h
  have hrun : ((machine 0).run initial (List.replicate 5 (.call .go))).map State.pc =
      some (.waiting 0 0 0 0) := rfl
  have hstart : (machine 0).Start initial := ⟨rfl, rfl⟩
  obtain ⟨t, hreach, hpc⟩ := Machine.exists_reachable hstart _ State.pc hrun
  exact absurd rfl ((h 0 t hreach).1.wait 0 0 0 0 hpc).1

end FactCast.TimedWait
