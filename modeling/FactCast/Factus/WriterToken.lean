import FactCast.Machine.ReentrantLock
import FactCast.Machine.Run
import Mathlib.Data.List.Basic

/-! Who may write to a projection.

A writer token stands for a lock that is reentrant and belongs to a thread. A
token of a local projection releases the lock when it is closed, and says that it
is valid whatever happens. A token of a Redis projection has a timer that asks
now and then whether the lock is locked, by anybody; closing the token stops the
timer and leaves what it found last.

The thread that holds the lock gets as many tokens as it asks for. What the lock
does guarantee is that tokens that are open belong to one thread, as long as no
token is closed a second time by that thread (`open_tokens_of_one_thread`). -/
namespace FactCast.WriterToken

inductive Kind where
  | «local»
  | redis
deriving DecidableEq

structure Token where
  /-- The thread that acquired it. -/
  thread : Nat
  /-- A call of `close` has returned. -/
  closed : Bool := false
  /-- The last sample. -/
  liveness : Bool := true
  cancelled : Bool := false
  /-- What the timer has found and not yet set. -/
  sampled : Option Bool := none
deriving DecidableEq

def Token.isValid (kind : Kind) (token : Token) : Bool :=
  match kind with
  | .local => true
  | .redis => token.liveness

structure State where
  lock : ReentrantLock Nat
  /-- All tokens ever handed out, in order. -/
  tokens : List Token

inductive Action where
  | acquireWriteToken (thread : Nat)
  | close (token thread : Nat)
  /-- The timer of a token asks whether the lock is locked. -/
  | sample (token : Nat)
  | setLiveness (token : Nat)

section Steps
variable (kind : Kind) (s : State)

/-- There is no token if somebody else has the lock. -/
def acquireWriteToken (thread : Nat) : State :=
  match s.lock.tryLock thread with
  | some lock => { lock, tokens := s.tokens ++ [{ thread, liveness := lock.isLocked }] }
  | none => s

/-- A thread that does not hold the lock gets an exception, after the timer was cancelled. -/
def close (i thread : Nat) : Option State :=
  s.tokens[i]?.map fun token =>
    let token := { token with cancelled := token.cancelled || kind == .redis }
    match s.lock.unlock thread with
    | some lock => { lock, tokens := s.tokens.set i { token with closed := true } }
    | none => { s with tokens := s.tokens.set i token }

def sample (i : Nat) : Option State :=
  s.tokens[i]?.bind fun token =>
    if kind = .redis ∧ token.cancelled = false ∧ token.sampled = none then
      some { s with tokens := s.tokens.set i { token with sampled := some s.lock.isLocked } }
    else none

def setLiveness (i : Nat) : Option State :=
  s.tokens[i]?.bind fun token =>
    token.sampled.map fun liveness =>
      { s with tokens := s.tokens.set i { token with liveness, sampled := none } }

end Steps

def step (kind : Kind) (s : State) : Action → Option State
  | .acquireWriteToken thread => some (acquireWriteToken s thread)
  | .close i thread => close kind s i thread
  | .sample i => sample kind s i
  | .setLiveness i => setLiveness s i

def writing (kind : Kind) : Machine State Action where
  Start s := s = ⟨.free, []⟩
  step := step kind

/-- At most one token that is open says that it is valid. -/
def AtMostOne (kind : Kind) (s : State) : Prop :=
  ∀ (i j : Nat) (t u : Token), s.tokens[i]? = some t → s.tokens[j]? = some u → t.closed = false →
    u.closed = false → t.isValid kind = true → u.isValid kind = true → i = j

def ClosedInvalid (kind : Kind) (s : State) : Prop :=
  ∀ t ∈ s.tokens, t.closed = true → t.isValid kind = false

/-- A token that is closed is not closed again by the thread that has the lock. -/
def closesOnce (s : State) : Action → Bool
  | .close i thread =>
    match s.tokens[i]? with
    | some token => !token.closed || s.lock.holder != some thread
    | none => true
  | _ => true

/-! ### What holds in every run -/

def openCount (tokens : List Token) : Nat := tokens.countP fun t => !t.closed

/-- The lock is held for the open tokens, by the thread that acquired them. -/
structure Inv (s : State) : Prop where
  holder : ∀ t ∈ s.tokens, t.closed = false → s.lock.holder = some t.thread
  count : s.lock.holds = openCount s.tokens

/-- The timer of a closed token is stopped. -/
def Cancelled (kind : Kind) (s : State) : Prop :=
  ∀ t ∈ s.tokens, t.closed = true → kind = .redis → t.cancelled = true

/-- No timer changes what the token reports. -/
def Settled (kind : Kind) (s : State) (i : Nat) (report : Bool) : Prop :=
  ∃ t, s.tokens[i]? = some t ∧ (kind = .redis → t.cancelled = true) ∧ t.sampled = none ∧
    t.isValid kind = report

section Proofs
variable {kind : Kind} {s s' : State} {i : Nat} {token t : Token}

theorem openCount_set (h : s.tokens[i]? = some t) :
    openCount (s.tokens.set i token) + (if t.closed then 0 else 1) =
      openCount s.tokens + if token.closed then 0 else 1 := by
  obtain ⟨hlt, hget⟩ := List.getElem?_eq_some_iff.mp h
  have hpos : t.closed = false → 0 < openCount s.tokens := fun hopen =>
    List.countP_pos_iff.mpr ⟨t, List.mem_of_getElem? h, by simp [hopen]⟩
  rw [openCount, List.countP_set hlt, hget]
  replace hpos : t.closed = false → 0 < s.tokens.countP fun t => !t.closed := hpos
  unfold openCount
  cases hold : t.closed
  · have := hpos hold
    cases token.closed
    · simp
      omega
    · simp
      omega
  · cases token.closed
    · simp
    · simp

/-- A token that changes neither hands nor state. -/
theorem Inv.set (h : Inv s) (hget : s.tokens[i]? = some t) (hthread : token.thread = t.thread)
    (hclosed : token.closed = t.closed) : Inv { s with tokens := s.tokens.set i token } where
  holder := by
    intro u hu hopen
    rcases List.mem_or_eq_of_mem_set hu with hu | rfl
    · exact h.holder u hu hopen
    · rw [hthread]
      exact h.holder t (List.mem_of_getElem? hget) (hclosed ▸ hopen)
  count := by
    have hset := @openCount_set s i token t hget
    rw [hclosed, Nat.add_right_cancel_iff] at hset
    exact h.count.trans hset.symm

theorem inv_acquire {thread : Nat} (h : Inv s) : Inv (acquireWriteToken s thread) := by
  unfold acquireWriteToken
  split
  · rename_i lock hlock
    obtain ⟨hholder, hholds, hbefore⟩ := ReentrantLock.tryLock_eq hlock
    refine { holder := fun u hu hopen => ?_, count := ?_ }
    · rw [hholder]
      rcases List.mem_append.mp hu with hu | hu
      · rcases hbefore with hsame | hfree
        · exact hsame.symm.trans (h.holder u hu hopen)
        · -- a free lock has no open token
          have hpos : 0 < openCount s.tokens := List.countP_pos_iff.mpr ⟨u, hu, by simp [hopen]⟩
          have := h.count
          omega
      · obtain rfl := List.mem_singleton.mp hu
        rfl
    · show lock.holds = _
      rw [hholds, h.count, openCount, openCount, List.countP_append]
      rfl
  · exact h

/-- The thread that closes its token gives the lock back once. -/
theorem inv_close {thread : Nat} (h : Inv s) (hc : closesOnce s (.close i thread) = true)
    (hs : close kind s i thread = some s') : Inv s' := by
  obtain ⟨t, hget, rfl⟩ := Option.map_eq_some_iff.mp hs
  simp only
  split
  · rename_i lock hlock
    obtain ⟨hholder, hholds, hafter⟩ := ReentrantLock.unlock_eq hlock
    have hopen : t.closed = false := by
      simpa [closesOnce, hget, hholder] using hc
    have hset := @openCount_set s i
      { t with cancelled := t.cancelled || kind == .redis, closed := true } t hget
    simp only [hopen, Bool.false_eq_true, if_false, if_true, Nat.add_zero] at hset
    have hcount : lock.holds = openCount (s.tokens.set i
        { t with cancelled := t.cancelled || kind == .redis, closed := true }) := by
      have := h.count
      omega
    refine { holder := fun u hu hstill => ?_, count := hcount }
    have hpos : 0 < lock.holds := by
      rw [hcount]
      exact List.countP_pos_iff.mpr ⟨u, hu, by simp [hstill]⟩
    rw [hafter hpos, ← hholder]
    rcases List.mem_or_eq_of_mem_set hu with hu | rfl
    · exact h.holder u hu hstill
    · cases hstill
  · exact h.set hget rfl rfl

theorem inv_step {a : Action} (h : Inv s) (hc : closesOnce s a = true)
    (hs : step kind s a = some s') : Inv s' := by
  cases a with
  | acquireWriteToken thread =>
    cases hs
    exact inv_acquire h
  | close i thread => exact inv_close h hc hs
  | sample i =>
    obtain ⟨t, hget, hs⟩ := Option.bind_eq_some_iff.mp hs
    split at hs
    · cases hs
      exact h.set hget rfl rfl
    · cases hs
  | setLiveness i =>
    obtain ⟨t, hget, hs⟩ := Option.bind_eq_some_iff.mp hs
    obtain ⟨liveness, _, rfl⟩ := Option.map_eq_some_iff.mp hs
    exact h.set hget rfl rfl

/-! ### Closed tokens -/

theorem Cancelled.set (h : Cancelled kind s)
    (hnew : token.closed = true → kind = .redis → token.cancelled = true) :
    Cancelled kind { s with tokens := s.tokens.set i token } := by
  intro u hu
  rcases List.mem_or_eq_of_mem_set hu with hu | rfl
  · exact h u hu
  · exact hnew

theorem cancelled_step {a : Action} (h : Cancelled kind s) (hs : step kind s a = some s') :
    Cancelled kind s' := by
  cases a with
  | acquireWriteToken thread =>
    cases hs
    unfold acquireWriteToken
    split
    · intro u hu hclosed
      rcases List.mem_append.mp hu with hu | hu
      · exact h u hu hclosed
      · obtain rfl := List.mem_singleton.mp hu
        cases hclosed
    · exact h
  | close i thread =>
    obtain ⟨t, hget, rfl⟩ := Option.map_eq_some_iff.mp hs
    simp only
    split
    · exact h.set fun _ hredis => by simp [hredis]
    · exact h.set fun _ hredis => by simp [hredis]
  | sample i =>
    obtain ⟨t, hget, hs⟩ := Option.bind_eq_some_iff.mp hs
    split at hs
    · cases hs
      exact h.set (h t (List.mem_of_getElem? hget))
    · cases hs
  | setLiveness i =>
    obtain ⟨t, hget, hs⟩ := Option.bind_eq_some_iff.mp hs
    obtain ⟨liveness, _, rfl⟩ := Option.map_eq_some_iff.mp hs
    exact h.set (h t (List.mem_of_getElem? hget))

/-- Another token, or the same with its report. -/
theorem Settled.set {report : Bool} {j : Nat} (h : Settled kind s i report)
    (hsame : ∀ t, s.tokens[i]? = some t → j = i → (kind = .redis → t.cancelled = true) →
      t.sampled = none → t.isValid kind = report →
      (kind = .redis → token.cancelled = true) ∧ token.sampled = none ∧ token.isValid kind = report) :
    Settled kind { s with tokens := s.tokens.set j token } i report := by
  obtain ⟨t, hget, hcancelled, hsampled, hreport⟩ := h
  by_cases heq : j = i
  · subst heq
    refine ⟨token, ?_, hsame t hget rfl hcancelled hsampled hreport⟩
    exact List.getElem?_set_self (List.getElem?_eq_some_iff.mp hget).1
  · refine ⟨t, ?_, hcancelled, hsampled, hreport⟩
    exact (List.getElem?_set_ne heq).trans hget

theorem settled_step {report : Bool} {a : Action} (h : Settled kind s i report)
    (hs : step kind s a = some s') : Settled kind s' i report := by
  cases a with
  | acquireWriteToken thread =>
    cases hs
    unfold acquireWriteToken
    split
    · obtain ⟨t, hget, hrest⟩ := h
      exact ⟨t, List.getElem?_append_left (List.getElem?_eq_some_iff.mp hget).1 ▸ hget, hrest⟩
    · exact h
  | close j thread =>
    obtain ⟨t, hget, rfl⟩ := Option.map_eq_some_iff.mp hs
    have hsame : ∀ u, s.tokens[i]? = some u → j = i → u = t := fun u hu heq => by
      subst heq
      exact Option.some.inj (hu.symm.trans hget)
    simp only
    split
    · refine h.set fun u hu heq _ hsampled hreport => ?_
      obtain rfl := hsame u hu heq
      exact ⟨fun hredis => by simp [hredis], hsampled, hreport⟩
    · refine h.set fun u hu heq _ hsampled hreport => ?_
      obtain rfl := hsame u hu heq
      exact ⟨fun hredis => by simp [hredis], hsampled, hreport⟩
  | sample j =>
    obtain ⟨t, hget, hs⟩ := Option.bind_eq_some_iff.mp hs
    split at hs
    · rename_i hrunning
      cases hs
      refine h.set fun u hu heq hcancelled => ?_
      subst heq
      obtain rfl := Option.some.inj (hu.symm.trans hget)
      rw [hcancelled hrunning.1] at hrunning
      cases hrunning.2.1
    · cases hs
  | setLiveness j =>
    obtain ⟨t, hget, hs⟩ := Option.bind_eq_some_iff.mp hs
    obtain ⟨liveness, hpending, rfl⟩ := Option.map_eq_some_iff.mp hs
    refine h.set fun u hu heq _ hsampled => ?_
    subst heq
    obtain rfl := Option.some.inj (hu.symm.trans hget)
    rw [hsampled] at hpending
    cases hpending

theorem settled_run {report : Bool} (as : List Action) (h : Settled kind s i report)
    (hs : (writing kind).run s as = some s') : Settled kind s' i report := by
  induction as generalizing s with
  | nil =>
    obtain rfl : s = s' := by simpa [Machine.run] using hs
    exact h
  | cons a rest ih =>
    obtain ⟨u, hu, hs⟩ := Option.bind_eq_some_iff.mp hs
    exact ih (settled_step h hu) hs

end Proofs

/-- In every run in which no closed token is closed again by the thread that has
the lock, the open tokens are those for which one thread holds it, and so those
that say they are valid are that thread's. What a closed token says stays as it
is once no sample is under way. -/
theorem open_tokens_of_one_thread (kind : Kind) (s : State)
    (h : (writing kind).ReachableUnder (fun s a => closesOnce s a = true) s) :
    (∀ t ∈ s.tokens, t.closed = false → s.lock.holder = some t.thread) ∧
    s.lock.holds = openCount s.tokens ∧
    ∀ (i : Nat) (t : Token), s.tokens[i]? = some t → t.closed = true → t.sampled = none →
      ∀ as s', (writing kind).run s as = some s' →
        ∃ t', s'.tokens[i]? = some t' ∧ t'.isValid kind = t.isValid kind := by
  have hinv : Inv s ∧ Cancelled kind s := by
    refine h.invariant (I := fun s => Inv s ∧ Cancelled kind s) (fun s hs => ?_)
      fun s a s' hi hc hs => ?_
    · obtain rfl : s = ⟨.free, []⟩ := hs
      exact ⟨⟨fun _ ht => (nomatch ht), rfl⟩, fun _ ht => (nomatch ht)⟩
    · have hs : step kind s a = some s' := hs
      exact ⟨inv_step hi.1 hc hs, cancelled_step hi.2 hs⟩
  refine ⟨hinv.1.holder, hinv.1.count, fun i t hget hclosed hsampled as s' hs => ?_⟩
  have hsettled : Settled kind s i (t.isValid kind) :=
    ⟨t, hget, hinv.2 t (List.mem_of_getElem? hget) hclosed, hsampled, rfl⟩
  obtain ⟨t', hget', _, _, hreport⟩ := settled_run as hsettled hs
  exact ⟨t', hget', hreport⟩

/-- One thread's token is closed, and another thread gets the next one. -/
def handedOver : List Action :=
  [.acquireWriteToken 0, .acquireWriteToken 1, .sample 0, .close 0 0, .setLiveness 0,
    .acquireWriteToken 1]

theorem open_tokens_of_one_thread_handedOver :
    ∃ s : State, s.tokens.map Token.thread = [0, 1] ∧ s.lock.holder = some 1 ∧
      (∀ t ∈ s.tokens, t.closed = false → s.lock.holder = some t.thread) ∧
      s.lock.holds = openCount s.tokens := by
  obtain ⟨s, hs, hstate⟩ := Machine.exists_reachableUnder (M := writing .redis) (c := closesOnce) rfl
    handedOver (fun s => (s.tokens.map Token.thread, s.lock.holder)) (b := ([0, 1], some 1)) (by decide)
  simp only [Prod.mk.injEq] at hstate
  obtain ⟨hholder, hcount, _⟩ := open_tokens_of_one_thread .redis s hs
  exact ⟨s, hstate.1, hstate.2, hholder, hcount⟩

/-- One thread acquires two tokens. -/
theorem two_valid_tokens : ¬ ∀ kind s, (writing kind).Reachable s →
    AtMostOne kind s ∧ ClosedInvalid kind s := by
  intro hall
  have hreached : (writing .local).Reachable
      ⟨⟨some (0, 1)⟩, [{ thread := 0 }, { thread := 0 }]⟩ :=
    Machine.Reachable.run (.start rfl) [.acquireWriteToken 0, .acquireWriteToken 0] rfl
  have hone := (hall .local _ hreached).1 0 1 { thread := 0 } { thread := 0 } rfl rfl rfl rfl rfl rfl
  cases hone

end FactCast.WriterToken
