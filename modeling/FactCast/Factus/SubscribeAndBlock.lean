import FactCast.Machine.Run
import Mathlib.Data.List.Nodup

/-! The writer token of a subscription.

`subscribeAndBlock` acquires a token, subscribes, puts token and subscription on a list of
what is to be closed with Factus, and returns the subscription, wrapped
(`TokenAwareSubscription`), so that the token is released with it. Nothing releases it if
the call fails in between. And what is on the list stays there: once the subscription was
closed, Factus closes the token again. The token of a local or a Redis projection is a lock
that belongs to the thread that has acquired it: for any other thread `unlock` throws, and
the token is kept.

Calls, those who close what was returned, and Factus closing take their steps in any
order. `orderly` says when a step does not go wrong. Under it every token is released
once, after its subscription was closed (`token_held`). -/
namespace FactCast.SubscribeAndBlock

/-- What can fail while a token is held. -/
inductive Subscribing where
  | create
  | createFactSpecs
  | subscribe
deriving DecidableEq

/-- Where a call is. -/
inductive Phase where
  /-- Before it looks whether Factus is closed. -/
  | looping
  | acquiring
  | subscribing (step : Subscribing)
  | adding
  | returning
  | returned
  | thrown (acquired : Bool)
deriving DecidableEq

/-- Has a token been acquired? -/
def Phase.acquired : Phase → Bool
  | .looping => false
  | .acquiring => false
  | .thrown acquired => acquired
  | _ => true

/-- Is it on the list? -/
def Phase.managed : Phase → Bool
  | .returning => true
  | .returned => true
  | _ => false

/-- `TokenAwareSubscription.close`, which does something only for the thread that is first. -/
inductive Closing where
  | «open»
  | delegate (thread : Nat)
  | token (thread : Nat)
  | closed
deriving DecidableEq

/-- The writer tokens there are. -/
inductive Kind where
  | «local»
  | redis
  | dynamo
deriving DecidableEq

/-- Only the thread that has acquired it can release it. -/
def Kind.ofThread : Kind → Bool
  | .local => true
  | .redis => true
  | .dynamo => false

/-- A call, who makes it, and what it returns. The last two fields are a record: that the
subscription was closed, be it with an exception, and how often the token was released. -/
structure Call where
  thread : Nat
  kind : Kind
  phase : Phase
  wrapper : Closing := .open
  subscriptionClosed : Bool := false
  released : Nat := 0
deriving DecidableEq

/-- `FactusImpl.close`, by some thread. What is left of the list it has copied. -/
inductive Shutdown where
  | «open»
  | copying (thread : Nat)
  | subscription (thread : Nat) (rest : List Nat)
  | token (thread call : Nat) (rest : List Nat)
  | closed
deriving DecidableEq

/-- Calls are numbered as they begin. -/
structure State where
  calls : List Call
  managedObjects : List Nat
  shutdown : Shutdown

inductive Move where
  | look
  | acquireWriteToken (acquired : Bool)
  | proceed
  | fail
  | add
  | ret
deriving DecidableEq

inductive CloseMove where
  | getAndSet (thread : Nat)
  | delegate
  | token
deriving DecidableEq

inductive Action where
  | subscribeAndBlock (thread : Nat) (kind : Kind)
  | call (call : Nat) (move : Move)
  | closeSubscription (call : Nat) (move : CloseMove)
  /-- `FactusImpl.close` is called. -/
  | close (thread : Nat)
  /-- It goes on. -/
  | shutdown
deriving DecidableEq

/-! ### Steps -/

def Subscribing.next : Subscribing → Phase
  | .create => .subscribing .createFactSpecs
  | .createFactSpecs => .subscribing .subscribe
  | .subscribe => .adding

def Phase.move (closed : Bool) : Phase → Move → Option Phase
  | .looping, .look => some (if closed then .thrown false else .acquiring)
  | .acquiring, .acquireWriteToken acquired => some (if acquired then .subscribing .create else .looping)
  | .acquiring, .fail => some (.thrown false)
  | .subscribing step, .proceed => some step.next
  | .subscribing _, .fail => some (.thrown true)
  | .adding, .add => some .returning
  | .returning, .ret => some .returned
  | _, _ => none

/-- The token is released if this thread closes it. -/
def Call.frees (c : Call) (thread : Nat) : Bool := !c.kind.ofThread || thread == c.thread

/-- `WriterToken.close`. A thread that it does not belong to gets an exception. -/
def Call.closeToken (c : Call) (thread : Nat) : Call :=
  if c.frees thread then { c with released := c.released + 1 } else c

def Call.close (c : Call) : CloseMove → Option Call
  | .getAndSet thread =>
    if c.phase = .returned then some (if c.wrapper = .open then { c with wrapper := .delegate thread } else c) else none
  | .delegate =>
    match c.wrapper with
    | .delegate thread => some { c with subscriptionClosed := true, wrapper := .token thread }
    | _ => none
  | .token =>
    match c.wrapper with
    | .token thread => some { c.closeToken thread with wrapper := .closed }
    | _ => none

section Steps
variable (s : State)

def State.isClosed : Bool := s.shutdown != .open

/-- A call is begun, unless Factus is closed. -/
def subscribeAndBlock (thread : Nat) (kind : Kind) : State :=
  { s with calls := s.calls ++ [{ thread, kind, phase := if s.isClosed then .thrown false else .looping }] }

def moveCall (i : Nat) (move : Move) : Option State :=
  s.calls[i]?.bind fun c =>
    (c.phase.move s.isClosed move).map fun phase =>
      { s with
        calls := s.calls.set i { c with phase }
        managedObjects := if move = .add then s.managedObjects ++ [i] else s.managedObjects }

def closeSubscription (i : Nat) (move : CloseMove) : Option State :=
  s.calls[i]?.bind fun c => (c.close move).map fun c => { s with calls := s.calls.set i c }

/-- It is only closed once. -/
def close (thread : Nat) : State :=
  match s.shutdown with
  | .open => { s with shutdown := .copying thread }
  | _ => s

/-- Exceptions are ignored. -/
def shutdown : Option State :=
  match s.shutdown with
  | .copying thread => some { s with shutdown := .subscription thread s.managedObjects }
  | .subscription _ [] => some { s with shutdown := .closed }
  | .subscription thread (i :: rest) =>
    some { s with
      calls := s.calls.modify i fun c => { c with subscriptionClosed := true }
      shutdown := .token thread i rest }
  | .token thread i rest =>
    some { s with
      calls := s.calls.modify i fun c => c.closeToken thread
      shutdown := .subscription thread rest }
  | _ => none

def step : Action → Option State
  | .subscribeAndBlock thread kind => some (subscribeAndBlock s thread kind)
  | .call i move => moveCall s i move
  | .closeSubscription i move => closeSubscription s i move
  | .close thread => some (close s thread)
  | .shutdown => shutdown s

end Steps

def machine : Machine State Action where
  Start s := s = ⟨[], [], .open⟩
  step := step

/-! ### What is expected -/

/-- A token is held as long as its subscription needs it. -/
structure Call.Held (closed : Bool) (c : Call) : Prop where
  failed : c.phase = .thrown true → 0 < c.released
  returned : c.phase = .returned → c.wrapper = .closed ∨ closed = true → 0 < c.released
  after : c.phase = .returned → 0 < c.released → c.subscriptionClosed = true
  once : c.released ≤ 1

def TokensHeld (s : State) : Prop := ∀ c ∈ s.calls, c.Held (s.shutdown == .closed)

/-- The list is copied. -/
def Shutdown.copied : Shutdown → Bool
  | .open => false
  | .copying _ => false
  | _ => true

/-- What has been subscribed is on the list, not closed, and the thread can release it. -/
def Call.orderly (c : Call) (thread : Nat) : Bool :=
  !c.phase.acquired || c.phase.managed && c.wrapper == .open && c.frees thread

/-- Nothing fails while a token is held, and who closes a subscription first can release its token.
When the list is copied, all that have a token are on it, and the thread that closes Factus can
release them; afterwards no token is acquired and no subscription closed, but by Factus. -/
def orderly (s : State) : Action → Bool
  | .call i .fail =>
    match s.calls[i]? with
    | some c => !c.phase.acquired
    | none => true
  | .call _ (.acquireWriteToken true) => !s.shutdown.copied
  | .closeSubscription i (.getAndSet thread) =>
    match s.calls[i]? with
    | some c => c.wrapper != .open || !s.shutdown.copied && c.frees thread
    | none => true
  | .shutdown =>
    match s.shutdown with
    | .copying thread => s.calls.all fun c => c.orderly thread
    | _ => true
  | _ => true

section Proofs
variable {s s' : State} {a : Action} {c c' d : Call} {i j : Nat} {sd : Shutdown} {p p' : Phase} {m : Move}
  {closed : Bool}

/-! ### What a step does to a call -/

/-- The moves that matter for the token. -/
structure Moves (p : Phase) (m : Move) (p' : Phase) : Prop where
  open_call : p ≠ .returned
  managed : p'.managed = (p.managed || m == .add)
  add : m = .add → p = .adding
  failed : p' = .thrown true → m = .fail ∧ p.acquired = true
  acquired : p'.acquired = true → p.acquired = true ∨ m = .acquireWriteToken true

theorem move_moves (h : p.move closed m = some p') : Moves p m p' := by
  revert h
  fun_cases Phase.move closed p m with
  | case1 =>
    intro h
    obtain rfl := Option.some.inj h
    cases closed <;> constructor <;> simp [Phase.managed, Phase.acquired]
  | case2 acquired =>
    intro h
    obtain rfl := Option.some.inj h
    cases acquired <;> constructor <;> simp [Phase.managed, Phase.acquired]
  | case4 step =>
    intro h
    obtain rfl := Option.some.inj h
    cases step <;> constructor <;> simp [Subscribing.next, Phase.managed, Phase.acquired]
  | case8 => exact nofun
  | _ =>
    intro h
    obtain rfl := Option.some.inj h
    constructor <;> simp [Phase.managed, Phase.acquired]

/-- The tokens Factus is going to release. -/
def Shutdown.toRelease : Shutdown → List Nat
  | .subscription _ rest => rest
  | .token _ i rest => i :: rest
  | _ => []

/-- The subscriptions it is going to close. -/
def Shutdown.toClose : Shutdown → List Nat
  | .subscription _ rest => rest
  | .token _ _ rest => rest
  | _ => []

/-- Who closes it, with the list before him. -/
def Shutdown.thread : Shutdown → Option Nat
  | .subscription thread _ => some thread
  | .token thread _ _ => some thread
  | _ => none

theorem toClose_subset (h : i ∈ sd.toClose) : i ∈ sd.toRelease := by
  cases sd with
  | token thread j rest => exact List.mem_cons_of_mem j h
  | _ => exact h

theorem closeToken_of_frees {thread : Nat} (h : c.frees thread = true) :
    c.closeToken thread = { c with released := c.released + 1 } := if_pos h

theorem closeToken_phase (thread : Nat) : (c.closeToken thread).phase = c.phase := by
  unfold Call.closeToken
  split <;> rfl

/-! ### What holds of a call -/

/-- Before the list is copied, it is the wrapper that releases. -/
structure Call.ByWrapper (c : Call) : Prop where
  released : c.released = if c.wrapper = .closed then 1 else 0
  closed : (∃ thread, c.wrapper = .token thread) ∨ c.wrapper = .closed → c.subscriptionClosed = true
  frees : ∀ thread, c.wrapper = .delegate thread ∨ c.wrapper = .token thread → c.frees thread = true

/-- Afterwards it is Factus. -/
structure Call.ByFactus (c : Call) (sd : Shutdown) (i : Nat) : Prop where
  wrapper : c.wrapper = .open
  managed : c.phase.acquired = true → c.phase.managed = true
  released : c.released = if c.phase.managed = true ∧ i ∉ sd.toRelease then 1 else 0
  closed : c.phase.managed = true → i ∉ sd.toClose → c.subscriptionClosed = true
  frees : ∀ thread, sd.thread = some thread → c.phase.acquired = true → c.frees thread = true

structure Call.Inv (c : Call) (sd : Shutdown) (i : Nat) : Prop where
  failed : c.phase ≠ .thrown true
  wrapper : c.wrapper ≠ .open → c.phase = .returned
  before : sd.copied = false → c.ByWrapper
  after : sd.copied = true → c.ByFactus sd i

theorem Call.Inv.held (h : c.Inv sd i) : c.Held (sd == .closed) := by
  cases hcopied : sd.copied with
  | false =>
    have hnot : sd ≠ .closed := by
      rintro rfl
      exact nomatch hcopied
    obtain ⟨hreleased, hclosed, _⟩ := h.before hcopied
    refine ⟨fun hfailed => absurd hfailed h.failed, fun _ hor => ?_, fun _ hpos => ?_, ?_⟩
    · have hwrapper : c.wrapper = .closed := hor.resolve_right fun heq => hnot (beq_iff_eq.mp heq)
      rw [hreleased, if_pos hwrapper]
      exact Nat.one_pos
    · by_cases hwrapper : c.wrapper = .closed
      · exact hclosed (.inr hwrapper)
      · rw [hreleased, if_neg hwrapper] at hpos
        exact nomatch hpos
    · rw [hreleased]
      split <;> omega
  | true =>
    obtain ⟨hwrapper, _, hreleased, hclosed, _⟩ := h.after hcopied
    refine ⟨fun hfailed => absurd hfailed h.failed, fun hreturned hor => ?_, fun hreturned hpos => ?_, ?_⟩
    · have hsd : (sd == .closed) = true := hor.resolve_left (by simp [hwrapper])
      rw [beq_iff_eq] at hsd
      rw [hreleased, if_pos ⟨by rw [hreturned]; rfl, by simp [hsd, Shutdown.toRelease]⟩]
      exact Nat.one_pos
    · have hmanaged : c.phase.managed = true := by rw [hreturned]; rfl
      by_cases hrest : i ∈ sd.toRelease
      · rw [hreleased, if_neg fun hand => hand.2 hrest] at hpos
        exact nomatch hpos
      · exact hclosed hmanaged fun hmem => hrest (toClose_subset hmem)
    · rw [hreleased]
      split <;> omega

/-- The thread that calls. -/
theorem Call.Inv.move (h : c.Inv sd i) (hmove : c.phase.move closed m = some p')
    (hfail : m = .fail → c.phase.acquired = false) (hacquire : m = .acquireWriteToken true → sd.copied = false) :
    Call.Inv { c with phase := p' } sd i := by
  have hmoves := move_moves hmove
  refine ⟨fun hfailed => ?_, fun hwrapper => ?_, fun hcopied => ?_, fun hcopied => ?_⟩
  · obtain ⟨hm, hacquired⟩ := hmoves.failed hfailed
    exact absurd hacquired (by simp [hfail hm])
  · exact absurd (h.wrapper hwrapper) hmoves.open_call
  · exact ⟨(h.before hcopied).released, (h.before hcopied).closed, (h.before hcopied).frees⟩
  · have hbefore := h.after hcopied
    have hadd : (m == .add) = false := by
      rw [beq_eq_false_iff_ne]
      intro hm
      have hadding := hmoves.add hm
      have hmanaged := hbefore.managed
      rw [hadding] at hmanaged
      exact nomatch hmanaged rfl
    have hsame : p'.managed = c.phase.managed := by rw [hmoves.managed, hadd, Bool.or_false]
    refine ⟨hbefore.wrapper, fun hacquired => ?_, ?_, ?_, fun thread hthread hacquired => ?_⟩
    · show p'.managed = true
      cases hmoves.acquired hacquired with
      | inl hacquired => exact hsame.trans (hbefore.managed hacquired)
      | inr hm => exact absurd hcopied (by simp [hacquire hm])
    · show c.released = if p'.managed = true ∧ _ then 1 else 0
      rw [hsame]
      exact hbefore.released
    · intro hmanaged
      exact hbefore.closed (hsame.symm.trans hmanaged)
    · cases hmoves.acquired hacquired with
      | inl hacquired => exact hbefore.frees thread hthread hacquired
      | inr hm => exact absurd hcopied (by simp [hacquire hm])

/-- Who closes what was returned. -/
theorem Call.Inv.close {m : CloseMove} (h : c.Inv sd i) (hclose : c.close m = some c')
    (hget : ∀ thread, m = .getAndSet thread → c.wrapper = .open → sd.copied = false ∧ c.frees thread = true) :
    c'.Inv sd i ∧ c'.phase = c.phase := by
  have hbefore (hwrapper : c.wrapper ≠ .open) : sd.copied = false :=
    Bool.eq_false_iff.mpr fun hcopied => hwrapper (h.after hcopied).wrapper
  cases m with
  | getAndSet thread =>
    obtain ⟨hreturned, hc'⟩ := Option.ite_none_right_eq_some.mp hclose
    obtain rfl := Option.some.inj hc'
    split
    · rename_i hopen
      obtain ⟨hcopied, hfrees⟩ := hget thread rfl hopen
      obtain ⟨hreleased, _, _⟩ := h.before hcopied
      rw [if_neg (by simp [hopen])] at hreleased
      refine ⟨⟨h.failed, fun _ => hreturned, fun _ => ⟨hreleased, ?_, ?_⟩, fun h => absurd h (by simp [hcopied])⟩, rfl⟩
      · exact fun hor => hor.elim (fun ⟨_, h⟩ => nomatch h) nofun
      · intro other hor
        obtain rfl : thread = other := by simpa using hor
        exact hfrees
    · exact ⟨h, rfl⟩
  | delegate =>
    simp only [Call.close] at hclose
    split at hclose
    · rename_i thread hwrapper
      obtain rfl := Option.some.inj hclose
      have hcopied := hbefore (by simp [hwrapper])
      obtain ⟨hreleased, _, hfrees⟩ := h.before hcopied
      rw [if_neg (by simp [hwrapper])] at hreleased
      refine ⟨⟨h.failed, fun _ => h.wrapper (by simp [hwrapper]), fun _ => ⟨hreleased, fun _ => rfl, ?_⟩,
        fun h => absurd h (by simp [hcopied])⟩, rfl⟩
      intro other hor
      obtain rfl : thread = other := by simpa using hor
      exact hfrees thread (.inl hwrapper)
    · cases hclose
  | token =>
    simp only [Call.close] at hclose
    split at hclose
    · rename_i thread hwrapper
      have hcopied := hbefore (by simp [hwrapper])
      obtain ⟨hreleased, hclosed, hfrees⟩ := h.before hcopied
      rw [if_neg (by simp [hwrapper])] at hreleased
      rw [closeToken_of_frees (hfrees thread (.inr hwrapper))] at hclose
      obtain rfl := Option.some.inj hclose
      refine ⟨⟨h.failed, fun _ => h.wrapper (by simp [hwrapper]),
        fun _ => ⟨?_, fun _ => hclosed (.inl ⟨thread, hwrapper⟩), nofun⟩, fun h => absurd h (by simp [hcopied])⟩, rfl⟩
      show c.released + 1 = 1
      rw [hreleased]
    · cases hclose

/-! ### What holds of all calls -/

structure State.Inv (s : State) : Prop where
  calls : ∀ i (c : Call), s.calls[i]? = some c → c.Inv s.shutdown i
  managed : ∀ i, i ∈ s.managedObjects ↔ ∃ c, s.calls[i]? = some c ∧ c.phase.managed = true
  nodup : s.managedObjects.Nodup
  toRelease : s.shutdown.toRelease.Nodup
  toRelease_managed : ∀ i ∈ s.shutdown.toRelease, i ∈ s.managedObjects

theorem getElem?_set_cases {calls : List Call} (h : (calls.set i c')[j]? = some d) :
    j = i ∧ d = c' ∨ j ≠ i ∧ calls[j]? = some d := by
  by_cases hij : i = j
  · subst hij
    rw [List.getElem?_set_self'] at h
    obtain ⟨_, _, heq⟩ := Option.map_eq_some_iff.mp h
    exact .inl ⟨rfl, heq.symm⟩
  · rw [List.getElem?_set_ne hij] at h
    exact .inr ⟨fun heq => hij heq.symm, h⟩

/-- A call changes that stays where it is on the list. -/
theorem managed_set {calls : List Call} (hget : calls[i]? = some c) (hsame : c'.phase.managed = c.phase.managed) :
    (∃ d, (calls.set i c')[j]? = some d ∧ d.phase.managed = true) ↔
      ∃ d, calls[j]? = some d ∧ d.phase.managed = true := by
  by_cases hij : i = j
  · subst hij
    have hset : (calls.set i c')[i]? = some c' := by rw [List.getElem?_set_self', hget]; rfl
    rw [hset, hget]
    simp [hsame]
  · rw [List.getElem?_set_ne hij]

theorem getElem?_append_cases {calls : List Call} (h : (calls ++ [c'])[j]? = some d) :
    calls[j]? = some d ∨ d = c' := by
  rw [List.getElem?_append] at h
  split at h
  · exact .inl h
  · rw [List.getElem?_singleton, Option.ite_none_right_eq_some] at h
    exact .inr (Option.some.inj h.2).symm

theorem inv_begun {thread : Nat} {kind : Kind} :
    ({ thread, kind, phase := if closed then .thrown false else .looping } : Call).Inv sd i := by
  have hnotToken : (∃ thread, Closing.open = .token thread) ∨ Closing.open = .closed → false = true :=
    fun hor => hor.elim (fun ⟨_, h⟩ => nomatch h) nofun
  cases closed <;>
    exact ⟨nofun, fun hne => absurd rfl hne, fun _ => ⟨rfl, hnotToken, nofun⟩,
      fun _ => ⟨rfl, nofun, rfl, nofun, nofun⟩⟩

theorem inv_subscribeAndBlock {thread : Nat} {kind : Kind} (h : s.Inv) : (subscribeAndBlock s thread kind).Inv where
  calls := fun i c hc => by
    cases getElem?_append_cases hc with
    | inl hold => exact h.calls i c hold
    | inr hnew =>
      rw [hnew]
      exact inv_begun
  managed := fun i => by
    refine ⟨fun hmem => ?_, fun ⟨c, hc, hmanaged⟩ => ?_⟩
    · obtain ⟨c, hc, hmanaged⟩ := (h.managed i).mp hmem
      exact ⟨c, (List.getElem?_append_left (List.getElem?_eq_some_iff.mp hc).1).trans hc, hmanaged⟩
    · cases getElem?_append_cases hc with
      | inl hold => exact (h.managed i).mpr ⟨c, hold, hmanaged⟩
      | inr hnew =>
        rw [hnew] at hmanaged
        cases hclosed : s.isClosed <;> simp [hclosed, Phase.managed] at hmanaged
  nodup := h.nodup
  toRelease := h.toRelease
  toRelease_managed := h.toRelease_managed

theorem inv_moveCall (h : s.Inv) (ho : orderly s (.call i m) = true) (hs : moveCall s i m = some s') : s'.Inv := by
  obtain ⟨c, hget, hs⟩ := Option.bind_eq_some_iff.mp hs
  obtain ⟨p', hmove, rfl⟩ := Option.map_eq_some_iff.mp hs
  have hfail : m = .fail → c.phase.acquired = false := by
    rintro rfl
    simpa [orderly, hget] using ho
  have hacquire : m = .acquireWriteToken true → s.shutdown.copied = false := by
    rintro rfl
    simpa [orderly] using ho
  have hcall := (h.calls i c hget).move hmove hfail hacquire
  have hmoves := move_moves hmove
  have hset : (s.calls.set i { c with phase := p' })[i]? = some { c with phase := p' } := by
    rw [List.getElem?_set_self', hget]
    rfl
  have hnew (hadd : m = .add) : i ∉ s.managedObjects := fun hmem => by
    obtain ⟨d, hd, hmanaged⟩ := (h.managed i).mp hmem
    obtain rfl := Option.some.inj (hget.symm.trans hd)
    rw [hmoves.add hadd] at hmanaged
    exact nomatch hmanaged
  refine ⟨fun j d hd => ?_, fun j => ?_, ?_, h.toRelease, fun j hj => ?_⟩
  · obtain ⟨rfl, rfl⟩ | ⟨_, hd⟩ := getElem?_set_cases hd
    · exact hcall
    · exact h.calls j d hd
  · show (j ∈ if m = .add then s.managedObjects ++ [i] else s.managedObjects) ↔ _
    by_cases hadd : m = .add
    · rw [if_pos hadd, List.mem_append, List.mem_singleton]
      by_cases hij : i = j
      · subst hij
        refine ⟨fun _ => ⟨_, hset, ?_⟩, fun _ => .inr rfl⟩
        show p'.managed = true
        rw [hmoves.managed, hadd]
        exact Bool.or_true _
      · rw [List.getElem?_set_ne hij, or_iff_left fun heq => hij heq.symm]
        exact h.managed j
    · rw [if_neg hadd, h.managed j]
      have hsame : p'.managed = c.phase.managed := by
        rw [hmoves.managed, beq_eq_false_iff_ne.mpr hadd, Bool.or_false]
      exact (managed_set hget hsame).symm
  · show (if m = .add then s.managedObjects ++ [i] else s.managedObjects).Nodup
    split
    · rename_i hadd
      rw [← List.concat_eq_append]
      exact h.nodup.concat (hnew hadd)
    · exact h.nodup
  · show j ∈ if m = .add then s.managedObjects ++ [i] else s.managedObjects
    have hmem := h.toRelease_managed j hj
    split
    · exact List.mem_append_left _ hmem
    · exact hmem

theorem inv_closeSubscription {m : CloseMove} (h : s.Inv) (ho : orderly s (.closeSubscription i m) = true)
    (hs : closeSubscription s i m = some s') : s'.Inv := by
  obtain ⟨c, hget, hs⟩ := Option.bind_eq_some_iff.mp hs
  obtain ⟨c', hclose, rfl⟩ := Option.map_eq_some_iff.mp hs
  have hgets : ∀ thread, m = .getAndSet thread → c.wrapper = .open →
      s.shutdown.copied = false ∧ c.frees thread = true := by
    rintro thread rfl hopen
    simpa [orderly, hget, hopen] using ho
  obtain ⟨hcall, hphase⟩ := (h.calls i c hget).close hclose hgets
  refine ⟨fun j d hd => ?_, fun j => ?_, h.nodup, h.toRelease, h.toRelease_managed⟩
  · obtain ⟨rfl, rfl⟩ | ⟨_, hd⟩ := getElem?_set_cases hd
    · exact hcall
    · exact h.calls j d hd
  · rw [h.managed j]
    exact (managed_set hget (by rw [hphase])).symm

theorem inv_close {thread : Nat} (h : s.Inv) : (close s thread).Inv := by
  unfold close
  split
  · rename_i hopen
    have hcopied : s.shutdown.copied = false := by rw [hopen]; rfl
    refine ⟨fun i c hc => ?_, h.managed, h.nodup, List.nodup_nil, nofun⟩
    have hcall := h.calls i c hc
    exact ⟨hcall.failed, hcall.wrapper, fun _ => hcall.before hcopied, nofun⟩
  · exact h

/-- Factus goes on to what does not concern the call. -/
theorem Call.Inv.frame {sd' : Shutdown} (h : c.Inv sd j) (hcopied : sd.copied = true) (hcopied' : sd'.copied = true)
    (hrelease : j ∈ sd'.toRelease ↔ j ∈ sd.toRelease) (hclose : j ∈ sd.toClose → j ∈ sd'.toClose)
    (hthread : ∀ thread, sd'.thread = some thread → sd.thread = some thread) : c.Inv sd' j := by
  obtain ⟨hwrapper, hmanaged, hreleased, hclosed, hfrees⟩ := h.after hcopied
  refine ⟨h.failed, h.wrapper, fun hnot => absurd hcopied' (by simp [hnot]),
    fun _ => ⟨hwrapper, hmanaged, ?_, ?_, fun thread h => hfrees thread (hthread thread h)⟩⟩
  · simp only [hreleased, hrelease]
  · exact fun hmanaged hnot => hclosed hmanaged fun hmem => hnot (hclose hmem)

/-- Factus closes something of a call. -/
theorem inv_modify {f : Call → Call} {sd : Shutdown} (h : s.Inv) (hphase : ∀ c, (f c).phase = c.phase)
    (hcall : ∀ c, s.calls[i]? = some c → (f c).Inv sd i)
    (hothers : ∀ j (c : Call), j ≠ i → c.Inv s.shutdown j → c.Inv sd j)
    (hnodup : sd.toRelease.Nodup) (hsubset : ∀ j ∈ sd.toRelease, j ∈ s.shutdown.toRelease) :
    State.Inv { s with calls := s.calls.modify i f, shutdown := sd } := by
  refine ⟨fun j d hd => ?_, fun j => ?_, h.nodup, hnodup, fun j hj => h.toRelease_managed j (hsubset j hj)⟩
  · rw [List.getElem?_modify] at hd
    obtain ⟨c, hc, rfl⟩ := Option.map_eq_some_iff.mp hd
    split
    · rename_i heq
      subst heq
      exact hcall c hc
    · rename_i hne
      exact hothers j c (fun heq => hne heq.symm) (h.calls j c hc)
  · rw [h.managed j]
    rw [List.getElem?_modify, Option.map_eq_map]
    have hsame (c : Call) : (if i = j then f c else c).phase = c.phase := by
      split
      · exact hphase c
      · rfl
    constructor
    · intro ⟨c, hc, hmanaged⟩
      exact ⟨_, Option.map_eq_some_iff.mpr ⟨c, hc, rfl⟩, by rwa [hsame c]⟩
    · intro ⟨d, hd, hmanaged⟩
      obtain ⟨c, hc, rfl⟩ := Option.map_eq_some_iff.mp hd
      exact ⟨c, hc, by rwa [hsame c] at hmanaged⟩

/-- The wrappers are open when the list is copied, and all that have a token are on it. -/
theorem Call.Inv.copy {thread : Nat} (h : c.Inv sd i) (hcopied : sd.copied = false) (ho : c.orderly thread = true)
    {listed : List Nat} (hlisted : c.phase.managed = true → i ∈ listed) : c.Inv (.subscription thread listed) i := by
  rw [Call.orderly, Bool.or_eq_true, Bool.not_eq_true', Bool.and_eq_true, Bool.and_eq_true, beq_iff_eq] at ho
  have hopen : c.wrapper = .open := by
    by_contra hne
    rw [h.wrapper hne] at ho
    exact hne (ho.resolve_left nofun).1.2
  have hreleased := (h.before hcopied).released
  rw [if_neg (by simp [hopen])] at hreleased
  refine ⟨h.failed, h.wrapper, nofun, fun _ => ⟨hopen, fun hacquired => ?_, ?_, fun hmanaged hnot => ?_,
    fun other hthread hacquired => ?_⟩⟩
  · exact (ho.resolve_left (by simp [hacquired])).1.1
  · rw [hreleased, if_neg fun hand => hand.2 (hlisted hand.1)]
  · exact absurd (hlisted hmanaged) hnot
  · obtain rfl := Option.some.inj hthread
    exact (ho.resolve_left (by simp [hacquired])).2

theorem inv_closeListed {thread : Nat} {rest : List Nat} (h : s.Inv)
    (hrest : s.shutdown = .subscription thread (i :: rest)) :
    State.Inv { s with
      calls := s.calls.modify i fun c => { c with subscriptionClosed := true }
      shutdown := .token thread i rest } := by
  have hnodup := h.toRelease
  rw [hrest] at hnodup
  refine inv_modify h (fun _ => rfl) (fun c hc => ?_) (fun j c hne hcall => ?_) hnodup ?_
  · have hcall := h.calls i c hc
    rw [hrest] at hcall
    obtain ⟨hwrapper, hmanaged, hreleased, _, hfrees⟩ := hcall.after rfl
    exact ⟨hcall.failed, hcall.wrapper, nofun, fun _ => ⟨hwrapper, hmanaged, hreleased, fun _ _ => rfl, hfrees⟩⟩
  · rw [hrest] at hcall
    exact hcall.frame rfl rfl Iff.rfl (fun hmem => (List.mem_cons.mp hmem).resolve_left hne) fun _ h => h
  · rw [hrest]
    exact fun j hj => hj

theorem acquired_of_managed (h : p.managed = true) : p.acquired = true := by
  cases p with
  | returning => rfl
  | returned => rfl
  | _ => cases h

theorem inv_releaseListed {thread : Nat} {rest : List Nat} (h : s.Inv)
    (hrest : s.shutdown = .token thread i rest) :
    State.Inv { s with
      calls := s.calls.modify i fun c => c.closeToken thread
      shutdown := .subscription thread rest } := by
  have hnodup := h.toRelease
  rw [hrest] at hnodup
  obtain ⟨hnot, hnodup⟩ := List.nodup_cons.mp hnodup
  have hlisted : i ∈ s.managedObjects := h.toRelease_managed i (by rw [hrest]; exact List.mem_cons_self)
  obtain ⟨d, hd, hin⟩ := (h.managed i).mp hlisted
  refine inv_modify h (fun _ => closeToken_phase thread) (fun c hc => ?_) (fun j c hne hcall => ?_) hnodup ?_
  · obtain rfl := Option.some.inj (hd.symm.trans hc)
    have hcall := h.calls i d hc
    rw [hrest] at hcall
    obtain ⟨hwrapper, hmanaged, hreleased, hclosed, hfrees⟩ := hcall.after rfl
    rw [if_neg fun hand => hand.2 List.mem_cons_self] at hreleased
    rw [closeToken_of_frees (hfrees thread rfl (acquired_of_managed hin))]
    refine ⟨hcall.failed, hcall.wrapper, nofun, fun _ => ⟨hwrapper, hmanaged, ?_, hclosed, hfrees⟩⟩
    show d.released + 1 = if d.phase.managed = true ∧ i ∉ rest then 1 else 0
    rw [hreleased, if_pos ⟨hin, hnot⟩]
  · rw [hrest] at hcall
    refine hcall.frame rfl rfl ⟨List.mem_cons_of_mem i, fun hmem => ?_⟩ (fun hmem => hmem) fun _ h => h
    exact (List.mem_cons.mp hmem).resolve_left hne
  · rw [hrest]
    exact fun j hj => List.mem_cons_of_mem i hj

theorem inv_shutdown (h : s.Inv) (ho : orderly s .shutdown = true) (hs : shutdown s = some s') : s'.Inv := by
  unfold shutdown at hs
  split at hs
  · rename_i thread hcopying
    obtain rfl := Option.some.inj hs
    have hcopied : s.shutdown.copied = false := by rw [hcopying]; rfl
    simp only [orderly, hcopying] at ho
    refine ⟨fun i c hc => ?_, h.managed, h.nodup, h.nodup, fun i hi => hi⟩
    have horderly : c.orderly thread = true := List.all_eq_true.mp ho c (List.mem_of_getElem? hc)
    exact (h.calls i c hc).copy hcopied horderly fun hmanaged => (h.managed i).mpr ⟨c, hc, hmanaged⟩
  · rename_i hrest
    obtain rfl := Option.some.inj hs
    refine ⟨fun i c hc => ?_, h.managed, h.nodup, List.nodup_nil, nofun⟩
    have hcall := h.calls i c hc
    rw [hrest] at hcall
    exact hcall.frame rfl rfl Iff.rfl (fun hmem => hmem) nofun
  · rename_i thread i rest hrest
    obtain rfl := Option.some.inj hs
    exact inv_closeListed h hrest
  · rename_i thread i rest hrest
    obtain rfl := Option.some.inj hs
    exact inv_releaseListed h hrest
  · exact nomatch hs

theorem inv_step (h : s.Inv) (ho : orderly s a = true) (hs : step s a = some s') : s'.Inv := by
  cases a with
  | subscribeAndBlock thread kind =>
    obtain rfl := Option.some.inj hs
    exact inv_subscribeAndBlock h
  | call i m => exact inv_moveCall h ho hs
  | closeSubscription i m => exact inv_closeSubscription h ho hs
  | close thread =>
    obtain rfl := Option.some.inj hs
    exact inv_close h
  | shutdown => exact inv_shutdown h ho hs

theorem reachable_inv (h : machine.ReachableUnder (fun s a => orderly s a = true) s) : s.Inv := by
  refine h.invariant (fun s hstart => ?_) fun s a s' hs ho hstep => inv_step hs ho hstep
  obtain rfl : s = _ := hstart
  exact ⟨nofun, fun i => ⟨nofun, fun ⟨c, hc, _⟩ => nomatch hc⟩, List.nodup_nil, List.nodup_nil, nofun⟩

end Proofs

def initial : State := ⟨[], [], .open⟩

/-- Up to where the call has its token. -/
def acquire (i thread : Nat) : List Action :=
  [.subscribeAndBlock thread .local, .call i .look, .call i (.acquireWriteToken true)]

def subscribe (i thread : Nat) : List Action :=
  acquire i thread ++ [.call i .proceed, .call i .proceed, .call i .proceed, .call i .add, .call i .ret]

def closeWrapper (i thread : Nat) : List Action :=
  [.closeSubscription i (.getAndSet thread), .closeSubscription i .delegate, .closeSubscription i .token]

/-- Factus is closed, and there is one subscription to close. -/
def closeFactus (thread : Nat) : List Action := [.close thread, .shutdown, .shutdown, .shutdown, .shutdown]

-- closed with the subscription, and again with Factus
example : (machine.run initial (subscribe 0 7 ++ closeWrapper 0 7 ++ closeFactus 7)).map
    (fun t => t.calls.map Call.released) = some [2] := by decide

-- Factus is closed by another thread, and nobody can release the token any more
example : (machine.run initial (subscribe 0 7 ++ closeFactus 8)).map
    (fun t => (t.shutdown, t.calls.map Call.released)) = some (.closed, [0]) := by decide

end FactCast.SubscribeAndBlock
