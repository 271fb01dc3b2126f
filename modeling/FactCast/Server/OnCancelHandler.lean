import FactCast.Machine.Run

/-! A subscription that the client cancels.

`subscribe` installs a handler on the stream, has the store subscribe, and puts the
subscription into a reference. The handler closes what it finds there, and stops the
timer that keeps the stream alive. It is called by another thread, at any time. If the
reference is still empty, the handler swallows its own exception, and the subscription
that is put there afterwards is closed by nobody (`cancelled_stays_open`). -/
namespace FactCast.OnCancelHandler

/-- What `subscribe` does next, once the handler is installed. -/
inductive Subscribe where
  | subscribing
  /-- The store has subscribed. The reference is not set. -/
  | subscribed
  | finished
  /-- The store has thrown. -/
  | threw
deriving DecidableEq

/-- What the handler does next. -/
inductive Run where
  | no
  /-- It reads the reference. -/
  | called
  /-- It has found a subscription. -/
  | close
  /-- The observer is to be shut down, after a subscription was found or not. -/
  | shutdown (found : Bool)
  | finished (found : Bool)
deriving DecidableEq

inductive Subscription where
  | none
  | open_
  | closed
deriving DecidableEq

/-- A timer: whether a task is queued, whether its thread runs one. -/
structure Timer where
  queued : Bool
  running : Bool
  cancelled : Bool
deriving DecidableEq

namespace Timer

def cancel (t : Timer) : Timer := { t with queued := false, cancelled := true }

/-- A cancelled timer refuses the task, and the exception ends its thread. -/
def schedule (t : Timer) : Timer := if t.cancelled then t else { t with queued := true }

end Timer

structure State where
  subscribe : Subscribe := .subscribing
  run : Run := .no
  /-- The reference refers to the subscription. -/
  subRef : Bool := false
  subscription : Subscription := .none
  /-- The subscription has completed or failed, and so was closed. -/
  ended : Bool := false
  /-- There is none unless the client asks for it. -/
  keepalive : Option Timer
deriving DecidableEq

inductive Action where
  /-- The store subscribes, or throws. -/
  | subscribe
  | throws
  /-- The reference is set. -/
  | set
  /-- The client cancels. -/
  | cancel
  | get
  | close
  | shutdown
  /-- The subscription completes or fails. -/
  | ends
  /-- A task of the timer begins, sends its notification, or fails to. -/
  | fire
  | sent
  | fails
deriving DecidableEq

section Step
variable (s : State)

def disableKeepalive : State := { s with keepalive := s.keepalive.map Timer.cancel }

def step : Action → Option State
  | .subscribe =>
    if s.subscribe = .subscribing then some { s with subscribe := .subscribed, subscription := .open_ } else none
  | .throws => if s.subscribe = .subscribing then some { s with subscribe := .threw } else none
  | .set => if s.subscribe = .subscribed then some { s with subscribe := .finished, subRef := true } else none
  | .cancel => if s.run = .no then some { s with run := .called } else none
  | .get =>
    if s.run = .called then some { s with run := if s.subRef then .close else .shutdown false } else none
  | .close =>
    if s.run = .close then some { s with run := .shutdown true, subscription := .closed } else none
  | .shutdown =>
    match s.run with
    | .shutdown found => some { disableKeepalive s with run := .finished found }
    | _ => none
  | .ends =>
    if s.subscription = .open_ then some { disableKeepalive s with subscription := .closed, ended := true }
    else none
  | .fire =>
    match s.keepalive with
    | some ⟨true, false, false⟩ => some { s with keepalive := some ⟨false, true, false⟩ }
    | _ => none
  | .sent =>
    match s.keepalive with
    | some ⟨queued, true, cancelled⟩ => some { s with keepalive := some (Timer.schedule ⟨queued, false, cancelled⟩) }
    | _ => none
  | .fails =>
    match s.keepalive with
    | some ⟨_, true, _⟩ => some { s with keepalive := some ⟨false, false, true⟩ }
    | _ => none

end Step

/-- From when the handler is installed. The timer, if there is one, was started before. -/
def serving : Machine State Action where
  Start s := s = { keepalive := none } ∨
    ∃ queued running, s = { keepalive := some ⟨queued, running, false⟩ }
  step := step

/-- No task will be run any more, though one may be running. -/
def Stopped (s : State) : Prop := ∀ t, s.keepalive = some t → t.cancelled = true ∧ t.queued = false

/-- Both `subscribe` and the handler are over. -/
def Finished (s : State) : Prop :=
  (s.subscribe = .finished ∨ s.subscribe = .threw) ∧ ∃ found, s.run = .finished found

/-- The subscription, if there is one, is closed, and the stream is not kept alive. -/
def Settled (s : State) : Prop := s.subscription ≠ .open_ ∧ Stopped s

/-- The handler reads the reference when it is set, or when it will never be. -/
def InTime (s : State) (a : Action) : Prop := a = .get → s.subRef = true ∨ s.subscribe = .threw

/-! ### Invariants -/

section Invariants
variable {s s' : State} {a : Action}

/-- The handler has closed what it found. -/
def Found (s : State) : Prop := s.run = .shutdown true ∨ s.run = .finished true

structure Inv (s : State) : Prop where
  set : s.subRef = true ↔ s.subscribe = .finished
  created : s.subscription = .none ↔ s.subscribe = .subscribing ∨ s.subscribe = .threw
  finds : s.run = .close ∨ Found s → s.subRef = true
  closed : s.subscription = .closed ↔ s.ended = true ∨ Found s
  stopped : (∃ found, s.run = .finished found) → Stopped s

theorem stopped_cancel (t : Option Timer) : ∀ u, t.map Timer.cancel = some u → u.cancelled = true ∧ u.queued = false := by
  intro u hu
  obtain ⟨t, _, rfl⟩ := Option.map_eq_some_iff.mp hu
  exact ⟨rfl, rfl⟩

/-- What only moves `subscribe`, before the reference is set. -/
theorem Inv.subscribing {subscribe : Subscribe} {subscription : Subscription} (h : Inv s)
    (hunset : s.subscribe ≠ .finished) (hunset' : subscribe ≠ .finished) (hopen : subscription ≠ .closed)
    (hcreated : subscription = .none ↔ subscribe = .subscribing ∨ subscribe = .threw)
    (hnever : s.subscription ≠ .closed) :
    Inv { s with subscribe := subscribe, subscription := subscription } where
  set := iff_of_false (fun hset => hunset (h.set.mp hset)) hunset'
  created := hcreated
  finds := h.finds
  closed := iff_of_false hopen fun hc => hnever (h.closed.mpr hc)
  stopped := h.stopped

/-- What only moves the handler, and not past its end. -/
theorem Inv.running {run : Run} (h : Inv s) (hfinds : run = .close → s.subRef = true)
    (hfound : run ≠ .shutdown true) (hnot : ¬ Found s) (hfinished : ∀ found, run ≠ .finished found) :
    Inv { s with run := run } where
  set := h.set
  created := h.created
  finds hrun := by
    rcases hrun with hrun | hrun | hrun
    · exact hfinds hrun
    · exact absurd hrun hfound
    · exact absurd hrun (hfinished true)
  closed := h.closed.trans (or_congr_right (iff_of_false hnot fun hrun => hrun.elim hfound (hfinished true)))
  stopped := fun ⟨found, hrun⟩ => absurd hrun (hfinished found)

/-- What only moves the timer leaves it stopped if it was. -/
theorem Inv.timer {keepalive : Option Timer} (h : Inv s)
    (hstopped : Stopped s → Stopped { s with keepalive := keepalive }) : Inv { s with keepalive := keepalive } :=
  ⟨h.set, h.created, h.finds, h.closed, fun hfinished => hstopped (h.stopped hfinished)⟩

/-- What an action does, and when it can be taken. -/
inductive Steps (s : State) : Action → State → Prop where
  | subscribe (h : s.subscribe = .subscribing) :
      Steps s .subscribe { s with subscribe := .subscribed, subscription := .open_ }
  | throws (h : s.subscribe = .subscribing) : Steps s .throws { s with subscribe := .threw }
  | set (h : s.subscribe = .subscribed) : Steps s .set { s with subscribe := .finished, subRef := true }
  | cancel (h : s.run = .no) : Steps s .cancel { s with run := .called }
  | found (h : s.run = .called) (hset : s.subRef = true) : Steps s .get { s with run := .close }
  | missed (h : s.run = .called) (hset : s.subRef = false) : Steps s .get { s with run := .shutdown false }
  | close (h : s.run = .close) : Steps s .close { s with run := .shutdown true, subscription := .closed }
  | shutdown (found : Bool) (h : s.run = .shutdown found) :
      Steps s .shutdown { disableKeepalive s with run := .finished found }
  | ends (h : s.subscription = .open_) :
      Steps s .ends { disableKeepalive s with subscription := .closed, ended := true }
  | fire (h : s.keepalive = some ⟨true, false, false⟩) :
      Steps s .fire { s with keepalive := some ⟨false, true, false⟩ }
  | sent (queued cancelled : Bool) (h : s.keepalive = some ⟨queued, true, cancelled⟩) :
      Steps s .sent { s with keepalive := some (Timer.schedule ⟨queued, false, cancelled⟩) }
  | fails (queued cancelled : Bool) (h : s.keepalive = some ⟨queued, true, cancelled⟩) :
      Steps s .fails { s with keepalive := some ⟨false, false, true⟩ }

theorem steps (hs : step s a = some s') : Steps s a s' := by
  cases a with
  | subscribe =>
    obtain ⟨hsub, hs⟩ := Option.ite_none_right_eq_some.mp hs
    exact Option.some.inj hs ▸ .subscribe hsub
  | throws =>
    obtain ⟨hsub, hs⟩ := Option.ite_none_right_eq_some.mp hs
    exact Option.some.inj hs ▸ .throws hsub
  | set =>
    obtain ⟨hsub, hs⟩ := Option.ite_none_right_eq_some.mp hs
    exact Option.some.inj hs ▸ .set hsub
  | cancel =>
    obtain ⟨hrun, hs⟩ := Option.ite_none_right_eq_some.mp hs
    exact Option.some.inj hs ▸ .cancel hrun
  | get =>
    obtain ⟨hrun, hs⟩ := Option.ite_none_right_eq_some.mp hs
    rw [← Option.some.inj hs]
    by_cases hset : s.subRef = true
    · rw [if_pos hset]
      exact .found hrun hset
    · rw [if_neg hset]
      exact .missed hrun (Bool.eq_false_iff.mpr hset)
  | close =>
    obtain ⟨hrun, hs⟩ := Option.ite_none_right_eq_some.mp hs
    exact Option.some.inj hs ▸ .close hrun
  | shutdown =>
    simp only [step] at hs
    split at hs
    · rename_i found hrun
      exact Option.some.inj hs ▸ .shutdown found hrun
    · exact nomatch hs
  | ends =>
    obtain ⟨hopen, hs⟩ := Option.ite_none_right_eq_some.mp hs
    exact Option.some.inj hs ▸ .ends hopen
  | fire =>
    simp only [step] at hs
    split at hs
    · rename_i hkeep
      exact Option.some.inj hs ▸ .fire hkeep
    · exact nomatch hs
  | sent =>
    simp only [step] at hs
    split at hs
    · rename_i queued cancelled hkeep
      exact Option.some.inj hs ▸ .sent queued cancelled hkeep
    · exact nomatch hs
  | fails =>
    simp only [step] at hs
    split at hs
    · rename_i queued cancelled hkeep
      exact Option.some.inj hs ▸ .fails queued cancelled hkeep
    · exact nomatch hs

theorem inv_step (h : Inv s) (hs : step s a = some s') : Inv s' := by
  cases steps hs with
  | subscribe hsub =>
    have hnone : s.subscription = .none := h.created.mpr (.inl hsub)
    exact h.subscribing (by simp [hsub]) (by simp) (by simp) (by simp) (by simp [hnone])
  | throws hsub =>
    have hnone : s.subscription = .none := h.created.mpr (.inl hsub)
    exact h.subscribing (by simp [hsub]) (by simp) (by simp [hnone]) (by simp [hnone]) (by simp [hnone])
  | set hsub =>
    have hcreated : s.subscription ≠ .none := fun hnone => by simpa [hsub] using h.created.mp hnone
    exact ⟨iff_of_true rfl rfl, iff_of_false hcreated (by simp), fun _ => rfl, h.closed, h.stopped⟩
  | cancel hrun => exact h.running (by simp) (by simp) (by simp [Found, hrun]) (by simp)
  | found hrun hset => exact h.running (fun _ => hset) (by simp) (by simp [Found, hrun]) (by simp)
  | missed hrun hset => exact h.running (by simp) (by simp) (by simp [Found, hrun]) (by simp)
  | close hrun =>
    have hset := h.finds (.inl hrun)
    have hsub := h.set.mp hset
    exact ⟨h.set, iff_of_false (by simp) (by simp [hsub]), fun _ => hset, iff_of_true rfl (.inr (.inl rfl)),
      by simp⟩
  | shutdown found hrun =>
    have hfound : Found { disableKeepalive s with run := .finished found } ↔ Found s := by
      simp [Found, hrun]
    refine ⟨h.set, h.created, fun hor => h.finds (.inr ?_), h.closed.trans (or_congr_right hfound.symm),
      fun _ => stopped_cancel s.keepalive⟩
    exact hfound.mp (hor.resolve_left (by simp))
  | ends hopen =>
    have hcreated : ¬ (s.subscribe = .subscribing ∨ s.subscribe = .threw) := fun hsub => by
      simpa [hopen] using h.created.mpr hsub
    exact ⟨h.set, iff_of_false (by simp) hcreated, h.finds, iff_of_true rfl (.inl rfl),
      fun _ => stopped_cancel s.keepalive⟩
  | fire hkeep =>
    refine h.timer fun hstopped => ?_
    exact absurd (hstopped _ hkeep).1 (by simp)
  | sent queued cancelled hkeep =>
    refine h.timer fun hstopped u hu => ?_
    obtain ⟨hcancelled, hqueued⟩ := hstopped _ hkeep
    obtain rfl : cancelled = true := hcancelled
    obtain rfl := Option.some.inj hu
    exact ⟨rfl, hqueued⟩
  | fails =>
    refine h.timer fun _ u hu => ?_
    obtain rfl := Option.some.inj hu
    exact ⟨rfl, rfl⟩

theorem inv_start (hs : serving.Start s) : Inv s := by
  have hfresh : ∀ keepalive, Inv { keepalive := keepalive } := fun _ =>
    ⟨by simp, by simp, by simp [Found], by simp [Found], by simp⟩
  rcases hs with rfl | ⟨queued, running, rfl⟩
  · exact hfresh _
  · exact hfresh _

theorem inv (h : serving.Reachable s) : Inv s :=
  Machine.ReachableUnder.invariant (fun _ => inv_start) (fun _ _ _ h _ hs => inv_step h hs) h

/-- The handler has read an empty reference. -/
def Missed (s : State) : Prop := s.run = .shutdown false ∨ s.run = .finished false

/-- If the handler reads in time, it misses nothing. -/
theorem missed_step (h : Missed s → s.subscribe = .threw) (hc : InTime s a) (hs : step s a = some s') :
    Missed s' → s'.subscribe = .threw := by
  cases steps hs with
  | subscribe hsub => exact fun hmissed => by simpa [hsub] using h hmissed
  | throws => exact fun _ => rfl
  | set hsub => exact fun hmissed => by simpa [hsub] using h hmissed
  | cancel => simp [Missed]
  | found => simp [Missed]
  | missed hrun hset => exact fun _ => (hc rfl).resolve_left (by simp [hset])
  | close => simp [Missed]
  | shutdown found hrun =>
    refine fun hmissed => h (.inl ?_)
    have hfound : found = false := by simpa [Missed] using hmissed
    rw [hrun, hfound]
  | _ => exact h

theorem not_missed (h : serving.ReachableUnder InTime s) : Missed s → s.subscribe = .threw := by
  refine Machine.ReachableUnder.invariant (I := fun s => Missed s → s.subscribe = .threw) (fun s hs => ?_)
    (fun _ _ _ h hc hs => missed_step h hc hs) h
  obtain rfl | ⟨queued, running, rfl⟩ := hs <;> simp [Missed]

end Invariants

/-! ### What is left -/

/-- Where both are over, the subscription is closed exactly if the handler found it, or
there is none, or it has ended. The stream is not kept alive in any case. -/
theorem settled_iff {s : State} (h : serving.Reachable s) (hf : Finished s) :
    Settled s ↔ s.run = .finished true ∨ s.subscribe = .threw ∨ s.ended = true := by
  have hi := inv h
  obtain ⟨hsub, found, hrun⟩ := hf
  have hclosed : s.subscription ≠ .open_ ↔ s.subscription = .none ∨ s.subscription = .closed := by
    cases s.subscription <;> simp
  have hnone : s.subscription = .none ↔ s.subscribe = .threw := by
    rw [hi.created]
    rcases hsub with hsub | hsub <;> simp [hsub]
  have hfound : Found s ↔ s.run = .finished true := by simp [Found, hrun]
  rw [Settled, and_iff_left (hi.stopped ⟨found, hrun⟩), hclosed, hnone, hi.closed, hfound]
  exact ⟨fun h => h.elim (fun h => .inr (.inl h)) fun h => h.elim (fun h => .inr (.inr h)) .inl,
    fun h => h.elim (fun h => .inr (.inr h)) fun h => h.elim .inl fun h => .inr (.inl h)⟩

/-- If the handler reads the reference in time, all is settled where both are over. If it
does not, a subscription stays open until it ends. -/
theorem cancel_settles (s : State) (hr : serving.Reachable s) (hf : Finished s) :
    (serving.ReachableUnder InTime s → Settled s) ∧
      (Settled s ↔ s.run = .finished true ∨ s.subscribe = .threw ∨ s.ended = true) := by
  refine ⟨fun h => ?_, settled_iff hr hf⟩
  refine (settled_iff hr hf).mpr ?_
  obtain ⟨_, found, hrun⟩ := hf
  cases found with
  | true => exact .inl hrun
  | false => exact .inr (.inl (not_missed h (.inr hrun)))

/-- The client cancels while the store subscribes. -/
theorem cancelled_stays_open :
    ∃ s, serving.Reachable s ∧ Finished s ∧ s.subscription = .open_ ∧ ¬ Settled s := by
  obtain ⟨s, hs, heq⟩ := serving.exists_reachable (.inr ⟨true, false, rfl⟩)
    [.cancel, .get, .shutdown, .subscribe, .set] id (b := _) rfl
  refine ⟨s, hs, ?_⟩
  subst heq
  exact ⟨⟨.inl rfl, false, rfl⟩, rfl, fun h => h.1 rfl⟩

/-- The client cancels once the reference is set. -/
theorem cancel_settles_found : ∃ s, serving.ReachableUnder InTime s ∧ Finished s ∧ Settled s := by
  let c : State → Action → Bool := fun s a => a != .get || s.subRef
  obtain ⟨s, hs, heq⟩ := serving.exists_reachableUnder (c := c) (.inr ⟨true, false, rfl⟩)
    [.subscribe, .set, .fire, .cancel, .get, .close, .shutdown, .sent] id (b := _) rfl
  have hreached : serving.ReachableUnder InTime s := by
    refine hs.mono fun s a hc hget => .inl ?_
    simpa [c, hget] using hc
  have hfinished : Finished s := by
    subst heq
    exact ⟨.inl rfl, true, rfl⟩
  exact ⟨s, hreached, hfinished, (cancel_settles s hreached.reachable hfinished).1 hreached⟩

end FactCast.OnCancelHandler
