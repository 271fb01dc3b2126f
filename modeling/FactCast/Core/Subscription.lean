import FactCast.Core.Position
import FactCast.Machine.Run

/-! What the observer of a subscription is told, and how its two futures end.

The supplier of facts calls the notify methods of a `SubscriptionImpl`, the user
closes it. Each method asks whether the subscription is closed, and calls the
observer if not. A callback is code of the user: it may call the subscription again,
and it may throw. So the callbacks that are running are part of the state, and what a
method does after its callback is a step of its own.

`flush` does not ask (`flushed_after_close`), and a terminal callback that throws
leaves the subscription open. Where neither happens, every run follows the protocol
(`protocol_kept`). -/
namespace FactCast.SubscriptionImpl

/-! ### Calls and callbacks -/

/-- The methods of a `FactObserver`. -/
inductive Callback (ε : Type) where
  | onNext (element : Fact)
  | onFastForward (position : FactStreamPosition)
  | onFactStreamInfo (info : FactStreamInfo)
  | onCatchup
  | onComplete
  | onError (exception : ε)
  | flush

inductive Call (ε : Type) where
  | notifyElement (element : Fact)
  | notifyFastForward (position : FactStreamPosition)
  | notifyFactStreamInfo (info : FactStreamInfo)
  | notifyCatchup
  | notifyComplete
  | notifyError (e : ε)
  | flush
  | close

/-- The futures behind `awaitCatchup` and `awaitComplete`. -/
inductive Await where
  | catchup
  | complete
deriving DecidableEq

inductive Outcome (ε : Type) where
  | normally
  | closed
  | error (e : ε)

inductive Event (ε : Type) where
  | called (call : Call ε)
  | observed (callback : Callback ε)
  /-- A future is completed. -/
  | settled (which : Await) (outcome : Outcome ε)
  /-- What was registered for it is run. -/
  | onClose

structure State (ε : Type) where
  closed : Bool
  future : Await → Option (Outcome ε)
  /-- The callbacks that are running, the innermost first. -/
  running : List (Callback ε)
  /-- The latest first. -/
  events : List (Event ε)

inductive Action (ε : Type) where
  /-- From anywhere, a callback included. -/
  | call (call : Call ε)
  /-- The innermost callback returns, or throws. -/
  | returns
  | throws

section Methods
variable {ε : Type} (s : State ε)

/-- A future that is done stays as it is. -/
def settle (which : Await) (outcome : Outcome ε) : State ε :=
  match s.future which with
  | none => { s with
      future := Function.update s.future which (some outcome)
      events := .settled which outcome :: s.events }
  | some _ => s

/-- The futures that are not done are completed alike. -/
def settleBoth (outcome : Outcome ε) : State ε := settle (settle s .catchup outcome) .complete outcome

/-- The observer is called, and the method waits for it. -/
def observe (callback : Callback ε) : State ε :=
  { s with running := callback :: s.running, events := .observed callback :: s.events }

/-- The guard of the notify methods. -/
def unlessClosed (next : State ε) : State ε := if s.closed then s else next

def close : State ε :=
  unlessClosed s
    (let s := settleBoth { s with closed := true } .closed
     { s with events := .onClose :: s.events })

def notifyElement (element : Fact) : State ε := unlessClosed s (observe s (.onNext element))

def notifyFastForward (position : FactStreamPosition) : State ε :=
  unlessClosed s (observe s (.onFastForward position))

def notifyFactStreamInfo (info : FactStreamInfo) : State ε :=
  unlessClosed s (observe s (.onFactStreamInfo info))

def notifyCatchup : State ε := unlessClosed s (observe s .onCatchup)

def notifyComplete : State ε := unlessClosed s (observe s .onComplete)

def notifyError (e : ε) : State ε := unlessClosed s (observe (settleBoth s (.error e)) (.onError e))

def flush : State ε := observe s .flush

def call : Call ε → State ε
  | .notifyElement element => notifyElement s element
  | .notifyFastForward position => notifyFastForward s position
  | .notifyFactStreamInfo info => notifyFactStreamInfo s info
  | .notifyCatchup => notifyCatchup s
  | .notifyComplete => notifyComplete s
  | .notifyError e => notifyError s e
  | .flush => flush s
  | .close => close s

/-- What a method does once its callback has returned. -/
def afterwards : Callback ε → State ε
  | .onCatchup => settle s .catchup .normally
  | .onComplete => close (settleBoth s .normally)
  | .onError _ => close s
  | _ => s

def step (s : State ε) : Action ε → Option (State ε)
  | .call c => some (call { s with events := .called c :: s.events } c)
  | .returns =>
    match s.running with
    | callback :: rest => some (afterwards { s with running := rest } callback)
    | [] => none
  | .throws =>
    match s.running with
    | _ :: rest => some { s with running := rest }
    | [] => none

end Methods

structure Start {ε : Type} (s : State ε) : Prop where
  closed : s.closed = false
  future : ∀ which, s.future which = none
  running : s.running = []
  events : s.events = []

def subscription (ε : Type) : Machine (State ε) (Action ε) where
  Start := Start
  step := step

/-! ### The protocol -/

section Protocol
variable {ε : Type}

def Callback.terminal : Callback ε → Bool
  | .onComplete => true
  | .onError _ => true
  | _ => false

def Event.terminal : Event ε → Bool
  | .observed callback => callback.terminal
  | _ => false

def Event.callback : Event ε → Bool
  | .observed _ => true
  | _ => false

/-- Nothing is to be heard of the subscription from here on. -/
def Event.ends : Event ε → Bool
  | .observed callback => callback.terminal
  | .called .close => true
  | _ => false

/-- The future cannot end well any more. -/
def Event.breaksOff : Event ε → Bool
  | .called (.notifyError _) => true
  | .called .close => true
  | _ => false

/-- The call tells those who wait for the future that it has come to that. Who is
told that all is complete is told that the catchup is over, too. -/
def Call.signals : Await → Call ε → Bool
  | .catchup, .notifyCatchup => true
  | .catchup, .notifyComplete => true
  | .complete, .notifyComplete => true
  | _, _ => false

/-- How a future was completed, each time it was. -/
def Event.settles (which : Await) : Event ε → Option (Outcome ε)
  | .settled w outcome => if w = which then some outcome else none
  | _ => none

/-- The calls made so far account for the outcome. -/
def Accounts (which : Await) (events : List (Event ε)) : Outcome ε → Prop
  | .normally => ∃ later c earlier, events = later ++ .called c :: earlier ∧ c.signals which = true ∧
      ∀ e ∈ earlier, e.breaksOff = false
  | .closed => .called .close ∈ events
  | .error e => .called (.notifyError e) ∈ events

/-- What the observer may rely on, and those who wait. -/
structure Protocol (s : State ε) : Prop where
  terminal : s.events.countP Event.terminal ≤ 1
  silence : s.events.Pairwise fun later earlier => earlier.ends = true → later.callback = false
  once : ∀ which, s.events.filterMap (Event.settles which) = (s.future which).toList
  outcome : ∀ which outcome, s.future which = some outcome → Accounts which s.events outcome
  ended : (∃ e ∈ s.events, e.ends = true) → s.running = [] →
    s.closed = true ∧ ∀ which, (s.future which).isSome = true

/-- A terminal callback is running. -/
def State.ending (s : State ε) : Bool := s.running.any Callback.terminal

/-- The subscription is not flushed once it is closed, nothing is notified while a
terminal callback runs, and such a callback does not throw unless it has closed the
subscription itself. -/
def orderly (s : State ε) : Action ε → Bool
  | .call .close => true
  | .call .flush => !s.closed && !s.ending
  | .call _ => s.closed || !s.ending
  | .returns => true
  | .throws =>
    match s.running with
    | callback :: _ => s.closed || !callback.terminal
    | [] => true

end Protocol

/-! ### What a method leaves -/

section Proofs
variable {ε : Type} {s s' : State ε} {which : Await} {outcome : Outcome ε}

/-- The event says nothing to the observer, and nothing of a future. -/
structure Event.Quiet (e : Event ε) : Prop where
  callback : e.callback = false
  settles : ∀ which, e.settles which = none

theorem Accounts.cons {events : List (Event ε)} (h : Accounts which events outcome) (e : Event ε) :
    Accounts which (e :: events) outcome := by
  cases outcome with
  | normally =>
    obtain ⟨later, c, earlier, rfl, hrest⟩ := h
    exact ⟨e :: later, c, earlier, rfl, hrest⟩
  | closed => exact List.mem_cons_of_mem _ h
  | error _ => exact List.mem_cons_of_mem _ h

/-- What holds at any time, within a method, too. -/
structure Told (s : State ε) : Prop where
  silence : s.events.Pairwise fun later earlier => earlier.ends = true → later.callback = false
  once : ∀ which, s.events.filterMap (Event.settles which) = (s.future which).toList
  outcome : ∀ which outcome, s.future which = some outcome → Accounts which s.events outcome
  catchup : .onCatchup ∈ s.running → .called .notifyCatchup ∈ s.events
  complete : .onComplete ∈ s.running → .called .notifyComplete ∈ s.events
  error : ∀ e, .onError e ∈ s.running → ∀ which, (s.future which).isSome = true

/-- What holds between two methods. -/
structure Inv (s : State ε) : Prop extends Told s where
  ending : (∃ e ∈ s.events, e.ends = true) → s.closed = true ∨ s.ending = true
  settled : s.closed = true → ∀ which, (s.future which).isSome = true
  clear : ∀ which, s.future which = none → ∀ e ∈ s.events, e.breaksOff = false

theorem Told.event (h : Told s) {e : Event ε} (he : e.Quiet) :
    Told { s with events := e :: s.events } where
  silence := List.pairwise_cons.mpr ⟨fun _ _ _ => he.callback, h.silence⟩
  once which := by
    rw [List.filterMap_cons_none (he.settles which)]
    exact h.once which
  outcome which outcome hsome := (h.outcome which outcome hsome).cons e
  catchup hrun := List.mem_cons_of_mem _ (h.catchup hrun)
  complete hrun := List.mem_cons_of_mem _ (h.complete hrun)
  error := h.error

theorem Told.marked (h : Told s) (closed : Bool) : Told { s with closed } := { h with }

/-- Some callbacks are over. -/
theorem Told.popped (h : Told s) {rest : List (Callback ε)} (hrest : rest ⊆ s.running) :
    Told { s with running := rest } :=
  { h with
    catchup := fun hrun => h.catchup (hrest hrun)
    complete := fun hrun => h.complete (hrest hrun)
    error := fun e hrun => h.error e (hrest hrun) }

/-- A callback begins: what it answers to has been called, and nothing has ended. -/
theorem Told.observe (h : Told s) {callback : Callback ε} (hends : ∀ e ∈ s.events, e.ends = false)
    (hcatchup : callback = .onCatchup → .called .notifyCatchup ∈ s.events)
    (hcomplete : callback = .onComplete → .called .notifyComplete ∈ s.events)
    (herror : ∀ e, callback = .onError e → ∀ which, (s.future which).isSome = true) :
    Told (observe s callback) where
  silence := by
    refine List.pairwise_cons.mpr ⟨fun e he hend => ?_, h.silence⟩
    rw [hends e he] at hend
    cases hend
  once which := h.once which
  outcome which outcome hsome := (h.outcome which outcome hsome).cons _
  catchup hrun := by
    rcases List.mem_cons.mp hrun with heq | hrun
    · exact List.mem_cons_of_mem _ (hcatchup heq.symm)
    · exact List.mem_cons_of_mem _ (h.catchup hrun)
  complete hrun := by
    rcases List.mem_cons.mp hrun with heq | hrun
    · exact List.mem_cons_of_mem _ (hcomplete heq.symm)
    · exact List.mem_cons_of_mem _ (h.complete hrun)
  error e hrun := by
    rcases List.mem_cons.mp hrun with heq | hrun
    · exact herror e heq.symm
    · exact h.error e hrun

/-! #### The futures -/

@[simp] theorem closed_settle : (settle s which outcome).closed = s.closed := by
  unfold settle
  split <;> rfl

@[simp] theorem running_settle : (settle s which outcome).running = s.running := by
  unfold settle
  split <;> rfl

/-- Once it is done, a future stays done. -/
theorem isSome_settle (w : Await) (h : w = which ∨ (s.future w).isSome = true) :
    ((settle s which outcome).future w).isSome = true := by
  unfold settle
  split
  · by_cases heq : w = which
    · rw [heq]
      simp
    · simpa [Function.update_of_ne heq] using h.resolve_left heq
  · rename_i hdone
    rcases h with rfl | h
    · simp [hdone]
    · exact h

theorem mem_settle {e : Event ε} (h : e ∈ (settle s which outcome).events) :
    e = .settled which outcome ∨ e ∈ s.events := by
  unfold settle at h
  split at h
  · exact List.mem_cons.mp h
  · exact .inr h

theorem Told.settle (h : Told s) (hacc : s.future which = none → Accounts which s.events outcome) :
    Told (settle s which outcome) := by
  unfold SubscriptionImpl.settle
  split
  · rename_i hnone
    refine
      { silence := List.pairwise_cons.mpr ⟨fun _ _ _ => rfl, h.silence⟩
        once := fun w => ?_, outcome := fun w o hsome => ?_
        catchup := fun hrun => List.mem_cons_of_mem _ (h.catchup hrun)
        complete := fun hrun => List.mem_cons_of_mem _ (h.complete hrun)
        error := fun e hrun w => ?_ }
    · by_cases hw : w = which
      · subst hw
        have honce := h.once w
        rw [hnone] at honce
        simp [Event.settles, honce]
      · have hother : Event.settles w (.settled which outcome) = none := by
          simp [Event.settles, Ne.symm hw]
        rw [List.filterMap_cons_none hother, h.once w]
        simp [Function.update_of_ne hw]
    · by_cases hw : w = which
      · subst hw
        obtain rfl : outcome = o := by simpa using hsome
        exact (hacc hnone).cons _
      · exact (h.outcome w o (by simpa [Function.update_of_ne hw] using hsome)).cons _
    · have hall := h.error e hrun which
      rw [hnone] at hall
      cases hall
  · exact h

theorem Accounts.settle {w : Await} {o : Outcome ε} (h : Accounts w s.events o) :
    Accounts w (settle s which outcome).events o := by
  unfold SubscriptionImpl.settle
  split
  · exact h.cons _
  · exact h

@[simp] theorem closed_settleBoth : (settleBoth s outcome).closed = s.closed := by
  simp [settleBoth]

theorem isSome_settleBoth (w : Await) : ((settleBoth s outcome).future w).isSome = true := by
  cases w with
  | catchup => exact isSome_settle _ (.inr (isSome_settle _ (.inl rfl)))
  | complete => exact isSome_settle _ (.inl rfl)

theorem mem_settleBoth {e : Event ε} (h : e ∈ (settleBoth s outcome).events) :
    (∃ which, e = .settled which outcome) ∨ e ∈ s.events := by
  rcases mem_settle h with heq | h
  · exact .inl ⟨_, heq⟩
  · exact (mem_settle h).imp_left fun heq => ⟨_, heq⟩

theorem Told.settleBoth (h : Told s)
    (hacc : ∀ which, s.future which = none → Accounts which s.events outcome) :
    Told (settleBoth s outcome) := by
  refine (h.settle (hacc .catchup)).settle fun hnone => ?_
  have hcomplete : s.future .complete = none := by
    by_contra hne
    have hsome := @isSome_settle ε s .catchup outcome .complete
      (.inr (Option.isSome_iff_ne_none.mpr hne))
    rw [hnone] at hsome
    cases hsome
  exact (hacc .complete hcomplete).settle

/-! #### One step -/

/-- Closing leaves nothing open, provided that what is cut off was closed by a call. -/
theorem Told.close (h : Told s) (hsettled : s.closed = true → ∀ which, (s.future which).isSome = true)
    (hacc : ∀ which, s.future which = none → Accounts which s.events .closed) : Inv (close s) := by
  unfold SubscriptionImpl.close unlessClosed
  split
  · rename_i hclosed
    refine { h with ending := fun _ => .inl hclosed, settled := hsettled, clear := fun w hnone => ?_ }
    have hsome := hsettled hclosed w
    rw [hnone] at hsome
    cases hsome
  · have hall := @isSome_settleBoth ε { s with closed := true } .closed
    have htold := ((h.marked true).settleBoth hacc).event (e := .onClose) ⟨rfl, fun _ => rfl⟩
    refine { htold with ending := fun _ => .inl ?_, settled := fun _ => hall, clear := fun w hnone => ?_ }
    · exact closed_settleBoth
    · have hsome := hall w
      rw [show (SubscriptionImpl.settleBoth _ _).future w = none from hnone] at hsome
      cases hsome

/-- While the subscription is open and no terminal callback runs, nothing has ended. -/
theorem Inv.none_ended (h : Inv s) (hopen : s.closed = false) (hending : s.ending = false) :
    ∀ e ∈ s.events, e.ends = false := by
  intro e he
  by_contra hend
  rcases h.ending ⟨e, he, by simpa using hend⟩ with hclosed | hrunning
  · rw [hopen] at hclosed
    cases hclosed
  · rw [hending] at hrunning
    cases hrunning

/-- A method that finds the subscription closed does nothing. -/
theorem Inv.ignored (h : Inv s) (hclosed : s.closed = true) (c : Call ε) :
    Inv { s with events := .called c :: s.events } :=
  { h.toTold.event (e := .called c) ⟨rfl, fun _ => rfl⟩ with
    ending := fun _ => .inl hclosed
    settled := h.settled
    clear := fun w hnone => by
      have hsome := h.settled hclosed w
      rw [show s.future w = none from hnone] at hsome
      cases hsome }

/-- The observer of an open subscription is called. -/
theorem Inv.observed (h : Inv s) (hopen : s.closed = false) (hending : s.ending = false) {c : Call ε}
    {callback : Callback ε} (hends : (Event.called c).ends = false)
    (hbreaks : (Event.called c).breaksOff = false)
    (hcatchup : callback = .onCatchup → c = .notifyCatchup)
    (hcomplete : callback = .onComplete → c = .notifyComplete)
    (herror : ∀ e, callback ≠ .onError e) :
    Inv (observe { s with events := .called c :: s.events } callback) := by
  have hnone : ∀ e ∈ Event.called c :: s.events, e.ends = false := by
    intro e he
    rcases List.mem_cons.mp he with rfl | he
    · exact hends
    · exact h.none_ended hopen hending e he
  have htold := (h.toTold.event (e := .called c) ⟨rfl, fun _ => rfl⟩).observe hnone
    (fun heq => hcatchup heq ▸ List.mem_cons_self ..) (fun heq => hcomplete heq ▸ List.mem_cons_self ..)
    (fun e heq => absurd heq (herror e))
  refine
    { htold with
      ending := fun hex => .inr ?_, settled := fun hclosed => ?_, clear := fun w hw e he => ?_ }
  · obtain ⟨e, he, hend⟩ := hex
    rcases List.mem_cons.mp he with rfl | he
    · show (callback.terminal || _) = true
      rw [show callback.terminal = true from hend, Bool.true_or]
    · rw [hnone e he] at hend
      cases hend
  · rw [show (observe { s with events := .called c :: s.events } callback).closed = s.closed from rfl,
      hopen] at hclosed
    cases hclosed
  · rcases List.mem_cons.mp he with rfl | he
    · rfl
    · rcases List.mem_cons.mp he with rfl | he
      · exact hbreaks
      · exact h.clear w hw e he

theorem Inv.errs (h : Inv s) (hopen : s.closed = false) (hending : s.ending = false) (e : ε) :
    Inv (observe (settleBoth { s with events := .called (.notifyError e) :: s.events } (.error e))
      (.onError e)) := by
  have hcalled : Told (settleBoth { s with events := .called (.notifyError e) :: s.events } (.error e)) :=
    (h.toTold.event ⟨rfl, fun _ => rfl⟩).settleBoth fun _ _ => List.mem_cons_self ..
  have hnone : ∀ x ∈ (settleBoth { s with events := .called (.notifyError e) :: s.events }
      (.error e)).events, x.ends = false := by
    intro x hx
    rcases mem_settleBoth hx with ⟨w, rfl⟩ | hx
    · rfl
    · rcases List.mem_cons.mp hx with rfl | hx
      · rfl
      · exact h.none_ended hopen hending x hx
  have htold := @Told.observe ε _ hcalled (.onError e) hnone (fun heq => nomatch heq)
    (fun heq => nomatch heq) fun _ _ => isSome_settleBoth
  refine { htold with ending := fun _ => .inr rfl, settled := fun hclosed => ?_, clear := fun w hw => ?_ }
  · rw [show (observe _ (.onError e)).closed = _ from closed_settleBoth, hopen] at hclosed
    cases hclosed
  · have hsome := @isSome_settleBoth ε { s with events := .called (.notifyError e) :: s.events }
      (.error e) w
    rw [show (settleBoth _ _).future w = none from hw] at hsome
    cases hsome

theorem inv_call (h : Inv s) (c : Call ε) (hc : orderly s (.call c) = true) :
    Inv (call { s with events := .called c :: s.events } c) := by
  by_cases hclosed : s.closed = true
  · have hskip : ∀ next, unlessClosed { s with events := .called c :: s.events } next =
        { s with events := .called c :: s.events } := fun next => if_pos hclosed
    have hignored := h.ignored hclosed c
    cases c with
    | flush => simp [orderly, hclosed] at hc
    | close =>
      show Inv (unlessClosed _ _)
      rw [hskip]
      exact hignored
    | _ =>
      show Inv (unlessClosed _ _)
      rw [hskip]
      exact hignored
  · have hopen : s.closed = false := Bool.eq_false_iff.mpr hclosed
    have hguard : ∀ next, unlessClosed { s with events := .called c :: s.events } next = next :=
      fun next => if_neg hclosed
    cases c with
    | close =>
      refine (h.toTold.event (e := .called .close) ⟨rfl, fun _ => rfl⟩).close h.settled fun w _ => ?_
      exact List.mem_cons_self ..
    | flush =>
      have hending : s.ending = false := by simpa [orderly, hopen] using hc
      exact h.observed hopen hending rfl rfl (fun heq => nomatch heq) (fun heq => nomatch heq)
        fun _ heq => nomatch heq
    | notifyError e =>
      have hending : s.ending = false := by simpa [orderly, hopen] using hc
      show Inv (unlessClosed _ _)
      rw [hguard]
      exact h.errs hopen hending e
    | _ =>
      have hending : s.ending = false := by simpa [orderly, hopen] using hc
      show Inv (unlessClosed _ _)
      rw [hguard]
      refine h.observed hopen hending rfl rfl ?_ ?_ ?_ <;> simp

theorem Inv.settle (h : Inv s) (hacc : s.future which = none → Accounts which s.events outcome) :
    Inv (settle s which outcome) := by
  refine
    { h.toTold.settle hacc with
      ending := fun hex => ?_, settled := fun hclosed w => ?_, clear := fun w hnone e he => ?_ }
  · obtain ⟨e, he, hend⟩ := hex
    rw [closed_settle, State.ending, running_settle]
    rcases mem_settle he with rfl | he
    · cases hend
    · exact h.ending ⟨e, he, hend⟩
  · rw [closed_settle] at hclosed
    exact isSome_settle w (.inr (h.settled hclosed w))
  · rcases mem_settle he with rfl | he
    · rfl
    · refine h.clear w ?_ e he
      by_contra hne
      have hsome := @isSome_settle ε s which outcome w
        (.inr (Option.isSome_iff_ne_none.mpr hne))
      rw [hnone] at hsome
      cases hsome

/-- A future that is pending has seen nothing that breaks it off. -/
theorem Inv.accounts (h : Inv s) {c : Call ε} (hcalled : .called c ∈ s.events)
    (hsignals : c.signals which = true) (hnone : s.future which = none) :
    Accounts which s.events .normally := by
  obtain ⟨later, earlier, heq⟩ := List.append_of_mem hcalled
  refine ⟨later, c, earlier, heq, hsignals, fun e he => h.clear which hnone e ?_⟩
  rw [heq]
  exact List.mem_append_right _ (List.mem_cons_of_mem _ he)

/-- A callback is over that is not terminal, or has closed the subscription. -/
theorem Inv.popped (h : Inv s) {callback : Callback ε} {rest : List (Callback ε)}
    (hrun : s.running = callback :: rest) (hterminal : s.closed = true ∨ callback.terminal = false) :
    Inv { s with running := rest } := by
  have htold : Told { s with running := rest } :=
    h.toTold.popped (hrun ▸ List.subset_cons_self callback rest)
  refine { htold with ending := fun hex => ?_, settled := h.settled, clear := h.clear }
  rcases hterminal with hclosed | hterminal
  · exact .inl hclosed
  · refine (h.ending hex).imp_right fun hending => ?_
    simpa [State.ending, hrun, hterminal] using hending

/-- After its callback has returned a method finishes. -/
theorem inv_returns (h : Inv s) (hs : step s .returns = some s') : Inv s' := by
  simp only [step] at hs
  split at hs
  · rename_i callback rest hrun
    cases hs
    have htold : Told { s with running := rest } :=
      h.toTold.popped (hrun ▸ List.subset_cons_self callback rest)
    have hmem : callback ∈ s.running := hrun ▸ List.mem_cons_self ..
    cases callback with
    | onCatchup =>
      exact (h.popped hrun (.inr rfl)).settle fun hnone => h.accounts (h.catchup hmem) rfl hnone
    | onComplete =>
      have hcalled := h.complete hmem
      refine (htold.settleBoth fun w hnone => h.accounts hcalled ?_ hnone).close
        (fun _ => isSome_settleBoth) fun w hnone => ?_
      · cases w <;> rfl
      · have hsome := @isSome_settleBoth ε { s with running := rest } .normally w
        rw [hnone] at hsome
        cases hsome
    | onError e =>
      refine htold.close h.settled fun w hnone => ?_
      have hsome := h.error e hmem w
      rw [show s.future w = none from hnone] at hsome
      cases hsome
    | _ => exact h.popped hrun (.inr rfl)
  · cases hs

theorem inv_step {a : Action ε} (h : Inv s) (ha : orderly s a = true) (hs : step s a = some s') :
    Inv s' := by
  cases a with
  | call c =>
    cases hs
    exact inv_call h c ha
  | returns => exact inv_returns h hs
  | throws =>
    simp only [step] at hs
    split at hs
    · rename_i callback rest hrun
      cases hs
      refine h.popped hrun ?_
      simpa [orderly, hrun] using ha
    · cases hs

theorem inv_start (h : Start s) : Inv s where
  silence := h.events ▸ List.Pairwise.nil
  once which := by
    rw [h.events, h.future]
    rfl
  outcome which outcome hsome := by
    rw [h.future] at hsome
    cases hsome
  catchup hrun := by
    rw [h.running] at hrun
    cases hrun
  complete hrun := by
    rw [h.running] at hrun
    cases hrun
  error e hrun := by
    rw [h.running] at hrun
    cases hrun
  ending hex := by
    rw [h.events] at hex
    obtain ⟨e, he, _⟩ := hex
    cases he
  settled hclosed := by
    rw [h.closed] at hclosed
    cases hclosed
  clear which _ e he := by
    rw [h.events] at he
    cases he

/-- A second terminal callback would be a callback after a terminal one. -/
theorem countP_terminal {events : List (Event ε)}
    (h : events.Pairwise fun later earlier => earlier.ends = true → later.callback = false) :
    events.countP Event.terminal ≤ 1 := by
  induction h with
  | nil => exact Nat.zero_le _
  | @cons e rest hhead _ ih =>
    rw [List.countP_cons]
    by_cases he : e.terminal = true
    · have hnone : rest.countP Event.terminal = 0 := by
        refine List.countP_eq_zero.mpr fun x hx hterminal => ?_
        have hends : x.ends = true := by
          cases x with
          | observed callback => exact hterminal
          | _ => cases hterminal
        have hcallback := hhead x hx hends
        cases e with
        | observed callback => cases hcallback
        | _ => cases he
      rw [if_pos he, hnone]
    · rw [if_neg he]
      exact ih

end Proofs

/-- In a run whose steps are all orderly the observer and those who wait may rely on
the protocol at any time. -/
theorem protocol_kept {ε : Type} (s : State ε)
    (h : (subscription ε).ReachableUnder (fun s a => orderly s a = true) s) : Protocol s := by
  have hinv : Inv s := h.invariant (fun _ => inv_start) fun _ _ _ hi ha hs => inv_step hi ha hs
  refine ⟨countP_terminal hinv.silence, hinv.silence, hinv.once, hinv.outcome, fun hex hidle => ?_⟩
  have hclosed : s.closed = true := by
    refine (hinv.ending hex).resolve_right fun hending => ?_
    simp [State.ending, hidle] at hending
  exact ⟨hclosed, hinv.settled hclosed⟩

def opened (ε : Type) : State ε where
  closed := false
  future _ := none
  running := []
  events := []

theorem opened_start (ε : Type) : (subscription ε).Start (opened ε) := ⟨rfl, fun _ => rfl, rfl, rfl⟩

/-- A stream that is caught up with and completed, and closed again within the last callback. -/
theorem protocol_kept_completed : ∃ s : State Unit,
    (s.closed = true ∧ s.events.length = 10) ∧ Protocol s := by
  obtain ⟨s, hs, hstate⟩ := Machine.exists_reachableUnder (c := orderly) (opened_start Unit)
    [.call .notifyCatchup, .returns, .call .flush, .returns, .call .notifyComplete, .call .close, .returns]
    (fun s => (s.closed, s.events.length)) (b := (true, 10)) rfl
  exact ⟨s, Prod.mk.injEq .. ▸ hstate, protocol_kept s hs⟩

/-- A flush reaches the observer of a closed subscription. -/
theorem flushed_after_close : ¬ ∀ s : State Unit, (subscription Unit).Reachable s → Protocol s := by
  intro h
  obtain ⟨s, hs, hevents⟩ := Machine.exists_reachable (opened_start Unit) [.call .close, .call .flush]
    (fun s => s.events.map fun e => (e.ends, e.callback))
    (b := [(false, true), (false, false), (false, false), (false, false), (false, false), (true, false)]) rfl
  have hsilence := (h s hs).silence
  have hpairs : (s.events.map fun e => (e.ends, e.callback)).Pairwise
      fun later earlier => earlier.1 = true → later.2 = false := List.pairwise_map.mpr hsilence
  rw [hevents] at hpairs
  revert hpairs
  decide

end FactCast.SubscriptionImpl
