import FactCast.Machine.Run
import FactCast.Store.CondensedQuery
import FactCast.Store.Stream

/-! Closing a stream while it connects.

`PgFactStream.connect` asks before each part whether the stream is still connected:
before either catchup query, and before it enters follow mode, where it creates the
executor of the follow queries and registers it on the event bus. `close` may be called
at any time, from another thread. It disconnects the stream, unregisters and cancels the
executor if it finds one, and cancels the statement that runs.

Nothing is asked again after a part has begun. A `close` that comes between the question
and what depends on it does not see what is to come: an executor is registered that
nobody cancels, or a query starts when `close` has returned (`executor_survives`).
`close_releases` says when neither happens. -/
namespace FactCast

structure CurrentStatementHolder where
  statement : Bool := false
  wasCanceled : Bool := false

namespace CurrentStatementHolder

/-- Only a statement that is there is cancelled. -/
def close (h : CurrentStatementHolder) : CurrentStatementHolder :=
  if h.statement then { h with wasCanceled := true } else h

def set : CurrentStatementHolder := { statement := true, wasCanceled := false }

def clear : CurrentStatementHolder := { statement := false, wasCanceled := false }

end CurrentStatementHolder

namespace ClosingStream

/-- What the connecting thread does next. -/
inductive Connect where
  | connecting
  /-- It asks whether to catch up, for the second time or the first. -/
  | check (second : Bool)
  /-- It is to run a catchup query. -/
  | catchup (second : Bool)
  /-- The statement is there and not yet executed. -/
  | prepared (second : Bool)
  | fetching (second : Bool)
  | fastForward
  | signalCatchup
  | checkFollow
  /-- The stream is connected; it is to follow, or complete. -/
  | follow
  /-- The executor is created and not yet registered. -/
  | assigned
  | registered
  /-- In its own call of `trigger`. -/
  | calling (i : Nat)
  | over
deriving DecidableEq

/-- What the closing thread does next. -/
inductive Close where
  | no
  /-- It looks for an executor. -/
  | disconnected
  | unregister
  | cancel
  | statement
  | returned
  /-- What it was to unregister was not registered. -/
  | failed
deriving DecidableEq

inductive Registration where
  | never
  | yes
  | removed
deriving DecidableEq

/-- A follow run's query. -/
inductive Query where
  | no
  | prepared
  | started
deriving DecidableEq

structure State where
  disconnected : Bool := false
  connect : Connect := .connecting
  close : Close := .no
  executor : Option CondensedQuery.State := none
  /-- `condensedExecutor` refers to the executor. -/
  condensedExecutor : Bool := false
  registration : Registration := .never
  statementHolder : CurrentStatementHolder := {}
  /-- The query of the follow run at hand. -/
  query : Query := .no
  /-- How many queries started after `close` had returned. -/
  late : Nat := 0

inductive Action where
  /-- The connecting thread's next step. -/
  | connect
  /-- It throws. -/
  | abort
  /-- The closing thread's next step. -/
  | close
  /-- Calls of `trigger` from the event bus, and the timer. -/
  | executor (a : CondensedQuery.Action)
  | prepare
  | query
deriving DecidableEq

section Steps
variable (request : SubscriptionRequest) (maxDelayInMillis : Int) (s : State)

/-- A query starts. -/
def starts : State :=
  { s with late := if s.close = .returned ∨ s.close = .failed then s.late + 1 else s.late }

def afterCatchup (second : Bool) : Connect := if second then .fastForward else .check true

def connect : Option State :=
  match s.connect with
  | .connecting =>
    some { s with connect := if request.ephemeral then .fastForward else .check false }
  | .check second =>
    some { s with connect := if s.disconnected then afterCatchup second else .catchup second }
  | .catchup second =>
    some { s with statementHolder := .set, connect := .prepared second }
  | .prepared second => some { starts s with connect := .fetching second }
  | .fetching second =>
    some { s with statementHolder := .clear, connect := afterCatchup second }
  | .fastForward => some { s with connect := .signalCatchup }
  | .signalCatchup => some { s with connect := .checkFollow }
  | .checkFollow => some { s with connect := if s.disconnected then .over else .follow }
  | .follow =>
    if request.continuous then
      some { s with
        executor := some { connected := !s.disconnected }
        condensedExecutor := true
        connect := .assigned }
    else some { s with connect := .over }
  | .assigned => some { s with registration := .yes, connect := .registered }
  | .registered =>
    -- the field is read again, and may refer to nothing by now
    match s.condensedExecutor, s.executor with
    | true, some e =>
      some { s with executor := some (CondensedQuery.trigger e), connect := .calling e.calls.length }
    | _, _ => some { s with connect := .over }
  | .calling i =>
    match s.executor with
    | some e => if e.calls[i]? = some .over then some { s with connect := .over } else none
    | none => none
  | .over => none

/-- Reading, querying and signalling may throw. -/
def abort : Option State :=
  match s.connect with
  | .check _ => none
  | .checkFollow => none
  | .assigned => none
  | .registered => none
  | .calling _ => none
  | .over => none
  | .prepared _ => some { s with statementHolder := .clear, connect := .over }
  | .fetching _ => some { s with statementHolder := .clear, connect := .over }
  | _ => some { s with connect := .over }

/-- The event bus refuses to unregister what is not registered. -/
def close : Option State :=
  match s.close with
  | .no =>
    some { s with
      disconnected := true
      executor := s.executor.map fun e => { e with connected := false }
      close := .disconnected }
  | .disconnected => some { s with close := if s.condensedExecutor then .unregister else .statement }
  | .unregister =>
    if s.registration = .yes then some { s with registration := .removed, close := .cancel }
    else some { s with close := .failed }
  | .cancel =>
    match s.executor with
    | some e =>
      match CondensedQuery.cancel e with
      | some e' => some { s with executor := some e' }
      | none => some { s with condensedExecutor := false, close := .statement }
    | none => none
  | .statement => some { s with statementHolder := s.statementHolder.close, close := .returned }
  | .returned => none
  | .failed => none

/-- The event bus knows what was registered; the disconnecting and the cancelling are
the closing thread's. -/
def executorStep (a : CondensedQuery.Action) : Option State :=
  match a, s.executor with
  | .disconnect, _ => none
  | .cancel, _ => none
  | .trigger, some e =>
    if s.registration = .never then none else some { s with executor := some (CondensedQuery.trigger e) }
  | .enter r, some e =>
    (CondensedQuery.enter e r).map fun e => { s with executor := some e, query := .no }
  | a, some e => (CondensedQuery.step maxDelayInMillis e a).map fun e => { s with executor := some e }
  | _, none => none

/-- Somebody is in `runTarget`. -/
def running : Bool := s.executor.any fun e => e.inside.isSome

def prepare : Option State :=
  if running s ∧ s.query = .no then some { s with statementHolder := .set, query := .prepared } else none

def query : Option State :=
  if running s ∧ s.query = .prepared then some { starts s with query := .started } else none

end Steps

def step (request : SubscriptionRequest) (maxDelayInMillis : Int) (s : State) : Action → Option State
  | .connect => connect request s
  | .abort => abort s
  | .close => close s
  | .executor a => executorStep maxDelayInMillis s a
  | .prepare => prepare s
  | .query => query s

def machine (request : SubscriptionRequest) (maxDelayInMillis : Int) : Machine State Action where
  Start s := s = {}
  step := step request maxDelayInMillis

/-! ### What `close` has to wait for -/

/-- A call that found the stream connected is to run the target, or waits to, or the
timer has taken up a task. -/
def heading (maxDelayInMillis : Int) (e : CondensedQuery.State) : Bool :=
  (decide (maxDelayInMillis < 1) && e.calls.contains .connected) || e.calls.contains .entering ||
    e.timer == .started || e.timer == .entering

/-- It is to run a query, and does not ask again. -/
def Connect.bound : Connect → Bool
  | .catchup _ => true
  | .prepared _ => true
  | _ => false

/-- A query is going to start. -/
def bound (maxDelayInMillis : Int) (s : State) : Bool :=
  s.connect.bound || s.executor.any (heading maxDelayInMillis) || (running s && s.query != .started)

/-- The stream was found connected, and the executor is to come, or to be registered. -/
def Connect.following (request : SubscriptionRequest) : Connect → Bool
  | .follow => request.continuous
  | .assigned => true
  | _ => false

/-- `close` does not look for an executor that is about to be registered, and does not
return before what is going to start has started. -/
def Timely (request : SubscriptionRequest) (maxDelayInMillis : Int) (s : State) (a : Action) : Prop :=
  a = .close → (s.close = .disconnected → s.connect.following request = false) ∧
    (s.close = .statement → bound maxDelayInMillis s = false)

def TimerCancelled (e : CondensedQuery.State) : Prop := e.cancel = .stopped ∨ e.cancel = .done

/-- When both threads are through, no executor is registered or has a timer; and no
query has started after `close` returned. -/
structure Released (s : State) : Prop where
  executor : s.connect = .over → s.close = .returned ∨ s.close = .failed →
    s.registration ≠ .yes ∧ ∀ e, s.executor = some e → TimerCancelled e
  late : s.late = 0

/-! ### The executor, once it is cancelled -/

variable {request : SubscriptionRequest} {d : Int} {e e' : CondensedQuery.State}
  {b : CondensedQuery.Action}

/-- A timer that is cancelled has no tasks. -/
def Drained (e : CondensedQuery.State) : Prop := TimerCancelled e → e.tasks = 0

structure Kept (e e' : CondensedQuery.State) : Prop where
  connected : e.connected = false → e'.connected = false
  cancel : e'.cancel = e.cancel
  drained : Drained e → Drained e'

theorem Kept.of_same (hconnected : e'.connected = e.connected) (hcancel : e'.cancel = e.cancel)
    (htasks : TimerCancelled e → e.tasks = 0 → e'.tasks = 0) : Kept e e' where
  connected h := hconnected.trans h
  cancel := hcancel
  drained h hc := by
    have hc : TimerCancelled e := by rwa [TimerCancelled, ← hcancel]
    exact htasks hc (h hc)

theorem kept (hb : b ≠ .cancel) (hs : CondensedQuery.step d e b = some e') : Kept e e' := by
  cases b with
  | trigger =>
    cases hs
    exact .of_same rfl rfl fun _ h => h
  | isConnected i =>
    simp only [CondensedQuery.step, CondensedQuery.isConnected, Option.ite_none_right_eq_some,
      Option.some.injEq] at hs
    obtain ⟨_, rfl⟩ := hs
    exact .of_same rfl rfl fun _ h => h
  | getAndSet i =>
    simp only [CondensedQuery.step, CondensedQuery.getAndSet, Option.ite_none_right_eq_some] at hs
    obtain ⟨_, hs⟩ := hs
    split at hs
    · cases hs
      exact .of_same rfl rfl fun _ h => h
    · split at hs <;> cases hs <;> exact .of_same rfl rfl fun _ h => h
  | schedule i =>
    simp only [CondensedQuery.step, CondensedQuery.schedule, Option.ite_none_right_eq_some] at hs
    obtain ⟨_, hs⟩ := hs
    split at hs
    · cases hs
      exact .of_same rfl rfl fun _ h => h
    · rename_i hruns
      cases hs
      exact .of_same rfl rfl fun hc _ => absurd hc hruns
  | fire =>
    simp only [CondensedQuery.step, CondensedQuery.fire, Option.ite_none_right_eq_some,
      Option.some.injEq] at hs
    obtain ⟨_, rfl⟩ := hs
    exact .of_same rfl rfl fun _ h => by simp [h]
  | reset =>
    simp only [CondensedQuery.step, CondensedQuery.reset, Option.ite_none_right_eq_some,
      Option.some.injEq] at hs
    obtain ⟨_, rfl⟩ := hs
    exact .of_same rfl rfl fun _ h => h
  | enter r =>
    simp only [CondensedQuery.step, CondensedQuery.enter, Option.ite_none_right_eq_some,
      Option.some.injEq] at hs
    obtain ⟨_, rfl⟩ := hs
    cases r <;> exact .of_same rfl rfl fun _ h => h
  | leave =>
    simp only [CondensedQuery.step, CondensedQuery.leave, Option.map_eq_some_iff] at hs
    obtain ⟨r, _, rfl⟩ := hs
    cases r <;> exact .of_same rfl rfl fun _ h => h
  | disconnect =>
    cases hs
    exact ⟨fun _ => rfl, rfl, fun h => h⟩
  | cancel => exact absurd rfl hb

/-- Nobody is on the way into the target, and nobody will be. -/
structure Quiet (d : Int) (e : CondensedQuery.State) : Prop where
  connected : e.connected = false
  cancel : e.cancel = .done
  tasks : e.tasks = 0
  told : d < 1 → .connected ∉ e.calls
  waiting : .entering ∉ e.calls
  timer : e.timer = .idle ∨ e.timer = .running

theorem heading_eq_false : heading d e = false ↔ (d < 1 → .connected ∉ e.calls) ∧
    .entering ∉ e.calls ∧ (e.timer = .idle ∨ e.timer = .running) := by
  have htimer : (e.timer = .idle ∨ e.timer = .running) ↔ e.timer ≠ .started ∧ e.timer ≠ .entering := by
    cases e.timer <;> simp
  rw [htimer]
  simp [heading, and_assoc]

theorem Quiet.set {i : Nat} {c : CondensedQuery.Call} (h : Quiet d e)
    (hc : c ≠ .entering) (hd : c = .connected → ¬ d < 1) :
    Quiet d { e with calls := e.calls.set i c } where
  connected := h.connected
  cancel := h.cancel
  tasks := h.tasks
  told hlt hmem := by
    obtain hold | rfl := List.mem_or_eq_of_mem_set hmem
    · exact h.told hlt hold
    · exact hd rfl hlt
  waiting hmem := by
    obtain hold | rfl := List.mem_or_eq_of_mem_set hmem
    · exact h.waiting hold
    · exact hc rfl
  timer := h.timer

theorem Quiet.not_enter {r : CondensedQuery.Runner} (h : Quiet d e) : CondensedQuery.enter e r = none := by
  have hnot : ¬ CondensedQuery.Waits e r := by
    cases r with
    | call i => exact fun hi => h.waiting (List.mem_of_getElem? hi)
    | task =>
      intro ht
      have ht : e.timer = .entering := ht
      obtain hidle | hrunning := h.timer
      · cases hidle.symm.trans ht
      · cases hrunning.symm.trans ht
  rw [CondensedQuery.enter, if_neg fun hr => hnot hr.2]

/-- After that nobody enters, and who is inside comes out. -/
theorem Quiet.step (h : Quiet d e) (hb : b ≠ .cancel) (hs : CondensedQuery.step d e b = some e') :
    Quiet d e' ∧ (e'.inside.isSome = true → e.inside.isSome = true) := by
  cases b with
  | trigger =>
    cases hs
    exact ⟨⟨h.connected, h.cancel, h.tasks, fun hlt => by simpa [CondensedQuery.trigger] using h.told hlt,
      by simpa [CondensedQuery.trigger] using h.waiting, h.timer⟩, id⟩
  | isConnected i =>
    simp only [CondensedQuery.step, CondensedQuery.isConnected, Option.ite_none_right_eq_some,
      Option.some.injEq] at hs
    obtain ⟨_, rfl⟩ := hs
    exact ⟨h.set (by simp [h.connected]) (by simp [h.connected]), id⟩
  | getAndSet i =>
    simp only [CondensedQuery.step, CondensedQuery.getAndSet, Option.ite_none_right_eq_some] at hs
    obtain ⟨hi, hs⟩ := hs
    split at hs
    · rename_i hlt
      exact absurd (List.mem_of_getElem? hi) (h.told hlt)
    · split at hs
      · cases hs
        exact ⟨h.set (by simp) (by simp), id⟩
      · cases hs
        have := h.set (i := i) (c := .scheduling) (by simp) (by simp)
        exact ⟨⟨this.connected, this.cancel, this.tasks, this.told, this.waiting, this.timer⟩, id⟩
  | schedule i =>
    simp only [CondensedQuery.step, CondensedQuery.schedule, h.cancel, Option.ite_none_right_eq_some,
      or_true, if_true, Option.some.injEq] at hs
    obtain ⟨_, rfl⟩ := hs
    have := h.set (i := i) (c := .over) (by simp) (by simp)
    exact ⟨⟨this.connected, rfl, this.tasks, this.told, this.waiting, this.timer⟩, id⟩
  | fire => simp [CondensedQuery.step, CondensedQuery.fire, h.tasks] at hs
  | reset =>
    obtain hidle | hrunning := h.timer
    · simp [CondensedQuery.step, CondensedQuery.reset, hidle] at hs
    · simp [CondensedQuery.step, CondensedQuery.reset, hrunning] at hs
  | enter r =>
    simp only [CondensedQuery.step, h.not_enter] at hs
    cases hs
  | leave =>
    simp only [CondensedQuery.step, CondensedQuery.leave, Option.map_eq_some_iff] at hs
    obtain ⟨r, hr, rfl⟩ := hs
    refine ⟨?_, fun _ => by simp [hr]⟩
    cases r with
    | call i =>
      have := h.set (i := i) (c := .over) (by simp) (by simp)
      exact ⟨this.connected, this.cancel, this.tasks, this.told, this.waiting, this.timer⟩
    | task => exact ⟨h.connected, h.cancel, h.tasks, h.told, h.waiting, .inl rfl⟩
  | disconnect =>
    cases hs
    exact ⟨⟨rfl, h.cancel, h.tasks, h.told, h.waiting, h.timer⟩, id⟩
  | cancel => exact absurd rfl hb

/-! ### What the two threads leave to each other -/

/-- The executor does not exist yet. -/
def Connect.early : Connect → Bool
  | .assigned => false
  | .registered => false
  | .calling _ => false
  | .over => false
  | _ => true

/-- The executor, if there is one, is out of use, and there will be no other. -/
structure Settled (request : SubscriptionRequest) (s : State) : Prop where
  registration : s.registration ≠ .yes
  following : s.connect.following request = false
  executor : ∀ e, s.executor = some e → e.cancel = .done

structure Inv (request : SubscriptionRequest) (d : Int) (s : State) : Prop where
  closing : s.close ≠ .no → s.disconnected = true
  connected : s.disconnected = true → ∀ e, s.executor = some e → e.connected = false
  drained : ∀ e, s.executor = some e → Drained e
  early : s.connect.early = true → s.executor = none
  absent : s.executor = none → s.registration = .never ∧ s.condensedExecutor = false
  assigned : s.connect = .assigned → s.executor ≠ none ∧ s.registration = .never
  present : s.executor ≠ none → s.connect ≠ .assigned → s.registration ≠ .never
  removed : s.registration = .removed → s.close = .cancel ∨ s.close = .statement ∨ s.close = .returned
  field : s.executor ≠ none →
    s.condensedExecutor = true ∨ s.close = .statement ∨ s.close = .returned
  unregister : s.close = .unregister → s.registration = .yes
  cancel : s.close = .cancel → s.registration = .removed
  settled : s.close = .statement ∨ s.close = .returned → Settled request s
  failed : s.close ≠ .failed
  unbound : s.close = .returned → bound d s = false
  late : s.late = 0

theorem inv_start : Inv request d {} where
  closing := by simp
  connected := by simp
  drained := by simp
  early _ := rfl
  absent _ := ⟨rfl, rfl⟩
  assigned := by simp
  present h := absurd rfl h
  removed := by simp
  field h := absurd rfl h
  unregister := by simp
  cancel := by simp
  settled := by simp
  failed := by simp
  unbound := by simp
  late := rfl

variable {s s' : State} {a : Action}

/-! ### The connecting thread -/

theorem Inv.disconnected (h : Inv request d s) (hc : s.close = .statement ∨ s.close = .returned) :
    s.disconnected = true := by
  refine h.closing fun hno => ?_
  obtain hstatement | hreturned := hc
  · cases hno.symm.trans hstatement
  · cases hno.symm.trans hreturned

/-- On to a step that does not concern the executor. -/
theorem Inv.goto (h : Inv request d s) (c : Connect) (holder : CurrentStatementHolder)
    (hearly : c.early = true → s.connect.early = true) (hold : s.connect ≠ .assigned)
    (hnow : c ≠ .assigned) (hfollow : c.following request = true → s.disconnected = false)
    (hbound : c.bound = true → s.disconnected = false ∨ s.connect.bound = true) :
    Inv request d { s with connect := c, statementHolder := holder } := by
  exact { h with
    early := fun hc => h.early (hearly hc)
    assigned := fun hc => absurd hc hnow
    present := fun hsome _ => h.present hsome hold
    settled := fun hc => by
      have hset := h.settled hc
      refine ⟨hset.registration, ?_, hset.executor⟩
      rw [← Bool.not_eq_true]
      intro hfollowing
      cases (h.disconnected hc).symm.trans (hfollow hfollowing)
    unbound := fun hc => by
      have hunbound := h.unbound hc
      simp only [bound, Bool.or_eq_false_iff] at hunbound ⊢
      refine ⟨⟨?_, hunbound.1.2⟩, hunbound.2⟩
      rw [← Bool.not_eq_true]
      intro hb
      obtain hopen | hbefore := hbound hb
      · cases (h.disconnected (.inr hc)).symm.trans hopen
      · cases hunbound.1.1.symm.trans hbefore }

/-- On to a step from which no query is bound to start. -/
theorem Inv.goOn (h : Inv request d s) (c : Connect) (holder : CurrentStatementHolder)
    (hearly : c.early = true → s.connect.early = true) (hold : s.connect ≠ .assigned)
    (hnow : c ≠ .assigned) (hfollowing : c.following request = false) (hbound : c.bound = false) :
    Inv request d { s with connect := c, statementHolder := holder } :=
  h.goto c holder hearly hold hnow (by simp [hfollowing]) (by simp [hbound])

/-- What is going to start does so in time. -/
theorem Inv.starts (h : Inv request d s) (hb : bound d s = true) : starts s = s := by
  have hnot : ¬ (s.close = .returned ∨ s.close = .failed) := by
    rintro (hreturned | hfailed)
    · cases hb.symm.trans (h.unbound hreturned)
    · exact h.failed hfailed
  rw [ClosingStream.starts, if_neg hnot]

theorem Inv.create (h : Inv request d s) (hc : s.connect = .follow)
    (hcontinuous : request.continuous = true) :
    Inv request d { s with
      executor := some { connected := !s.disconnected }
      condensedExecutor := true
      connect := .assigned } := by
  have hnone := h.early (by simp [hc, Connect.early])
  obtain ⟨hnever, _⟩ := h.absent hnone
  have hunsettled : ¬ (s.close = .statement ∨ s.close = .returned) := fun hset => by
    have := (h.settled hset).following
    simp [hc, Connect.following, hcontinuous] at this
  exact { h with
    connected := by
      rintro hd e ⟨⟩
      have hd : s.disconnected = true := hd
      simp [hd]
    drained := by
      rintro e ⟨⟩ hcancelled
      rfl
    early := by simp [Connect.early]
    absent := by simp
    assigned _ := ⟨by simp, hnever⟩
    present _ hne := absurd rfl hne
    field _ := .inl rfl
    settled hset := absurd hset hunsettled
    unbound hr := absurd (.inr hr) hunsettled }

theorem Inv.register (h : Inv request d s) (hc : s.connect = .assigned) :
    Inv request d { s with registration := .yes, connect := .registered } := by
  obtain ⟨hsome, hnever⟩ := h.assigned hc
  have hunsettled : ¬ (s.close = .statement ∨ s.close = .returned) := fun hset => by
    have := (h.settled hset).following
    simp [hc, Connect.following] at this
  exact { h with
    early := by simp [Connect.early]
    absent hnone := absurd hnone hsome
    assigned := by simp
    present _ _ := by simp
    removed := by simp
    unregister _ := rfl
    cancel hcancel := by
      have := h.cancel hcancel
      rw [hnever] at this
      cases this
    settled hset := absurd hset hunsettled
    unbound hr := absurd (.inr hr) hunsettled }

/-- A step of the executor that is not of its cancellation. -/
theorem Inv.executor {q : Query} (h : Inv request d s) (he : s.executor = some e) (hkept : Kept e e')
    (hunbound : s.close = .returned → bound d { s with executor := some e', query := q } = false) :
    Inv request d { s with executor := some e', query := q } := by
  exact { h with
    connected := fun hd => by
      rintro _ ⟨⟩
      exact hkept.connected (h.connected hd e he)
    drained := by
      rintro _ ⟨⟩
      exact hkept.drained (h.drained e he)
    early := fun hc => absurd (he.symm.trans (h.early hc)) (by simp)
    absent := by simp
    assigned := fun hc => ⟨by simp, (h.assigned hc).2⟩
    present := fun _ => h.present (by simp [he])
    field := fun _ => h.field (by simp [he])
    settled := fun hc => by
      have hset := h.settled hc
      refine ⟨hset.registration, hset.following, ?_⟩
      rintro _ ⟨⟩
      exact hkept.cancel.trans (hset.executor e he)
    unbound := hunbound }

/-- Once `close` has returned, the executor is quiet. -/
theorem Inv.quiet (h : Inv request d s) (hr : s.close = .returned) (he : s.executor = some e) :
    Quiet d e := by
  have hcancel := (h.settled (.inr hr)).executor e he
  have hunbound := h.unbound hr
  simp only [bound, Bool.or_eq_false_iff, he, Option.any_some] at hunbound
  obtain ⟨htold, hwaiting, htimer⟩ := heading_eq_false.mp hunbound.1.2
  exact ⟨h.connected (h.disconnected (.inr hr)) e he, hcancel, h.drained e he (.inr hcancel),
    htold, hwaiting, htimer⟩

theorem Inv.bound_step (h : Inv request d s) (he : s.executor = some e) (hb : b ≠ .cancel)
    (hs : CondensedQuery.step d e b = some e') (hr : s.close = .returned) :
    bound d { s with executor := some e' } = false := by
  obtain ⟨hquiet, hinside⟩ := (h.quiet hr he).step hb hs
  have hunbound := h.unbound hr
  simp only [bound, Bool.or_eq_false_iff, running, he, Option.any_some] at hunbound ⊢
  refine ⟨⟨hunbound.1.1, heading_eq_false.mpr ⟨hquiet.told, hquiet.waiting, hquiet.timer⟩⟩, ?_⟩
  cases hin : e'.inside.isSome with
  | false => rfl
  | true => simpa [hinside hin] using hunbound.2

theorem inv_executor {b : CondensedQuery.Action} (h : Inv request d s)
    (hs : executorStep d s b = some s') : Inv request d s' := by
  cases he : s.executor with
  | none =>
    cases b <;> simp [executorStep, he] at hs
  | some e =>
    have hstep : ∀ {b : CondensedQuery.Action}, b ≠ .cancel → ∀ e',
        CondensedQuery.step d e b = some e' → Inv request d { s with executor := some e' } :=
      fun hb e' hs => h.executor he (kept hb hs) (h.bound_step he hb hs)
    cases b with
    | disconnect => cases hs
    | cancel => cases hs
    | trigger =>
      simp only [executorStep, he] at hs
      split at hs
      · cases hs
      · cases hs
        exact hstep (b := .trigger) (by simp) _ rfl
    | enter r =>
      simp only [executorStep, he, Option.map_eq_some_iff] at hs
      obtain ⟨e', hs, rfl⟩ := hs
      refine h.executor he (kept (d := d) (b := .enter r) (by simp) hs) fun hr => ?_
      rw [(h.quiet hr he).not_enter] at hs
      cases hs
    | _ =>
      simp only [executorStep, he, Option.map_eq_some_iff] at hs
      obtain ⟨e', hs, rfl⟩ := hs
      exact hstep (by simp) e' hs

theorem afterCatchup_open (request : SubscriptionRequest) (second : Bool) :
    afterCatchup second ≠ .assigned ∧
    (afterCatchup second).following request = false ∧ (afterCatchup second).bound = false := by
  cases second <;> simp [afterCatchup, Connect.following, Connect.bound]

theorem inv_connect (h : Inv request d s) (hs : connect request s = some s') : Inv request d s' := by
  cases hc : s.connect with
  | connecting =>
    simp only [connect, hc, Option.some.injEq] at hs
    subst hs
    refine h.goto _ s.statementHolder (by simp [hc, Connect.early]) (by simp [hc]) ?_ ?_ ?_
    all_goals split <;> simp [Connect.following, Connect.bound]
  | check second =>
    simp only [connect, hc, Option.some.injEq] at hs
    subst hs
    obtain ⟨hassigned, hfollowing, hbound⟩ := afterCatchup_open request second
    refine h.goto _ s.statementHolder (by simp [hc, Connect.early]) (by simp [hc]) ?_ ?_ ?_
    · split
      · exact hassigned
      · simp
    · split
      · simp [hfollowing]
      · simp [Connect.following]
    · split
      · simp [hbound]
      · rename_i hopen
        exact fun _ => .inl (by simpa using hopen)
  | catchup second =>
    simp only [connect, hc, Option.some.injEq] at hs
    subst hs
    exact h.goto _ .set (by simp [hc, Connect.early]) (by simp [hc]) (by simp)
      (by simp [Connect.following]) (by simp [hc, Connect.bound])
  | prepared second =>
    simp only [connect, hc, Option.some.injEq] at hs
    subst hs
    rw [h.starts (by simp [bound, hc, Connect.bound])]
    exact h.goOn _ s.statementHolder (by simp [hc, Connect.early]) (by simp [hc]) (by simp) rfl rfl
  | fetching second =>
    simp only [connect, hc, Option.some.injEq] at hs
    subst hs
    obtain ⟨hassigned, hfollowing, hbound⟩ := afterCatchup_open request second
    exact h.goOn _ .clear (by simp [hc, Connect.early]) (by simp [hc]) hassigned hfollowing hbound
  | fastForward =>
    simp only [connect, hc, Option.some.injEq] at hs
    subst hs
    exact h.goOn _ s.statementHolder (by simp [hc, Connect.early]) (by simp [hc]) (by simp) rfl rfl
  | signalCatchup =>
    simp only [connect, hc, Option.some.injEq] at hs
    subst hs
    exact h.goOn _ s.statementHolder (by simp [hc, Connect.early]) (by simp [hc]) (by simp) rfl rfl
  | checkFollow =>
    simp only [connect, hc, Option.some.injEq] at hs
    subst hs
    refine h.goto _ s.statementHolder (by simp [hc, Connect.early]) (by simp [hc]) ?_ ?_ ?_
    · split <;> simp
    · split
      · simp [Connect.following]
      · rename_i hopen
        exact fun _ => by simpa using hopen
    · split <;> simp [Connect.bound]
  | follow =>
    simp only [connect, hc] at hs
    split at hs
    · cases hs
      rename_i hcontinuous
      exact h.create hc hcontinuous
    · cases hs
      exact h.goOn _ s.statementHolder (by simp [Connect.early]) (by simp [hc]) (by simp) rfl rfl
  | assigned =>
    simp only [connect, hc, Option.some.injEq] at hs
    subst hs
    exact h.register hc
  | registered =>
    simp only [connect, hc] at hs
    split at hs
    · rename_i e hfield he
      cases hs
      have htrigger : CondensedQuery.step d e .trigger = some (CondensedQuery.trigger e) := rfl
      have h' := h.executor (q := s.query) he (kept (by simp) htrigger)
        (h.bound_step he (by simp) htrigger)
      exact h'.goOn _ s.statementHolder (by simp [Connect.early]) (by simp [hc]) (by simp) rfl rfl
    · cases hs
      exact h.goOn _ s.statementHolder (by simp [Connect.early]) (by simp [hc]) (by simp) rfl rfl
  | calling i =>
    simp only [connect, hc] at hs
    split at hs
    · split at hs
      · cases hs
        exact h.goOn _ s.statementHolder (by simp [Connect.early]) (by simp [hc]) (by simp) rfl rfl
      · cases hs
    · cases hs
  | _ => simp [connect, hc] at hs

theorem inv_abort (h : Inv request d s) (hs : abort s = some s') : Inv request d s' := by
  have hover : ∀ holder, s.connect ≠ .assigned →
      Inv request d { s with connect := .over, statementHolder := holder } :=
    fun holder hold => h.goOn .over holder (by simp [Connect.early]) hold (by simp) rfl rfl
  cases hc : s.connect <;> simp only [abort, hc, Option.some.injEq, reduceCtorEq] at hs <;> subst hs <;>
    exact hover _ (by simp [hc])

/-! ### The closing thread -/

theorem Inv.disconnect (h : Inv request d s) (hc : s.close = .no) :
    Inv request d { s with
      disconnected := true
      executor := s.executor.map fun e => { e with connected := false }
      close := .disconnected } := by
  exact { h with
    closing := fun _ => rfl
    connected := fun _ e he => by
      obtain ⟨e₀, _, rfl⟩ := Option.map_eq_some_iff.mp he
      rfl
    drained := fun e he => by
      obtain ⟨e₀, he₀, rfl⟩ := Option.map_eq_some_iff.mp he
      exact h.drained e₀ he₀
    early := fun hc => by simp [h.early hc]
    absent := fun hnone => h.absent (by simpa using hnone)
    assigned := fun hc => by simpa using h.assigned hc
    present := fun hsome => h.present (by simpa using hsome)
    removed := fun hr => by simpa [hc] using h.removed hr
    field := fun hsome => by simpa [hc] using h.field (by simpa using hsome)
    unregister := by simp
    cancel := by simp
    settled := by simp
    failed := by simp
    unbound := by simp }

/-- What is found is registered; what is not found is not on the way. -/
theorem Inv.look (h : Inv request d s) (hc : s.close = .disconnected)
    (hfollowing : s.connect.following request = false) :
    Inv request d { s with close := if s.condensedExecutor then .unregister else .statement } := by
  have hunremoved : s.registration ≠ .removed := fun hr => by simpa [hc] using h.removed hr
  have hfield : s.executor ≠ none → s.condensedExecutor = true := fun hsome => by
    simpa [hc] using h.field hsome
  have hassigned : s.connect ≠ .assigned := fun ha => by simp [ha, Connect.following] at hfollowing
  have hdisconnected := h.closing (by simp [hc])
  by_cases hfound : s.condensedExecutor = true
  · have hsome : s.executor ≠ none := fun hnone => by simpa [hfound] using (h.absent hnone).2
    have hyes : s.registration = .yes := by
      have hnever := h.present hsome hassigned
      cases hr : s.registration with
      | never => exact absurd hr hnever
      | yes => rfl
      | removed => exact absurd hr hunremoved
    rw [if_pos hfound]
    exact { h with
      closing := fun _ => hdisconnected
      removed := fun hr => absurd hr hunremoved
      field := fun _ => .inl hfound
      unregister := fun _ => hyes
      cancel := by simp
      settled := by simp
      failed := by simp
      unbound := by simp }
  · have hnone : s.executor = none := by
      by_contra hsome
      exact hfound (hfield hsome)
    rw [if_neg hfound]
    exact { h with
      closing := fun _ => hdisconnected
      removed := fun hr => absurd hr hunremoved
      field := fun hsome => absurd hnone hsome
      unregister := by simp
      cancel := by simp
      settled := fun _ => ⟨by simp [(h.absent hnone).1], hfollowing, by simp [hnone]⟩
      failed := by simp
      unbound := by simp }

theorem Inv.remove (h : Inv request d s) (hc : s.close = .unregister) :
    Inv request d { s with registration := .removed, close := .cancel } := by
  have hyes := h.unregister hc
  have hsome : s.executor ≠ none := fun hnone => by simpa [hyes] using (h.absent hnone).1
  have hassigned : s.connect ≠ .assigned := fun ha => by simpa [hyes] using (h.assigned ha).2
  exact { h with
    closing := fun _ => h.closing (by simp [hc])
    absent := fun hnone => absurd hnone hsome
    assigned := fun ha => absurd ha hassigned
    present := by simp
    removed := by simp
    field := fun hsome => by simpa [hc] using h.field hsome
    unregister := by simp
    cancel := by simp
    settled := by simp
    failed := by simp
    unbound := by simp }

/-- The flag, the timer, the flag again. -/
theorem Inv.cancelling (h : Inv request d s) (hc : s.close = .cancel) (he : s.executor = some e)
    (hs : CondensedQuery.cancel e = some e') : Inv request d { s with executor := some e' } := by
  have hconnected : e'.connected = e.connected := by
    unfold CondensedQuery.cancel at hs
    split at hs <;> cases hs <;> rfl
  have hdrained : Drained e → Drained e' := by
    intro hdrained hcancelled
    unfold CondensedQuery.cancel at hs
    split at hs
    · cases hs
      simp [TimerCancelled] at hcancelled
    · cases hs
      rfl
    · rename_i hstopped
      cases hs
      exact hdrained (.inl hstopped)
    · cases hs
  exact { h with
    connected := by
      rintro hd _ ⟨⟩
      exact hconnected.trans (h.connected hd e he)
    drained := by
      rintro _ ⟨⟩
      exact hdrained (h.drained e he)
    early := fun hearly => absurd (he.symm.trans (h.early hearly)) (by simp)
    absent := by simp
    assigned := fun ha => ⟨by simp, (h.assigned ha).2⟩
    present := fun _ => h.present (by simp [he])
    field := fun _ => h.field (by simp [he])
    settled := by simp [hc]
    unbound := by simp [hc] }

theorem Inv.forget (h : Inv request d s) (hc : s.close = .cancel) (he : s.executor = some e)
    (hs : CondensedQuery.cancel e = none) :
    Inv request d { s with condensedExecutor := false, close := .statement } := by
  have hremoved := h.cancel hc
  have hdone : e.cancel = .done := by
    unfold CondensedQuery.cancel at hs
    split at hs
    · cases hs
    · cases hs
    · cases hs
    · assumption
  have hfollowing : s.connect.following request = false := by
    rw [← Bool.not_eq_true]
    intro hf
    cases hcon : s.connect with
    | follow => cases he.symm.trans (h.early (by simp [hcon, Connect.early]))
    | assigned => simpa [hremoved] using (h.assigned hcon).2
    | _ => simp [hcon, Connect.following] at hf
  have hsettled : ∀ e₁, s.executor = some e₁ → e₁.cancel = .done := by
    intro e₁ he₁
    obtain rfl : e = e₁ := Option.some.inj (he.symm.trans he₁)
    exact hdone
  exact { h with
    closing := fun _ => h.closing (by simp [hc])
    absent := fun hnone => absurd (he.symm.trans hnone) (by simp)
    removed := by simp
    field := by simp
    unregister := by simp
    cancel := by simp
    settled := fun _ => ⟨by simp [hremoved], hfollowing, hsettled⟩
    failed := by simp
    unbound := by simp }

theorem Inv.ret (h : Inv request d s) (hc : s.close = .statement) (hunbound : bound d s = false)
    (holder : CurrentStatementHolder) :
    Inv request d { s with statementHolder := holder, close := .returned } := by
  have hset := h.settled (.inl hc)
  exact { h with
    closing := fun _ => h.closing (by simp [hc])
    removed := fun _ => .inr (.inr rfl)
    field := fun _ => .inr (.inr rfl)
    unregister := by simp
    cancel := by simp
    settled := fun _ => ⟨hset.registration, hset.following, hset.executor⟩
    failed := by simp
    unbound := fun _ => hunbound }

theorem inv_close (h : Inv request d s) (htimely : Timely request d s .close)
    (hs : close s = some s') : Inv request d s' := by
  obtain ⟨hlook, hreturn⟩ := htimely rfl
  cases hc : s.close with
  | no =>
    simp only [close, hc, Option.some.injEq] at hs
    subst hs
    exact h.disconnect hc
  | disconnected =>
    simp only [close, hc, Option.some.injEq] at hs
    subst hs
    exact h.look hc (hlook hc)
  | unregister =>
    simp only [close, hc, h.unregister hc, if_true, Option.some.injEq] at hs
    subst hs
    exact h.remove hc
  | cancel =>
    simp only [close, hc] at hs
    split at hs
    · rename_i e he
      split at hs
      · rename_i e' hcancel
        cases hs
        simpa only [hc] using h.cancelling hc he hcancel
      · rename_i hcancel
        cases hs
        exact h.forget hc he hcancel
    · cases hs
  | statement =>
    simp only [close, hc, Option.some.injEq] at hs
    subst hs
    exact h.ret hc (hreturn hc) _
  | returned => simp [close, hc] at hs
  | failed => simp [close, hc] at hs

/-! ### The follow runs, and whole runs -/

/-- A query that is bound to start gets on before `close` returns. -/
theorem Inv.get_on (h : Inv request d s) (hb : bound d s = true) (holder : CurrentStatementHolder)
    (q : Query) : Inv request d { s with statementHolder := holder, query := q } := by
  have hopen : s.close ≠ .returned := fun hr => by cases hb.symm.trans (h.unbound hr)
  exact { h with
    settled := fun hc =>
      ⟨(h.settled hc).registration, (h.settled hc).following, (h.settled hc).executor⟩
    unbound := fun hr => absurd hr hopen }

theorem inv_prepare (h : Inv request d s) (hs : prepare s = some s') : Inv request d s' := by
  simp only [prepare, Option.ite_none_right_eq_some, Option.some.injEq] at hs
  obtain ⟨⟨hrunning, hno⟩, rfl⟩ := hs
  exact h.get_on (by simp [bound, hrunning, hno]) .set .prepared

theorem inv_query (h : Inv request d s) (hs : query s = some s') : Inv request d s' := by
  simp only [query, Option.ite_none_right_eq_some, Option.some.injEq] at hs
  obtain ⟨⟨hrunning, hprepared⟩, rfl⟩ := hs
  have hbound : bound d s = true := by simp [bound, hrunning, hprepared]
  rw [h.starts hbound]
  exact h.get_on hbound s.statementHolder .started

theorem inv_step (h : Inv request d s) (htimely : Timely request d s a)
    (hs : step request d s a = some s') : Inv request d s' := by
  cases a with
  | connect => exact inv_connect h hs
  | abort => exact inv_abort h hs
  | close => exact inv_close h htimely hs
  | executor b => exact inv_executor h hs
  | prepare => exact inv_prepare h hs
  | query => exact inv_query h hs

/-- However the two threads, the event bus and the timer interleave: if `close` does not
come between a question and what depends on it, closing releases everything. -/
theorem close_releases (request : SubscriptionRequest) (maxDelayInMillis : Int)
    (h : (machine request maxDelayInMillis).ReachableUnder (Timely request maxDelayInMillis) s) :
    Released s := by
  have hinv : Inv request maxDelayInMillis s :=
    h.invariant (fun _ hs => hs ▸ inv_start) fun _ _ _ hi hc hs => inv_step hi hc hs
  refine ⟨fun _ hclosed => ?_, hinv.late⟩
  have hset := hinv.settled (.inr (hclosed.resolve_right hinv.failed))
  exact ⟨hset.registration, fun e he => .inr (hset.executor e he)⟩

instance (request : SubscriptionRequest) (d : Int) (s : State) (a : Action) :
    Decidable (Timely request d s a) :=
  inferInstanceAs (Decidable (a = .close →
    (s.close = .disconnected → s.connect.following request = false) ∧
      (s.close = .statement → bound d s = false)))

/-- From the latest fact on, without a catchup. -/
def ephemeralOrders : SubscriptionRequest := { specs := [ofOrders], ephemeral := true }

/-- The stream follows, its first run is scheduled, and it is closed. -/
def followed : List Action :=
  [.connect, .connect, .connect, .connect, .connect, .connect, .connect, .executor (.isConnected 0),
    .executor (.getAndSet 0), .executor (.schedule 0), .connect,
    .close, .close, .close, .close, .close, .close, .close, .close]

theorem close_releases_followed : ∃ s,
    (machine ephemeralOrders 100).ReachableUnder (Timely ephemeralOrders 100) s ∧ s.close = .returned ∧
      s.registration = .removed ∧ Released s := by
  have hstart : (machine ephemeralOrders 100).Start {} := rfl
  obtain ⟨s, hs, hend⟩ := Machine.exists_reachableUnder
    (M := machine ephemeralOrders 100) (c := fun s a => decide (Timely ephemeralOrders 100 s a)) hstart followed
    (fun s => (s.close, s.registration)) (b := (.returned, .removed)) (by decide +kernel)
  have hs := hs.mono fun _ _ hc => of_decide_eq_true hc
  obtain ⟨hreturned, hremoved⟩ : s.close = .returned ∧ s.registration = .removed := by simpa using hend
  exact ⟨s, hs, hreturned, hremoved, close_releases ephemeralOrders 100 hs⟩

/-- The stream was found connected, is closed, and creates its executor. -/
def closedBefore : List Action :=
  [.connect, .connect, .connect, .connect, .close, .close, .close, .connect, .connect, .connect,
    .executor (.isConnected 0), .connect]

/-- The same before a catchup query. -/
def closedBeforeCatchup : List Action :=
  [.connect, .connect, .close, .close, .close, .connect, .connect]

/-- An executor that nobody unregisters or cancels; and a query of a closed stream. -/
theorem executor_survives :
    (∃ s, (machine ephemeralOrders 100).Reachable s ∧ s.connect = .over ∧ s.close = .returned ∧
      s.registration = .yes ∧ (∃ e, s.executor = some e ∧ ¬ TimerCancelled e) ∧ ¬ Released s) ∧
    ∃ s, (machine { specs := [ofOrders] } 100).Reachable s ∧ s.close = .returned ∧ s.late = 1 ∧
      ¬ Released s := by
  constructor
  · have hstart : (machine ephemeralOrders 100).Start {} := rfl
    obtain ⟨s, hs, hend⟩ := Machine.exists_reachable hstart closedBefore
      (fun s => (s.connect, s.close, s.registration, s.executor.map CondensedQuery.State.cancel))
      (b := (.over, .returned, .yes, some .no)) (by decide +kernel)
    obtain ⟨hover, hreturned, hyes, hcancel⟩ : s.connect = .over ∧ s.close = .returned ∧
        s.registration = .yes ∧ s.executor.map CondensedQuery.State.cancel = some .no := by simpa using hend
    obtain ⟨e, he, hno⟩ := Option.map_eq_some_iff.mp hcancel
    refine ⟨s, hs, hover, hreturned, hyes, ⟨e, he, by simp [TimerCancelled, hno]⟩, fun hreleased => ?_⟩
    exact (hreleased.executor hover (.inl hreturned)).1 hyes
  · have hstart : (machine { specs := [ofOrders] } 100).Start {} := rfl
    obtain ⟨s, hs, hend⟩ := Machine.exists_reachable hstart closedBeforeCatchup
      (fun s => (s.close, s.late)) (b := (.returned, 1)) (by decide +kernel)
    obtain ⟨hreturned, hlate⟩ : s.close = .returned ∧ s.late = 1 := by simpa using hend
    refine ⟨s, hs, hreturned, hlate, fun hreleased => ?_⟩
    rw [hreleased.late] at hlate
    cases hlate

end ClosingStream
end FactCast
