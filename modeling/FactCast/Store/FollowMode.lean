import FactCast.Store.CondensedQuery
import FactCast.Store.Notification
import FactCast.Store.StreamNext

/-! Following.

A commit notifies, and the notifications reach the listener over a connection that may be
lost with whatever is on its way; a fresh connection listens first and then tells everybody.
A signal reaches the executors that are registered when it is posted, so that a stream
triggers its executor once itself after it has registered it. The executor condenses, and
runs the query of the stream.

Nothing is forgotten on the way: as long as a connected stream has not handed over a fact
that matches, something is still to come that leads to a query (`Inv.awaited`). -/
namespace FactCast.FollowMode
open PgListener (PGNotification processNotifications)

structure Setting where
  pg : Postgres
  db : Database
  request : SubscriptionRequest
  maxDelayInMillis : Int

inductive Listener where
  | down
  /-- It has executed its LISTEN statements, and is to inform the subscribers. -/
  | fresh
  | informed
deriving DecidableEq

structure State where
  listener : Listener
  /-- On the way to the listener. -/
  wire : List PGNotification
  /-- Arrived and not yet received. -/
  arrived : List PGNotification
  stream : PgFactStream.State
  executor : CondensedQuery.State
  /-- The executor was registered, and not yet triggered by the stream itself. -/
  registered : Bool

inductive Action where
  | publish (txId : Nat) (rows : List FactRow)
  /-- Any other notification. -/
  | notify (n : PGNotification)
  /-- The connection is lost. -/
  | lose
  | listen
  | inform
  | arrive
  | receive
  /-- The stream's own steps. -/
  | stream (a : PgFactStream.Action)
  | register
  /-- The stream triggers the executor. -/
  | trigger
  | executor (a : CondensedQuery.Action)

section Steps
variable (d : Setting) (s : State)

def interests : List String := CondensedQueryExecutor.extractInterests d.request.specs

/-- A signal for which the executor is triggered. -/
def rouses (signal : PgListener.Signal) : Bool :=
  match signal.factInsertion? with
  | some ev => CondensedQueryExecutor.mightMatch (interests d) ev.ns ev.type
  | none => false

def post (signal : PgListener.Signal) : State :=
  if s.stream.phase.follows && rouses d signal then { s with executor := CondensedQuery.trigger s.executor } else s

/-- What is sent to a listener that is connected. -/
def send (ns : List PGNotification) : State :=
  if s.listener = .down then s else { s with wire := s.wire ++ ns }

def publish (txId : Nat) (rows : List FactRow) : Option State :=
  (PgFactStream.publish s.stream rows).map fun stream =>
    send { s with stream := stream } ((NotifyFactInsert.raised d.pg txId [] rows).map fun doc => ⟨.factInsert, doc⟩)

def lose : State := { s with listener := .down, wire := [], arrived := [] }

def listen : Option State := if s.listener = .down then some { s with listener := .fresh } else none

def informSubscribersAboutFreshConnection : List PgListener.Signal :=
  [.factInsertion ⟨.scheduledPoll, none, none⟩, .blacklistChange]

def inform : Option State :=
  if s.listener = .fresh then
    some (informSubscribersAboutFreshConnection.foldl (post d) { s with listener := .informed })
  else none

def arrive : Option State :=
  match s.wire with
  | n :: rest => some { s with arrived := s.arrived ++ [n], wire := rest }
  | [] => none

/-- All that has arrived is received at once. -/
def receive : Option State :=
  if s.listener = .informed ∧ s.arrived ≠ [] then
    some ((processNotifications d.pg s.arrived).foldl (post d) { s with arrived := [] })
  else none

/-- What becomes of the stream, and whether its executor finds it connected. -/
def move (stream : PgFactStream.State) : State :=
  { s with stream := stream, executor := { s.executor with connected := !stream.disconnected } }

def stream : PgFactStream.Action → Option State
  | .publish _ => none
  | .register => none
  | .trigger => none
  | a => (PgFactStream.step d.db d.request s.stream a).map (move s)

def register : Option State :=
  (PgFactStream.register d.request s.stream).map fun stream =>
    { move s stream with registered := stream.phase.follows }

def trigger : Option State :=
  if s.registered then some { s with registered := false, executor := CondensedQuery.trigger s.executor } else none

/-- A run of the target is one of the stream's query. -/
def executor : CondensedQuery.Action → Option State
  | .trigger => none
  | .disconnect => none
  | .cancel =>
    if s.stream.disconnected then
      (CondensedQuery.cancel s.executor).map fun executor => { s with executor := executor }
    else none
  | .enter r =>
    (CondensedQuery.enter s.executor r).bind fun executor =>
      (PgFactStream.trigger s.stream).map fun stream => { s with stream := stream, executor := executor }
  | .leave =>
    match s.stream.phase with
    | .idle => (CondensedQuery.leave s.executor).map fun executor => { s with executor := executor }
    | _ => none
  | a => (CondensedQuery.step d.maxDelayInMillis s.executor a).map fun executor => { s with executor := executor }

end Steps

def step (d : Setting) (s : State) : Action → Option State
  | .publish txId rows => publish d s txId rows
  | .notify n => some (send s [n])
  | .lose => some (lose s)
  | .listen => listen s
  | .inform => inform d s
  | .arrive => arrive s
  | .receive => receive d s
  | .stream a => stream d s a
  | .register => register d s
  | .trigger => trigger s
  | .executor a => executor d s a

structure Start (s : State) : Prop where
  stream : PgFactStream.Start s.stream
  executor : s.executor = { connected := !s.stream.disconnected }
  registered : s.registered = false

def following (d : Setting) : Machine State Action where
  Start := Start
  step := step d

/-- Every transaction with a fact for the stream is noticed, and no follow run fails. -/
structure Regular (d : Setting) (s : State) (a : Action) : Prop where
  noticed : ∀ txId rows, a = .publish txId rows → (∃ row ∈ rows, PgFactStream.matching d.db d.request row = true) →
    Notification.Noticed d.pg txId d.request.specs rows
  completes : a = .stream .fail → s.stream.phase.follows = false

/-! ### What is to come -/

/-- Some fact lies behind what the queries saw. -/
def Waiting (d : Setting) (s : PgFactStream.State) : Prop :=
  match s.phase with
  | .idle => ∃ row ∈ s.log, PgFactStream.matching d.db d.request row = true ∧ s.serial < row.ser
  | .running _ _ => ∃ row ∈ s.log, PgFactStream.matching d.db d.request row = true ∧ row ∉ s.snapshot
  | _ => False

/-- The notifications lead to a trigger, in whatever arrays they are received. -/
def Rouse (d : Setting) (ns : List PGNotification) : Prop :=
  ∃ signal ∈ processNotifications d.pg ns, rouses d signal = true

/-- A query is on its way. -/
def Awaited (d : Setting) (s : State) : Prop :=
  s.listener ≠ .informed ∨ Rouse d (s.arrived ++ s.wire) ∨ s.registered = true ∨
    CondensedQuery.Within 9 s.executor

structure Inv (d : Setting) (s : State) : Prop where
  executor : s.stream.disconnected = false → CondensedQuery.Following s.executor
  awaited : s.stream.disconnected = false → Waiting d s.stream → Awaited d s

/-! ### Signals -/

section Signals
variable {d : Setting} {s : State} {ns more : List PGNotification}

/-- To have told everybody already leaves nothing out but that. -/
theorem processNotification_true (pg : Postgres) (n : PGNotification) (once : Bool) :
    (PgListener.processNotification pg n true).2 = true ∧
      (PgListener.processNotification pg n true).1 ⊆ (PgListener.processNotification pg n once).1 := by
  unfold PgListener.processNotification
  cases n.name with
  | factInsert =>
    unfold PgListener.processFactInsertNotification
    cases PgListener.nsAndType pg n with
    | none => exact ⟨rfl, List.nil_subset _⟩
    | some p => exact ⟨rfl, List.Subset.refl _⟩
  | _ => exact ⟨rfl, List.Subset.refl _⟩

theorem processFrom_true (pg : Postgres) (ns : List PGNotification) (once : Bool) :
    PgListener.processFrom pg true ns ⊆ PgListener.processFrom pg once ns := by
  induction ns generalizing once with
  | nil => exact List.Subset.refl _
  | cons n rest ih =>
    obtain ⟨htold, hsub⟩ := processNotification_true pg n once
    intro signal h
    simp only [PgListener.processFrom, List.mem_append] at h ⊢
    rw [htold] at h
    exact h.imp (fun h => hsub h) fun h => ih _ h

theorem mem_processFrom_append {pg : Postgres} {once : Bool} {signal : PgListener.Signal}
    (h : signal ∈ PgListener.processFrom pg once (ns ++ more)) :
    signal ∈ PgListener.processFrom pg once ns ∨ signal ∈ processNotifications pg more := by
  induction ns generalizing once with
  | nil =>
    cases once with
    | true => exact .inr (processFrom_true pg more false h)
    | false => exact .inr h
  | cons n rest ih =>
    simp only [List.cons_append, PgListener.processFrom, List.mem_append] at h ⊢
    rcases h with h | h
    · exact .inl (.inl h)
    · exact (ih h).imp .inr id

theorem processFrom_subset_append (pg : Postgres) (once : Bool) :
    PgListener.processFrom pg once ns ⊆ PgListener.processFrom pg once (ns ++ more) := by
  induction ns generalizing once with
  | nil => exact List.nil_subset _
  | cons n rest ih =>
    intro signal h
    simp only [List.cons_append, PgListener.processFrom, List.mem_append] at h ⊢
    exact h.imp id fun h => ih _ h

theorem Rouse.append (h : Rouse d ns) : Rouse d (ns ++ more) := by
  obtain ⟨signal, hmem, hrouses⟩ := h
  exact ⟨signal, processFrom_subset_append d.pg false hmem, hrouses⟩

/-- What is received in two arrays rouses with one of them. -/
theorem Rouse.split (h : Rouse d (ns ++ more)) : Rouse d ns ∨ Rouse d more := by
  obtain ⟨signal, hmem, hrouses⟩ := h
  exact (mem_processFrom_append hmem).imp (fun hmem => ⟨signal, hmem, hrouses⟩) fun hmem => ⟨signal, hmem, hrouses⟩

theorem rouse_of_noticed {txId : Nat} {rows : List FactRow}
    (h : Notification.Noticed d.pg txId d.request.specs rows) :
    Rouse d (ns ++ (NotifyFactInsert.raised d.pg txId [] rows).map fun doc => ⟨.factInsert, doc⟩) := by
  obtain ⟨array, harray, signal, hsignal, ev, hev, hwakes⟩ :=
    h [ns ++ (NotifyFactInsert.raised d.pg txId [] rows).map fun doc => ⟨.factInsert, doc⟩]
      fun doc hdoc => ⟨_, List.mem_singleton_self _, List.mem_append_right _ (List.mem_map_of_mem hdoc)⟩
  rw [List.mem_singleton.mp harray] at hsignal
  refine ⟨signal, hsignal, ?_⟩
  unfold rouses
  rw [hev]
  exact hwakes.1

/-- Every signal that rouses begins a call. -/
theorem foldl_post (d : Setting) (signals : List PgListener.Signal) (s : State) : signals.foldl (post d) s =
    { s with executor :=
        CondensedQuery.trigger^[if s.stream.phase.follows then signals.countP (rouses d) else 0] s.executor } := by
  induction signals generalizing s with
  | nil => cases s.stream.phase.follows <;> rfl
  | cons signal rest ih =>
    rw [List.foldl_cons, ih]
    unfold post
    cases hfollows : s.stream.phase.follows with
    | false => simp [hfollows]
    | true =>
      cases hrouses : rouses d signal with
      | false => simp [hfollows, hrouses]
      | true => simp [hfollows, hrouses]

variable {executor : CondensedQuery.State}

theorem following_triggers (h : CondensedQuery.Following executor) (n : Nat) :
    CondensedQuery.Following (CondensedQuery.trigger^[n] executor) := by
  induction n with
  | zero => exact h
  | succ n ih =>
    rw [Function.iterate_succ_apply']
    exact CondensedQuery.following_trigger ih

theorem within_trigger (executor : CondensedQuery.State) : CondensedQuery.Within 9 (CondensedQuery.trigger executor) :=
  ⟨.begun executor.calls.length, by simp, by simp [CondensedQuery.Stage.At, CondensedQuery.trigger]⟩

theorem within_triggers {n : Nat} (h : CondensedQuery.Within 9 executor ∨ 0 < n) :
    CondensedQuery.Within 9 (CondensedQuery.trigger^[n] executor) := by
  cases n with
  | zero => exact h.resolve_right (Nat.lt_irrefl 0)
  | succ n =>
    rw [Function.iterate_succ_apply']
    exact within_trigger _

end Signals

/-! ### The invariant -/

section Invariant
variable {d : Setting} {s s' : State} {stream stream' : PgFactStream.State}

theorem Awaited.kept (h : Awaited d s) (hlistener : s.listener ≠ .informed → s'.listener ≠ .informed)
    (hqueue : Rouse d (s.arrived ++ s.wire) → Rouse d (s'.arrived ++ s'.wire))
    (hregistered : s.registered = true → s'.registered = true)
    (hexecutor : CondensedQuery.Within 9 s.executor → CondensedQuery.Within 9 s'.executor) : Awaited d s' :=
  h.imp hlistener (Or.imp hqueue (Or.imp hregistered hexecutor))

theorem Waiting.follows (h : Waiting d stream) : stream.phase.follows = true := by
  unfold Waiting at h
  split at h
  · rename_i hphase
    rw [hphase]
    rfl
  · rename_i hphase
    rw [hphase]
    rfl
  · exact h.elim

/-- Only the executor begins runs. -/
theorem within_step {a : CondensedQuery.Action} {executor : CondensedQuery.State}
    (h : CondensedQuery.Following s.executor) (hf : CondensedQuery.Follows s.executor a)
    (hs : CondensedQuery.step d.maxDelayInMillis s.executor a = some executor)
    (hw : CondensedQuery.Within 9 s.executor) : CondensedQuery.Starts a ∨ CondensedQuery.Within 9 executor := by
  obtain ⟨j, hj, hat⟩ := hw
  by_cases ha : a = j.help
  · subst ha
    exact (CondensedQuery.Stage.helps h j hat hs).imp_right fun hw => hw.mono (Nat.le_of_lt hj)
  · by_cases hstarts : CondensedQuery.Starts a
    · exact .inl hstarts
    · exact .inr ⟨j, hj, CondensedQuery.Stage.lasts h hf j hat hs ha hstarts⟩

theorem publish_eq {rows : List FactRow}
    (hs : PgFactStream.publish stream rows = some stream') : stream' = { stream with log := stream.log ++ rows } := by
  unfold PgFactStream.publish at hs
  split at hs
  · exact (Option.some.inj hs).symm
  · cases hs

theorem waiting_publish {rows : List FactRow}
    (h : Waiting d { stream with log := stream.log ++ rows }) :
    Waiting d stream ∨ ∃ row ∈ rows, PgFactStream.matching d.db d.request row = true := by
  unfold Waiting at h ⊢
  cases hp : stream.phase with
  | idle =>
    simp only [hp] at h
    obtain ⟨row, hrow, hm, hser⟩ := h
    exact (List.mem_append.mp hrow).imp (fun hrow => ⟨row, hrow, hm, hser⟩) fun hrow => ⟨row, hrow, hm⟩
  | running n todo =>
    simp only [hp] at h
    obtain ⟨row, hrow, hm, hnew⟩ := h
    exact (List.mem_append.mp hrow).imp (fun hrow => ⟨row, hrow, hm, hnew⟩) fun hrow => ⟨row, hrow, hm⟩
  | _ =>
    simp only [hp] at h

theorem send_eq (s : State) (ns : List PGNotification) :
    send s ns = { s with wire := s.wire ++ if s.listener = .down then [] else ns } := by
  unfold send
  split <;> simp

theorem inv_send {ns : List PGNotification} (h : Inv d s) : Inv d (send s ns) := by
  rw [send_eq]
  refine ⟨h.executor, fun hc hw => (h.awaited hc hw).kept id (fun hrouse => ?_) id id⟩
  rw [← List.append_assoc]
  exact hrouse.append

theorem inv_publish {txId : Nat} {rows : List FactRow} (h : Inv d s) (hr : Regular d s (.publish txId rows))
    (hs : publish d s txId rows = some s') : Inv d s' := by
  obtain ⟨stream, hstream, rfl⟩ := Option.map_eq_some_iff.mp hs
  obtain rfl := publish_eq hstream
  rw [send_eq]
  refine ⟨h.executor, fun hc hw => ?_⟩
  rcases waiting_publish hw with hold | hnew
  · refine (h.awaited hc hold).kept id (fun hrouse => ?_) id id
    rw [← List.append_assoc]
    exact hrouse.append
  · by_cases hlistener : s.listener = .informed
    · refine .inr (.inl ?_)
      rw [if_neg (by simp [hlistener]), ← List.append_assoc]
      exact rouse_of_noticed (hr.noticed txId rows rfl hnew)
    · exact .inl hlistener

theorem inv_lose (h : Inv d s) : Inv d (lose s) := ⟨h.executor, fun _ _ => .inl (by simp [lose])⟩

theorem inv_listen (h : Inv d s) (hs : listen s = some s') : Inv d s' := by
  unfold listen at hs
  split at hs
  · cases hs
    exact ⟨h.executor, fun _ _ => .inl (by simp)⟩
  · cases hs

/-- Signals change nothing but the executor. -/
theorem Inv.posted {executor : CondensedQuery.State} {listener : Listener} {arrived : List PGNotification} {n : Nat}
    (h : Inv d s) (hexecutor : executor = CondensedQuery.trigger^[n] s.executor)
    (hawaited : s.stream.disconnected = false → Waiting d s.stream →
      Awaited d { s with listener := listener, arrived := arrived, executor := executor }) :
    Inv d { s with listener := listener, arrived := arrived, executor := executor } := by
  refine ⟨fun hc => ?_, hawaited⟩
  rw [hexecutor]
  exact following_triggers (h.executor hc) n

theorem inv_inform (h : Inv d s) (hs : inform d s = some s') : Inv d s' := by
  unfold inform at hs
  split at hs
  · cases hs
    rw [foldl_post]
    refine h.posted rfl fun _ hw => .inr (.inr (.inr (within_triggers (.inr ?_))))
    rw [if_pos hw.follows]
    exact Nat.one_pos
  · cases hs

theorem inv_arrive (h : Inv d s) (hs : arrive s = some s') : Inv d s' := by
  unfold arrive at hs
  split at hs
  · rename_i n rest hwire
    cases hs
    refine ⟨h.executor, fun hc hw => (h.awaited hc hw).kept id (fun hrouse => ?_) id id⟩
    rw [hwire] at hrouse
    simpa using hrouse
  · cases hs

theorem inv_receive (h : Inv d s) (hs : receive d s = some s') : Inv d s' := by
  unfold receive at hs
  split at hs
  · cases hs
    rw [foldl_post]
    refine h.posted rfl fun hc hw => ?_
    rcases h.awaited hc hw with hlistener | hrouse | hregistered | hexecutor
    · exact .inl hlistener
    · rcases hrouse.split with ⟨signal, hmem, hrouses⟩ | hrest
      · refine .inr (.inr (.inr (within_triggers (.inr ?_))))
        rw [if_pos hw.follows]
        exact List.countP_pos_iff.mpr ⟨signal, hmem, hrouses⟩
      · exact .inr (.inl hrest)
    · exact .inr (.inr (.inl hregistered))
    · exact .inr (.inr (.inr (within_triggers (.inl hexecutor))))
  · cases hs

/-- A run leaves out what was committed after its query, and nothing else. -/
theorem waiting_of_leads (hi : PgFactStream.Inv d.db d.request stream) (hc : stream.disconnected = false)
    (hlog : stream'.log = stream.log) (hleads : stream.phase.Leads d.request stream stream')
    (hw : Waiting d stream') : Waiting d stream ∨ stream.phase = .register := by
  cases hp : stream.phase with
  | register => exact .inr rfl
  | connecting =>
    rw [hp] at hleads
    have hphase : stream'.phase = _ := hleads
    split at hphase <;> simp [Waiting, hphase] at hw
  | jumping =>
    rw [hp] at hleads
    simp [Waiting, show stream'.phase = _ from hleads] at hw
  | catchup second =>
    rw [hp] at hleads
    obtain ⟨rows, hphase⟩ := hleads
    simp [Waiting, hphase] at hw
  | fetching second todo =>
    rw [hp] at hleads
    cases todo with
    | nil =>
      have hphase : stream'.phase = PgFactStream.afterCatchup second := hleads
      cases second <;> simp [Waiting, hphase, PgFactStream.afterCatchup] at hw
    | cons r todo => simp [Waiting, show stream'.phase = _ from hleads] at hw
  | fastForward =>
    rw [hp] at hleads
    obtain ⟨startedSer, targetId, hphase⟩ := hleads
    simp [Waiting, hphase] at hw
  | readTarget startedSer targetId =>
    rw [hp] at hleads
    simp [Waiting, show stream'.phase = _ from hleads] at hw
  | signalCatchup =>
    rw [hp] at hleads
    simp [Waiting, show stream'.phase = _ from hleads] at hw
  | latest n =>
    rw [hp] at hleads
    obtain ⟨hsnapshot, rows, hphase⟩ := hleads
    simp only [Waiting, hphase, hlog, hsnapshot] at hw
    obtain ⟨row, hrow, _, hnew⟩ := hw
    exact absurd hrow hnew
  | running n todo =>
    rw [hp] at hleads
    left
    unfold Waiting at hw ⊢
    rw [hp]
    cases todo with
    | cons r todo =>
      obtain ⟨hsnapshot, hphase⟩ := hleads
      simpa only [hphase, hlog, hsnapshot] using hw
    | nil =>
      obtain ⟨_, hphase, hserial, _⟩ := hleads
      simp only [hphase, hlog, hserial] at hw
      obtain ⟨row, hrow, hm, hbehind⟩ := hw
      refine ⟨row, hrow, hm, fun hseen => ?_⟩
      -- what the query saw was handed over, and the serial is not below it
      have hcov := (hi.covered hp hc).1
      have hmem : row ∈ stream.facts := by
        have hhanded := hcov.handed
        rw [List.append_nil] at hhanded
        rw [hhanded]
        exact Log.mem_after.mpr ⟨hseen, hm, by have := hcov.moved; omega⟩
      have := hcov.passed row hmem
      omega
  | idle =>
    rw [hp] at hleads
    exact hleads.elim
  | ended =>
    rw [hp] at hleads
    exact hleads.elim

theorem stream_eq {a : PgFactStream.Action} (hs : FollowMode.stream d s a = some s') :
    (∀ rows, a ≠ .publish rows) ∧ a ≠ .register ∧ a ≠ .trigger ∧
      ∃ stream, PgFactStream.step d.db d.request s.stream a = some stream ∧ s' = move s stream := by
  have hmap : (PgFactStream.step d.db d.request s.stream a).map (move s) = some s' →
      ∃ stream, PgFactStream.step d.db d.request s.stream a = some stream ∧ s' = move s stream := fun h =>
    let ⟨stream, hstream, heq⟩ := Option.map_eq_some_iff.mp h
    ⟨stream, hstream, heq.symm⟩
  cases a with
  | publish rows => cases hs
  | register => cases hs
  | trigger => cases hs
  | _ => exact ⟨by simp, by simp, by simp, hmap hs⟩

/-- The executor of a connected stream finds it connected. -/
theorem Inv.move_eq (h : Inv d s) (hc : stream.disconnected = false) (hold : s.stream.disconnected = false) :
    move s stream = { s with stream := stream } := by
  have hconnected := (h.executor hold).connected
  unfold move
  rw [hc, Bool.not_false, ← hconnected]

theorem Inv.executor_move (h : Inv d s) (hold : stream.disconnected = false → s.stream.disconnected = false)
    (hc : stream.disconnected = false) : CondensedQuery.Following (move s stream).executor := by
  rw [h.move_eq hc (hold hc)]
  exact h.executor (hold hc)

theorem inv_stream {a : PgFactStream.Action} (hi : PgFactStream.Inv d.db d.request s.stream) (h : Inv d s) (hr : Regular d s (.stream a))
    (hs : FollowMode.stream d s a = some s') : Inv d s' := by
  obtain ⟨hpublish, hregister, htrigger, stream, hstream, rfl⟩ := stream_eq hs
  have hold : stream.disconnected = false → s.stream.disconnected = false := PgFactStream.connected_of_step hstream
  refine ⟨h.executor_move hold, fun hc hw => ?_⟩
  · have hc : stream.disconnected = false := hc
    have hw : Waiting d stream := hw
    rw [h.move_eq hc (hold hc)]
    have hbefore : Waiting d s.stream := by
      rcases PgFactStream.next_of_step (hold hc) hstream with hnext | ⟨rows, rfl⟩ | rfl | rfl | rfl | rfl | rfl |
        ⟨handed, rfl⟩
      · obtain ⟨_, hlog, hleads⟩ := PgFactStream.leads_of_next (hold hc) hnext hstream
        refine (waiting_of_leads hi (hold hc) hlog hleads hw).resolve_right fun hphase => hregister ?_
        rw [hphase] at hnext
        exact (Option.some.inj hnext).symm
      · exact absurd rfl (hpublish rows)
      · cases hstream
        exact hw
      · obtain ⟨mark, _, rfl⟩ := Option.map_eq_some_iff.mp hstream
        exact hw
      · exact absurd rfl htrigger
      · cases hstream
        cases hc
      · -- a run of the stream that follows does not fail
        rcases PgFactStream.phase_of_fail hstream with hclosed | ⟨hfollows, _⟩
        · cases hclosed.symm.trans hc
        · cases (hr.completes rfl).symm.trans hfollows
      · cases (PgFactStream.closed_of_failRow hstream).symm.trans hc
    exact h.awaited (hold hc) hbefore

/-- A stream that has just registered has yet to trigger. -/
theorem inv_register (h : Inv d s) (hs : register d s = some s') : Inv d s' := by
  obtain ⟨stream, hstream, rfl⟩ := Option.map_eq_some_iff.mp hs
  have hold : stream.disconnected = false → s.stream.disconnected = false :=
    fun hc => @PgFactStream.connected_of_step d.db _ _ _ .register hstream hc
  exact ⟨h.executor_move hold, fun hc hw => .inr (.inr (.inl hw.follows))⟩

theorem inv_trigger (h : Inv d s) (hs : trigger s = some s') : Inv d s' := by
  unfold trigger at hs
  split at hs
  · cases hs
    exact ⟨fun hc => CondensedQuery.following_trigger (h.executor hc),
      fun _ _ => .inr (.inr (.inr (within_trigger _)))⟩
  · cases hs

/-- What the executor does; a run that it starts is one of the stream. -/
theorem executor_eq {a : CondensedQuery.Action} (hs : executor d s a = some s') :
    ∃ ex, CondensedQuery.step d.maxDelayInMillis s.executor a = some ex ∧
      (s.stream.disconnected = false → CondensedQuery.Follows s.executor a) ∧
      (¬ CondensedQuery.Starts a ∧ s' = { s with executor := ex } ∨
        (∃ r, a = .enter r) ∧ ∃ stream, PgFactStream.trigger s.stream = some stream ∧
          s' = { s with stream := stream, executor := ex }) := by
  have hplain : (CondensedQuery.step d.maxDelayInMillis s.executor a).map (fun ex => { s with executor := ex }) =
      some s' → (∀ r, a ≠ .enter r) → (s.stream.disconnected = false → CondensedQuery.Follows s.executor a) →
      ∃ ex, CondensedQuery.step d.maxDelayInMillis s.executor a = some ex ∧
      (s.stream.disconnected = false → CondensedQuery.Follows s.executor a) ∧
      (¬ CondensedQuery.Starts a ∧ s' = { s with executor := ex } ∨
        (∃ r, a = .enter r) ∧ ∃ stream, PgFactStream.trigger s.stream = some stream ∧
          s' = { s with stream := stream, executor := ex }) := by
    intro hmap hstarts hfollows
    obtain ⟨ex, hex, heq⟩ := Option.map_eq_some_iff.mp hmap
    exact ⟨ex, hex, hfollows, .inl ⟨fun ⟨r, hr⟩ => hstarts r hr, heq.symm⟩⟩
  cases a with
  | trigger => cases hs
  | disconnect => cases hs
  | cancel =>
    simp only [executor] at hs
    split at hs
    · rename_i hclosed
      refine hplain hs (by simp) fun hc => ?_
      cases hclosed.symm.trans hc
    · cases hs
  | enter r =>
    simp only [executor, Option.bind_eq_some_iff, Option.map_eq_some_iff] at hs
    obtain ⟨ex, hex, stream, hstream, rfl⟩ := hs
    exact ⟨ex, hex, fun _ => ⟨by simp, by simp⟩, .inr ⟨⟨r, rfl⟩, stream, hstream, rfl⟩⟩
  | leave =>
    simp only [executor] at hs
    split at hs
    · exact hplain hs (by simp) fun _ => ⟨by simp, by simp⟩
    · cases hs
  | _ => exact hplain hs (by simp) fun _ => ⟨by simp, by simp⟩

/-- Whatever happens to the stream is a step of its own. -/
theorem stream_step {a : Action} (hs : step d s a = some s') :
    s'.stream = s.stream ∨ ∃ b, PgFactStream.step d.db d.request s.stream b = some s'.stream := by
  cases a with
  | publish txId rows =>
    obtain ⟨stream, hstream, rfl⟩ := Option.map_eq_some_iff.mp hs
    rw [send_eq]
    exact .inr ⟨.publish rows, hstream⟩
  | notify n =>
    cases hs
    rw [send_eq]
    exact .inl rfl
  | lose =>
    cases hs
    exact .inl rfl
  | listen =>
    simp only [step, listen] at hs
    split at hs <;> cases hs
    exact .inl rfl
  | inform =>
    simp only [step, inform] at hs
    split at hs <;> cases hs
    rw [foldl_post]
    exact .inl rfl
  | arrive =>
    simp only [step, arrive] at hs
    split at hs <;> cases hs
    exact .inl rfl
  | receive =>
    simp only [step, receive] at hs
    split at hs <;> cases hs
    rw [foldl_post]
    exact .inl rfl
  | stream a =>
    obtain ⟨_, _, _, stream, hstream, rfl⟩ := stream_eq hs
    exact .inr ⟨a, hstream⟩
  | register =>
    obtain ⟨stream, hstream, rfl⟩ := Option.map_eq_some_iff.mp hs
    exact .inr ⟨.register, hstream⟩
  | trigger =>
    simp only [step, trigger] at hs
    split at hs <;> cases hs
    exact .inl rfl
  | executor a =>
    obtain ⟨ex, _, _, ⟨_, rfl⟩ | ⟨_, stream, hstream, rfl⟩⟩ := executor_eq hs
    · exact .inl rfl
    · exact .inr ⟨.trigger, hstream⟩

/-- The stream by itself has taken a run of its own. -/
theorem reachable_stream {C : State → Action → Prop} (h : (following d).ReachableUnder C s) :
    (PgFactStream.streaming d.db d.request).Reachable s.stream := by
  induction h with
  | start h => exact .start h.stream
  | step _ _ hs ih =>
    rcases stream_step hs with hsame | ⟨b, hb⟩
    · rw [hsame]
      exact ih
    · exact .step ih trivial hb

/-- A run begins only where the executor was on its way to it. -/
theorem inv_executor {a : CondensedQuery.Action} (h : Inv d s) (hs : executor d s a = some s') : Inv d s' := by
  obtain ⟨ex, hex, hfollows, ⟨hstarts, rfl⟩ | ⟨_, stream, hstream, rfl⟩⟩ := executor_eq hs
  · refine ⟨fun hc => CondensedQuery.following_step (h.executor hc) (hfollows hc) hex, fun hc hw => ?_⟩
    exact (h.awaited hc hw).kept id id id fun hwithin =>
      (within_step (h.executor hc) (hfollows hc) hex hwithin).resolve_left hstarts
  · unfold PgFactStream.trigger at hstream
    split at hstream
    · cases hstream
      exact ⟨fun hc => CondensedQuery.following_step (h.executor hc) (hfollows hc) hex,
        fun hc hw => by simp [Waiting] at hw⟩
    · cases hstream

theorem inv_step {a : Action} (hi : PgFactStream.Inv d.db d.request s.stream) (h : Inv d s) (hr : Regular d s a) (hs : step d s a = some s') : Inv d s' := by
  cases a with
  | publish txId rows => exact inv_publish h hr hs
  | notify n =>
    cases hs
    exact inv_send h
  | lose =>
    cases hs
    exact inv_lose h
  | listen => exact inv_listen h hs
  | inform => exact inv_inform h hs
  | arrive => exact inv_arrive h hs
  | receive => exact inv_receive h hs
  | stream a => exact inv_stream hi h hr hs
  | register => exact inv_register h hs
  | trigger => exact inv_trigger h hs
  | executor a => exact inv_executor h hs

theorem inv_start (h : Start s) : Inv d s := by
  refine ⟨fun hc => ?_, fun _ hw => ?_⟩
  · rw [h.executor, hc]
    exact CondensedQuery.following_start
  · simp [Waiting, h.stream.phase] at hw

theorem inv (h : (following d).ReachableUnder (Regular d) s) : Inv d s :=
  h.invariant_from (fun _ => inv_start) fun _ _ _ hreach hi hr hs =>
    inv_step (PgFactStream.inv (reachable_stream hreach)) hi hr hs

end Invariant

/-! ### At rest -/

/-- What the parties do once they can: the listener, the executor, and the stream by itself. -/
def Due : Action → Prop
  | .listen => True
  | .inform => True
  | .arrive => True
  | .receive => True
  | .stream a => a.own = true
  | .register => True
  | .trigger => True
  | .executor a => CondensedQuery.Due a
  | _ => False

section Rest
variable {d : Setting} {s : State}

/-- A step of the stream's own, taken here. -/
def ofStream : PgFactStream.Action → Action
  | .register => .register
  | a => .stream a

theorem due_ofStream {a : PgFactStream.Action} (hown : a.own = true) : Due (ofStream a) := by
  cases a with
  | register => trivial
  | _ => exact hown

theorem isSome_ofStream {a : PgFactStream.Action} (hown : a.own = true)
    (h : (PgFactStream.step d.db d.request s.stream a).isSome) : (step d s (ofStream a)).isSome := by
  cases a with
  | publish rows => cases hown
  | trigger => cases hown
  | register => simpa [ofStream, step, register, PgFactStream.step] using h
  | _ => simpa [ofStream, step, FollowMode.stream] using h

theorem isSome_executor {a : CondensedQuery.Action} (hphase : s.stream.phase = .idle) (hdue : CondensedQuery.Due a)
    (h : (CondensedQuery.step d.maxDelayInMillis s.executor a).isSome) : (executor d s a).isSome := by
  cases a with
  | trigger => exact hdue.elim
  | disconnect => exact hdue.elim
  | cancel => exact hdue.elim
  | enter r =>
    obtain ⟨ex, hex⟩ := Option.isSome_iff_exists.mp h
    simp [executor, show CondensedQuery.enter s.executor r = some ex from hex, PgFactStream.trigger, hphase]
  | leave => simpa [executor, hphase, CondensedQuery.step] using h
  | _ => simpa [executor] using h

/-- What is to come is something that can be done. -/
theorem possible_of_awaited (h : Inv d s) (hc : s.stream.disconnected = false) (hphase : s.stream.phase = .idle)
    (hawaited : Awaited d s) : ∃ a, Due a ∧ (step d s a).isSome := by
  by_cases hlistener : s.listener = .informed
  · rcases hawaited with hlistener' | hrouse | hregistered | ⟨j, _, hat⟩
    · exact absurd hlistener hlistener'
    · by_cases harrived : s.arrived = []
      · obtain ⟨n, rest, hwire⟩ : ∃ n rest, s.wire = n :: rest := by
          cases hwire : s.wire with
          | nil =>
            obtain ⟨signal, hmem, _⟩ := hrouse
            rw [harrived, hwire] at hmem
            cases hmem
          | cons n rest => exact ⟨n, rest, rfl⟩
        exact ⟨.arrive, trivial, by simp [step, arrive, hwire]⟩
      · exact ⟨.receive, trivial, by simp [step, receive, hlistener, harrived]⟩
    · exact ⟨.trigger, trivial, by simp [step, trigger, hregistered]⟩
    · have hdue : CondensedQuery.Due j.help := (CondensedQuery.stages d.maxDelayInMillis).due j
      exact ⟨.executor j.help, hdue,
        isSome_executor hphase hdue (CondensedQuery.Stage.possible (h.executor hc) j hat)⟩
  · cases hl : s.listener with
    | down => exact ⟨.listen, trivial, by simp [step, listen, hl]⟩
    | fresh => exact ⟨.inform, trivial, by simp [step, inform, hl]⟩
    | informed => exact absurd hl hlistener

/-- In whatever order facts are committed, the connection of the listener is lost and comes
back, calls and tasks begin and end: when nobody is to do anything any more, a subscription
that follows has handed over all there is for it. -/
theorem nothing_forgotten (d : Setting) (hexec : PgFactStream.Executes d.db d.request)
    (hcontinuous : d.request.continuous = true) (s : State) (h : (following d).ReachableUnder (Regular d) s)
    (hc : s.stream.disconnected = false) (hrest : ∀ a, Due a → step d s a = none) :
    s.stream.facts = Log.after FactRow.ser (PgFactStream.matching d.db d.request) s.stream.started s.stream.log := by
  have hno : ∀ a, Due a → ¬ (step d s a).isSome := fun a ha hsome => by simp [hrest a ha] at hsome
  have hphase : s.stream.phase = .idle := by
    have hunended := PgFactStream.unended hcontinuous (reachable_stream h) hc
    cases hnext : s.stream.phase.next with
    | some a =>
      have hown := PgFactStream.own_of_next hnext
      exact absurd (isSome_ofStream hown (PgFactStream.isSome_next hexec hc hnext)) (hno _ (due_ofStream hown))
    | none =>
      cases hp : s.stream.phase with
      | idle => rfl
      | ended => exact absurd hp hunended
      | fetching second todo => cases todo <;> simp [PgFactStream.Phase.next, hp] at hnext
      | running n todo => cases todo <;> simp [PgFactStream.Phase.next, hp] at hnext
      | _ => simp [PgFactStream.Phase.next, hp] at hnext
  have hi := PgFactStream.inv (reachable_stream h)
  have hcaught := hi.settled hphase id hc
  have hbehind : Log.after FactRow.ser (PgFactStream.matching d.db d.request) s.stream.serial s.stream.log = [] := by
    by_contra hsome
    obtain ⟨row, hrow⟩ := List.exists_mem_of_ne_nil _ hsome
    have hwaiting : Waiting d s.stream := by
      unfold Waiting
      rw [hphase]
      exact ⟨row, Log.mem_after.mp hrow⟩
    obtain ⟨a, ha, hpossible⟩ := possible_of_awaited (inv h) hc hphase ((inv h).awaited hc hwaiting)
    exact hno a ha hpossible
  rw [hcaught.handed, ← Log.between_append_after hi.ascending hcaught.moved, hbehind, List.append_nil]

end Rest

/-! ### A connection that is lost meanwhile -/

/-- Nothing is under way. -/
def State.rests (s : State) : Bool :=
  s.listener = .informed && s.wire.isEmpty && s.arrived.isEmpty && !s.registered &&
    (match s.stream.phase with
      | .idle => true
      | _ => false) &&
    s.executor.calls.all (· = .over) && s.executor.tasks = 0 && s.executor.timer = .idle && s.executor.inside.isNone

theorem none_of_rests {d : Setting} {s : State} {a : Action} (h : s.rests = true) (ha : Due a) : step d s a = none := by
  simp only [State.rests, Bool.and_eq_true, decide_eq_true_eq, List.isEmpty_iff, Bool.not_eq_true',
    List.all_eq_true, Option.isNone_iff_eq_none] at h
  obtain ⟨⟨⟨⟨⟨⟨⟨⟨hlistener, hwire⟩, harrived⟩, hregistered⟩, hphase⟩, hcalls⟩, htasks⟩, htimer⟩, hinside⟩ := h
  have hphase : s.stream.phase = .idle := by
    split at hphase
    · assumption
    · cases hphase
  have hover : ∀ (i : Nat) (c : CondensedQuery.Call), c ≠ .over → s.executor.calls[i]? ≠ some c :=
    fun i c hc hi => hc (hcalls c (List.mem_of_getElem? hi))
  cases a with
  | publish txId rows => exact ha.elim
  | notify n => exact ha.elim
  | lose => exact ha.elim
  | listen => simp [step, listen, hlistener]
  | inform => simp [step, inform, hlistener]
  | arrive => simp [step, arrive, hwire]
  | receive => simp [step, receive, harrived]
  | register => simp [step, register, PgFactStream.register, hphase]
  | trigger => simp [step, trigger, hregistered]
  | stream a =>
    cases a with
    | register => rfl
    | connect => simp [step, FollowMode.stream, PgFactStream.step, PgFactStream.initializeSerialToStartAfter, hphase]
    | jump => simp [step, FollowMode.stream, PgFactStream.step, PgFactStream.jump, hphase]
    | catchup => simp [step, FollowMode.stream, PgFactStream.step, PgFactStream.catchup, hphase]
    | row => simp [step, FollowMode.stream, PgFactStream.step, PgFactStream.row, hphase]
    | finish => simp [step, FollowMode.stream, PgFactStream.step, PgFactStream.finish, hphase]
    | fastForward => simp [step, FollowMode.stream, PgFactStream.step, PgFactStream.fastForward, hphase]
    | readTarget => simp [step, FollowMode.stream, PgFactStream.step, PgFactStream.readTarget, hphase]
    | signalCatchup => simp [step, FollowMode.stream, PgFactStream.step, PgFactStream.signalCatchup, hphase]
    | query => simp [step, FollowMode.stream, PgFactStream.step, PgFactStream.query, hphase]
    | _ => cases ha
  | executor a =>
    cases a with
    | isConnected i => simp [step, executor, CondensedQuery.step, CondensedQuery.isConnected, hover i .begun]
    | getAndSet i => simp [step, executor, CondensedQuery.step, CondensedQuery.getAndSet, hover i .connected]
    | schedule i => simp [step, executor, CondensedQuery.step, CondensedQuery.schedule, hover i .scheduling]
    | fire => simp [step, executor, CondensedQuery.step, CondensedQuery.fire, htasks]
    | reset => simp [step, executor, CondensedQuery.step, CondensedQuery.reset, htimer]
    | enter r =>
      cases r with
      | call i => simp [step, executor, CondensedQuery.enter, CondensedQuery.Waits, hover i .entering]
      | task => simp [step, executor, CondensedQuery.enter, CondensedQuery.Waits, htimer]
    | leave => simp [step, executor, hphase, CondensedQuery.leave, hinside]
    | _ => exact ha.elim

/-- Orders are followed, with a delay. -/
def followed : Setting := ⟨Notification.plain, .quoted, PgFactStream.orders, 100⟩

def opened : State where
  listener := .down
  wire := []
  arrived := []
  stream := PgFactStream.unconnected
  executor := {}
  registered := false

theorem opened_start : Start opened where
  stream := ⟨by decide, by decide, rfl, rfl, rfl, rfl, rfl, rfl, rfl, rfl⟩
  executor := rfl
  registered := rfl

theorem executes_of_denotes {db : Database} {request : SubscriptionRequest}
    (h : PgQueryBuilder.Denotes db.path request.specs) : PgFactStream.Executes db request := by
  intro serial log
  obtain ⟨selects, hselects, _⟩ := h serial
  simp [PgFactStream.select, hselects]

theorem followed_executes : PgFactStream.Executes followed.db followed.request := by
  have hspliceable : ofOrders.Spliceable :=
    ⟨by decide, by simp [ofOrders], by decide, fun e he => by cases he⟩
  refine executes_of_denotes (PgQueryBuilder.denotes_of_spliceable _ (by simp [followed, PgFactStream.orders]) ?_)
  intro spec hspec
  rw [List.mem_singleton.mp hspec]
  exact hspliceable

/-- An order is committed while the listener has no connection. -/
def interrupted : List Action :=
  [.listen, .inform] ++ [.connect, .catchup, .row, .finish, .catchup, .finish, .fastForward, .readTarget,
    .signalCatchup].map Action.stream ++ [.register, .trigger] ++
    [.isConnected 0, .getAndSet 0, .schedule 0, .fire, .reset, .enter .task].map Action.executor ++
    [.stream .query, .stream .finish, .executor .leave, .lose, .publish 7 [⟨2, placed 2⟩]]

/-- Another one is committed during the run that comes of the new connection. -/
def reconnected : List Action :=
  [.listen, .inform] ++ [.isConnected 1, .getAndSet 1, .schedule 1, .fire, .reset, .enter .task].map Action.executor ++
    [.stream .query, .publish 8 [⟨3, placed 3⟩], .arrive, .receive, .stream .row, .stream .finish, .executor .leave] ++
    [.isConnected 2, .getAndSet 2, .schedule 2, .fire, .reset, .enter .task].map Action.executor ++
    [.stream .query, .stream .row, .stream .finish, .executor .leave]

theorem noticed_placed (txId ser id : Nat) :
    Notification.Noticed followed.pg txId followed.request.specs [⟨ser, placed id⟩] :=
  Notification.noticed_of_heard
    ⟨[], ⟨ser, placed id⟩, [], rfl, by simp, .inr ⟨ofOrders, List.mem_singleton_self _, .inr (.inl rfl)⟩⟩

theorem regular_placed (a : Action) (ha : a ∈ interrupted ++ reconnected) (s : State) : Regular followed s a := by
  refine ⟨fun txId rows heq _ => ?_, fun heq => ?_⟩
  · subst heq
    simp [interrupted, reconnected] at ha
    rcases ha with ⟨rfl, rfl⟩ | ⟨rfl, rfl⟩ <;> exact noticed_placed _ _ _
  · subst heq
    simp [interrupted, reconnected] at ha

theorem exists_interrupted : ∃ s, (following followed).run opened interrupted = some s ∧
    s.stream.disconnected = false ∧ ∃ row ∈ s.stream.log, row.ser = 2 ∧
      PgFactStream.matching followed.db followed.request row = true := by
  have hrun : ((following followed).run opened interrupted).map (fun s => (s.stream.disconnected,
      s.stream.log.map fun row => (row.ser, PgFactStream.matching followed.db followed.request row))) =
      some (false, [(1, true), (2, true)]) := by
    decide +kernel
  obtain ⟨s, hs, hfields⟩ := Option.map_eq_some_iff.mp hrun
  rw [Prod.mk.injEq] at hfields
  have hmem : (2, true) ∈ s.stream.log.map
      fun row => (row.ser, PgFactStream.matching followed.db followed.request row) := by
    rw [hfields.2]
    decide
  obtain ⟨row, hrow, heq⟩ := List.mem_map.mp hmem
  rw [Prod.mk.injEq] at heq
  exact ⟨s, hs, hfields.1, row, hrow, heq⟩

/-- What the whole run leaves behind. -/
theorem exists_reconnected : ∃ s, (following followed).run opened (interrupted ++ reconnected) = some s ∧
    s.rests = true ∧ s.stream.disconnected = false ∧ s.stream.facts.map FactRow.ser = [1, 2, 3] := by
  have hrun : ((following followed).run opened (interrupted ++ reconnected)).map (fun s =>
      (s.rests, s.stream.disconnected, s.stream.facts.map FactRow.ser)) = some (true, false, [1, 2, 3]) := by
    decide +kernel
  obtain ⟨s, hs, hfields⟩ := Option.map_eq_some_iff.mp hrun
  simp only [Prod.mk.injEq] at hfields
  exact ⟨s, hs, hfields⟩

/-- Where a run of regular steps ends. -/
theorem reachable_of_run {s : State} {as : List Action} (hrun : (following followed).run opened as = some s)
    (has : ∀ a ∈ as, ∀ s, Regular followed s a) : (following followed).ReachableUnder (Regular followed) s := by
  have hunder := Machine.Execution.ofRun_under (C := Regular followed) opened_start hrun has
  have hreach := Machine.Execution.reachableUnder hunder as.length
  have hend : (Machine.Execution.ofRun (M := following followed) opened_start hrun).state as.length = s := by
    simp [Machine.Execution.ofRun, hrun]
  rwa [hend] at hreach

theorem nothing_forgotten_reconnected : ∃ s, (following followed).ReachableUnder (Regular followed) s ∧
    s.stream.facts.map FactRow.ser = [1, 2, 3] ∧ s.stream.facts =
      Log.after FactRow.ser (PgFactStream.matching followed.db followed.request) s.stream.started s.stream.log := by
  obtain ⟨s, hrun, hrests, hc, hsers⟩ := exists_reconnected
  have hreach := reachable_of_run hrun regular_placed
  exact ⟨s, hreach, hsers, nothing_forgotten followed followed_executes rfl s hreach hc fun _ => none_of_rests hrests⟩

end FactCast.FollowMode
