import FactCast.Client.Resilience
import FactCast.Store.StreamOrder
import Mathlib.Logic.Function.Basic

/-! A resilient subscription and its connections.

`ResilientGrpcSubscription` opens one stream after the other, each from the last
position it has set, and hands what arrives to one observer. Four kinds of
threads run through it: the one that subscribes, the one that closes, and for
every connection the one that delivers its notifications (gRPC's, which waits for
the client-bound executor, and so counts once) and the keep-alive timer. They
share the current subscription, the last position and a flag, and do not
exclude one another, but for the monitor held while connecting.

A thread is where its phase says. A flag is tested in one step and what depends
on it is done in a later one, with anything in between. Others commit facts; a
server's stream sends, in the order of serials, what matches after the position
it was asked for, and is cut off with what is still on its way. The observer does
not throw, and takes as long as it likes.

What is handed over in every run is in `Client/ReconnectOrder.lean`, who calls the
observer at the same time in `Client/StaleConnection.lean`. -/
namespace FactCast.ResilientGrpcSubscription

structure FactStreamPosition where
  factId : UUID
  serial : Nat
deriving DecidableEq

def FactStreamPosition.from_ (row : FactRow) : FactStreamPosition := ⟨row.fact.id, row.ser⟩

structure Config where
  db : Database
  originalRequest : SubscriptionRequest
  /-- Zero if there is no keep-alive. -/
  keepaliveIntervalInMs : Nat
  /-- Resilience is switched on. -/
  enabled : Bool

def Config.gracePeriod (cfg : Config) : Nat := cfg.keepaliveIntervalInMs * 2 + 200

def staleSubscriptionDetected : Throwable :=
  .runtime "org.factcast.core.subscription.StaleSubscriptionDetectedException"

/-- A call of the observer that a notification leads to. -/
inductive Callback where
  | onNext (row : FactRow)
  | flush
  /-- Stream info, the end of the catchup, or a fast-forward. -/
  | signal
  | onComplete

def Callback.row? : Callback → Option FactRow
  | .onNext row => some row
  | _ => none

inductive Notification where
  | facts (rows : List FactRow)
  | signal
  | keepAlive
  | complete

/-- What the client makes of a notification. -/
def Notification.process : Notification → List Callback
  | .facts rows => rows.map .onNext ++ [.flush]
  | .signal => [.signal]
  | .keepAlive => []
  | .complete => [.onComplete]

def Notification.rows : Notification → List FactRow
  | .facts rows => rows
  | _ => []

inductive Thread where
  | main
  | user
  | delivery (m : Nat)
  | timer (m : Nat)
deriving DecidableEq

/-- The connection a thread belongs to. -/
def Thread.conn? : Thread → Option Nat
  | .delivery m => some m
  | .timer m => some m
  | _ => none

/-- Why the current subscription is closed and detached. -/
inductive Reason where
  | retry (e : Throwable)
  | report (e : Throwable)
  | closed

/-- A thread's next step. -/
inductive Phase where
  | idle
  /-- In a notification, before the next call it leads to. -/
  | processing (todo : List Callback)
  /-- The flags were tested, and the call is made whatever becomes of them. -/
  | checked (c : Callback) (todo : List Callback)
  | calling (c : Callback) (todo : List Callback)
  | notifyError (e : Throwable)
  | detach (reason : Reason)
  /-- The current subscription was taken out and is not closed yet. -/
  | closing (current : Option Nat) (reason : Reason)
  | reConnect
  /-- The call is under way, and its subscription not yet the current one. -/
  | opened (n : Nat)
  | failing (e : Throwable)
  /-- In the observer's `onError`. -/
  | reporting (e : Throwable)
  | over

structure Conn where
  /-- What the request asks for. -/
  startingAfter : Option UUID := none
  /-- The serial the server's stream began after, once it has. -/
  position : Option Nat := none
  /-- The serial up to which the server has sent. -/
  sent : Nat := 0
  /-- What was sent and not yet received. -/
  inflight : List Notification := []
  /-- The error that ends the stream, after what is in flight. -/
  cut : Option Throwable := none
  /-- The flag of `SubscriptionImpl`. -/
  closed : Bool := false
  lastNotification : Nat := 0
  /-- When the timer is due, unless it was cancelled. -/
  due : Option Nat := none

structure State where
  log : List FactRow
  now : Nat
  conns : Nat → Conn
  count : Nat
  phase : Thread → Phase
  lastPosition : Option FactStreamPosition
  currentSubscription : Option Nat
  isClosed : Bool
  monitor : Option Thread
  /-- The facts handed to the original observer. -/
  handed : List FactRow
  /-- The errors reported to it. -/
  reported : List Throwable
  /-- The log as the latest stream found it that began before a fact was handed over. -/
  opened : List FactRow

inductive Action where
  /-- Somebody commits facts. -/
  | publish (rows : List FactRow)
  | elapse (ms : Nat)
  /-- The server looks up where to begin. -/
  | accept (m : Nat)
  | sendFacts (m n : Nat)
  | sendSignal (m : Nat)
  | sendKeepAlive (m : Nat)
  | sendComplete (m : Nat)
  /-- The stream breaks, and only the first notifications on their way arrive. -/
  | cut (m arrive : Nat) (e : Throwable)
  | receive (m : Nat)
  | receiveError (m : Nat)
  | next (m : Nat)
  | enter (m : Nat)
  | leave (m : Nat)
  | check (m : Nat)
  | notifyError (t : Thread)
  | detach (t : Thread)
  | close (t : Thread) (attemptsExhausted : Bool)
  | connect (t : Thread)
  | setCurrent (t : Thread)
  /-- The handshake before a connect throws. -/
  | abort (t : Thread)
  /-- The subscribe call throws. -/
  | refuse (t : Thread) (e : Throwable)
  | fail (t : Thread)
  | reported (t : Thread)
  | closeSubscription

def State.setPhase (s : State) (t : Thread) (phase : Phase) : State :=
  { s with phase := Function.update s.phase t phase }

def State.setConn (s : State) (m : Nat) (c : Conn) : State :=
  { s with conns := Function.update s.conns m c }

/-- The subscription of a connection is closed, which cancels its timer. -/
def State.shut (s : State) (m : Nat) : State :=
  s.setConn m { s.conns m with closed := true, due := none }

def State.shutAll (s : State) : Option Nat → State
  | some m => s.shut m
  | none => s

/-- The handling of an error returns, and its connection's subscription is closed. -/
def State.done (s : State) (t : Thread) : State := (s.shutAll t.conn?).setPhase t .over

section Steps
variable (cfg : Config) (s : State)

def publish (rows : List FactRow) : Option State :=
  if Log.Ascending FactRow.ser (s.log ++ rows) ∧ (∀ row ∈ rows, 0 < row.ser) ∧
      ((s.log ++ rows).map fun r => r.fact.id).Nodup then
    some { s with log := s.log ++ rows }
  else none

/-! #### The servers' streams -/

def accept (m : Nat) : Option State :=
  let c := s.conns m
  if m < s.count ∧ c.position = none then
    let serial :=
      if cfg.originalRequest.ephemeral then Log.last FactRow.ser s.log
      else PgFactStream.retrieve s.log c.startingAfter
    let first := m + 1 = s.count ∧ s.handed = []
    some { s.setConn m { c with position := some serial, sent := serial } with
      opened := if first then s.log else s.opened }
  else none

/-- The next facts the stream has, up to `n` of them, go out in one notification. -/
def sendFacts (m n : Nat) : Option State :=
  let c := s.conns m
  let rows := (Log.after FactRow.ser (PgFactStream.matching cfg.db cfg.originalRequest) c.sent
    s.log).take n
  match c.position, c.cut, rows.getLast? with
  | some _, none, some row =>
    some (s.setConn m { c with sent := row.ser, inflight := c.inflight ++ [.facts rows] })
  | _, _, _ => none

def send (m : Nat) (notification : Notification) : Option State :=
  let c := s.conns m
  match c.position, c.cut with
  | some _, none => some (s.setConn m { c with inflight := c.inflight ++ [notification] })
  | _, _ => none

def cut (m arrive : Nat) (e : Throwable) : Option State :=
  let c := s.conns m
  if m < s.count ∧ c.cut = none then
    some (s.setConn m { c with inflight := c.inflight.take arrive, cut := some e })
  else none

/-! #### Notifications -/

/-- Back from a callback, or about to begin with the first. -/
def resume : List Callback → Phase
  | [] => .idle
  | todo => .processing todo

/-- A notification arrives. Where the executor is shut down already, it throws. -/
def receive (m : Nat) : Option State :=
  let c := s.conns m
  match s.phase (.delivery m), c.inflight with
  | .idle, notification :: rest =>
    if c.closed then some (s.setPhase (.delivery m) .over)
    else
      -- the end of the stream disables the timer
      let due := match notification with
        | .complete => none
        | _ => c.due
      let c' := { c with inflight := rest, lastNotification := s.now, due }
      some ((s.setConn m c').setPhase (.delivery m) (resume notification.process))
  | _, _ => none

/-- The error arrives, after everything else. -/
def receiveError (m : Nat) : Option State :=
  let c := s.conns m
  match s.phase (.delivery m), c.inflight, c.cut with
  | .idle, [], some e =>
    let phase := if c.closed then .over else .notifyError (ClientExceptionHelper.from_ e)
    some ((s.setConn m { c with due := none }).setPhase (.delivery m) phase)
  | _, _, _ => none

/-- Facts are held back by either flag, other calls by that of the connection, flushes by none. -/
def skipped (c : Conn) : Callback → Bool
  | .onNext _ => c.closed || s.isClosed
  | .flush => false
  | .signal => c.closed
  | .onComplete => c.closed

def next (m : Nat) : Option State :=
  match s.phase (.delivery m) with
  | .processing (c :: todo) =>
    let phase := if skipped s (s.conns m) c then resume todo else .checked c todo
    some (s.setPhase (.delivery m) phase)
  | _ => none

def enter (m : Nat) : Option State :=
  match s.phase (.delivery m) with
  | .checked c todo =>
    some { s.setPhase (.delivery m) (.calling c todo) with handed := s.handed ++ c.row?.toList }
  | _ => none

/-- The observer returns. For a fact the position is set then, and after the
last call the subscription is closed. -/
def leave (m : Nat) : Option State :=
  match s.phase (.delivery m) with
  | .calling c todo =>
    let s' := s.setPhase (.delivery m) (resume todo)
    match c with
    | .onNext row => some { s' with lastPosition := some (.from_ row) }
    | .onComplete => some (s'.shut m)
    | _ => some s'
  | _ => none

/-- The timer's task. -/
def check (m : Nat) : Option State :=
  let c := s.conns m
  match s.phase (.timer m), c.due with
  | .idle, some due =>
    if due ≤ s.now then
      if s.now - c.lastNotification > cfg.gracePeriod then
        some ((s.setConn m { c with due := none }).setPhase (.timer m)
          (.notifyError staleSubscriptionDetected))
      else some (s.setConn m { c with due := some (s.now + cfg.keepaliveIntervalInMs) })
    else none
  | _, _ => none

/-! #### Errors -/

def notifyError (t : Thread) : Option State :=
  match s.phase t, t.conn? with
  | .notifyError e, some m =>
    some (s.setPhase t (if (s.conns m).closed then .over else .detach (.retry e)))
  | _, _ => none

def detach (t : Thread) : Option State :=
  match s.phase t with
  | .detach reason =>
    some { s.setPhase t (.closing s.currentSubscription reason) with currentSubscription := none }
  | _ => none

/-- What was taken out is closed. Then the thread connects again, reports, or is through. -/
def close (t : Thread) (attemptsExhausted : Bool) : Option State :=
  match s.phase t with
  | .closing current reason =>
    match reason with
    | .retry e =>
      let phase := if shouldRetry cfg.enabled attemptsExhausted e then .reConnect else .failing e
      some ((s.shutAll current).setPhase t phase)
    | .report e =>
      some { (s.shutAll current).setPhase t (.reporting e) with reported := s.reported ++ [e] }
    | .closed => some ((s.shutAll current).setPhase t .over)
  | _ => none

/-- What the next request asks for. -/
def startingAfter : Option UUID :=
  match s.lastPosition with
  | some last => some last.factId
  | none => cfg.originalRequest.startingAfter

def nextConn : Conn where
  startingAfter := startingAfter cfg s
  lastNotification := s.now
  due := if cfg.keepaliveIntervalInMs = 0 then none else some (s.now + cfg.keepaliveIntervalInMs)

/-- Only one thread connects at a time, and none if there is a current subscription. -/
def connect (t : Thread) : Option State :=
  match s.phase t, s.monitor with
  | .reConnect, none =>
    match s.currentSubscription with
    | some _ => some (s.done t)
    | none =>
      some { (s.setConn s.count (nextConn cfg s)).setPhase t (.opened s.count) with
        count := s.count + 1, monitor := some t }
  | _, _ => none

def setCurrent (t : Thread) : Option State :=
  match s.phase t with
  | .opened n => some { s.done t with currentSubscription := some n, monitor := none }
  | _ => none

def abort (t : Thread) : Option State :=
  match s.phase t, s.monitor with
  | .reConnect, none => some (s.setPhase t .over)
  | _, _ => none

/-- The failure is reported before the monitor is left. -/
def refuse (t : Thread) (e : Throwable) : Option State :=
  match s.phase t, s.monitor, s.currentSubscription with
  | .reConnect, none, none => some { s.setPhase t (.failing e) with monitor := some t }
  | _, _, _ => none

/-- The subscription is given up. Whoever closes it first detaches what is current. -/
def fail (t : Thread) : Option State :=
  match s.phase t with
  | .failing e =>
    if s.isClosed then
      some { s.setPhase t (.reporting e) with reported := s.reported ++ [e] }
    else some { s.setPhase t (.detach (.report e)) with isClosed := true }
  | _ => none

/-- The observer's `onError` returns, and the error is thrown. -/
def reported (t : Thread) : Option State :=
  match s.phase t with
  | .reporting _ =>
    some { s.setPhase t .over with monitor := if s.monitor = some t then none else s.monitor }
  | _ => none

/-- The subscription is closed by its user. -/
def closeSubscription : Option State :=
  if s.isClosed then none
  else some { s.setPhase .user (.detach .closed) with isClosed := true }

end Steps

def step (cfg : Config) (s : State) : Action → Option State
  | .publish rows => publish s rows
  | .elapse ms => some { s with now := s.now + ms }
  | .accept m => accept cfg s m
  | .sendFacts m n => sendFacts cfg s m n
  | .sendSignal m => send s m .signal
  | .sendKeepAlive m => send s m .keepAlive
  | .sendComplete m => send s m .complete
  | .cut m arrive e => cut s m arrive e
  | .receive m => receive s m
  | .receiveError m => receiveError s m
  | .next m => next s m
  | .enter m => enter s m
  | .leave m => leave s m
  | .check m => check cfg s m
  | .notifyError t => notifyError s t
  | .detach t => detach s t
  | .close t attemptsExhausted => close cfg s t attemptsExhausted
  | .connect t => connect cfg s t
  | .setCurrent t => setCurrent s t
  | .abort t => abort s t
  | .refuse t e => refuse s t e
  | .fail t => fail s t
  | .reported t => reported s t
  | .closeSubscription => closeSubscription s

/-! ### What an action does -/

/-- The steps of a subscription, one for each case of an action. Invariants go by these. -/
inductive Step (cfg : Config) (s : State) : Action → State → Prop where
  | publish {rows : List FactRow} (hasc : Log.Ascending FactRow.ser (s.log ++ rows))
      (hpos : ∀ row ∈ rows, 0 < row.ser) (hids : ((s.log ++ rows).map fun r => r.fact.id).Nodup) :
      Step cfg s (.publish rows) { s with log := s.log ++ rows }
  | elapse {ms : Nat} : Step cfg s (.elapse ms) { s with now := s.now + ms }
  | accept {m serial : Nat} (hm : m < s.count) (hnone : (s.conns m).position = none)
      (hserial : serial = if cfg.originalRequest.ephemeral then Log.last FactRow.ser s.log
        else PgFactStream.retrieve s.log (s.conns m).startingAfter) :
      Step cfg s (.accept m) { s.setConn m { s.conns m with position := some serial, sent := serial } with
        opened := if m + 1 = s.count ∧ s.handed = [] then s.log else s.opened }
  | sendFacts {m n position : Nat} {rows : List FactRow} {row : FactRow}
      (hrows : rows = (Log.after FactRow.ser (PgFactStream.matching cfg.db cfg.originalRequest)
        (s.conns m).sent s.log).take n)
      (hposition : (s.conns m).position = some position) (hcut : (s.conns m).cut = none)
      (hlast : rows.getLast? = some row) :
      Step cfg s (.sendFacts m n)
        (s.setConn m { s.conns m with sent := row.ser, inflight := (s.conns m).inflight ++ [.facts rows] })
  | sendSignal {m position : Nat} (hposition : (s.conns m).position = some position) (hcut : (s.conns m).cut = none) :
      Step cfg s (.sendSignal m) (s.setConn m { s.conns m with inflight := (s.conns m).inflight ++ [.signal] })
  | sendKeepAlive {m position : Nat} (hposition : (s.conns m).position = some position)
      (hcut : (s.conns m).cut = none) :
      Step cfg s (.sendKeepAlive m) (s.setConn m { s.conns m with inflight := (s.conns m).inflight ++ [.keepAlive] })
  | sendComplete {m position : Nat} (hposition : (s.conns m).position = some position)
      (hcut : (s.conns m).cut = none) :
      Step cfg s (.sendComplete m) (s.setConn m { s.conns m with inflight := (s.conns m).inflight ++ [.complete] })
  | cut {m arrive : Nat} {e : Throwable} (hm : m < s.count) (hcut : (s.conns m).cut = none) :
      Step cfg s (.cut m arrive e)
        (s.setConn m { s.conns m with inflight := (s.conns m).inflight.take arrive, cut := some e })
  | receiveLate {m : Nat} {notification : Notification} {rest : List Notification}
      (hphase : s.phase (.delivery m) = .idle) (hinflight : (s.conns m).inflight = notification :: rest)
      (hclosed : (s.conns m).closed = true) : Step cfg s (.receive m) (s.setPhase (.delivery m) .over)
  | receive {m : Nat} {notification : Notification} {rest : List Notification} {due : Option Nat}
      (hphase : s.phase (.delivery m) = .idle) (hinflight : (s.conns m).inflight = notification :: rest)
      (hopen : (s.conns m).closed = false)
      (hdue : due = match notification with
        | .complete => none
        | _ => (s.conns m).due) :
      Step cfg s (.receive m) ((s.setConn m { s.conns m with inflight := rest, lastNotification := s.now, due }).setPhase
        (.delivery m) (resume notification.process))
  | receiveError {m : Nat} {e : Throwable} (hphase : s.phase (.delivery m) = .idle)
      (hinflight : (s.conns m).inflight = []) (hcut : (s.conns m).cut = some e) :
      Step cfg s (.receiveError m) ((s.setConn m { s.conns m with due := none }).setPhase (.delivery m)
        (if (s.conns m).closed then .over else .notifyError (ClientExceptionHelper.from_ e)))
  | skip {m : Nat} {c : Callback} {todo : List Callback} (hphase : s.phase (.delivery m) = .processing (c :: todo))
      (hskipped : skipped s (s.conns m) c = true) :
      Step cfg s (.next m) (s.setPhase (.delivery m) (resume todo))
  | next {m : Nat} {c : Callback} {todo : List Callback} (hphase : s.phase (.delivery m) = .processing (c :: todo))
      (hskipped : skipped s (s.conns m) c = false) :
      Step cfg s (.next m) (s.setPhase (.delivery m) (.checked c todo))
  | enter {m : Nat} {c : Callback} {todo : List Callback} (hphase : s.phase (.delivery m) = .checked c todo) :
      Step cfg s (.enter m)
        { s.setPhase (.delivery m) (.calling c todo) with handed := s.handed ++ c.row?.toList }
  | leaveFact {m : Nat} {row : FactRow} {todo : List Callback}
      (hphase : s.phase (.delivery m) = .calling (.onNext row) todo) :
      Step cfg s (.leave m) { s.setPhase (.delivery m) (resume todo) with lastPosition := some (.from_ row) }
  | leaveComplete {m : Nat} {todo : List Callback} (hphase : s.phase (.delivery m) = .calling .onComplete todo) :
      Step cfg s (.leave m) ((s.setPhase (.delivery m) (resume todo)).shut m)
  | leave {m : Nat} {c : Callback} {todo : List Callback} (hphase : s.phase (.delivery m) = .calling c todo)
      (hc : c = .flush ∨ c = .signal) : Step cfg s (.leave m) (s.setPhase (.delivery m) (resume todo))
  | checkStale {m due : Nat} (hphase : s.phase (.timer m) = .idle) (hdue : (s.conns m).due = some due)
      (hnow : due ≤ s.now) (hstale : s.now - (s.conns m).lastNotification > cfg.gracePeriod) :
      Step cfg s (.check m) ((s.setConn m { s.conns m with due := none }).setPhase (.timer m)
        (.notifyError staleSubscriptionDetected))
  | check {m due : Nat} (hphase : s.phase (.timer m) = .idle) (hdue : (s.conns m).due = some due)
      (hnow : due ≤ s.now) (hfresh : ¬ s.now - (s.conns m).lastNotification > cfg.gracePeriod) :
      Step cfg s (.check m) (s.setConn m { s.conns m with due := some (s.now + cfg.keepaliveIntervalInMs) })
  | notifyError {t : Thread} {e : Throwable} {m : Nat} (hphase : s.phase t = .notifyError e)
      (hconn : t.conn? = some m) :
      Step cfg s (.notifyError t) (s.setPhase t (if (s.conns m).closed then .over else .detach (.retry e)))
  | detach {t : Thread} {reason : Reason} (hphase : s.phase t = .detach reason) :
      Step cfg s (.detach t) { s.setPhase t (.closing s.currentSubscription reason) with currentSubscription := none }
  | closeRetry {t : Thread} {exhausted : Bool} {current : Option Nat} {e : Throwable}
      (hphase : s.phase t = .closing current (.retry e)) :
      Step cfg s (.close t exhausted) ((s.shutAll current).setPhase t
        (if shouldRetry cfg.enabled exhausted e then .reConnect else .failing e))
  | closeReport {t : Thread} {exhausted : Bool} {current : Option Nat} {e : Throwable}
      (hphase : s.phase t = .closing current (.report e)) :
      Step cfg s (.close t exhausted)
        { (s.shutAll current).setPhase t (.reporting e) with reported := s.reported ++ [e] }
  | close {t : Thread} {exhausted : Bool} {current : Option Nat} (hphase : s.phase t = .closing current .closed) :
      Step cfg s (.close t exhausted) ((s.shutAll current).setPhase t .over)
  | connected {t : Thread} {current : Nat} (hphase : s.phase t = .reConnect) (hmonitor : s.monitor = none)
      (hcurrent : s.currentSubscription = some current) : Step cfg s (.connect t) (s.done t)
  | connect {t : Thread} (hphase : s.phase t = .reConnect) (hmonitor : s.monitor = none)
      (hcurrent : s.currentSubscription = none) :
      Step cfg s (.connect t) { (s.setConn s.count (nextConn cfg s)).setPhase t (.opened s.count) with
        count := s.count + 1, monitor := some t }
  | setCurrent {t : Thread} {n : Nat} (hphase : s.phase t = .opened n) :
      Step cfg s (.setCurrent t) { s.done t with currentSubscription := some n, monitor := none }
  | abort {t : Thread} (hphase : s.phase t = .reConnect) (hmonitor : s.monitor = none) :
      Step cfg s (.abort t) (s.setPhase t .over)
  | refuse {t : Thread} {e : Throwable} (hphase : s.phase t = .reConnect) (hmonitor : s.monitor = none)
      (hcurrent : s.currentSubscription = none) :
      Step cfg s (.refuse t e) { s.setPhase t (.failing e) with monitor := some t }
  | failClosed {t : Thread} {e : Throwable} (hphase : s.phase t = .failing e) (hclosed : s.isClosed = true) :
      Step cfg s (.fail t) { s.setPhase t (.reporting e) with reported := s.reported ++ [e] }
  | fail {t : Thread} {e : Throwable} (hphase : s.phase t = .failing e) (hopen : s.isClosed = false) :
      Step cfg s (.fail t) { s.setPhase t (.detach (.report e)) with isClosed := true }
  | reported {t : Thread} {e : Throwable} (hphase : s.phase t = .reporting e) :
      Step cfg s (.reported t)
        { s.setPhase t .over with monitor := if s.monitor = some t then none else s.monitor }
  | closeSubscription (hopen : s.isClosed = false) :
      Step cfg s .closeSubscription { s.setPhase .user (.detach .closed) with isClosed := true }

theorem step_cases {cfg : Config} {s s' : State} {a : Action} (hs : step cfg s a = some s') : Step cfg s a s' := by
  cases a with
  | publish rows =>
    simp only [step, ResilientGrpcSubscription.publish] at hs
    split at hs <;> cases hs
    rename_i hrows
    exact .publish hrows.1 hrows.2.1 hrows.2.2
  | elapse ms =>
    cases hs
    exact .elapse
  | accept m =>
    simp only [step, ResilientGrpcSubscription.accept] at hs
    by_cases hm : m < s.count ∧ (s.conns m).position = none
    · rw [if_pos hm] at hs
      cases hs
      exact .accept hm.1 hm.2 rfl
    · rw [if_neg hm] at hs
      cases hs
  | sendFacts m n =>
    simp only [step, ResilientGrpcSubscription.sendFacts] at hs
    split at hs <;> cases hs
    exact .sendFacts rfl ‹_› ‹_› ‹_›
  | sendSignal m =>
    simp only [step, send] at hs
    split at hs <;> cases hs
    exact .sendSignal ‹_› ‹_›
  | sendKeepAlive m =>
    simp only [step, send] at hs
    split at hs <;> cases hs
    exact .sendKeepAlive ‹_› ‹_›
  | sendComplete m =>
    simp only [step, send] at hs
    split at hs <;> cases hs
    exact .sendComplete ‹_› ‹_›
  | cut m arrive e =>
    simp only [step, ResilientGrpcSubscription.cut] at hs
    split at hs <;> cases hs
    rename_i hm
    exact .cut hm.1 hm.2
  | receive m =>
    simp only [step, ResilientGrpcSubscription.receive] at hs
    split at hs
    · rename_i notification rest hphase hinflight
      split at hs <;> cases hs
      · exact .receiveLate hphase hinflight ‹_›
      · rename_i hopen
        refine .receive hphase hinflight (by simpa using hopen) ?_
        cases notification <;> rfl
    · cases hs
  | receiveError m =>
    simp only [step, ResilientGrpcSubscription.receiveError] at hs
    split at hs <;> cases hs
    exact .receiveError ‹_› ‹_› ‹_›
  | next m =>
    simp only [step, ResilientGrpcSubscription.next] at hs
    split at hs <;> cases hs
    rename_i c todo hphase
    cases hskipped : skipped s (s.conns m) c with
    | true => exact .skip hphase hskipped
    | false => exact .next hphase hskipped
  | enter m =>
    simp only [step, ResilientGrpcSubscription.enter] at hs
    split at hs <;> cases hs
    exact .enter ‹_›
  | leave m =>
    simp only [step, ResilientGrpcSubscription.leave] at hs
    split at hs
    · rename_i c todo hphase
      cases c with
      | onNext row =>
        cases hs
        exact .leaveFact hphase
      | onComplete =>
        cases hs
        exact .leaveComplete hphase
      | flush =>
        cases hs
        exact .leave hphase (.inl rfl)
      | signal =>
        cases hs
        exact .leave hphase (.inr rfl)
    · cases hs
  | check m =>
    simp only [step, ResilientGrpcSubscription.check] at hs
    split at hs
    · rename_i hphase hdue
      split at hs
      · split at hs <;> cases hs
        · exact .checkStale hphase hdue ‹_› ‹_›
        · exact .check hphase hdue ‹_› ‹_›
      · cases hs
    · cases hs
  | notifyError t =>
    simp only [step, ResilientGrpcSubscription.notifyError] at hs
    split at hs <;> cases hs
    exact .notifyError ‹_› ‹_›
  | detach t =>
    simp only [step, ResilientGrpcSubscription.detach] at hs
    split at hs <;> cases hs
    exact .detach ‹_›
  | close t exhausted =>
    simp only [step, ResilientGrpcSubscription.close] at hs
    split at hs
    · rename_i hphase
      split at hs <;> cases hs
      · exact .closeRetry hphase
      · exact .closeReport hphase
      · exact .close hphase
    · cases hs
  | connect t =>
    simp only [step, ResilientGrpcSubscription.connect] at hs
    split at hs
    · split at hs <;> cases hs
      · exact .connected ‹_› ‹_› ‹_›
      · exact .connect ‹_› ‹_› ‹_›
    · cases hs
  | setCurrent t =>
    simp only [step, ResilientGrpcSubscription.setCurrent] at hs
    split at hs <;> cases hs
    exact .setCurrent ‹_›
  | abort t =>
    simp only [step, ResilientGrpcSubscription.abort] at hs
    split at hs <;> cases hs
    exact .abort ‹_› ‹_›
  | refuse t e =>
    simp only [step, ResilientGrpcSubscription.refuse] at hs
    split at hs <;> cases hs
    exact .refuse ‹_› ‹_› ‹_›
  | fail t =>
    simp only [step, ResilientGrpcSubscription.fail] at hs
    split at hs
    · rename_i hphase
      split at hs <;> cases hs
      · exact .failClosed hphase ‹_›
      · rename_i hopen
        exact .fail hphase (by simpa using hopen)
    · cases hs
  | reported t =>
    simp only [step, ResilientGrpcSubscription.reported] at hs
    split at hs <;> cases hs
    exact .reported ‹_›
  | closeSubscription =>
    simp only [step, ResilientGrpcSubscription.closeSubscription] at hs
    split at hs <;> cases hs
    rename_i hopen
    exact .closeSubscription (by simpa using hopen)

/-- A subscription before its first connect, over some log. -/
structure Start (s : State) : Prop where
  ascending : Log.Ascending FactRow.ser s.log
  positive : ∀ row ∈ s.log, 0 < row.ser
  ids : (s.log.map fun r => r.fact.id).Nodup
  conns : ∀ m, s.conns m = {}
  count : s.count = 0
  main : s.phase .main = .reConnect
  idle : ∀ t, t ≠ .main → s.phase t = .idle
  lastPosition : s.lastPosition = none
  currentSubscription : s.currentSubscription = none
  isClosed : s.isClosed = false
  monitor : s.monitor = none
  handed : s.handed = []
  reported : s.reported = []
  opened : s.opened = []

def subscribing (cfg : Config) : Machine State Action where
  Start := Start
  step := step cfg

end FactCast.ResilientGrpcSubscription
