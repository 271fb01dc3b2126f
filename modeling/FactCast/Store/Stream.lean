import FactCast.Store.FactStore
import FactCast.Machine.Run

/-! The stream behind a subscription.

`PgFactStream.connect` runs once: it looks up the serial to start after, catches
up in two queries, may fast-forward, says so, and in follow mode hands over to
runs of one synchronized query. The catchup queries and the follow runs share
one serial. An ephemeral stream jumps to the latest serial instead of catching up.

Between any two of these steps others commit facts, the target of fast-forwards
may be refreshed, and the stream may be closed. Facts become visible in the order
of their serials; a query reads the log as it is when the query starts.

What a stream hands to its pipeline in every run is in `Store/StreamOrder.lean`,
what a fast-forward says in `Store/FastForward.lean`. -/
namespace FactCast

structure SubscriptionRequest where
  specs : List FactSpec
  startingAfter : Option UUID := none
  ephemeral : Bool := false
  continuous : Bool := true

namespace PgFactStream

/-- What a pipeline is given. -/
inductive Signal where
  | fact (row : FactRow)
  | flush
  | fastForward (id : UUID) (ser : Nat)
  | catchup
  | complete
  | error

def Signal.fact? : Signal → Option FactRow
  | .fact row => some row
  | _ => none

structure HighWaterMark where
  targetId : Option UUID := none
  targetSer : Nat := 0
deriving DecidableEq

/-- The stream's next step. -/
inductive Phase where
  | connecting
  | jumping
  /-- A catchup query is due, the second one or the first. -/
  | catchup (second : Bool)
  | fetching (second : Bool) (todo : List FactRow)
  | fastForward
  /-- The target's id was read, its serial was not. -/
  | readTarget (startedSer : Nat) (targetId : Option UUID)
  | signalCatchup
  | register
  /-- Following, between two runs. -/
  | idle
  /-- A run that has read the latest serial. -/
  | latest (latest : Nat)
  | running (latest : Nat) (todo : List FactRow)
  | ended

structure State where
  log : List FactRow
  target : HighWaterMark
  /-- What the refresher read and has not yet put in place. -/
  refreshed : Option HighWaterMark
  serial : Nat
  disconnected : Bool
  phase : Phase
  sent : List Signal
  /-- The serial the stream started from. -/
  started : Nat
  /-- The log as the stream saw it when it looked up where to start. -/
  opened : List FactRow
  /-- The log as the latest query saw it. -/
  snapshot : List FactRow
  /-- The log as the latest query saw it that finished on a connected stream. -/
  finished : List FactRow

inductive Action where
  /-- Somebody commits facts. -/
  | publish (rows : List FactRow)
  | queryTarget
  | setTarget
  | close
  | connect
  | jump
  | catchup
  | row
  | skip
  /-- A row fails, in the pipeline or before it gets there. -/
  | failRow (handed : Bool)
  | finish
  | fastForward
  | readTarget
  | signalCatchup
  | register
  | trigger
  | query
  /-- The step fails and the exception ends the run, or the connect. -/
  | fail

def State.facts (s : State) : List FactRow := s.sent.filterMap Signal.fact?

/-- What the queries saw that finished on a connected stream, once the one at hand is through. -/
def State.through (s : State) : List FactRow := if s.disconnected then s.finished else s.snapshot

def State.send (s : State) (signal : Signal) : State := { s with sent := s.sent ++ [signal] }

section Steps
variable (db : Database) (request : SubscriptionRequest) (s : State)

/-- The serial of a fact, zero if there is none of that id. -/
def retrieve (log : List FactRow) : Option UUID → Nat
  | none => 0
  | some id => ((log.find? fun row => row.fact.id == id).map FactRow.ser).getD 0

/-- The rows the statement selects, in the order of their serials. -/
def select (serial : Nat) (log : List FactRow) : Option (List FactRow) :=
  (PgQueryBuilder.selected db.path request.specs serial).map fun selects => log.filter selects

/-- The latest fact, if there is one. -/
def highWaterMark (log : List FactRow) : HighWaterMark :=
  match log.getLast? with
  | some row => ⟨some row.fact.id, row.ser⟩
  | none => {}

/-- Others commit in the order of serials. -/
def publish (rows : List FactRow) : Option State :=
  if Log.Ascending FactRow.ser (s.log ++ rows) ∧ ∀ row ∈ rows, 0 < row.ser then
    some { s with log := s.log ++ rows }
  else none

def setTarget : Option State :=
  s.refreshed.map fun mark => { s with target := mark, refreshed := none }

def initializeSerialToStartAfter : Option State :=
  match s.phase with
  | .connecting =>
    let startingSerial := retrieve s.log request.startingAfter
    let next := if request.ephemeral then .jumping else .catchup false
    some { s with
      serial := startingSerial, started := startingSerial, opened := s.log, phase := next }
  | _ => none

/-- An ephemeral stream starts from the latest serial. -/
def jump : Option State :=
  match s.phase with
  | .jumping =>
    let latest := Log.last FactRow.ser s.log
    some { s with serial := latest, started := latest, snapshot := s.log, phase := .fastForward }
  | _ => none

def afterCatchup (second : Bool) : Phase := if second then .fastForward else .catchup true

/-- A catchup query starts, unless the stream is closed. -/
def catchup : Option State :=
  match s.phase with
  | .catchup second =>
    if s.disconnected then some { s with phase := afterCatchup second }
    else (select db request s.serial s.log).map fun rows =>
      { s with snapshot := s.log, phase := .fetching second rows }
  | _ => none

/-- The next row goes to the pipeline. In a follow run the stream is connected. -/
def row : Option State :=
  match s.phase with
  | .fetching second (r :: todo) =>
    some { s.send (.fact r) with serial := r.ser, phase := .fetching second todo }
  | .running latest (r :: todo) =>
    if s.disconnected then none
    else some { s.send (.fact r) with serial := r.ser, phase := .running latest todo }
  | _ => none

/-- The rows of a query are passed over once the stream is closed. -/
def skip : Option State :=
  if s.disconnected then
    match s.phase with
    | .fetching second (_ :: todo) => some { s with phase := .fetching second todo }
    | .running latest (_ :: todo) => some { s with phase := .running latest todo }
    | _ => none
  else none

/-- A row fails. The catchup has moved the serial already and ends; a follow run
has not, and goes on. Either way the error closes the stream. -/
def failRow (handed : Bool) : Option State :=
  match s.phase with
  | .fetching _ (r :: _) =>
    let s' := if handed then s.send (.fact r) else s
    some { (s'.send .flush).send .error with serial := r.ser, disconnected := true, phase := .ended }
  | .running latest (r :: todo) =>
    if s.disconnected then none
    else
      let s' := if handed then s.send (.fact r) else s
      some { s'.send .error with disconnected := true, phase := .running latest todo }
  | _ => none

/-- All rows are through. A follow run shifts the serial to the latest one. -/
def finish : Option State :=
  match s.phase with
  | .fetching second [] =>
    some { s.send .flush with finished := s.through, phase := afterCatchup second }
  | .running latest [] =>
    some { s.send .flush with
      finished := s.through, serial := max latest s.serial, phase := .idle }
  | _ => none

/-- The first half of a fast-forward: where the stream started, and the target's id. -/
def fastForward : Option State :=
  match s.phase with
  | .fastForward =>
    if s.disconnected then some { s with phase := .signalCatchup }
    else
      let startedSer := retrieve s.log request.startingAfter
      some { s with phase := .readTarget startedSer s.target.targetId }
  | _ => none

/-- The second half: the target's serial, and the signal. -/
def readTarget : Option State :=
  match s.phase with
  | .readTarget startedSer targetId =>
    match targetId with
    | none => some { s with phase := .signalCatchup }
    | some id =>
      if s.target.targetSer > startedSer ∧ s.serial < s.target.targetSer then
        some { s.send (.fastForward id s.target.targetSer) with phase := .signalCatchup }
      else some { s with phase := .signalCatchup }
  | _ => none

def signalCatchup : Option State :=
  match s.phase with
  | .signalCatchup =>
    if s.disconnected then some { s with phase := .register }
    else some { s.send .catchup with phase := .register }
  | _ => none

/-- Follow mode, or the end. -/
def register : Option State :=
  match s.phase with
  | .register =>
    if s.disconnected then some { s with phase := .ended }
    else if request.continuous then some { s with phase := .idle }
    else some { s.send .complete with phase := .ended }
  | _ => none

/-- A follow run begins by reading the latest serial. -/
def trigger : Option State :=
  match s.phase with
  | .idle => some { s with phase := .latest (Log.last FactRow.ser s.log) }
  | _ => none

def query : Option State :=
  match s.phase with
  | .latest n => (select db request s.serial s.log).map fun rows =>
      { s with snapshot := s.log, phase := .running n rows }
  | _ => none

/-- An exception ends the connect, whose error closes the stream, or just the run. -/
def fail : Option State :=
  match s.phase with
  | .latest _ => some { s with phase := .idle }
  | .running _ _ => some { s with phase := .idle }
  | .idle => none
  | .ended => none
  | _ => some { s.send .error with disconnected := true, phase := .ended }

end Steps

def step (db : Database) (request : SubscriptionRequest) (s : State) : Action → Option State
  | .publish rows => publish s rows
  | .queryTarget => some { s with refreshed := some (highWaterMark s.log) }
  | .setTarget => setTarget s
  | .close => some { s with disconnected := true }
  | .connect => initializeSerialToStartAfter request s
  | .jump => jump s
  | .catchup => catchup db request s
  | .row => row s
  | .skip => skip s
  | .failRow handed => failRow s handed
  | .finish => finish s
  | .fastForward => fastForward request s
  | .readTarget => readTarget s
  | .signalCatchup => signalCatchup s
  | .register => register request s
  | .trigger => trigger s
  | .query => query db request s
  | .fail => fail s

/-! ### What an action does -/

/-- The steps of a stream, one for each case of an action. Invariants go by these. -/
inductive Step (db : Database) (request : SubscriptionRequest) (s : State) : Action → State → Prop where
  | publish {rows : List FactRow} (hasc : Log.Ascending FactRow.ser (s.log ++ rows))
      (hpos : ∀ row ∈ rows, 0 < row.ser) : Step db request s (.publish rows) { s with log := s.log ++ rows }
  | queryTarget : Step db request s .queryTarget { s with refreshed := some (highWaterMark s.log) }
  | setTarget {mark : HighWaterMark} (hmark : s.refreshed = some mark) :
      Step db request s .setTarget { s with target := mark, refreshed := none }
  | close : Step db request s .close { s with disconnected := true }
  | connect (hphase : s.phase = .connecting) :
      Step db request s .connect { s with
        serial := retrieve s.log request.startingAfter
        started := retrieve s.log request.startingAfter
        opened := s.log
        phase := if request.ephemeral then .jumping else .catchup false }
  | jump (hphase : s.phase = .jumping) :
      Step db request s .jump { s with
        serial := Log.last FactRow.ser s.log
        started := Log.last FactRow.ser s.log
        snapshot := s.log
        phase := .fastForward }
  | passCatchup {second : Bool} (hphase : s.phase = .catchup second) (hc : s.disconnected = true) :
      Step db request s .catchup { s with phase := afterCatchup second }
  | catchup {second : Bool} {rows : List FactRow} (hphase : s.phase = .catchup second)
      (hc : s.disconnected = false) (hselect : select db request s.serial s.log = some rows) :
      Step db request s .catchup { s with snapshot := s.log, phase := .fetching second rows }
  | fetchRow {second : Bool} {r : FactRow} {todo : List FactRow} (hphase : s.phase = .fetching second (r :: todo)) :
      Step db request s .row { s.send (.fact r) with serial := r.ser, phase := .fetching second todo }
  | followRow {latest : Nat} {r : FactRow} {todo : List FactRow} (hphase : s.phase = .running latest (r :: todo))
      (hc : s.disconnected = false) :
      Step db request s .row { s.send (.fact r) with serial := r.ser, phase := .running latest todo }
  | skipFetched {second : Bool} {r : FactRow} {todo : List FactRow} (hc : s.disconnected = true)
      (hphase : s.phase = .fetching second (r :: todo)) :
      Step db request s .skip { s with phase := .fetching second todo }
  | skipFollowed {latest : Nat} {r : FactRow} {todo : List FactRow} (hc : s.disconnected = true)
      (hphase : s.phase = .running latest (r :: todo)) :
      Step db request s .skip { s with phase := .running latest todo }
  | failFetched {handed second : Bool} {r : FactRow} {todo : List FactRow}
      (hphase : s.phase = .fetching second (r :: todo)) :
      Step db request s (.failRow handed)
        { ((if handed then s.send (.fact r) else s).send .flush).send .error with
          serial := r.ser, disconnected := true, phase := .ended }
  | failFollowed {handed : Bool} {latest : Nat} {r : FactRow} {todo : List FactRow}
      (hphase : s.phase = .running latest (r :: todo)) (hc : s.disconnected = false) :
      Step db request s (.failRow handed)
        { (if handed then s.send (.fact r) else s).send .error with
          disconnected := true, phase := .running latest todo }
  | finishCatchup {second : Bool} (hphase : s.phase = .fetching second []) :
      Step db request s .finish { s.send .flush with finished := s.through, phase := afterCatchup second }
  | finishRun {latest : Nat} (hphase : s.phase = .running latest []) :
      Step db request s .finish
        { s.send .flush with finished := s.through, serial := max latest s.serial, phase := .idle }
  | passFastForward (hphase : s.phase = .fastForward) (hc : s.disconnected = true) :
      Step db request s .fastForward { s with phase := .signalCatchup }
  | fastForward (hphase : s.phase = .fastForward) (hc : s.disconnected = false) :
      Step db request s .fastForward
        { s with phase := .readTarget (retrieve s.log request.startingAfter) s.target.targetId }
  | noTarget {startedSer : Nat} (hphase : s.phase = .readTarget startedSer none) :
      Step db request s .readTarget { s with phase := .signalCatchup }
  | passTarget {startedSer : Nat} {id : UUID} (hphase : s.phase = .readTarget startedSer (some id))
      (hbehind : ¬ (s.target.targetSer > startedSer ∧ s.serial < s.target.targetSer)) :
      Step db request s .readTarget { s with phase := .signalCatchup }
  | readTarget {startedSer : Nat} {id : UUID} (hphase : s.phase = .readTarget startedSer (some id))
      (hahead : s.target.targetSer > startedSer ∧ s.serial < s.target.targetSer) :
      Step db request s .readTarget { s.send (.fastForward id s.target.targetSer) with phase := .signalCatchup }
  | passSignal (hphase : s.phase = .signalCatchup) (hc : s.disconnected = true) :
      Step db request s .signalCatchup { s with phase := .register }
  | signalCatchup (hphase : s.phase = .signalCatchup) (hc : s.disconnected = false) :
      Step db request s .signalCatchup { s.send .catchup with phase := .register }
  | passRegister (hphase : s.phase = .register) (hc : s.disconnected = true) :
      Step db request s .register { s with phase := .ended }
  | register (hphase : s.phase = .register) (hc : s.disconnected = false) (hcontinuous : request.continuous = true) :
      Step db request s .register { s with phase := .idle }
  | complete (hphase : s.phase = .register) (hc : s.disconnected = false) (hends : request.continuous = false) :
      Step db request s .register { s.send .complete with phase := .ended }
  | trigger (hphase : s.phase = .idle) :
      Step db request s .trigger { s with phase := .latest (Log.last FactRow.ser s.log) }
  | query {latest : Nat} {rows : List FactRow} (hphase : s.phase = .latest latest)
      (hselect : select db request s.serial s.log = some rows) :
      Step db request s .query { s with snapshot := s.log, phase := .running latest rows }
  | failLatest {latest : Nat} (hphase : s.phase = .latest latest) : Step db request s .fail { s with phase := .idle }
  | failRun {latest : Nat} {todo : List FactRow} (hphase : s.phase = .running latest todo) :
      Step db request s .fail { s with phase := .idle }
  | failConnect (hlatest : ∀ latest, s.phase ≠ .latest latest) (hrunning : ∀ latest todo, s.phase ≠ .running latest todo)
      (hidle : s.phase ≠ .idle) (hended : s.phase ≠ .ended) :
      Step db request s .fail { s.send .error with disconnected := true, phase := .ended }

theorem step_cases {db : Database} {request : SubscriptionRequest} {s s' : State} {a : Action}
    (hs : step db request s a = some s') : Step db request s a s' := by
  cases a with
  | publish rows =>
    simp only [step, PgFactStream.publish] at hs
    split at hs <;> cases hs
    rename_i hrows
    exact .publish hrows.1 hrows.2
  | queryTarget =>
    cases hs
    exact .queryTarget
  | setTarget =>
    obtain ⟨mark, hmark, rfl⟩ := Option.map_eq_some_iff.mp hs
    exact .setTarget hmark
  | close =>
    cases hs
    exact .close
  | connect =>
    simp only [step, initializeSerialToStartAfter] at hs
    split at hs <;> cases hs
    exact .connect ‹_›
  | jump =>
    simp only [step, PgFactStream.jump] at hs
    split at hs <;> cases hs
    exact .jump ‹_›
  | catchup =>
    simp only [step, PgFactStream.catchup] at hs
    split at hs
    · split at hs
      · cases hs
        exact .passCatchup ‹_› ‹_›
      · rename_i hphase hconnected
        obtain ⟨rows, hselect, rfl⟩ := Option.map_eq_some_iff.mp hs
        exact .catchup hphase (by simpa using hconnected) hselect
    · cases hs
  | row =>
    simp only [step, row] at hs
    split at hs
    · cases hs
      exact .fetchRow ‹_›
    · rename_i hphase
      split at hs
      · cases hs
      · rename_i hconnected
        cases hs
        exact .followRow hphase (by simpa using hconnected)
    · cases hs
  | skip =>
    simp only [step, skip] at hs
    split at hs
    · split at hs <;> cases hs
      · exact .skipFetched ‹_› ‹_›
      · exact .skipFollowed ‹_› ‹_›
    · cases hs
  | failRow handed =>
    simp only [step, failRow] at hs
    split at hs
    · cases hs
      exact .failFetched ‹_›
    · rename_i hphase
      split at hs
      · cases hs
      · rename_i hconnected
        cases hs
        exact .failFollowed hphase (by simpa using hconnected)
    · cases hs
  | finish =>
    simp only [step, finish] at hs
    split at hs <;> cases hs
    · exact .finishCatchup ‹_›
    · exact .finishRun ‹_›
  | fastForward =>
    simp only [step, PgFactStream.fastForward] at hs
    split at hs
    · rename_i hphase
      split at hs <;> cases hs
      · exact .passFastForward hphase ‹_›
      · rename_i hconnected
        exact .fastForward hphase (by simpa using hconnected)
    · cases hs
  | readTarget =>
    simp only [step, PgFactStream.readTarget] at hs
    split at hs
    · rename_i hphase
      split at hs
      · cases hs
        exact .noTarget hphase
      · split at hs <;> cases hs
        · exact .readTarget hphase ‹_›
        · exact .passTarget hphase ‹_›
    · cases hs
  | signalCatchup =>
    simp only [step, PgFactStream.signalCatchup] at hs
    split at hs
    · rename_i hphase
      split at hs <;> cases hs
      · exact .passSignal hphase ‹_›
      · rename_i hconnected
        exact .signalCatchup hphase (by simpa using hconnected)
    · cases hs
  | register =>
    simp only [step, PgFactStream.register] at hs
    split at hs
    · rename_i hphase
      split at hs
      · cases hs
        exact .passRegister hphase ‹_›
      · rename_i hconnected
        have hc : s.disconnected = false := by simpa using hconnected
        split at hs <;> cases hs
        · exact .register hphase hc ‹_›
        · rename_i hends
          exact .complete hphase hc (by simpa using hends)
    · cases hs
  | trigger =>
    simp only [step, PgFactStream.trigger] at hs
    split at hs <;> cases hs
    exact .trigger ‹_›
  | query =>
    simp only [step, PgFactStream.query] at hs
    split at hs
    · obtain ⟨rows, hselect, rfl⟩ := Option.map_eq_some_iff.mp hs
      exact .query ‹_› hselect
    · cases hs
  | fail =>
    simp only [step, fail] at hs
    split at hs <;> cases hs
    · exact .failLatest ‹_›
    · exact .failRun ‹_›
    · exact .failConnect ‹_› ‹_› ‹_› ‹_›

/-- A stream before it connects, over some log. -/
structure Start (s : State) : Prop where
  ascending : Log.Ascending FactRow.ser s.log
  positive : ∀ row ∈ s.log, 0 < row.ser
  target : s.target = {}
  refreshed : s.refreshed = none
  phase : s.phase = .connecting
  sent : s.sent = []
  started : s.started = 0
  opened : s.opened = []
  snapshot : s.snapshot = []
  finished : s.finished = []

def streaming (db : Database) (request : SubscriptionRequest) : Machine State Action where
  Start := Start
  step := step db request

end PgFactStream
end FactCast
