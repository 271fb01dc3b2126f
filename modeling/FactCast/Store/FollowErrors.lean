import FactCast.Store.CondensedQuery
import FactCast.Store.Filter
import FactCast.Store.Pipeline
import FactCast.Store.Stream

/-! When a follow run fails.

A run of `PgSynchronizedQuery` reads the latest serial, and in a transaction sets an
option, executes the statement, takes the rows one by one to the pipeline, and flushes
it. Any of this may throw. Only what is thrown while a row is processed becomes an
error signal, which closes the subscription. What is thrown before, between and after
the rows is logged by the executor and gone; so is what the pipeline throws when it is
given the flush, or the error signal itself, because facts are still in its buffer.

Facts that such a run was to hand over wait until something triggers the next one.
`failures_answered` says what has to be avoided, and `lost_connection_swallowed` what
happens otherwise. -/
namespace FactCast

/-- What a stream is made of: how its rows are read, what its pipeline lets through, and
how long its triggers are condensed. -/
structure Follower where
  db : Database
  request : SubscriptionRequest
  reader : UuidReader
  matcher : PostQueryMatcher
  isBlocked : UUID → Bool
  pipeline : BufferedTransformingServerPipeline
  maxDelayInMillis : Int

namespace BufferedTransformingServerPipeline

/-- What the service says is thrown, unless it is about a transformation. -/
def refused (requests : List TransformationRequest) : Except Throwable (List PgFact) → Bool
  | .ok facts => requests.length != facts.length
  | .error (.transformationException _) => false
  | .error (.illegalState _) => true
  | .error (.other _) => true

/-- To empty the buffer fails: the service does not answer for what is in there. -/
def unanswered (p : BufferedTransformingServerPipeline) (s : State) : Bool :=
  match s.mode with
  | .direct => false
  | .buffering =>
    let requests := s.buffer.filterMap Supplier.request?
    requests.isEmpty || refused requests (p.transform s.calls requests)

end BufferedTransformingServerPipeline

namespace PgSynchronizedQuery
open BufferedTransformingServerPipeline (unanswered)

/-- What a run may throw. -/
abbrev Throwable := BufferedTransformingServerPipeline.Throwable

/-- How a run went that failed. -/
structure Failure where
  /-- The serials of matching facts that were there before the run, and were not handed over. -/
  missed : List Nat
  /-- The subscriber was given an error. -/
  signalled : Bool
  /-- Another run was scheduled. -/
  scheduled : Bool
deriving DecidableEq

/-- A failure while a row is processed: before the pipeline is given the fact, or
after. One of the database may be the doing of a cancellation. -/
structure Fault where
  early : Bool
  psql : Bool
  error : Throwable

inductive Phase where
  | idle
  | entered
  | latest (latest : Nat)
  /-- In the transaction, before the statement. -/
  | begun (latest : Nat)
  | rows (latest : Nat) (todo : List FactRow)
  /-- The result set was closed when an error was signalled. -/
  | escalated (latest : Nat)
  | flushed (latest : Nat)
  | over

structure State where
  log : List FactRow := []
  serialToContinueFrom : Nat := 0
  executor : CondensedQuery.State := {}
  phase : Phase := .idle
  pipe : BufferedTransformingServerPipeline.State := {}
  /-- The serials of facts that wait in the pipeline's buffer. -/
  waiting : List Nat := []
  handed : List Nat := []
  closed : Bool := false
  /-- A statement is there to be cancelled. -/
  statement : Bool := false
  wasCanceled : Bool := false
  /-- The serials the run is to hand over. -/
  due : List Nat := []
  failures : List Failure := []

inductive Action where
  | publish (rows : List FactRow)
  /-- A call of `trigger`, the timer, or, once the stream is closed, its cancellation. -/
  | executor (a : CondensedQuery.Action)
  | enter (r : CondensedQuery.Runner)
  | retrieveLatestSer
  | begin
  | query
  | row (fault : Option Fault)
  | flush
  | commit
  /-- The step at hand throws, or the next row cannot be fetched. -/
  | fail
  | leave

/-! ### What the subscriber has -/

/-- The error signals among what the pipeline passed on. -/
def errors (pipe : BufferedTransformingServerPipeline.State) : List Throwable :=
  pipe.parent.filterMap fun
    | .error e => some e
    | _ => none

def factCount (pipe : BufferedTransformingServerPipeline.State) : Nat :=
  (pipe.parent.filter fun
    | .fact _ => true
    | _ => false).length

def State.signalled (s : State) : Bool := !(errors s.pipe).isEmpty

/-- What the run was to hand over and has not. -/
def State.missed (s : State) : List Nat := s.due.filter fun ser => !s.handed.contains ser

/-- A task is to come, or a call waits to run the target. -/
def State.scheduled (s : State) : Bool :=
  0 < CondensedQuery.toCome s.executor || s.executor.calls.contains .entering

def State.fails (s : State) : State :=
  { s with failures := s.failures ++ [⟨s.missed, s.signalled, s.scheduled⟩] }

section Steps
variable (f : Follower) (s : State)

def passes (fact : PgFact) : Bool :=
  (f.matcher.canBeSkipped || f.matcher.test fact) && !f.isBlocked fact.id

/-- The filters drop facts; the rest is for the transforming stage. -/
def process (pipe : BufferedTransformingServerPipeline.State) :
    BufferedTransformingServerPipeline.Signal → BufferedTransformingServerPipeline.State
  | .fact fact =>
    if passes f fact then BufferedTransformingServerPipeline.process f.pipeline pipe (.fact fact)
    else pipe
  | signal => BufferedTransformingServerPipeline.process f.pipeline pipe signal

/-- The rows a query selects whose facts are not dropped, or cannot be read. -/
def matching (serial : Nat) (log : List FactRow) : List Nat :=
  let rows := (PgFactStream.select f.db f.request serial log).getD []
  (rows.filter fun row => (PgFact.from_ f.reader row).all (passes f)).map FactRow.ser

/-- Something is given to the pipeline while `waiting` is to be handed over: so many
facts as the subscriber got of it, in order, are handed over. An error closes the
stream, which cancels the statement. -/
def give (waiting : List Nat) (signal : BufferedTransformingServerPipeline.Signal) : State :=
  let pipe := process f s.pipe signal
  let taken := factCount pipe - factCount s.pipe
  let closes := (errors s.pipe).length < (errors pipe).length
  { s with
    pipe := pipe
    handed := s.handed ++ waiting.take taken
    waiting := if pipe.buffer.isEmpty then [] else waiting
    closed := s.closed || closes
    wasCanceled := s.wasCanceled || closes && s.statement }

/-- What the pipeline threw. -/
def thrown (s s' : State) : Option Throwable := s'.pipe.thrown[s.pipe.thrown.length]?

/-- A row on its way to the pipeline, and what is thrown there. -/
def handOver (r : FactRow) (fault : Option Fault) : State × Option (Bool × Throwable) :=
  let early := fault.filter fun fault => fault.early
  match early, PgFact.from_ f.reader r with
  | some fault, _ => (s, some (fault.psql, fault.error))
  | none, none => (s, some (false, .other "the row cannot be read"))
  | none, some fact =>
    let s' := give f s (if passes f fact then s.waiting ++ [r.ser] else s.waiting) (.fact fact)
    match thrown s s', fault with
    | some e, _ => (s', some (false, e))
    | none, some fault => (s', some (fault.psql, fault.error))
    | none, none => (s', none)

/-- The error is signalled, unless that fails as well. -/
def escalateError (latest : Nat) (e : Throwable) : State :=
  let s' := give f s s.waiting (.error e)
  match thrown s s' with
  | some _ => { s'.fails with phase := .over }
  | none => { s'.fails with phase := .escalated latest }

/-- A connected stream processes the row, and goes on from its serial. -/
def processRow (fault : Option Fault) : Option State :=
  match s.phase with
  | .rows latest (r :: todo) =>
    if s.closed then some { s with phase := .rows latest todo }
    else
      match handOver f s r fault with
      | (s', none) => some { s' with serialToContinueFrom := r.ser, phase := .rows latest todo }
      | (s', some (psql, e)) =>
        if psql && s'.wasCanceled then some { s' with phase := .rows latest todo }
        else some (escalateError f s' latest e)
  | _ => none

def publish (rows : List FactRow) : Option State :=
  if Log.Ascending FactRow.ser (s.log ++ rows) ∧ ∀ row ∈ rows, 0 < row.ser then
    some { s with log := s.log ++ rows }
  else none

/-- The executor's own steps; only a closed stream is cancelled. -/
def executor (a : CondensedQuery.Action) : Option State :=
  match a with
  | .enter _ => none
  | .leave => none
  | .disconnect =>
    if s.closed then (CondensedQuery.step f.maxDelayInMillis s.executor a).map fun executor =>
      { s with executor := executor }
    else none
  | .cancel =>
    if s.closed then (CondensedQuery.step f.maxDelayInMillis s.executor a).map fun executor =>
      { s with executor := executor }
    else none
  | a => (CondensedQuery.step f.maxDelayInMillis s.executor a).map fun executor =>
      { s with executor := executor }

/-- A run starts, and is to hand over what is there by now. -/
def enter (r : CondensedQuery.Runner) : Option State :=
  match s.phase with
  | .idle => (CondensedQuery.enter s.executor r).map fun executor =>
      { s with
        executor := executor
        due := matching f s.serialToContinueFrom s.log
        phase := .entered }
  | _ => none

def retrieveLatestSer : Option State :=
  match s.phase with
  | .entered => some { s with phase := .latest (Log.last FactRow.ser s.log) }
  | _ => none

def begin : Option State :=
  match s.phase with
  | .latest n => some { s with phase := .begun n }
  | _ => none

def query : Option State :=
  match s.phase with
  | .begun n => (PgFactStream.select f.db f.request s.serialToContinueFrom s.log).map fun rows =>
      { s with statement := true, wasCanceled := false, phase := .rows n rows }
  | _ => none

def flush : Option State :=
  match s.phase with
  | .rows n [] =>
    let s' := give f s s.waiting .flush
    match thrown s s' with
    | some _ => some { s'.fails with phase := .over }
    | none => some { s' with phase := .flushed n }
  | _ => none

/-- The serial is shifted to the latest one. -/
def commit : Option State :=
  match s.phase with
  | .flushed n =>
    some { s with serialToContinueFrom := max n s.serialToContinueFrom, phase := .over }
  | _ => none

/-- The executor catches what was thrown, and that is it. -/
def fail : Option State :=
  match s.phase with
  | .idle => none
  | .over => none
  | _ => if s.wasCanceled then some { s with phase := .over } else some { s.fails with phase := .over }

def leave : Option State :=
  match s.phase with
  | .over => (CondensedQuery.leave s.executor).map fun executor =>
      { s with executor := executor, phase := .idle }
  | _ => none

end Steps

def step (f : Follower) (s : State) : Action → Option State
  | .publish rows => publish s rows
  | .executor a => executor f s a
  | .enter r => enter f s r
  | .retrieveLatestSer => retrieveLatestSer s
  | .begin => begin s
  | .query => query f s
  | .row fault => processRow f s fault
  | .flush => flush f s
  | .commit => commit s
  | .fail => fail s
  | .leave => leave s

/-- A stream that enters follow mode, over some log and from some serial. -/
structure Start (s : State) : Prop where
  ascending : Log.Ascending FactRow.ser s.log
  positive : ∀ row ∈ s.log, 0 < row.ser
  executor : s.executor = {}
  phase : s.phase = .idle
  pipe : s.pipe = {}
  waiting : s.waiting = []
  handed : s.handed = []
  closed : s.closed = false
  failures : s.failures = []

def following (f : Follower) : Machine State Action where
  Start := Start
  step := step f

/-! ### What gets past the row -/

/-- The pipeline when the row fails. -/
def atFault (f : Follower) (s : State) (r : FactRow) (fault : Option Fault) :
    BufferedTransformingServerPipeline.State :=
  match fault.filter fun fault => fault.early, PgFact.from_ f.reader r with
  | none, some fact => process f s.pipe (.fact fact)
  | _, _ => s.pipe

/-- An exception leaves the run: it is not thrown while a row is processed, or the error
cannot be signalled. -/
def escapes (f : Follower) (s : State) : Action → Bool
  | .fail => !s.wasCanceled
  | .flush => unanswered f.pipeline s.pipe
  | .row fault =>
    match s.phase with
    | .rows _ (r :: _) =>
      (fault.isSome || (PgFact.from_ f.reader r).isNone) && unanswered f.pipeline (atFault f s r fault)
    | _ => false
  | _ => false

/-- On an open stream no exception leaves a run with facts to hand over, unless another
run is scheduled. -/
def Contained (f : Follower) (s : State) (a : Action) : Prop :=
  escapes f s a = true → s.closed = true ∨ s.scheduled = true ∨ s.missed = []

def Failure.Answered (failure : Failure) : Prop :=
  failure.missed = [] ∨ failure.signalled = true ∨ failure.scheduled = true

end PgSynchronizedQuery

/-! ### The pipeline at a signal that is no fact -/

namespace BufferedTransformingServerPipeline
variable {p : BufferedTransformingServerPipeline} {s : State} {x : Signal}

theorem process_signal (hx : x.indicatesFlush = true) :
    process p s x = if s.mode = .direct then s.pass [x] else doFlush p (s.add (.signal x)) := by
  have hpass : passOrBuffer p s x =
      if s.mode = .direct then s.pass [x] else doFlush p (s.add (.signal x)) := by
    unfold passOrBuffer
    split
    · rename_i hmode
      rw [if_pos hmode]
    · rename_i hmode
      rw [if_neg (by simp [hmode]), flushIfNecessary, if_pos]
      exact .inr (by simpa using hx)
  cases x with
  | fact f => cases hx
  | _ => exact hpass

theorem mem_resolve_signal {buffer : List Supplier} {facts : List PgFact}
    (h : .signal x ∈ buffer) : x ∈ resolve buffer facts := by
  induction buffer generalizing facts with
  | nil => cases h
  | cons b rest ih =>
    cases b with
    | signal y =>
      simp only [resolve, List.mem_cons]
      rcases List.mem_cons.mp h with hxy | hrest
      · exact .inl (Supplier.signal.inj hxy)
      · exact .inr (ih hrest)
    | transformed request =>
      have hrest : .signal x ∈ rest := by simpa using h
      cases facts with
      | nil => exact ih hrest
      | cons g facts => exact List.mem_cons_of_mem _ (ih hrest)

theorem answer_grows (requests : List TransformationRequest) :
    ∃ l, (answer p s requests).parent = s.parent ++ l := by
  unfold answer
  dsimp only
  split
  · split
    · exact ⟨[], (List.append_nil _).symm⟩
    · exact ⟨_, rfl⟩
  · exact ⟨_, rfl⟩
  · exact ⟨[], (List.append_nil _).symm⟩

theorem doFlush_grows : ∃ l, (doFlush p s).parent = s.parent ++ l := by
  unfold doFlush
  split
  · exact ⟨[], (List.append_nil _).symm⟩
  · split
    · exact ⟨[], (List.append_nil _).symm⟩
    · exact answer_grows _

/-- The parent keeps what it was given. -/
theorem process_grows : ∃ l, (process p s x).parent = s.parent ++ l := by
  have hflush : ∀ (t : State) (signal : Option Signal), t.parent = s.parent →
      ∃ l, (flushIfNecessary p t signal).parent = s.parent ++ l := by
    intro t signal ht
    unfold flushIfNecessary
    split
    · rw [← ht]
      exact doFlush_grows
    · exact ⟨[], by simp [ht]⟩
  have hpass : ∃ l, (passOrBuffer p s x).parent = s.parent ++ l := by
    unfold passOrBuffer
    split
    · exact ⟨_, rfl⟩
    · exact hflush _ _ rfl
  cases x with
  | fact g =>
    simp only [process]
    cases p.prepareTransformation g with
    | none => exact hpass
    | some request => exact hflush _ _ rfl
  | _ => exact hpass

/-- What is thrown leaves the stage empty. -/
theorem process_thrown : (process p s x).thrown = s.thrown ∨ (process p s x).mode = .direct := by
  have hflush : ∀ (t : State) (signal : Option Signal), t.thrown = s.thrown →
      (flushIfNecessary p t signal).thrown = s.thrown ∨
        (flushIfNecessary p t signal).mode = .direct := by
    intro t signal ht
    unfold flushIfNecessary
    split
    · unfold doFlush
      split
      · exact .inl ht
      · split
        · exact .inr rfl
        · exact .inr rfl
    · exact .inl ht
  have hpass : (passOrBuffer p s x).thrown = s.thrown ∨ (passOrBuffer p s x).mode = .direct := by
    unfold passOrBuffer
    split
    · exact .inl rfl
    · exact hflush _ _ rfl
  cases x with
  | fact g =>
    simp only [process]
    cases p.prepareTransformation g with
    | none => exact hpass
    | some request => exact hflush _ _ rfl
  | _ => exact hpass

/-- A signal that is no fact gets through, or an error in its place; or it is lost with
the buffer, and that is thrown. -/
theorem process_outcome (hx : x.indicatesFlush = true) :
    ((process p s x).thrown = s.thrown ∧
        (x ∈ (process p s x).parent ∨ ∃ e, .error e ∈ (process p s x).parent)) ∨
      (unanswered p s = true ∧ ∃ e, (process p s x).thrown = s.thrown ++ [e]) := by
  rw [process_signal hx]
  cases hmode : s.mode with
  | direct => exact .inl ⟨rfl, .inl (by simp [State.pass])⟩
  | buffering =>
    have hrequests : (s.add (.signal x)).buffer.filterMap Supplier.request? =
        s.buffer.filterMap Supplier.request? := by
      simp [State.add, Supplier.request?]
    have hfull : (s.add (.signal x)).buffer.isEmpty = false := by simp [State.add]
    simp only [reduceCtorEq, if_false, doFlush, hfull, hrequests, Bool.false_eq_true]
    cases hr : s.buffer.filterMap Supplier.request? with
    | nil => exact .inr ⟨by simp [unanswered, hmode, hr], _, rfl⟩
    | cons request rest =>
      have hunanswered : unanswered p s =
          refused (request :: rest) (p.transform s.calls (request :: rest)) := by
        simp [unanswered, hmode, hr]
      rw [hunanswered]
      have hcalls : (s.add (.signal x)).calls = s.calls := rfl
      simp only [answer, hcalls]
      cases p.transform s.calls (request :: rest) with
      | ok facts =>
        by_cases hlength : (request :: rest).length ≠ facts.length
        · simp only [if_pos hlength]
          exact .inr ⟨by simpa [refused] using hlength, _, rfl⟩
        · simp only [if_neg hlength]
          refine .inl ⟨rfl, .inl ?_⟩
          refine List.mem_append_right _ (mem_resolve_signal ?_)
          simp [State.add]
      | error e =>
        cases e with
        | transformationException message =>
          exact .inl ⟨rfl, .inr ⟨_, List.mem_append_right _ (List.mem_singleton_self _)⟩⟩
        | illegalState message => exact .inr ⟨rfl, _, rfl⟩
        | other message => exact .inr ⟨rfl, _, rfl⟩

end BufferedTransformingServerPipeline

namespace PgSynchronizedQuery
open BufferedTransformingServerPipeline
  (unanswered process_outcome process_grows process_thrown)
variable {f : Follower} {s s' : State} {a : Action} {w : List Nat}
  {x : BufferedTransformingServerPipeline.Signal}

theorem errors_ne_nil_iff {pipe : BufferedTransformingServerPipeline.State} :
    errors pipe ≠ [] ↔ ∃ e, .error e ∈ pipe.parent := by
  constructor
  · intro h
    obtain ⟨e, he⟩ := List.exists_mem_of_ne_nil _ h
    obtain ⟨x, hx, hxe⟩ := List.mem_filterMap.mp he
    cases x with
    | error e' => exact ⟨e', hx⟩
    | _ => cases hxe
  · rintro ⟨e, he⟩ hnil
    have : e ∈ errors pipe := List.mem_filterMap.mpr ⟨_, he, rfl⟩
    rw [hnil] at this
    cases this

theorem signalled_iff : s.signalled = true ↔ ∃ e, .error e ∈ s.pipe.parent := by
  rw [← errors_ne_nil_iff, State.signalled]
  simp

theorem process_parent (f : Follower) (pipe : BufferedTransformingServerPipeline.State) :
    ∃ l, (process f pipe x).parent = pipe.parent ++ l := by
  cases x with
  | fact fact =>
    simp only [process]
    split
    · exact process_grows
    · exact ⟨[], (List.append_nil _).symm⟩
  | _ => exact process_grows

/-! ### What is given to the pipeline -/

theorem give_signalled (h : s.signalled = true) : (give f s w x).signalled = true := by
  obtain ⟨e, he⟩ := signalled_iff.mp h
  obtain ⟨l, hl⟩ := process_parent (x := x) f s.pipe
  refine signalled_iff.mpr ⟨e, ?_⟩
  show .error e ∈ (process f s.pipe x).parent
  rw [hl]
  exact List.mem_append_left _ he

theorem give_missed (h : s.missed = []) : (give f s w x).missed = [] := by
  simp only [State.missed, give, List.filter_eq_nil_iff, Bool.not_eq_true', Bool.not_eq_false,
    List.contains_iff_mem] at h ⊢
  exact fun ser hser => List.mem_append_left _ (h ser hser)

/-- A stream is closed by an error that the subscriber was given. -/
theorem give_closed (h : s.closed = true → s.signalled = true)
    (hclosed : (give f s w x).closed = true) : (give f s w x).signalled = true := by
  simp only [give, Bool.or_eq_true, decide_eq_true_eq] at hclosed
  rcases hclosed with hbefore | hgrows
  · exact give_signalled (h hbefore)
  · refine signalled_iff.mpr (errors_ne_nil_iff.mp fun hnil => ?_)
    rw [show errors (process f s.pipe x) = [] from hnil] at hgrows
    cases hgrows

theorem thrown_give (hsignal : x.indicatesFlush = true) :
    (thrown s (give f s w x) = none ∧
        (x ∈ (give f s w x).pipe.parent ∨ (give f s w x).signalled = true)) ∨
      unanswered f.pipeline s.pipe = true := by
  have hprocess : (give f s w x).pipe =
      BufferedTransformingServerPipeline.process f.pipeline s.pipe x := by
    cases x with
    | fact fact => cases hsignal
    | _ => rfl
  rw [signalled_iff, thrown, hprocess]
  obtain ⟨hthrown, hgot⟩ | ⟨hunanswered, _⟩ := process_outcome (p := f.pipeline) (s := s.pipe) hsignal
  · exact .inl ⟨by simp [hthrown], hgot⟩
  · exact .inr hunanswered

/-- An error that is not lost reaches the subscriber. -/
theorem give_error {e : Throwable} (h : thrown s (give f s w (.error e)) = none) :
    (give f s w (.error e)).signalled = true := by
  rw [signalled_iff]
  have hprocess : (give f s w (.error e)).pipe =
      BufferedTransformingServerPipeline.process f.pipeline s.pipe (.error e) := rfl
  rw [thrown, hprocess] at h
  rw [hprocess]
  obtain ⟨_, hgot | hgot⟩ | ⟨_, e', he'⟩ :=
    process_outcome (p := f.pipeline) (s := s.pipe) (x := .error e) rfl
  · exact ⟨e, hgot⟩
  · exact hgot
  · rw [he'] at h
    simp at h

/-! ### Every failure is answered -/

structure Inv (s : State) : Prop where
  answered : ∀ failure ∈ s.failures, failure.Answered
  closed : s.closed = true → s.signalled = true

theorem Inv.same (h : Inv s) (hfailures : s'.failures = s.failures) (hclosed : s'.closed = s.closed)
    (hpipe : s'.pipe = s.pipe) : Inv s' where
  answered := by
    rw [hfailures]
    exact h.answered
  closed := by
    rw [hclosed, State.signalled, hpipe]
    exact h.closed

theorem Inv.give (h : Inv s) : Inv (give f s w x) where
  answered := h.answered
  closed := give_closed h.closed

theorem Inv.fails (h : Inv s)
    (hanswered : s.missed = [] ∨ s.signalled = true ∨ s.scheduled = true) : Inv s.fails where
  answered := by
    intro failure hfailure
    obtain hbefore | hlast := List.mem_append.mp hfailure
    · exact h.answered failure hbefore
    · obtain rfl := List.mem_singleton.mp hlast
      exact hanswered
  closed := h.closed

/-- What the condition comes to for a state that the pipeline has been given something in. -/
theorem answered_give (h : Inv s) (hc : s.closed = true ∨ s.scheduled = true ∨ s.missed = []) :
    (PgSynchronizedQuery.give f s w x).missed = [] ∨
      (PgSynchronizedQuery.give f s w x).signalled = true ∨
        (PgSynchronizedQuery.give f s w x).scheduled = true := by
  rcases hc with hclosed | hscheduled | hmissed
  · exact .inr (.inl (give_signalled (h.closed hclosed)))
  · exact .inr (.inr hscheduled)
  · exact .inl (give_missed hmissed)

theorem handOver_fst (r : FactRow) (fault : Option Fault) :
    (handOver f s r fault).1 = s ∨ ∃ w x, (handOver f s r fault).1 = give f s w x := by
  unfold handOver
  dsimp only
  split
  · exact .inl rfl
  · exact .inl rfl
  · right
    split <;> exact ⟨_, _, rfl⟩

theorem handOver_pipe (r : FactRow) (fault : Option Fault) :
    (handOver f s r fault).1.pipe = atFault f s r fault := by
  simp only [handOver, atFault]
  cases hearly : fault.filter fun fault => fault.early with
  | some _ => rfl
  | none =>
    cases PgFact.from_ f.reader r with
    | none => rfl
    | some fact =>
      dsimp only
      split <;> rfl

/-- What the pipeline throws at the fact leaves it empty, and the error gets through. -/
theorem handOver_fault {r : FactRow} {fault : Option Fault}
    (hfails : (handOver f s r fault).2.isSome = true)
    (hunanswered : unanswered f.pipeline (atFault f s r fault) = true) :
    (fault.isSome || (PgFact.from_ f.reader r).isNone) = true := by
  cases fault with
  | some fault => rfl
  | none =>
    simp only [atFault, handOver, Option.filter_none] at hfails hunanswered
    cases hread : PgFact.from_ f.reader r with
    | none => rfl
    | some fact =>
      simp only [hread] at hfails hunanswered
      have hdirect : (process f s.pipe (.fact fact)).thrown = s.pipe.thrown ∨
          (process f s.pipe (.fact fact)).mode = .direct := by
        simp only [process]
        split
        · exact process_thrown
        · exact .inl rfl
      rcases hdirect with hsame | hdirect
      · simp [thrown, give, hsame] at hfails
      · simp [unanswered, hdirect] at hunanswered

/-- Whatever becomes of the row, another run stays scheduled, and what is handed over is. -/
theorem handOver_contained (f : Follower) (r : FactRow) (fault : Option Fault) (hopen : s.closed = false)
    (h : s.closed = true ∨ s.scheduled = true ∨ s.missed = []) :
    (handOver f s r fault).1.scheduled = true ∨ (handOver f s r fault).1.missed = [] := by
  have h : s.scheduled = true ∨ s.missed = [] := h.resolve_left (by simp [hopen])
  obtain heq | ⟨w, x, heq⟩ := handOver_fst (f := f) (s := s) r fault
  · rwa [heq]
  · rw [heq]
    exact h.imp_right give_missed

theorem inv_escalateError {latest : Nat} {e : Throwable} (h : Inv s)
    (hc : unanswered f.pipeline s.pipe = true → s.scheduled = true ∨ s.missed = []) :
    Inv (escalateError f s latest e) := by
  unfold escalateError
  dsimp only
  split
  · rename_i e' hthrown
    have hunanswered : unanswered f.pipeline s.pipe = true := by
      obtain ⟨hnone, _⟩ | hunanswered :=
        thrown_give (f := f) (s := s) (w := s.waiting) (x := .error e) rfl
      · rw [hnone] at hthrown
        cases hthrown
      · exact hunanswered
    exact (h.give.fails (answered_give h (.inr (hc hunanswered)))).same rfl rfl rfl
  · rename_i hthrown
    exact (h.give.fails (.inr (.inl (give_error hthrown)))).same rfl rfl rfl

theorem inv_processRow {fault : Option Fault} (h : Inv s) (hc : Contained f s (.row fault))
    (hs : processRow f s fault = some s') : Inv s' := by
  unfold processRow at hs
  split at hs
  · rename_i latest r todo hphase
    split at hs
    · cases hs
      exact h.same rfl rfl rfl
    · rename_i hopen
      have hinv : Inv (handOver f s r fault).1 := by
        obtain heq | ⟨w, x, heq⟩ := handOver_fst (f := f) (s := s) r fault
        · rw [heq]
          exact h
        · rw [heq]
          exact h.give
      cases hout : handOver f s r fault with
      | mk t out =>
        rw [hout] at hs hinv
        cases out with
        | none =>
          cases hs
          exact hinv.same rfl rfl rfl
        | some thrown =>
          obtain ⟨psql, e⟩ := thrown
          dsimp only at hs
          split at hs
          · cases hs
            exact hinv.same rfl rfl rfl
          · cases hs
            refine inv_escalateError hinv fun hunanswered => ?_
            have hpipe : atFault f s r fault = t.pipe := by rw [← handOver_pipe, hout]
            have hfault : (fault.isSome || (PgFact.from_ f.reader r).isNone) = true :=
              handOver_fault (by rw [hout]; rfl) (by rw [hpipe]; exact hunanswered)
            have hescapes : escapes f s (.row fault) = true := by
              simp only [escapes, hphase, hfault, hpipe, hunanswered, Bool.and_self]
            have := handOver_contained f r fault (by simpa using hopen) (hc hescapes)
            rwa [hout] at this
  · cases hs

theorem inv_flush (h : Inv s) (hc : Contained f s .flush) (hs : flush f s = some s') : Inv s' := by
  unfold flush at hs
  split at hs
  · dsimp only at hs
    split at hs
    · rename_i e hthrown
      cases hs
      have hescapes : unanswered f.pipeline s.pipe = true := by
        obtain ⟨hnone, _⟩ | hunanswered :=
          thrown_give (f := f) (s := s) (w := s.waiting) (x := .flush) rfl
        · rw [hnone] at hthrown
          cases hthrown
        · exact hunanswered
      exact (h.give.fails (answered_give h (hc hescapes))).same rfl rfl rfl
    · cases hs
      exact (h.give (f := f) (w := s.waiting) (x := .flush)).same rfl rfl rfl
  · cases hs

theorem inv_fail (h : Inv s) (hc : Contained f s .fail) (hs : fail s = some s') : Inv s' := by
  have hfails : ∀ t, (if s.wasCanceled then some { s with phase := .over }
      else some { s.fails with phase := .over }) = some t → Inv t := by
    intro t ht
    split at ht
    · cases ht
      exact h.same rfl rfl rfl
    · rename_i hnot
      cases ht
      refine (h.fails ?_).same rfl rfl rfl
      obtain hclosed | hscheduled | hmissed := hc (by simpa [escapes] using hnot)
      · exact .inr (.inl (h.closed hclosed))
      · exact .inr (.inr hscheduled)
      · exact .inl hmissed
  unfold fail at hs
  split at hs
  · cases hs
  · cases hs
  · exact hfails _ hs

theorem executor_frame {b : CondensedQuery.Action} (hs : executor f s b = some s') :
    s'.failures = s.failures ∧ s'.closed = s.closed ∧ s'.pipe = s.pipe := by
  have hmap : ∀ t, (CondensedQuery.step f.maxDelayInMillis s.executor b).map (fun executor =>
      { s with executor := executor }) = some t →
      t.failures = s.failures ∧ t.closed = s.closed ∧ t.pipe = s.pipe := by
    intro t ht
    obtain ⟨executor, _, rfl⟩ := Option.map_eq_some_iff.mp ht
    exact ⟨rfl, rfl, rfl⟩
  cases b with
  | enter r => cases hs
  | leave => cases hs
  | disconnect =>
    simp only [executor, Option.ite_none_right_eq_some] at hs
    exact hmap _ hs.2
  | cancel =>
    simp only [executor, Option.ite_none_right_eq_some] at hs
    exact hmap _ hs.2
  | _ => exact hmap _ hs

theorem inv_step (h : Inv s) (hc : Contained f s a) (hs : step f s a = some s') : Inv s' := by
  cases a with
  | publish rows =>
    simp only [step, publish, Option.ite_none_right_eq_some, Option.some.injEq] at hs
    obtain ⟨_, rfl⟩ := hs
    exact h.same rfl rfl rfl
  | executor b =>
    obtain ⟨hfailures, hclosed, hpipe⟩ := executor_frame hs
    exact h.same hfailures hclosed hpipe
  | enter r =>
    simp only [step, enter] at hs
    split at hs
    · obtain ⟨executor, _, rfl⟩ := Option.map_eq_some_iff.mp hs
      exact h.same rfl rfl rfl
    · cases hs
  | retrieveLatestSer =>
    simp only [step, retrieveLatestSer] at hs
    split at hs <;> cases hs
    exact h.same rfl rfl rfl
  | begin =>
    simp only [step, begin] at hs
    split at hs <;> cases hs
    exact h.same rfl rfl rfl
  | query =>
    simp only [step, query] at hs
    split at hs
    · obtain ⟨rows, _, rfl⟩ := Option.map_eq_some_iff.mp hs
      exact h.same rfl rfl rfl
    · cases hs
  | row fault => exact inv_processRow h hc hs
  | flush => exact inv_flush h hc hs
  | commit =>
    simp only [step, commit] at hs
    split at hs <;> cases hs
    exact h.same rfl rfl rfl
  | fail => exact inv_fail h hc hs
  | leave =>
    simp only [step, leave] at hs
    split at hs
    · obtain ⟨executor, _, rfl⟩ := Option.map_eq_some_iff.mp hs
      exact h.same rfl rfl rfl
    · cases hs

theorem inv_start (h : Start s) : Inv s where
  answered := by simp [h.failures]
  closed := by simp [h.closed]

/-- However runs fail: if no exception leaves a run that has facts to hand over while no
other one is scheduled, then each run that failed and missed one has an error signalled,
or another run scheduled. -/
theorem failures_answered (f : Follower) (h : (following f).ReachableUnder (Contained f) s) :
    ∀ failure ∈ s.failures, failure.Answered :=
  (h.invariant (fun _ hs => inv_start hs) fun _ _ _ hi hc hs => inv_step hi hc hs).answered

instance (failure : Failure) : Decidable failure.Answered :=
  inferInstanceAs (Decidable
    (failure.missed = [] ∨ failure.signalled = true ∨ failure.scheduled = true))

instance (f : Follower) (s : State) (a : Action) : Decidable (Contained f s a) :=
  inferInstanceAs (Decidable
    (escapes f s a = true → s.closed = true ∨ s.scheduled = true ∨ s.missed = []))

/-- Orders as they are, each trigger a run. -/
def plainOrders : Follower where
  db := .quoted
  request := { specs := [ofOrders] }
  reader := .canonical
  matcher := ⟨true, []⟩
  isBlocked _ := false
  pipeline := ⟨fun _ => none, fun _ _ => .ok [], 3, Nat.lt_succ_self 2⟩
  maxDelayInMillis := 0

/-- One order was committed, and a call of `trigger` starts the run that is to hand it over. -/
def triggered : State := { log := [⟨1, placed 1⟩] }

def untilRun : List Action :=
  [.executor .trigger, .executor (.isConnected 0), .executor (.getAndSet 0), .enter (.call 0),
    .retrieveLatestSer]

theorem triggered_start : Start triggered :=
  ⟨by decide, by decide, rfl, rfl, rfl, rfl, rfl, rfl, rfl⟩

/-- The row cannot be processed. -/
theorem failures_answered_row : ∃ s, (following plainOrders).ReachableUnder (Contained plainOrders) s ∧
    s.failures = [⟨[1], true, false⟩] ∧ ∀ failure ∈ s.failures, failure.Answered := by
  have hstart : (following plainOrders).Start triggered := triggered_start
  obtain ⟨s, hs, hfailures⟩ := Machine.exists_reachableUnder
    (M := following plainOrders) (c := fun s a => decide (Contained plainOrders s a)) hstart
    (untilRun ++ [.begin, .query, .row (some ⟨true, false, .other "no chain"⟩), .fail, .leave])
    State.failures (b := [⟨[1], true, false⟩]) (by decide +kernel)
  have hs := hs.mono fun _ _ hc => of_decide_eq_true hc
  exact ⟨s, hs, hfailures, failures_answered plainOrders hs⟩

/-- The connection is lost before the statement. The order stays where it is, the
subscriber hears nothing, and no other run is scheduled. -/
theorem lost_connection_swallowed : ∃ s, (following plainOrders).Reachable s ∧
    s.scheduled = false ∧ s.signalled = false ∧ ¬ ∀ failure ∈ s.failures, failure.Answered := by
  have hstart : (following plainOrders).Start triggered := triggered_start
  obtain ⟨s, hs, hend⟩ := Machine.exists_reachable hstart (untilRun ++ [.fail, .leave])
    (fun s => (s.scheduled, s.signalled, s.failures)) (b := (false, false, [⟨[1], false, false⟩]))
    (by decide +kernel)
  obtain ⟨hscheduled, hsignalled, hfailures⟩ : s.scheduled = false ∧ s.signalled = false ∧
      s.failures = [⟨[1], false, false⟩] := by simpa using hend
  refine ⟨s, hs, hscheduled, hsignalled, ?_⟩
  rw [hfailures]
  decide

end PgSynchronizedQuery
end FactCast
