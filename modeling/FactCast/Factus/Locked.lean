import FactCast.Machine.Replay
import FactCast.Store.StreamOrder

/-! An attempt under the optimistic lock.

`Locked.attempt` tries an operation of the user as often as it is configured to.
Every try takes a token for the lock's specifications, brings the projection up
to date, hands it to the operation, and publishes what the operation wants
published if nothing has changed since the token was taken. Others commit facts
between any two of these steps, and bring a managed projection up to date.

Calls to the store are whole here; `Store/Publish.lean` has them statement by
statement. That an update applies every matching fact committed before it began
is taken for granted, how it does so is not: a managed projection goes on from
where it is, an aggregate and a snapshot projection are fetched anew. -/
namespace FactCast

/-- What a lock is taken on, as `update` tells them apart. -/
inductive Target where
  | aggregate
  | snapshotProjection
  | managedProjection
  /-- Specifications of the user's. There is no projection. -/
  | specs
  /-- Anything else. There is no way to update it. -/
  | other
deriving DecidableEq

structure Locked (σ : Type) where
  db : Database
  target : Target
  specs : List FactSpec
  /-- The selected rows that get past the server's filters. -/
  passes : FactRow → Bool
  /-- A projection to which nothing was applied. -/
  initial : σ
  /-- What the handlers make of a projection. -/
  apply : σ → FactRow → σ
  retries : Int32

namespace Locked

/-- How an attempt ends. -/
inductive Outcome where
  /-- With the facts published, if any. -/
  | returned (facts : List Fact)
  /-- The operation aborts or throws, or the update before it does. -/
  | aborted
  /-- The store throws. -/
  | thrown
  | retriesExceeded

/-- The next step. -/
inductive Phase (σ : Type) where
  /-- At the head of the loop. -/
  | next
  /-- The state is read, its token is not stored yet. -/
  | create (state : TokenState)
  | update (token : UUID)
  /-- In the update, which began when so many rows were committed. -/
  | updating (token : UUID) (begun : Nat)
  /-- In the user's operation. -/
  | operation (token : UUID) (handed : Option σ)
  | publishIfUnchanged (token : UUID) (facts : List Fact) (handed : Option σ)
  | over (outcome : Outcome)

/-- Facts that were published, the log they were appended to, and the projection
that the operation had been handed. -/
structure Publication (σ : Type) where
  facts : List Fact
  before : List FactRow
  rows : List FactRow
  handed : Option σ

structure State (σ : Type) where
  store : PgFactStore.Store
  /-- The managed projection, and how many rows of the log it has seen. -/
  projection : σ
  position : Nat
  count : Int32
  phase : Phase σ
  /-- How often the operation was run. -/
  runs : Nat
  /-- The rows that were committed when the token's state was read. -/
  seen : Nat
  publications : List (Publication σ)
  /-- What the log holds that was not published here. -/
  others : List FactRow

/-- How the user's operation ends. -/
inductive Operation where
  | aborts
  | throws
  | publishes (facts : List Fact)

inductive Action where
  | publish (facts : List Fact)
  /-- Somebody else brings the managed projection up to date. -/
  | catchup (upTo : Nat)
  | forget (tokens : List UUID)
  | skip (n : Nat)
  | enter
  | create (token : UUID)
  | update
  /-- The update has seen so many rows. -/
  | updated (upTo : Nat)
  | operation (ends : Operation)
  | publishIfUnchanged
  /-- A call throws. -/
  | fail

namespace State
variable {σ : Type} (s : State σ)

/-- The attempt ends without a call to publish, and gives the token back. -/
def finish (token : UUID) (outcome : Outcome) : State σ :=
  { s with store := s.store.invalidate token, phase := .over outcome }

end State

section Steps
variable {σ : Type} (lock : Locked σ)

/-- The fact is among those the projection is about. -/
def matching (row : FactRow) : Bool :=
  PgFactStream.matching lock.db { specs := lock.specs } row && lock.passes row

/-- All matching facts of a log, applied from the beginning. -/
def replay (log : List FactRow) : σ :=
  Log.replay lock.matching lock.apply lock.initial log

/-- What the operation is handed if the projection has seen this log. -/
def view (log : List FactRow) : Option σ :=
  match lock.target with
  | .specs => none
  | _ => some (lock.replay log)

variable (s : State σ)

/-- The managed projection goes on to the `upTo`-th row, unless it is beyond. -/
def catchup (upTo : Nat) : State σ :=
  { s with
    projection := Log.replay lock.matching lock.apply s.projection
      ((s.store.log.take upTo).drop s.position)
    position := max s.position upTo }

/-- The projection, up to date, and the state with it; nothing if that fails.
An aggregate that no fact was applied to does not exist. -/
def update (upTo : Nat) : Option (Option σ × State σ) :=
  let log := s.store.log.take upTo
  match lock.target with
  | .aggregate => if log.any lock.matching then some (some (lock.replay log), s) else none
  | .snapshotProjection => some (some (lock.replay log), s)
  | .managedProjection => some (some (lock.catchup s upTo).projection, lock.catchup s upTo)
  | .specs => some (none, s)
  | .other => none

/-- Others commit facts. -/
def publish (facts : List Fact) : Option (State σ) :=
  (s.store.publish lock.db facts).map fun store =>
    { s with store, others := s.others ++ PgFactStore.rowsFrom lock.db s.store.nextSer facts }

def catchupElsewhere (upTo : Nat) : Option (State σ) :=
  if upTo ≤ s.store.log.length then some (lock.catchup s upTo) else none

/-- The head of the loop, and the first statement behind the token. -/
def enter : Option (State σ) :=
  match s.phase with
  | .next =>
    let count := s.count + 1
    if count ≤ lock.retries then
      some { s with
        count, seen := s.store.log.length
        phase := .create (PgFactStore.getCurrentStateFor lock.specs s.store.log) }
    else some { s with count, phase := .over .retriesExceeded }
  | _ => none

/-- The second statement. The token is a new one. -/
def createToken (token : UUID) : Option (State σ) :=
  match s.phase, s.store.tokens token with
  | .create state, none =>
    let tokens := Function.update s.store.tokens token (some state)
    some { s with store := { s.store with tokens }, phase := .update token }
  | _, _ => none

def beginUpdate : Option (State σ) :=
  match s.phase with
  | .update token => some { s with phase := .updating token s.store.log.length }
  | _ => none

/-- The update ends, having seen at least what was committed when it began. -/
def endUpdate (upTo : Nat) : Option (State σ) :=
  match s.phase with
  | .updating token begun =>
    if begun ≤ upTo ∧ upTo ≤ s.store.log.length then
      match lock.update s upTo with
      | some (handed, s') => some { s' with phase := .operation token handed, runs := s.runs + 1 }
      | none => some (s.finish token .aborted)
    else none
  | _ => none

/-- Nothing to publish is no reason to call the store. -/
def operation (ends : Operation) : Option (State σ) :=
  match s.phase with
  | .operation token handed =>
    match ends with
    | .aborts => some (s.finish token .aborted)
    | .throws => some (s.finish token .aborted)
    | .publishes [] => some (s.finish token (.returned []))
    | .publishes facts => some { s with phase := .publishIfUnchanged token facts handed }
  | _ => none

def publishIfUnchanged : Option (State σ) :=
  match s.phase with
  | .publishIfUnchanged token facts handed =>
    match PgFactStore.publishIfUnchanged lock.db s.store facts (some token) with
    | (store, .returned true) =>
      let rows := PgFactStore.rowsFrom lock.db s.store.nextSer facts
      some { s with
        store, phase := .over (.returned facts)
        publications := s.publications ++ [{ facts, before := s.store.log, rows, handed }] }
    | (store, .returned false) => some { s with store, phase := .next }
    | (store, _) => some { s with store, phase := .over .thrown }
  | _ => none

/-- What the update throws is an abort, what the store throws goes to the caller. -/
def fail : Option (State σ) :=
  match s.phase with
  | .create _ => some { s with phase := .over .thrown }
  | .update token => some (s.finish token .aborted)
  | .updating token _ => some (s.finish token .aborted)
  | .publishIfUnchanged _ _ _ => some { s with phase := .over .thrown }
  | _ => none

def step : Action → Option (State σ)
  | .publish facts => lock.publish s facts
  | .catchup upTo => lock.catchupElsewhere s upTo
  | .forget tokens =>
    let kept := fun t => if t ∈ tokens then none else s.store.tokens t
    some { s with store := { s.store with tokens := kept } }
  | .skip n => some { s with store := { s.store with nextSer := s.store.nextSer + n } }
  | .enter => lock.enter s
  | .create token => createToken s token
  | .update => beginUpdate s
  | .updated upTo => lock.endUpdate s upTo
  | .operation ends => operation s ends
  | .publishIfUnchanged => lock.publishIfUnchanged s
  | .fail => fail s

/-- A call of `attempt` on a store with some facts. A managed projection may have
seen some of them. -/
structure Start (s : State σ) : Prop where
  ascending : Log.Ascending FactRow.ser s.store.log
  positive : ∀ row ∈ s.store.log, 0 < row.ser
  below : ∀ row ∈ s.store.log, row.ser < s.store.nextSer
  first : 0 < s.store.nextSer
  position : s.position ≤ s.store.log.length
  projection : s.projection = lock.replay (s.store.log.take s.position)
  count : s.count = 0
  phase : s.phase = .next
  runs : s.runs = 0
  seen : s.seen = 0
  publications : s.publications = []
  others : s.others = s.store.log

def attempting : Machine (State σ) Action where
  Start := Start lock
  step := fun s a => lock.step s a

end Steps

end Locked
end FactCast
