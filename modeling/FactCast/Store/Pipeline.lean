import FactCast.Core.Position
import FactCast.Store.Filter

/-! The transforming stage of the pipeline.

`BufferedTransformingServerPipeline` passes signals on as they come, until a fact
comes that is to be transformed. From then on it buffers, so that transformations
are asked for in batches: until the buffer is full, or a signal comes that is no
fact. The buffer is flushed as a whole, with the transformed facts in their
places; if they cannot be had, an error takes the place of all of it.

The parent takes whatever it is given. Which facts are to be transformed, and
what the service makes of a batch, are parameters here; what they are for a
subscription is in `Store/RequestedVersions.lean`. -/
namespace FactCast

structure TransformationRequest where
  toTransform : PgFact
  targetVersions : List Int

namespace BufferedTransformingServerPipeline

/-- What is thrown. -/
inductive Throwable where
  | transformationException (message : String)
  | illegalState (message : String)
  | other (message : String)
deriving DecidableEq

inductive Signal where
  | flush
  | catchup
  | complete
  | fastForward (position : FactStreamPosition)
  | factStreamInfo (info : FactStreamInfo)
  | fact (fact : PgFact)
  | error (error : Throwable)

/-- Any but facts. -/
def Signal.indicatesFlush : Signal → Bool
  | .fact _ => false
  | _ => true

inductive Mode where
  | direct
  | buffering
deriving DecidableEq

/-- A signal in its place, or the place of a fact that is to come. -/
inductive Supplier where
  | signal (signal : Signal)
  | transformed (request : TransformationRequest)

def Supplier.request? : Supplier → Option TransformationRequest
  | .signal _ => none
  | .transformed request => some request

end BufferedTransformingServerPipeline

/-- The stage. The service may answer every call as it likes, so its calls are
numbered. -/
structure BufferedTransformingServerPipeline where
  prepareTransformation : PgFact → Option TransformationRequest
  transform : Nat → List TransformationRequest → Except BufferedTransformingServerPipeline.Throwable (List PgFact)
  maxBufferSize : Nat
  admitted : 2 < maxBufferSize

namespace BufferedTransformingServerPipeline

structure State where
  buffer : List Supplier := []
  mode : Mode := .direct
  /-- What the parent was given. -/
  parent : List Signal := []
  /-- How often the service was called. -/
  calls : Nat := 0
  /-- What calls of `process` have thrown. -/
  thrown : List Throwable := []
  /-- The most the buffer has held. -/
  most : Nat := 0

/-- The suppliers in order, each place taken by the next of the facts. -/
def resolve : List Supplier → List PgFact → List Signal
  | [], _ => []
  | .signal s :: rest, facts => s :: resolve rest facts
  | .transformed _ :: rest, f :: facts => .fact f :: resolve rest facts
  | .transformed _ :: rest, [] => resolve rest []

variable (p : BufferedTransformingServerPipeline) (s : State)

namespace State

def pass (signals : List Signal) : State := { s with parent := s.parent ++ signals }

def throws (e : Throwable) : State := { s with thrown := s.thrown ++ [e] }

/-- Whatever happened before, the stage ends up empty and direct. -/
def reset : State := { s with buffer := [], mode := .direct }

def add (supplier : Supplier) : State :=
  { s with buffer := s.buffer ++ [supplier], most := max s.most (s.buffer.length + 1) }

end State

/-- What the service has to say about the requests of the buffer. An error that
is about transformation is for the parent, any other is for the caller. -/
def answer (requests : List TransformationRequest) : State :=
  let called := { s with calls := s.calls + 1 }
  match p.transform s.calls requests with
  | .ok facts =>
    if requests.length ≠ facts.length then
      called.throws (.illegalState "transformation resulted in unexpected number of facts")
    else called.pass (resolve s.buffer facts)
  | .error (.transformationException message) =>
    called.pass [.error (.transformationException message)]
  | .error e => called.throws e

def doFlush : State :=
  if s.buffer.isEmpty then s
  else
    match s.buffer.filterMap Supplier.request? with
    | [] => (s.throws (.illegalState "No pending transformations in buffer!")).reset
    | requests => (answer p s requests).reset

def flushIfNecessary (signal : Option Signal) : State :=
  if p.maxBufferSize ≤ s.buffer.length ∨ signal.any Signal.indicatesFlush = true then doFlush p s else s

def passOrBuffer (signal : Signal) : State :=
  match s.mode with
  | .direct => s.pass [signal]
  | .buffering => flushIfNecessary p (s.add (.signal signal)) (some signal)

def process : Signal → State
  | .fact fact =>
    match p.prepareTransformation fact with
    | none => passOrBuffer p s (.fact fact)
    | some request =>
      flushIfNecessary p ({ s with mode := .buffering }.add (.transformed request)) none
  | signal => passOrBuffer p s signal

/-- Signals one after another. -/
def run (signals : List Signal) : State := signals.foldl (process p) {}

end BufferedTransformingServerPipeline
end FactCast
