import FactCast.Factus.Apply

/-! What becomes of what a subscription delivers.

Facts are buffered and given to the projector in batches. Everything else that a
subscription has to say goes past the buffer: an observer that catches up empties
it first, one that follows does not. -/
namespace FactCast.FactusImpl
open ProjectorImpl (Projection doApply)

abbrev Throwable := ProjectorImpl.Throwable

abbrev Target := ProjectorImpl.Target

inductive Mode (W : Type) where
  /-- As long as the token is valid. -/
  | follow (tokenIsValid : W → Bool)
  /-- From a state, if there is one. Something may be done after each batch. -/
  | catchup (stateOrNull : Option UUID)
      (afterProcessing : Option UUID → W → Completion Throwable W)

/-- Whose observer it is, and what it does. -/
structure Observation (W τ : Type) where
  projection : Projection W τ
  mode : Mode W
  maxNumberOfFactsToBuffer : Nat
  positive : 0 < maxNumberOfFactsToBuffer

structure FactObserver (W τ : Type) where
  buffer : List DeliveredFact := []
  /-- Of the last batch that this observer applied, or where it was fast-forwarded to. -/
  position : Option FactStreamPosition := none
  target : Target W τ

variable {W τ : Type}

namespace FactObserver

/-- A call that concerns the projection alone. -/
def within (s : FactObserver W τ) (call : W → Completion Throwable W) :
    Completion Throwable (FactObserver W τ) :=
  (s.target.within call).map fun t => { s with target := t }

end FactObserver

variable (o : Observation W τ)

def apply (elements : List DeliveredFact) (s : FactObserver W τ) :
    Completion Throwable (FactObserver W τ) :=
  (doApply o.projection elements s.target).map fun t => { s with target := t }

def onNextFacts (elements : List DeliveredFact) (hne : elements ≠ []) (s : FactObserver W τ) :
    Completion Throwable (FactObserver W τ) :=
  let pos := FactStreamPosition.from_ (elements.getLast hne)
  match o.mode with
  | .follow tokenIsValid =>
    if tokenIsValid s.target.world then
      (apply o elements s).andThen fun s => .normally { s with position := some pos }
    else .abruptly (.runtime "WriterToken is no longer valid.") s
  | .catchup _ afterProcessing =>
    (apply o elements s).andThen fun s =>
    { s with position := some pos }.within (afterProcessing pos.factId)

/-- The buffer is replaced before its facts are applied. -/
def flush (s : FactObserver W τ) : Completion Throwable (FactObserver W τ) :=
  match s.buffer with
  | [] => .normally s
  | first :: rest => onNextFacts o (first :: rest) (List.cons_ne_nil first rest) { s with buffer := [] }

def onNext (element : DeliveredFact) (s : FactObserver W τ) : Completion Throwable (FactObserver W τ) :=
  let s := { s with buffer := s.buffer ++ [element] }
  if o.maxNumberOfFactsToBuffer ≤ s.buffer.length then flush o s else .normally s

/-- One observer empties its buffer before it does anything else. -/
def flushIfCatchup (s : FactObserver W τ) : Completion Throwable (FactObserver W τ) :=
  match o.mode with
  | .follow _ => .normally s
  | .catchup _ _ => flush o s

def onCatchup (s : FactObserver W τ) : Completion Throwable (FactObserver W τ) :=
  (flushIfCatchup o s).andThen fun s => s.within o.projection.onCatchup

def onComplete (s : FactObserver W τ) : Completion Throwable (FactObserver W τ) :=
  (flushIfCatchup o s).andThen fun s => s.within o.projection.onComplete

def onError (exception : Throwable) (s : FactObserver W τ) : Completion Throwable (FactObserver W τ) :=
  (flushIfCatchup o s).andThen fun s => s.within (o.projection.onError exception)

/-- Sets the position of a projection that has one. -/
def setFactStreamPosition (pos : FactStreamPosition) (s : FactObserver W τ) :
    Completion Throwable (FactObserver W τ) :=
  match o.projection.awareness.factStreamPosition? with
  | some factStreamPosition => s.within (factStreamPosition pos)
  | none => .normally s

/-- The position of the observer follows only while catching up, and only if there
was a state or a batch was applied. -/
def onFastForward (factIdToFfwdTo : FactStreamPosition) (s : FactObserver W τ) :
    Completion Throwable (FactObserver W τ) :=
  match o.mode with
  | .follow _ =>
    if factIdToFfwdTo.isAfter s.position then setFactStreamPosition o factIdToFfwdTo s else .normally s
  | .catchup stateOrNull _ =>
    (flush o s).andThen fun s =>
    if factIdToFfwdTo.isAfter s.position then
      (setFactStreamPosition o factIdToFfwdTo s).andThen fun s =>
      if stateOrNull.isSome ∨ s.position.isSome then
        .normally { s with position := some factIdToFfwdTo }
      else .normally s
    else .normally s

end FactCast.FactusImpl
