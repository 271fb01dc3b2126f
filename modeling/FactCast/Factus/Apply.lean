import FactCast.Core.Position
import FactCast.Factus.Projector
import FactCast.Machine.Completion

/-! Applying facts to a projection.

A batch is applied in one transaction if the projection is transactional. If a
handler throws, the transaction is rolled back, the facts before the one it threw
for are applied again, in a transaction of their own, and what it threw is thrown.

What a transaction is, where a projection keeps its position and what its handlers
do is not up to the projector: all of it is a world that its calls change, and any
of the calls may throw. -/
namespace FactCast

/-- A fact as it is delivered, with the serial that its header gives, if any. -/
structure DeliveredFact extends PgFact where
  serial : Option Int

def FactStreamPosition.from_ (f : DeliveredFact) : FactStreamPosition := ⟨some f.id, f.serial.getD (-1)⟩

namespace ProjectorImpl

/-- Exceptions. A handler's error is one too, as it is thrown through reflection. -/
inductive Throwable where
  | runtime (message : String)
  | checked (message : String)
  | wrapped (cause : Throwable)
  | invalidHandlerDefinition (e : InvalidHandlerDefinition)
  | indexOutOfBounds
  | transactionAlreadyRunning (message : String)
  | transactionNotRunning (message : String)
  | transaction (cause : Throwable)
deriving DecidableEq

namespace Throwable

def isTransactionException : Throwable → Bool
  | transactionAlreadyRunning _ => true
  | transactionNotRunning _ => true
  | transaction _ => true
  | _ => false

/-- What is not unchecked is wrapped. -/
def toRuntime : Throwable → Throwable
  | checked message => wrapped (checked message)
  | e => e

end Throwable

/-! ### Transactions -/

structure TransactionAdapter (W τ : Type) where
  beginNewTransaction : W → Except Throwable τ × W
  commit : τ → W → Completion Throwable W
  rollback : τ → W → Completion Throwable W

/-- A projection's transaction, if one is running, and everything else. -/
structure Target (W τ : Type) where
  runningTransaction : Option τ
  world : W

/-- A call that concerns the world alone. -/
def Target.within {W τ : Type} (s : Target W τ) (call : W → Completion Throwable W) :
    Completion Throwable (Target W τ) :=
  (call s.world).map fun w => { s with world := w }

namespace TransactionBehavior
variable {W τ : Type} (adapter : TransactionAdapter W τ) (s : Target W τ)

def begin_ : Completion Throwable (Target W τ) :=
  match s.runningTransaction with
  | some _ => .abruptly (.transactionAlreadyRunning "Transaction already running") s
  | none =>
    match adapter.beginNewTransaction s.world with
    | (.ok transaction, w) => .normally ⟨some transaction, w⟩
    | (.error e, w) => .abruptly (.transaction e) ⟨none, w⟩

/-- No transaction is running afterwards, whatever the adapter does. -/
def finish (call : τ → W → Completion Throwable W) : Completion Throwable (Target W τ) :=
  match s.runningTransaction with
  | none => .abruptly (.transactionNotRunning "Transaction is not running") s
  | some transaction =>
    match call transaction s.world with
    | .normally w => .normally ⟨none, w⟩
    | .abruptly e w => .abruptly (.transaction e) ⟨none, w⟩

def commit : Completion Throwable (Target W τ) := finish s adapter.commit

def rollback : Completion Throwable (Target W τ) := finish s adapter.rollback

end TransactionBehavior

/-! ### Projections -/

/-- Where a projection keeps its position, if it does. -/
inductive Awareness (W τ : Type) where
  | unaware
  | factStreamPositionAware (factStreamPosition : FactStreamPosition → W → Completion Throwable W)
  | transactionAware (adapter : TransactionAdapter W τ)
      (transactionalFactStreamPosition : FactStreamPosition → τ → W → Completion Throwable W)
      (factStreamPosition : FactStreamPosition → W → Completion Throwable W)

/-- How a position is set outside of transactions, if there is one. -/
def Awareness.factStreamPosition? {W τ : Type} :
    Awareness W τ → Option (FactStreamPosition → W → Completion Throwable W)
  | unaware => none
  | factStreamPositionAware factStreamPosition => some factStreamPosition
  | transactionAware _ _ factStreamPosition => some factStreamPosition

structure Projection (W τ : Type) where
  dispatchInfo : DispatchInfo
  /-- Calls a handler method, with the running transaction at hand. -/
  invoke : Handler → DeliveredFact → Option τ → W → Completion Throwable W
  onError : Throwable → W → Completion Throwable W
  onCatchup : W → Completion Throwable W := .normally
  onComplete : W → Completion Throwable W := .normally
  awareness : Awareness W τ

variable {W τ : Type} (p : Projection W τ)

def beginIfTransactional (s : Target W τ) : Completion Throwable (Target W τ) :=
  match p.awareness with
  | .transactionAware adapter _ _ => TransactionBehavior.begin_ adapter s
  | _ => .normally s

def rollbackIfTransactional (s : Target W τ) : Completion Throwable (Target W τ) :=
  match p.awareness with
  | .transactionAware adapter _ _ => TransactionBehavior.rollback adapter s
  | _ => .normally s

def commitIfTransactional (s : Target W τ) : Completion Throwable (Target W τ) :=
  match p.awareness with
  | .transactionAware adapter _ _ => TransactionBehavior.commit adapter s
  | _ => .normally s

def setFactStreamPositionIfAware (latestAttempted : FactStreamPosition) (s : Target W τ) :
    Completion Throwable (Target W τ) :=
  match p.awareness with
  | .transactionAware _ transactionalFactStreamPosition _ =>
    match s.runningTransaction with
    | none => .abruptly (.transactionNotRunning "Transaction is not running") s
    | some transaction => s.within (transactionalFactStreamPosition latestAttempted transaction)
  | .factStreamPositionAware factStreamPosition => s.within (factStreamPosition latestAttempted)
  | .unaware => .normally s

def setFactStreamPositionIfAwareButNotTransactional (latestSuccessful : FactStreamPosition)
    (s : Target W τ) : Completion Throwable (Target W τ) :=
  match p.awareness with
  | .transactionAware _ _ _ => .normally s
  | _ => setFactStreamPositionIfAware p latestSuccessful s

/-- Position of a batch that was applied as a whole. -/
def setFactStreamPositionIfTransactional (latestSuccessful : Option FactStreamPosition)
    (s : Target W τ) : Completion Throwable (Target W τ) :=
  match p.awareness, latestSuccessful with
  | .transactionAware _ _ _, some latest => setFactStreamPositionIfAware p latest s
  | _, _ => .normally s

/-- What a handler throws is unwrapped, and wrapped again if need be. -/
def dispatch (f : DeliveredFact) (s : Target W τ) : Completion Throwable (Target W τ) :=
  match callHandlerFor p.dispatchInfo f.toPgFact with
  | .ok h =>
    match s.within (p.invoke h f s.runningTransaction) with
    | .normally s => .normally s
    | .abruptly e s => .abruptly e.toRuntime s
  | .error e =>
    (s.within (p.onError (.invalidHandlerDefinition e))).andThen fun s =>
      .abruptly (.invalidHandlerDefinition e) s

/-- How the loop over a batch ends. -/
inductive Loop (W τ : Type) where
  | ended (latestSuccessful : Option FactStreamPosition) (s : Target W τ)
  | caught (f : DeliveredFact) (e : Throwable) (s : Target W τ)

def Loop.state {W τ : Type} : Loop W τ → Target W τ
  | ended _ s => s
  | caught _ _ s => s

def loop (latestSuccessful : Option FactStreamPosition) (s : Target W τ) :
    List DeliveredFact → Loop W τ
  | [] => .ended latestSuccessful s
  | f :: rest =>
    match (dispatch p f s).andThen
      (setFactStreamPositionIfAwareButNotTransactional p (.from_ f)) with
    | .normally s => loop (some (.from_ f)) s rest
    | .abruptly e s => .caught f e s

/-- Facts are equal if their identifiers are, so the facts before one are those
before the first of its identifier. -/
def indexOf (facts : List DeliveredFact) (f : DeliveredFact) : Option Nat :=
  facts.findIdx? fun g => g.id == f.id

theorem indexOf_lt {facts : List DeliveredFact} {f : DeliveredFact} {n : Nat}
    (h : indexOf facts f = some n) : n < facts.length :=
  (List.findIdx?_eq_some_iff_findIdx_eq.mp h).1

def doApply (facts : List DeliveredFact) (s : Target W τ) : Completion Throwable (Target W τ) :=
  (beginIfTransactional p s).andThen fun s =>
  match loop p none s facts with
  | .caught f e s =>
    (rollbackIfTransactional p s).andThen fun s =>
    let retryApplicableIfTransactional : Completion Throwable (Target W τ) :=
      match p.awareness with
      | .transactionAware _ _ _ =>
        match _hindex : indexOf facts f with
        | none => .abruptly .indexOutOfBounds s
        | some n => if n = 0 then .normally s else doApply (facts.take n) s
      | _ => .normally s
    retryApplicableIfTransactional.andThen fun s =>
    (s.within (p.onError e)).andThen fun s =>
    .abruptly e.toRuntime s
  | .ended latestSuccessful s =>
    match setFactStreamPositionIfTransactional p latestSuccessful s with
    | .abruptly e s =>
      (rollbackIfTransactional p s).andThen fun s =>
      (s.within (p.onError e)).andThen fun s =>
      .abruptly e s
    | .normally s =>
      match commitIfTransactional p s with
      | .normally s => .normally s
      | .abruptly e s =>
        if e.isTransactionException then
          (s.within (p.onError e)).andThen fun s => .abruptly e s
        else .abruptly e s
termination_by facts.length
decreasing_by
  have := indexOf_lt _hindex
  rw [List.length_take]
  omega

end ProjectorImpl
end FactCast
