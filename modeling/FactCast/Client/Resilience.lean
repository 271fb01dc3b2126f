import Mathlib.Data.List.Basic

/-! Which failures of a call are worth another attempt.

The client decodes what a call throws (`from_`): an exception the server sent
along in its trailers takes the place of the status, and what is retryable is
wrapped. A failure is retried if resilience is switched on, the failure is
retryable, and not too many attempts were made lately. -/
namespace FactCast

/-- The status codes of a call. -/
inductive Code where
  | ok
  | cancelled
  | unknown
  | invalidArgument
  | deadlineExceeded
  | notFound
  | alreadyExists
  | permissionDenied
  | resourceExhausted
  | failedPrecondition
  | aborted
  | outOfRange
  | unimplemented
  | internal
  | unavailable
  | dataLoss
  | unauthenticated
deriving DecidableEq

structure StatusRuntimeException where
  code : Code
  message : Option String := none
  /-- The class named in the trailers, if an exception can be made of it. -/
  exc : Option String := none
deriving DecidableEq

inductive Throwable where
  | status (e : StatusRuntimeException)
  | retryable (cause : StatusRuntimeException)
  | runtime (className : String)
deriving DecidableEq

namespace ClientExceptionHelper

def retryableStatus : List Code := [.unknown, .unavailable, .aborted, .deadlineExceeded]

def networkMessage : String := "CANCELLED: RST_STREAM closed stream. HTTP/2 error code: CANCEL"

/-- Somewhere in the message a proxy says that it closed the stream. -/
def isCausedByNetwork (e : StatusRuntimeException) : Bool :=
  match e.message with
  | some message => message.toList.tails.any fun rest => networkMessage.toList.isPrefixOf rest
  | none => false

def isRetryable : Throwable → Bool
  | .retryable _ => true
  | .status e => retryableStatus.contains e.code || isCausedByNetwork e
  | .runtime _ => false

def from_ : Throwable → Throwable
  | .status e =>
    match e.exc with
    | some className => .runtime className
    | none => if isRetryable (.status e) then .retryable e else .status e
  | e => e

end ClientExceptionHelper

/-- Another attempt is made. Whether the attempts are exhausted depends on the clock. -/
def shouldRetry (enabled attemptsExhausted : Bool) (e : Throwable) : Bool :=
  enabled && ClientExceptionHelper.isRetryable e && !attemptsExhausted

end FactCast
