import FactCast.Client.Resilience
import FactCast.Json.Document
import FactCast.Wire.Protobuf

/-! How an exception gets from the server to the client.

A call that fails ends with a status and trailers. For an exception of its own the
server adds two entries to the trailers (`translate`), the message and the name of
the class, both as bytes of the platform's default charset. The client reads them
with the default charset of its own platform, looks the class up and calls its
constructor (`from_`); whatever goes wrong there leaves the status, which says
`UNKNOWN` and is worth another attempt.

`survives_iff`: class and message arrive exactly if there is a message, the two
charsets agree on both texts and the client knows the class. -/
namespace FactCast.ExceptionTransport

/-! ### Default charsets -/

/-- How a platform reads and writes text unless told otherwise. -/
structure Charset where
  encode : String → List UInt8
  decode : List UInt8 → String

namespace Charset

/-- The default of a platform without a locale. What it cannot write becomes a question mark. -/
def usAscii : Charset where
  encode s := s.toList.map fun c => if c.toNat < 128 then c.toNat.toUInt8 else 63
  decode bytes := .ofList (bytes.map fun b => if b < 128 then .ofNat b.toNat else .ofNat 0xFFFD)

/-- What is read of malformed bytes does not matter here. -/
def utf8 (malformed : List UInt8 → String) : Charset where
  encode := Protobuf.utf8
  decode bytes :=
    match bytes.toByteArray.utf8Decode? with
    | some chars => .ofList chars.toList
    | none => malformed bytes

/-- A text written here is the same text there. -/
def Carries (writer reader : Charset) (s : String) : Prop := reader.decode (writer.encode s) = s

theorem carries_utf8 (s : String) (malformed malformed' : List UInt8 → String) :
    Carries (utf8 malformed) (utf8 malformed') s := by
  have hbytes : (Protobuf.utf8 s).toByteArray = s.toList.utf8Encode := rfl
  simp only [Carries, utf8, hbytes, List.utf8Decode?_utf8Encode, String.ofList_toList]

/-- What is read back of one character. -/
def shown (c : Char) : Char := if c.toNat < 128 then c else '?'

theorem decode_encode_usAscii (s : String) :
    usAscii.decode (usAscii.encode s) = .ofList (s.toList.map shown) := by
  simp only [usAscii, List.map_map]
  congr 1
  refine List.map_congr_left fun c _ => ?_
  simp only [Function.comp_apply, shown]
  split
  · rename_i hc
    have hbyte : c.toNat.toUInt8.toNat = c.toNat := by
      simp only [Nat.toUInt8, UInt8.toNat_ofNat']
      omega
    rw [if_pos (by rw [UInt8.lt_iff_toNat_lt, hbyte]; exact hc), hbyte, Char.ofNat_toNat]
  · rfl

theorem carries_usAscii (s : String) :
    Carries usAscii usAscii s ↔ ∀ c ∈ s.toList, c.toNat < 128 := by
  have hshown : ∀ c, shown c = c ↔ c.toNat < 128 := by
    intro c
    by_cases hc : c.toNat < 128
    · simp [shown, hc]
    · simp only [shown, hc, if_false, iff_false]
      rintro rfl
      exact hc (by decide)
  rw [Carries, decode_encode_usAscii, ← String.toList_inj, String.toList_ofList]
  nth_rewrite 2 [← List.map_id s.toList]
  rw [List.map_inj_left]
  exact forall₂_congr fun c _ => hshown c

end Charset

/-! ### Exceptions -/

/-- The texts are names of classes. `construct` is a public constructor that takes a
message, as the message that its instance has. -/
structure ExceptionClass where
  name : String
  superclasses : List String
  construct : Option (String → Option String) := none

namespace ExceptionClass

def instanceOf (c : ExceptionClass) (name : String) : Bool := c.name == name || c.superclasses.contains name

def factcast (name : String) : String := "org.factcast" ++ "." ++ name

def runtimeException : String := "java.lang.RuntimeException"
def retryableException : String := factcast "core.store.RetryableException"
def unsupportedOperationException : String := "java.lang.UnsupportedOperationException"
def authenticationException : String := "org.springframework.security.core.AuthenticationException"
def authenticationCredentialsNotFoundException : String :=
  "org.springframework.security.authentication.AuthenticationCredentialsNotFoundException"

/-- Its constructor hands the message on. -/
def unchecked (name : String) (others : List String) : ExceptionClass where
  name := factcast name
  superclasses := others ++ [runtimeException]
  construct := some some

def illegalState : List String := ["java.lang.IllegalStateException"]
def transactionException : String := "factus.projection.tx.TransactionException"
def transformationException : String := "core.subscription.TransformationException"

/-- The program's runtime exceptions with such a constructor, with what is between them and
`RuntimeException`. -/
def declared : List (String × List String) :=
  [("core.DuplicateFactException", []),
    ("core.FactValidationException", ["java.lang.IllegalArgumentException"]),
    ("core.subscription.SubscriptionClosedException", []),
    (transformationException, []),
    ("core.subscription.transformation.MissingTransformationInformationException",
      [factcast transformationException]),
    ("store.registry.validation.schema.SchemaConflictException", illegalState),
    ("store.registry.transformation.TransformationConflictException", illegalState),
    ("store.internal.script.exception.ScriptEngineException", []),
    ("server.grpc.TransportLayerException", []),
    ("server.grpc.RequestCanceledByClientException", []),
    ("client.grpc.IncompatibleProtocolVersions", illegalState),
    ("factus.lock.LockedOperationAbortedException", []),
    ("factus.batch.BatchAbortedException", []),
    ("factus.projector.InvalidHandlerDefinition", []),
    (transactionException, []),
    ("factus.projection.tx.TransactionAlreadyRunningException", [factcast transactionException]),
    ("factus.projection.tx.TransactionNotRunningException", [factcast transactionException])]

def classes : List ExceptionClass := declared.map fun (name, others) => unchecked name others

end ExceptionClass

structure Raised where
  cls : ExceptionClass
  message : Option String

/-- The entries of a key are kept in order; the last one is read. -/
abbrev Metadata := List (String × List UInt8)

structure StatusRuntimeException where
  code : Code
  message : Option String := none
  trailers : Option Metadata := none

inductive Throwable where
  | status (e : StatusRuntimeException)
  | raised (e : Raised)

namespace Throwable

def instanceOf (e : Throwable) (name : String) : Bool :=
  match e with
  | .status _ => name == "io.grpc.StatusRuntimeException" || name == ExceptionClass.runtimeException
  | .raised e => e.cls.instanceOf name

end Throwable

/-! ### The server -/

namespace ServerExceptionHelper

/-- A message that is missing has no bytes: `NullPointerException`. -/
def addMetaData (charset : Charset) (metadata : Metadata) (e : Raised) : Option Metadata :=
  e.message.map fun message =>
    metadata ++ [("msg-bin", charset.encode message), ("exc-bin", charset.encode e.cls.name)]

/-- The message of the exception is the name of its status. -/
def translate (charset : Charset) (metadata : Metadata) : Throwable → Option StatusRuntimeException
  | .status e => some e
  | .raised e =>
    if e.cls.instanceOf ExceptionClass.runtimeException
        && "org.factcast".toList.isPrefixOf e.cls.name.toList then
      (addMetaData charset metadata e).map fun metadata => ⟨.unknown, some "UNKNOWN", some metadata⟩
    else if e.cls.instanceOf ExceptionClass.unsupportedOperationException then
      some ⟨.unimplemented, some "UNIMPLEMENTED", some metadata⟩
    else if e.cls.instanceOf ExceptionClass.authenticationException then
      if e.cls.instanceOf ExceptionClass.authenticationCredentialsNotFoundException then
        some ⟨.unauthenticated, some "UNAUTHENTICATED", some metadata⟩
      else some ⟨.permissionDenied, some "PERMISSION_DENIED", some metadata⟩
    else some ⟨.unknown, some "UNKNOWN", some metadata⟩

end ServerExceptionHelper

/-! ### The client -/

/-- The platform of a client, and the classes on its path. -/
structure Client where
  charset : Charset
  forName : String → Option ExceptionClass
  forName_name : ∀ name c, forName name = some c → c.name = name

/-- What the client gets: the exception, or one that wraps it. -/
inductive Received where
  | same (e : Throwable)
  | retryable (cause : Throwable)
  | runtime (cause : Throwable)

namespace ClientExceptionHelper

def isRetryable : Throwable → Bool
  | .status e => FactCast.ClientExceptionHelper.retryableStatus.contains e.code
      || FactCast.ClientExceptionHelper.isCausedByNetwork ⟨e.code, e.message, none⟩
  | .raised e => e.cls.instanceOf ExceptionClass.retryableException

/-- What an unknown class, a missing constructor or message, or an instance that is no
runtime exception leaves is the status. -/
def materialize (client : Client) (trailers : Metadata) : Option Raised := do
  let excBytes ← lastMember trailers "exc-bin"
  let exc ← client.forName (client.charset.decode excBytes)
  let construct ← exc.construct
  let msgBytes ← lastMember trailers "msg-bin"
  if exc.instanceOf ExceptionClass.runtimeException then
    return ⟨exc, construct (client.charset.decode msgBytes)⟩
  else none

def toRuntime (e : Throwable) : Received :=
  if e.instanceOf ExceptionClass.runtimeException then .same e else .runtime e

def from_ (client : Client) : Throwable → Received
  | .status e =>
    let toReturn : Throwable :=
      ((e.trailers.bind (materialize client)).map Throwable.raised).getD (.status e)
    if isRetryable toReturn then .retryable toReturn else toRuntime toReturn
  | e => toRuntime e

end ClientExceptionHelper

namespace Received

/-- Another attempt is made. -/
def isRetryable : Received → Bool
  | .same e => ClientExceptionHelper.isRetryable e
  | .retryable _ => true
  | .runtime _ => false

end Received

/-! ### What is tried again

The retrying client sees of an exception in the trailers only the name of its class
(`Client/Resilience.lean`). That is enough to tell what is tried again. -/

def seen (client : Client) (e : StatusRuntimeException) : FactCast.StatusRuntimeException where
  code := e.code
  message := e.message
  exc := (e.trailers.bind (ClientExceptionHelper.materialize client)).map (·.cls.name)

theorem isRetryable_seen (client : Client) (e : StatusRuntimeException)
    (h : ∀ r, e.trailers.bind (ClientExceptionHelper.materialize client) = some r →
      r.cls.instanceOf ExceptionClass.retryableException = false) :
    (ClientExceptionHelper.from_ client (.status e)).isRetryable =
      FactCast.ClientExceptionHelper.isRetryable
        (FactCast.ClientExceptionHelper.from_ (.status (seen client e))) := by
  match hr : e.trailers.bind (ClientExceptionHelper.materialize client) with
  | some r =>
    have hretry : ClientExceptionHelper.isRetryable (.raised r) = false := h r hr
    have hseen : (seen client e).exc = some r.cls.name := by simp [seen, hr]
    simp only [ClientExceptionHelper.from_, hr, Option.map_some, Option.getD_some, hretry,
      Bool.false_eq_true, if_false, ClientExceptionHelper.toRuntime,
      FactCast.ClientExceptionHelper.from_, hseen, FactCast.ClientExceptionHelper.isRetryable]
    split
    · exact hretry
    · rfl
  | none =>
    have hseen : seen client e = ⟨e.code, e.message, none⟩ := by simp [seen, hr]
    have hretry : ClientExceptionHelper.isRetryable (.status e) =
        FactCast.ClientExceptionHelper.isRetryable (.status (seen client e)) := by rw [hseen]; rfl
    simp only [ClientExceptionHelper.from_, hr, Option.map_none, Option.getD_none, hretry,
      FactCast.ClientExceptionHelper.from_, hseen]
    split
    · rfl
    · rename_i hno
      rw [hseen] at hretry
      simp only [ClientExceptionHelper.toRuntime, Throwable.instanceOf, beq_self_eq_true, Bool.or_true,
        if_true, Received.isRetryable, hretry]

/-! ### What survives -/

open ExceptionClass ServerExceptionHelper ExceptionTransport.ClientExceptionHelper

/-- The server translates the exception, and the client gets an exception of its class with
its message, to be retried only if the class says so. -/
def Survives (server : Charset) (client : Client) (metadata : Metadata) (e : Raised) : Prop :=
  ∃ sent, ServerExceptionHelper.translate server metadata (.raised e) = some sent ∧
    from_ client (.status sent) = .same (.raised e) ∧
    ((from_ client (.status sent)).isRetryable = true → e.cls.instanceOf retryableException = true)

/-- A runtime exception of the program's own packages that takes a message. -/
structure Own (c : ExceptionClass) : Prop where
  runtime : c.instanceOf runtimeException = true
  package : "org.factcast".toList.isPrefixOf c.name.toList = true
  construct : c.construct = some some
  not_retryable : c.instanceOf retryableException = false

theorem isPrefixOf_factcast (name : String) :
    "org.factcast".toList.isPrefixOf (factcast name).toList = true := by
  rw [List.isPrefixOf_iff_prefix, factcast, String.append_assoc, String.toList_append]
  exact List.prefix_append _ _

theorem own_unchecked {name : String} {others : List String}
    (h : (unchecked name others).instanceOf retryableException = false) : Own (unchecked name others) :=
  ⟨by simp [unchecked, instanceOf], isPrefixOf_factcast name, rfl, h⟩

theorem own_of_mem {c : ExceptionClass} (h : c ∈ classes) : Own c := by
  have hretryable : ∀ c ∈ ExceptionClass.declared,
      (unchecked c.1 c.2).instanceOf retryableException = false := by
    simp [ExceptionClass.declared, unchecked, factcast, instanceOf, retryableException,
      runtimeException, illegalState, transformationException, transactionException]
  obtain ⟨d, hd, rfl⟩ := List.mem_map.mp h
  exact own_unchecked (hretryable d hd)

section
variable {server : Charset} {client : Client} {metadata trailers : Metadata} {c : ExceptionClass}
  {message : Option String} {m : String} {e : Raised}

def sentWith (server : Charset) (metadata : Metadata) (name m : String) : Metadata :=
  metadata ++ [("msg-bin", server.encode m), ("exc-bin", server.encode name)]

theorem translate_own (hc : Own c) :
    ServerExceptionHelper.translate server metadata (.raised ⟨c, message⟩) = message.map fun m =>
      ⟨.unknown, some "UNKNOWN", some (sentWith server metadata c.name m)⟩ := by
  simp only [ServerExceptionHelper.translate, hc.runtime, hc.package, Bool.and_self, if_true,
    addMetaData, Option.map_map]
  rfl

theorem materialize_sent (name : String) :
    materialize client (sentWith server metadata name m) = some e ↔
      client.forName (client.charset.decode (server.encode name)) = some e.cls ∧
      e.cls.instanceOf runtimeException = true ∧
      ∃ construct, e.cls.construct = some construct ∧
        construct (client.charset.decode (server.encode m)) = e.message := by
  have hexc : lastMember (sentWith server metadata name m) "exc-bin" = some (server.encode name) := by
    simp [sentWith, lastMember]
  have hmsg : lastMember (sentWith server metadata name m) "msg-bin" = some (server.encode m) := by
    simp [sentWith, lastMember, List.lookup_cons]
  simp only [materialize, hexc, hmsg, Option.bind_eq_bind, Option.bind_some, Option.bind_eq_some_iff]
  constructor
  · rintro ⟨exc, hexc, construct, hconstruct, h⟩
    split at h
    · cases h
      exact ⟨hexc, ‹_›, construct, hconstruct, rfl⟩
    · cases h
  · rintro ⟨hexc, hruntime, construct, hconstruct, hmessage⟩
    refine ⟨e.cls, hexc, construct, hconstruct, ?_⟩
    rw [if_pos hruntime, hmessage]
    rfl

/-- A status alone is worth another attempt. -/
theorem from_none (h : materialize client trailers = none) :
    from_ client (.status ⟨.unknown, some "UNKNOWN", some trailers⟩) =
      .retryable (.status ⟨.unknown, some "UNKNOWN", some trailers⟩) := by
  simp only [from_, Option.bind_some, h]
  rfl

theorem from_same_iff (hc : Own e.cls) :
    from_ client (.status ⟨.unknown, some "UNKNOWN", some trailers⟩) = .same (.raised e) ↔
      materialize client trailers = some e := by
  constructor
  · intro h
    match hm : materialize client trailers with
    | none =>
      rw [from_none hm] at h
      cases h
    | some e' =>
      simp only [from_, Option.bind_some, hm, Option.map_some, Option.getD_some] at h
      split at h
      · cases h
      · simp only [toRuntime] at h
        split at h
        · cases h
          rfl
        · cases h
  · intro h
    simp only [from_, Option.bind_some, h, Option.map_some, Option.getD_some, isRetryable,
      hc.not_retryable, Bool.false_eq_true, if_false, toRuntime, Throwable.instanceOf, hc.runtime, if_true]

end

/-- An exception of such a class, as all of the program's are, survives exactly if it has a
message, the charsets carry the message and the name of the class, and the client has the
class. -/
theorem survives_iff (server : Charset) (client : Client) (metadata : Metadata) :
    (∀ c ∈ classes, Own c) ∧ ∀ (c : ExceptionClass) (message : Option String), Own c →
      (Survives server client metadata ⟨c, message⟩ ↔
        (∃ m, message = some m ∧ server.Carries client.charset m) ∧
          server.Carries client.charset c.name ∧ client.forName c.name = some c) := by
  refine ⟨fun c => own_of_mem, fun c message hown => ?_⟩
  have hname : client.forName (client.charset.decode (server.encode c.name)) = some c ↔
      server.Carries client.charset c.name ∧ client.forName c.name = some c := by
    constructor
    · intro h
      have heq := client.forName_name _ _ h
      exact ⟨heq.symm, by rwa [← heq] at h⟩
    · rintro ⟨hcarries, h⟩
      rwa [hcarries]
  have hsame : ∀ m, from_ client (.status ⟨.unknown, some "UNKNOWN", some (sentWith server metadata c.name m)⟩) =
      .same (.raised ⟨c, some m⟩) ↔
      server.Carries client.charset m ∧ server.Carries client.charset c.name ∧
        client.forName c.name = some c := by
    intro m
    rw [from_same_iff hown, materialize_sent, hname]
    simp only [hown.runtime, hown.construct, true_and, Option.some.injEq, exists_eq_left', Charset.Carries]
    tauto
  constructor
  · rintro ⟨sent, hsent, hfrom, -⟩
    rw [translate_own hown, Option.map_eq_some_iff] at hsent
    obtain ⟨m, rfl, rfl⟩ := hsent
    obtain ⟨hm, hrest⟩ := (hsame m).mp hfrom
    exact ⟨⟨m, rfl, hm⟩, hrest⟩
  · rintro ⟨⟨m, rfl, hm⟩, hrest⟩
    have hfrom := (hsame m).mpr ⟨hm, hrest⟩
    refine ⟨_, by rw [translate_own hown, Option.map_some], hfrom, ?_⟩
    rw [hfrom]
    exact id

/-- A client that has all of them. -/
def knowing (charset : Charset) : Client where
  charset
  forName name := classes.find? (·.name == name)
  forName_name name c h := by simpa using List.find?_some h

def duplicateFactException : ExceptionClass := unchecked "core.DuplicateFactException" []

theorem duplicateFactException_mem : duplicateFactException ∈ classes :=
  List.mem_map_of_mem (.head _)

theorem survives_duplicate : duplicateFactException ∈ classes ∧
    Survives .usAscii (knowing .usAscii) [] ⟨duplicateFactException, some "1 fact"⟩ := by
  have hsurvives := survives_iff .usAscii (knowing .usAscii) []
  have hown : Own duplicateFactException := hsurvives.1 _ duplicateFactException_mem
  refine ⟨duplicateFactException_mem, ?_⟩
  exact (hsurvives.2 duplicateFactException (some "1 fact") hown).mpr ⟨⟨"1 fact", rfl, rfl⟩, rfl, rfl⟩

/-- Without a message there is nothing to send. -/
theorem no_message_not_translated :
    ServerExceptionHelper.translate .usAscii [] (.raised ⟨duplicateFactException, none⟩) = none ∧
    ¬ Survives .usAscii (knowing .usAscii) [] ⟨duplicateFactException, none⟩ := by
  have hnone : ServerExceptionHelper.translate .usAscii [] (.raised ⟨duplicateFactException, none⟩) =
      none := rfl
  refine ⟨hnone, ?_⟩
  rintro ⟨sent, hsent, -⟩
  rw [hnone] at hsent
  cases hsent

end FactCast.ExceptionTransport
