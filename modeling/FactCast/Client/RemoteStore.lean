import FactCast.Client.Calls
import Mathlib.Data.Finset.Sort
import Mathlib.Data.String.Basic

/-! The remote store.

A client writes a call as a request, the server reads it, asks its store and writes the
reply, which the client reads. Before its first call the client shakes hands: it learns
the version of the server, which must be compatible, and what the server is capable of.

To a client that may read and write everything the remote store is the store. It makes
attempts as it would on the store itself: whatever calls it makes, and whatever others do to
the store between its attempts, it gets the answers that it would have got there
(`remote_refines`), as long as no message is lost, requests and replies are not too large
and specifications are read as they were written. What the store throws reaches the client
as an exception can (`failure`). -/
namespace FactCast.RemoteStore
open Rpc FactStoreGrpcService Protobuf ExceptionTransport Calls Lockstep

/-! ### Handshake -/

def protocolVersion : ProtocolVersion := ⟨1, 6, 0⟩

/-- The patch level is irrelevant. -/
def isCompatibleTo (v other : ProtocolVersion) : Bool :=
  decide (v.major = other.major) && decide (v.minor.toInt ≤ other.minor.toInt)

def versionText (v : ProtocolVersion) : String :=
  toString v.major.toInt ++ "." ++ toString v.minor.toInt ++ "." ++ toString v.patch.toInt

def capability (name : String) : String := "org.factcast.grpc.api.Capabilities." ++ name

def get (properties : StringMap) (key : String) : Option String := properties.entries.lookup key

def parseBoolean (s : String) : Bool := s.toLower == "true"

def trim (cs : List Char) : List Char :=
  ((cs.dropWhile fun c => decide (c.toNat ≤ 0x20)).reverse.dropWhile fun c => decide (c.toNat ≤ 0x20)).reverse

/-- The codecs of a list with commas. -/
def fromCommaSeparatedList (list : String) : List String :=
  ((list.toLower.toList.splitOn ',').map fun part => String.ofList (trim part)).filter fun codec => codec != ""

/-- The first codec that is available here, if the list has one. -/
def selectFrom (available : List String) (list : Option String) : Option String :=
  list.bind fun list => available.find? fun codec => (fromCommaSeparatedList list).contains codec

/-- What the client knows of the server. -/
structure Connection where
  initialized : Bool := false
  fastStateToken : Bool := false
  compression : Option String := none

/-! ### Attempts -/

/-- The service as a client sees it, with the limits on messages, and how the client writes
specifications. -/
structure Remote (F S E : Type) where
  service : Service F S E
  meta_ : RequestMetadata
  serverLimit : Nat
  clientLimit : Nat
  writeSpecs : List FactSpec → String
  writeRequest : List FactSpec → String
  codecs : List String
  /-- The server's charset, and the headers of a request, which a failure sends back. -/
  charset : Charset
  headers : Metadata
  client : ExceptionTransport.Client
  /-- The exceptions of the store. -/
  raised : E → Raised

/-- What happens around the attempts of a client, by their number. -/
structure Surroundings (S : Type) where
  attemptsExhausted : Nat → Bool
  /-- What others do to the store before an attempt. -/
  others : Nat → S → S

/-- What the client has and who serves it. -/
structure Remoting (account : FactCastAccount) (S : Type) where
  connection : Connection := {}
  attempts : Nat := 0
  serving : Serving account S

section Attempts
variable {account : FactCastAccount} {F S E : Type} (remote : Remote F S E)

/-- What the service throws. -/
def exception : Failure E → ExceptionTransport.Throwable
  | .permissionDenied => .status ⟨.permissionDenied, some "PERMISSION_DENIED", some []⟩
  | .resourceExhausted => .status ⟨.resourceExhausted, some "RESOURCE_EXHAUSTED", none⟩
  | .illegalArgument message =>
    .raised ⟨⟨"java.lang.IllegalArgumentException", [ExceptionClass.runtimeException], some some⟩, some message⟩
  | .nullPointer => .raised ⟨⟨"java.lang.NullPointerException", [ExceptionClass.runtimeException], some some⟩, none⟩
  | .unreadable =>
    .raised ⟨⟨"com.fasterxml.jackson.core.JsonProcessingException", ["java.io.IOException"], none⟩, none⟩
  | .thrown e => .raised (remote.raised e)

/-- How a call ends that throws. Where translating an exception fails, the call ends anyway. -/
def handleException (e : ExceptionTransport.Throwable) : ExceptionTransport.StatusRuntimeException :=
  let translated := (ServerExceptionHelper.translate remote.charset remote.headers e).getD
    ⟨.unknown, some "UNKNOWN: Application error processing RPC", some []⟩
  match e with
  | .status _ => translated
  | .raised e =>
    if e.cls.instanceOf (ExceptionClass.factcast "server.grpc.RequestCanceledByClientException") then
      ⟨.cancelled, some (e.message.elim "CANCELLED" fun message => "CANCELLED: " ++ message), some remote.headers⟩
    else translated

/-- What the client gets of a failure. -/
def failure (f : Failure E) : Received :=
  ExceptionTransport.ClientExceptionHelper.from_ remote.client (.status (handleException remote (exception remote f)))

/-- A status of the transport. -/
def ended (code : Code) (message : String) : Received :=
  ExceptionTransport.ClientExceptionHelper.from_ remote.client (.status ⟨code, some message, none⟩)

/-- A request and its reply, each as bytes. -/
def exchange (request : Request F) (σ : Serving account S) :
    Except Received (Option (Reply F)) × Serving account S :=
  let kind := remote.service.facts.toFactKind
  let bytes := (request.message kind).bytes
  if bytes.length ≤ remote.serverLimit then
    match request.method.request kind bytes with
    | none => (.error (ended remote .internal "INTERNAL: Invalid protobuf byte sequence"), σ)
    | some received =>
      match (serve remote.service remote.meta_ received).run.run σ with
      | (.error f, served) => (.error (failure remote f), served)
      | (.ok none, served) => (.ok none, served)
      | (.ok (some reply), served) =>
        let bytes := (reply.message kind remote.service.order 0).bytes
        if bytes.length ≤ remote.clientLimit then
          match request.method.reply kind bytes with
          | some reply => (.ok (some reply), served)
          | none => (.error (ended remote .internal "INTERNAL: Invalid protobuf byte sequence"), served)
        else (.error (ended remote .resourceExhausted "RESOURCE_EXHAUSTED: gRPC message exceeds maximum size"), served)
  else (.error (ended remote .resourceExhausted "RESOURCE_EXHAUSTED: gRPC message exceeds maximum size"), σ)

/-- What the handshake tells. -/
def configured (cfg : ServerConfig) : Connection where
  initialized := true
  fastStateToken := ((get cfg.properties (capability "FAST_STATE_TOKEN")).map parseBoolean).getD false
  compression := selectFrom remote.codecs (get cfg.properties (capability "CODECS"))

def incompatibleProtocolVersions (server : ProtocolVersion) : Received :=
  .same (.raised ⟨ExceptionClass.unchecked "client.grpc.IncompatibleProtocolVersions" ExceptionClass.illegalState,
    some ("Apparently, the local Protocol Version " ++ versionText protocolVersion ++
      " is not compatible with the Server's " ++ versionText server ++
      ". \nPlease choose a compatible GRPC Client to connect to this Server.")⟩)

def initializeIfNecessary (τ : Remoting account S) : Except Received Unit × Remoting account S :=
  if τ.connection.initialized then (.ok (), τ)
  else
    match exchange remote .handshake τ.serving with
    | (.ok (some (.config cfg)), serving) =>
      if isCompatibleTo protocolVersion cfg.version then
        (.ok (), { τ with serving, connection := configured remote cfg })
      else (.error (incompatibleProtocolVersions cfg.version), { τ with serving })
    | (.ok _, serving) => (.error (ended remote .internal "INTERNAL: No value received for unary call"), { τ with serving })
    | (.error e, serving) => (.error e, { τ with serving })

/-- What the client requests. -/
def StoreCall.request : StoreCall F → Request F
  | .publish facts => .publish facts
  | .publishIfUnchanged facts token => .publishConditional ⟨facts, token⟩
  | .subscribe specs => .subscribe (remote.writeRequest specs)
  | .serialOf id => .serialOf id
  | .enumerateNamespaces => .enumerateNamespaces
  | .enumerateTypes ns => .enumerateTypes ns
  | .stateFor specs => .stateForSpecsJson (remote.writeSpecs specs)
  | .currentStateFor specs => .currentStateForSpecsJson (remote.writeSpecs specs)
  | .invalidate token => .invalidate token
  | .currentTime => .currentTime
  | .fetchById id => .fetchById id
  | .fetchByIdAndVersion id version => .fetchByIdAndVersion id version
  | .fetchBySerial serial => .fetchBySerial serial
  | .latestSerial => .latestSerial
  | .lastSerialBefore date => .lastSerialBefore date

/-- What the client makes of the reply. -/
def StoreCall.result : (c : StoreCall F) → Option (Reply F) → Option c.Result
  | .publish _, some .empty => some ()
  | .publishIfUnchanged _ _, some (.published success) => some success
  | .subscribe _, none => some ()
  | .serialOf _, some (.optionalSerial serial) => some serial
  | .enumerateNamespaces, some (.strings set) => some set
  | .enumerateTypes _, some (.strings set) => some set
  | .stateFor _, some (.token id) => some id
  | .currentStateFor _, some (.token id) => some id
  | .invalidate _, some .empty => some ()
  | .currentTime, some (.time millis) => some millis
  | .fetchById _, some (.fact f) => some f
  | .fetchByIdAndVersion _ _, some (.fact f) => some f
  | .fetchBySerial _, some (.fact f) => some f
  | .latestSerial, some (.serial serial) => some serial
  | .lastSerialBefore _, some (.serial serial) => some serial
  | _, _ => none

/-- One attempt of a call, once hands are shaken. -/
def request (c : StoreCall F) (τ : Remoting account S) : Except Received c.Result × Remoting account S :=
  match exchange remote (StoreCall.request remote c) τ.serving with
  | (.error e, serving) => (.error e, { τ with serving })
  | (.ok reply, serving) =>
    match StoreCall.result c reply with
    | some result => (.ok result, { τ with serving })
    | none => (.error (ended remote .internal "INTERNAL: No value received for unary call"), { τ with serving })

variable (around : Surroundings S)

/-- Attempts are made over the wire. -/
def wire : Link F (Remoting account S) where
  registerAttempt τ :=
    { τ with
      attempts := τ.attempts + 1
      serving := { τ.serving with store := around.others τ.attempts τ.serving.store } }
  initializeIfNecessary := initializeIfNecessary remote
  call := request remote
  reset τ := { τ with connection := { τ.connection with initialized := false } }
  attemptsExhausted τ := around.attemptsExhausted τ.attempts
  fastStateToken τ := τ.connection.fastStateToken

end Attempts

/-! ### The store itself -/

/-- What a client has that is with the store. -/
structure Local (S : Type) where
  attempts : Nat := 0
  store : S

section Direct
variable {F S E : Type} (remote : Remote F S E)

/-- What the store is asked: facts are tagged with the client that publishes them. -/
def direct : (c : StoreCall F) → S → Except (Failure E) c.Result × S
  | .publish facts, s =>
    match tagged remote.service remote.meta_ facts with
    | some facts => called remote.service (.publish facts) s
    | none => (.error .nullPointer, s)
  | .publishIfUnchanged facts token, s =>
    match tagged remote.service remote.meta_ facts with
    | some facts => called remote.service (.publishIfUnchanged facts token) s
    | none => (.error .nullPointer, s)
  | c, s => called remote.service c s

/-- Attempts are made on the store itself. What fails fails as it would over the wire. -/
def own (around : Surroundings S) : Link F (Local S) where
  registerAttempt l := ⟨l.attempts + 1, around.others l.attempts l.store⟩
  initializeIfNecessary l := (.ok (), l)
  call c l := ((direct remote c l.store).1.mapError (failure remote), { l with store := (direct remote c l.store).2 })
  reset l := l
  attemptsExhausted l := around.attemptsExhausted l.attempts
  fastStateToken _ := (configured remote remote.service.config).fastStateToken

/-- The reply that carries a result. -/
def StoreCall.reply : (c : StoreCall F) → c.Result → Option (Reply F)
  | .publish _, _ => some .empty
  | .publishIfUnchanged _ _, success => some (.published success)
  | .subscribe _, _ => none
  | .serialOf _, serial => some (.optionalSerial serial)
  | .enumerateNamespaces, set => some (.strings set)
  | .enumerateTypes _, set => some (.strings set)
  | .stateFor _, id => some (.token id)
  | .currentStateFor _, id => some (.token id)
  | .invalidate _, _ => some .empty
  | .currentTime, millis => some (.time millis)
  | .fetchById _, f => some (.fact f)
  | .fetchByIdAndVersion _ _, f => some (.fact f)
  | .fetchBySerial _, f => some (.fact f)
  | .latestSerial, serial => some (.serial serial)
  | .lastSerialBefore _, serial => some (.serial serial)

def Reply.size (reply : Reply F) : Nat :=
  (reply.message remote.service.facts.toFactKind remote.service.order 0).bytes.length

/-- Specifications are read as they were written, and for a state there are some. -/
def Written : StoreCall F → Prop
  | .stateFor specs => remote.service.readSpecs (remote.writeSpecs specs) = some specs ∧ specs ≠ []
  | .currentStateFor specs => remote.service.readSpecs (remote.writeSpecs specs) = some specs ∧ specs ≠ []
  | _ => True

variable (around : Surroundings S) (calls : List (Answered F))

/-- The states that the calls and the others can make of the store's. -/
inductive Led (s : S) : S → Prop where
  | start : Led s s
  | others {s' : S} (n : Nat) : Led s s' → Led s (around.others n s')
  | call {s' : S} {c : StoreCall F} : Led s s' → Attempted calls c → Led s (direct remote c s').2

/-- No request is too large, and no reply in whatever state the calls lead to. -/
structure Carried (s : S) : Prop where
  written : ∀ c, Attempted calls c → Written remote c
  request : ∀ c, Attempted calls c →
    ((StoreCall.request remote c).message remote.service.facts.toFactKind).bytes.length ≤ remote.serverLimit
  reply : ∀ c, Attempted calls c → ∀ s', Led remote around calls s s' →
    ∀ result reply, (direct remote c s').1 = .ok result → StoreCall.reply c result = some reply →
      Reply.size remote reply ≤ remote.clientLimit

/-- A server that the client can talk to, and that knows no limits for it. -/
structure Open (account : FactCastAccount) : Prop where
  canRead : ∀ ns, account.canRead ns = true
  canWrite : ∀ ns, account.canWrite ns = true
  serverLimit : remote.serverLimit < 2 ^ 31
  clientLimit : remote.clientLimit < 2 ^ 31
  compatible : isCompatibleTo protocolVersion remote.service.config.version = true
  handshake : Reply.size remote (.config remote.service.config) ≤ remote.clientLimit

end Direct

/-! ### Why they agree -/

section Agree
variable {account : FactCastAccount} {F S E : Type} {remote : Remote F S E}

/-- What is read of a request that is written. -/
theorem request_bytes (ho : Open remote account) {request : Request F}
    (h : (request.message remote.service.facts.toFactKind).bytes.length ≤ remote.serverLimit) :
    request.method.request remote.service.facts.toFactKind (request.message remote.service.facts.toFactKind).bytes =
      some request := by
  have hlength := Nat.lt_of_le_of_lt h ho.serverLimit
  exact request_holds (Codec.holds_encode hlength) hlength

theorem reply_bytes (ho : Open remote account) {m : Rpc.Method} {reply : Reply F} (hm : reply.answers m = true)
    (h : Reply.size remote reply ≤ remote.clientLimit) :
    m.reply remote.service.facts.toFactKind
      (reply.message remote.service.facts.toFactKind remote.service.order 0).bytes = some reply := by
  have hlength := Nat.lt_of_le_of_lt h ho.clientLimit
  exact reply_holds hm (Codec.holds_encode hlength) hlength

/-- What gets through the wire is what is served. -/
theorem exchange_ok (ho : Open remote account) {request : Request F} {σ : Serving account S} {reply : Option (Reply F)}
    {s' : S} (hrequest : (request.message remote.service.facts.toFactKind).bytes.length ≤ remote.serverLimit)
    (hguarded : Request.guarded remote.service account remote.meta_ request σ.store = (.ok reply, s'))
    (hreply : ∀ r, reply = some r → r.answers request.method = true ∧ Reply.size remote r ≤ remote.clientLimit) :
    ∃ served, exchange remote request σ = (.ok reply, served) ∧ served.store = s' := by
  have hserved := @yields_serve account F S E remote.service remote.meta_ request σ
  rw [hguarded] at hserved
  unfold exchange
  simp only [if_pos hrequest, request_bytes ho hrequest]
  rcases hrun : (serve remote.service remote.meta_ request).run.run σ with ⟨outcome, served⟩
  rw [hrun] at hserved
  obtain ⟨rfl, rfl⟩ := Prod.mk.inj hserved
  cases reply with
  | none => exact ⟨served, rfl, rfl⟩
  | some r =>
    obtain ⟨hanswers, hsize⟩ := hreply r rfl
    have hlength : (r.message remote.service.facts.toFactKind remote.service.order 0).bytes.length ≤
        remote.clientLimit := hsize
    simp only [if_pos hlength, reply_bytes ho hanswers hsize]
    exact ⟨served, rfl, rfl⟩

/-- So is what is refused. -/
theorem exchange_error (ho : Open remote account) {request : Request F} {σ : Serving account S} {f : Failure E}
    {s' : S} (hrequest : (request.message remote.service.facts.toFactKind).bytes.length ≤ remote.serverLimit)
    (hguarded : Request.guarded remote.service account remote.meta_ request σ.store = (.error f, s')) :
    ∃ served, exchange remote request σ = (.error (failure remote f), served) ∧ served.store = s' := by
  have hserved := @yields_serve account F S E remote.service remote.meta_ request σ
  rw [hguarded] at hserved
  unfold exchange
  simp only [if_pos hrequest, request_bytes ho hrequest]
  rcases hrun : (serve remote.service remote.meta_ request).run.run σ with ⟨outcome, served⟩
  rw [hrun] at hserved
  obtain ⟨rfl, rfl⟩ := Prod.mk.inj hserved
  exact ⟨served, rfl, rfl⟩

/-- The handshake succeeds, and tells what the server is capable of. -/
theorem initializeIfNecessary_eq (ho : Open remote account) (τ : Remoting account S)
    (hfast : τ.connection.initialized = true →
      τ.connection.fastStateToken = (configured remote remote.service.config).fastStateToken) :
    ∃ connection serving, initializeIfNecessary remote τ = (.ok (), { τ with connection, serving }) ∧
      connection.fastStateToken = (configured remote remote.service.config).fastStateToken ∧
      serving.store = τ.serving.store := by
  unfold initializeIfNecessary
  split
  · rename_i hinitialized
    exact ⟨τ.connection, τ.serving, rfl, hfast hinitialized, rfl⟩
  · obtain ⟨served, hexchange, hstore⟩ := @exchange_ok account F S E remote ho .handshake τ.serving
      (some (.config remote.service.config)) τ.serving.store (Nat.zero_le _) rfl fun r hr => by
        rw [← Option.some.inj hr]
        exact ⟨rfl, ho.handshake⟩
    simp only [hexchange, if_pos ho.compatible]
    exact ⟨_, served, rfl, rfl, hstore⟩

theorem readable_open (ho : Open remote account) (namespaces : List String) : readable account namespaces = true :=
  List.all_eq_true.mpr fun ns _ => ho.canRead ns

theorem writable_open (ho : Open remote account) (facts : List F) : writable remote.service account facts = true :=
  List.all_eq_true.mpr fun _ _ => ho.canWrite _

/-- Nothing is withheld. -/
theorem answer_open (ho : Open remote account) (c : StoreCall F) (result : c.Result) :
    (c.answer remote.service account result : Except (Failure E) (Option (Reply F))) = .ok (StoreCall.reply c result) := by
  have hfetched : ∀ f : Option F, (StoreCall.answer.fetched remote.service account f :
      Except (Failure E) (Option (Reply F))) = .ok (some (.fact f)) := by
    intro f
    cases f with
    | none => rfl
    | some _ => exact if_pos (ho.canRead _)
  cases c with
  | enumerateNamespaces =>
    have hall : (Finset.filter (fun ns => account.canRead ns = true) result : Finset String) = result :=
      Finset.filter_true_of_mem fun ns _ => ho.canRead ns
    exact congrArg (fun set => Except.ok (some (Reply.strings set))) hall
  | fetchById id => exact hfetched result
  | fetchByIdAndVersion id version => exact hfetched result
  | fetchBySerial serial => exact hfetched result
  | _ => rfl

/-- What is carried in a reply is got out of it, and the reply is one to the request. -/
theorem result_reply (c : StoreCall F) (result : c.Result) :
    StoreCall.result c (StoreCall.reply c result) = some result ∧
      ∀ r, StoreCall.reply c result = some r → r.answers (StoreCall.request remote c).method = true := by
  cases c with
  | subscribe specs => exact ⟨rfl, fun r hr => nomatch hr⟩
  | _ =>
    refine ⟨rfl, fun r hr => ?_⟩
    rw [← Option.some.inj hr]
    rfl

/-- A call that passes is made, and answered or failed as the store does. -/
theorem guarded_of_asks (ho : Open remote account) {request : Request F} {c : StoreCall F} {s : S}
    (hasks : Request.asks remote.service account remote.meta_ request = .ok (some c)) :
    Request.guarded remote.service account remote.meta_ request s =
      ((called remote.service c s).1.map (StoreCall.reply c), (called remote.service c s).2) := by
  rcases hcall : remote.service.store.call c s with ⟨_ | _, _⟩ <;>
    simp only [Request.guarded, hasks, ask, answer_open ho, called, hcall, Except.map]

theorem asksState_open (ho : Open remote account) {specs : List FactSpec} {supplier : List FactSpec → StoreCall F}
    (hread : remote.service.readSpecs (remote.writeSpecs specs) = some specs) (hne : specs ≠ []) :
    asksState remote.service account remote.meta_ (remote.writeSpecs specs) supplier = .ok (some (supplier specs)) := by
  unfold asksState
  rw [hread]
  have hempty : ¬ specs.isEmpty = true := by simpa using hne
  simp only [if_neg hempty, if_pos (readable_open ho _)]

theorem asks_stateFor (ho : Open remote account) {specs : List FactSpec}
    (hw : remote.service.readSpecs (remote.writeSpecs specs) = some specs ∧ specs ≠ []) :
    Request.asks remote.service account remote.meta_ (.stateForSpecsJson (remote.writeSpecs specs)) =
      .ok (some (.stateFor specs)) := asksState_open ho hw.1 hw.2

theorem asks_currentStateFor (ho : Open remote account) {specs : List FactSpec}
    (hw : remote.service.readSpecs (remote.writeSpecs specs) = some specs ∧ specs ≠ []) :
    Request.asks remote.service account remote.meta_ (.currentStateForSpecsJson (remote.writeSpecs specs)) =
      .ok (some (.currentStateFor specs)) := asksState_open ho hw.1 hw.2

theorem guarded_open (ho : Open remote account) {c : StoreCall F} {s : S} (hc : answered c = true)
    (hw : Written remote c) :
    Request.guarded remote.service account remote.meta_ (StoreCall.request remote c) s =
      ((direct remote c s).1.map (StoreCall.reply c), (direct remote c s).2) := by
  cases c with
  | publish facts =>
    have hasks : Request.asks remote.service account remote.meta_ (.publish facts) =
        (tagged remote.service remote.meta_ facts).elim (.error .nullPointer) fun facts => .ok (some (.publish facts)) := by
      simp only [Request.asks, if_pos (writable_open ho facts)]
    cases htagged : tagged remote.service remote.meta_ facts with
    | some stored =>
      simp only [StoreCall.request, direct, htagged]
      exact guarded_of_asks ho (by rw [hasks, htagged]; rfl)
    | none =>
      simp only [StoreCall.request, direct, htagged, Request.guarded, hasks, Option.elim_none]
      rfl
  | publishIfUnchanged facts token =>
    have hasks : Request.asks remote.service account remote.meta_ (.publishConditional ⟨facts, token⟩) =
        (tagged remote.service remote.meta_ facts).elim (.error .nullPointer) fun facts =>
          .ok (some (.publishIfUnchanged facts token)) := by
      simp only [Request.asks, if_pos (writable_open ho facts)]
    cases htagged : tagged remote.service remote.meta_ facts with
    | some stored =>
      simp only [StoreCall.request, direct, htagged]
      exact guarded_of_asks ho (by rw [hasks, htagged]; rfl)
    | none =>
      simp only [StoreCall.request, direct, htagged, Request.guarded, hasks, Option.elim_none]
      rfl
  | subscribe specs => cases hc
  | enumerateTypes ns =>
    refine guarded_of_asks ho ?_
    simp only [StoreCall.request, Request.asks, if_pos (ho.canRead ns)]
  | stateFor specs => exact guarded_of_asks ho (asks_stateFor ho hw)
  | currentStateFor specs => exact guarded_of_asks ho (asks_currentStateFor ho hw)
  | _ => exact guarded_of_asks ho rfl

/-- One attempt: it comes to what it comes to on the store. -/
theorem request_eq (ho : Open remote account) {c : StoreCall F} (τ : Remoting account S) (hc : answered c = true)
    (hw : Written remote c)
    (hrequest : ((StoreCall.request remote c).message remote.service.facts.toFactKind).bytes.length ≤ remote.serverLimit)
    (hreply : ∀ result reply, (direct remote c τ.serving.store).1 = .ok result → StoreCall.reply c result = some reply →
      Reply.size remote reply ≤ remote.clientLimit) :
    ∃ serving, request remote c τ =
        ((direct remote c τ.serving.store).1.mapError (failure remote), { τ with serving }) ∧
      serving.store = (direct remote c τ.serving.store).2 := by
  have hguarded := @guarded_open account F S E remote ho c τ.serving.store hc hw
  unfold request
  rcases hdirect : direct remote c τ.serving.store with ⟨f | result, s'⟩
  · rw [hdirect] at hguarded
    obtain ⟨served, hexchange, hstore⟩ := exchange_error ho hrequest hguarded
    exact ⟨served, by simp only [hexchange, Except.mapError], hstore⟩
  · rw [hdirect] at hguarded hreply
    obtain ⟨hresult, hanswers⟩ := @result_reply F S E remote c result
    obtain ⟨served, hexchange, hstore⟩ := exchange_ok ho hrequest hguarded fun r hr =>
      ⟨hanswers r hr, hreply result r rfl hr⟩
    exact ⟨served, by simp only [hexchange, hresult, Except.mapError], hstore⟩

/-! ### The links match -/

/-- The store over the wire is the store itself, and the client knows what the server can. -/
structure Related (remote : Remote F S E) (around : Surroundings S) (calls : List (Answered F)) (s : S)
    (τ : Remoting account S) (l : Local S) : Prop where
  attempts : τ.attempts = l.attempts
  store : τ.serving.store = l.store
  fastStateToken : τ.connection.fastStateToken = (configured remote remote.service.config).fastStateToken
  led : Led remote around calls s l.store

variable {around : Surroundings S} {calls : List (Answered F)} {s : S}

theorem answered_of_attempted {c : StoreCall F} (h : Attempted calls c) : answered c = true := by
  cases h with
  | @call c _ => exact c.2
  | one _ _ => rfl
  | state _ => rfl

theorem matches_own (ho : Open remote account) (hcarried : Carried remote around calls s) :
    Matches (@Related account F S E remote around calls s) (Attempted calls) (wire remote around)
      (own remote around) where
  registerAttempt τ l h :=
    { h with
      attempts := congrArg (· + 1) h.attempts
      store := show around.others τ.attempts τ.serving.store = around.others l.attempts l.store by
        rw [h.attempts, h.store]
      led := .others _ h.led }
  initializeIfNecessary τ l h := by
    obtain ⟨connection, serving, hinit, hfast, hstore⟩ := initializeIfNecessary_eq ho τ fun _ => h.fastStateToken
    show Same _ (initializeIfNecessary remote τ) _
    rw [hinit]
    exact ⟨rfl, { h with store := hstore.trans h.store, fastStateToken := hfast }⟩
  call c hc τ l h := by
    obtain ⟨serving, hrequest, hstore⟩ := request_eq ho τ (answered_of_attempted hc) (hcarried.written c hc)
      (hcarried.request c hc) (h.store ▸ hcarried.reply c hc l.store h.led)
    show Same _ (request remote c τ) _
    rw [hrequest]
    exact ⟨by rw [h.store]; rfl, { h with store := hstore.trans (by rw [h.store]; rfl), led := .call h.led hc }⟩
  reset τ l h := { h with }
  attemptsExhausted τ l h := congrArg around.attemptsExhausted h.attempts
  fastStateToken τ l h := h.fastStateToken

end Agree

/-- With resilience switched off and duplicates not ignored, a call on the store is that call. -/
theorem call_own {F S E : Type} (remote : Remote F S E) (around : Surroundings S) (attempts : Nat) (c : StoreCall F)
    (hstate : ∀ specs, c ≠ .currentStateFor specs) (l : Local S) :
    (call ⟨false, false⟩ (own remote around) (attempts + 1) c).run.run l =
      let s := around.others l.attempts l.store
      some ((direct remote c s).1.mapError (failure remote), ⟨l.attempts + 1, (direct remote c s).2⟩) := by
  have hone : ∀ c, (callAndHandle ⟨false, false⟩ (own remote around) (step ((own remote around).call c))
      (attempts + 1)).run.run l = some ((own remote around).call c ((own remote around).registerAttempt l)) :=
    fun c => callAndHandle_off rfl _ attempts l
  cases c with
  | publish facts =>
    show (callAndHandle _ _ (publishBlock _ _ _ facts) (attempts + 1)).run.run l = _
    rw [publishBlock_off rfl]
    exact hone (.publish facts)
  | currentStateFor specs => exact absurd rfl (hstate specs)
  | _ => exact hone _

/-- Whatever calls a client makes that may read and write everything, with however many
attempts: it gets the answers that it would get on the store, and the store becomes what it
would have become. -/
theorem remote_refines {F S E : Type} (remote : Remote F S E) (account : FactCastAccount) (ho : Open remote account)
    (settings : Settings) (around : Surroundings S) (attempts : Nat) (calls : List (Answered F))
    (serving : Serving account S) (hcarried : Carried remote around calls serving.store) :
    ∃ connected, initializeIfNecessary remote { serving } = (.ok (), connected) ∧
      ((callAll settings (wire remote around) attempts calls).run connected).map
          (fun r => (r.1, r.2.serving.store)) =
        ((callAll settings (own remote around) attempts calls).run { store := serving.store }).map
          fun r => (r.1, r.2.store) := by
  obtain ⟨connection, served, hinit, hfast, hstore⟩ := initializeIfNecessary_eq ho { serving }
    fun hinitialized => absurd hinitialized Bool.false_ne_true
  refine ⟨_, hinit, (alike_callAll attempts (matches_own ho hcarried) fun _ hc => hc).run_eq
    (fun τ l h => h.store) ⟨rfl, hstore, hfast, .start⟩⟩

/-! ### A store in memory -/

/-- Facts of one namespace, as they travel. -/
def orders : ServerFacts FactStoreProto.MsgFact where
  jsonHeader := FactStoreProto.MsgFact.header
  jsonPayload := FactStoreProto.MsgFact.payload
  of_ header payload := some ⟨header, payload⟩
  of_texts _ := rfl
  ns _ := "orders"
  tagFactSource f _ := some f
  ns_tag _ _ _ _ := rfl

/-- Facts are appended and counted. One that is there already is refused. -/
def memory : FactStore FactStoreProto.MsgFact (List FactStoreProto.MsgFact) Unit where
  call
    | .publish facts, s => if facts.any fun f => s.contains f then (.error (), s) else (.ok (), s ++ facts)
    | .latestSerial, s => (.ok (BitVec.ofNat 64 s.length), s)
    | _, s => (.error (), s)

def alphabetical : HashOrder String where
  order _ s := s.sort (· ≤ ·)
  nodup _ s := s.sort_nodup (· ≤ ·)
  mem _ _ _ := Finset.mem_sort (· ≤ ·)

def inMemory : Remote FactStoreProto.MsgFact (List FactStoreProto.MsgFact) Unit where
  service :=
    { facts := orders, store := memory, readSpecs := fun _ => none, readRequest := fun _ => none
      order := alphabetical, config := ⟨protocolVersion, .empty⟩ }
  meta_ := ⟨none, true⟩
  serverLimit := 4 * 1024 * 1024
  clientLimit := 2 * 1024 * 1024
  writeSpecs _ := ""
  writeRequest _ := ""
  codecs := ["gzip"]
  charset := .usAscii
  headers := []
  client := knowing .usAscii
  raised _ := ⟨duplicateFactException, some "1 fact"⟩

def placed : FactStoreProto.MsgFact :=
  ⟨"\x7b\"id\":\"00000000-0000-0000-0000-000000000001\",\"ns\":\"orders\"\x7d", "\x7b\x7d"⟩

def paid : FactStoreProto.MsgFact :=
  ⟨"\x7b\"id\":\"00000000-0000-0000-0000-000000000002\",\"ns\":\"orders\"\x7d", "\x7b\x7d"⟩

/-- Somebody else publishes one of the facts first. -/
def racing : Surroundings (List FactStoreProto.MsgFact) where
  attemptsExhausted n := decide (10 ≤ n)
  others n s := if n = 0 then s ++ [placed] else s

def bothThenLatest : List (Answered FactStoreProto.MsgFact) := [⟨.publish [placed, paid], rfl⟩, ⟨.latestSerial, rfl⟩]

theorem inMemory_open : Open inMemory .god where
  canRead _ := rfl
  canWrite _ := rfl
  serverLimit := show 4 * 1024 * 1024 < 2 ^ 31 by decide
  clientLimit := show 2 * 1024 * 1024 < 2 ^ 31 by decide
  compatible := show isCompatibleTo protocolVersion protocolVersion = true by decide
  handshake := by
    show (FactStoreProto.serverConfig.encode (toProtoConfig ⟨protocolVersion, .empty⟩)).length ≤ 2 * 1024 * 1024
    decide +kernel

theorem attempted_both {c : StoreCall FactStoreProto.MsgFact} (h : Attempted bothThenLatest c) :
    (∃ facts, facts ∈ [[placed, paid], [placed], [paid]] ∧ c = .publish facts) ∨ c = .latestSerial := by
  cases h with
  | @call c hc =>
    rcases List.mem_pair.mp hc with rfl | rfl
    · exact .inl ⟨_, by simp, rfl⟩
    · exact .inr rfl
  | @one facts f hc hf =>
    rcases List.mem_pair.mp hc with heq | heq
    · cases heq
      rcases List.mem_pair.mp hf with rfl | rfl
      · exact .inl ⟨[placed], by simp, rfl⟩
      · exact .inl ⟨[paid], by simp, rfl⟩
    · cases heq
  | @state specs hc =>
    rcases List.mem_pair.mp hc with heq | heq
    · cases heq
    · cases heq

theorem inMemory_carried : Carried inMemory racing bothThenLatest [] where
  written c hc := by
    rcases attempted_both hc with ⟨facts, _, rfl⟩ | rfl
    · trivial
    · trivial
  request c hc := by
    rcases attempted_both hc with ⟨facts, hfacts, rfl⟩ | rfl
    · show (FactStoreProto.facts.encode (facts.map fun f => ⟨f.header, f.payload⟩)).length ≤ 4 * 1024 * 1024
      simp only [List.mem_cons, List.not_mem_nil, or_false] at hfacts
      rcases hfacts with rfl | rfl | rfl <;> decide +kernel
    · exact Nat.zero_le _
  reply c hc s' _ result reply hresult hreply := by
    rcases attempted_both hc with ⟨facts, _, rfl⟩ | rfl
    · rw [← Option.some.inj hreply]
      exact Nat.zero_le _
    · rw [← Option.some.inj hreply]
      have hserial := @length_number_le 1 (by decide) result
      exact Nat.le_trans hserial (by decide)

theorem own_racing : (callAll ⟨true, true⟩ (own inMemory racing) 3 bothThenLatest).run { store := [] } =
    some ([⟨⟨.publish [placed, paid], rfl⟩, .ok ()⟩, ⟨⟨.latestSerial, rfl⟩, .ok (BitVec.ofNat 64 2)⟩],
      ⟨4, [placed, paid]⟩) := by
  rfl

/-- The facts are published one by one, since one of them is there already. -/
theorem remote_refines_racing : ∃ connected last,
    initializeIfNecessary inMemory ({ serving := ⟨{}, []⟩ } : Remoting .god _) = (.ok (), connected) ∧
      (callAll ⟨true, true⟩ (wire inMemory racing) 3 bothThenLatest).run connected =
        some ([⟨⟨.publish [placed, paid], rfl⟩, .ok ()⟩, ⟨⟨.latestSerial, rfl⟩, .ok (BitVec.ofNat 64 2)⟩], last) ∧
      last.serving.store = [placed, paid] := by
  obtain ⟨connected, hinit, hrun⟩ := remote_refines inMemory .god inMemory_open ⟨true, true⟩ racing 3 bothThenLatest
    ⟨{}, []⟩ inMemory_carried
  rw [own_racing, Option.map_some, Option.map_eq_some_iff] at hrun
  obtain ⟨⟨answers, last⟩, hlast, heq⟩ := hrun
  obtain ⟨rfl, hstore⟩ := Prod.mk.inj heq
  exact ⟨connected, last, hinit, hlast, hstore⟩

end FactCast.RemoteStore
