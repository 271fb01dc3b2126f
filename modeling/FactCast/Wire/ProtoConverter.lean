import FactCast.Core.Position
import FactCast.Machine.HashSet
import FactCast.Wire.Messages

/-! Requests and replies as messages, and back.

`Request.message` and `Reply.message` are what one side sends, `Method.request` and
`Method.reply` what the other side makes of the bytes. What is missing in a message is
its default, and so a flag says whether a value that may be missing is there. Requests
and replies arrive as they were sent, whatever fields a newer version puts among theirs
(`rpc_round_trip`). -/
namespace FactCast.Rpc
open Protobuf FactStoreProto

/-- Integers of 64 bits. -/
abbrev Long := BitVec 64

/-! ### Values -/

/-- What a fact is to those who send it: two texts, from which it is made again. -/
structure FactKind (F : Type) where
  jsonHeader : F → String
  jsonPayload : F → String
  of_ : String → String → Option F
  of_texts : ∀ f, of_ (jsonHeader f) (jsonPayload f) = some f

def leapYear (year : Int) : Bool := year % 4 == 0 && (year % 100 != 0 || year % 400 == 0)

def lengthOfMonth (year month : Int) : Int :=
  if month = 2 then if leapYear year then 29 else 28
  else if month = 4 ∨ month = 6 ∨ month = 9 ∨ month = 11 then 30 else 31

structure LocalDate where
  year : Int
  month : Int
  day : Int
  year_valid : -999999999 ≤ year ∧ year ≤ 999999999
  month_valid : 1 ≤ month ∧ month ≤ 12
  day_valid : 1 ≤ day ∧ day ≤ lengthOfMonth year month

def LocalDate.of_ (year month day : Int) : Option LocalDate :=
  if h : (-999999999 ≤ year ∧ year ≤ 999999999) ∧ (1 ≤ month ∧ month ≤ 12) ∧
      (1 ≤ day ∧ day ≤ lengthOfMonth year month) then
    some ⟨year, month, day, h.1, h.2.1, h.2.2⟩
  else none

structure StateForRequest where
  aggIds : List UUID
  ns : Option String
deriving DecidableEq

structure ConditionalPublishRequest (F : Type) where
  facts : List F
  token : Option UUID

structure ProtocolVersion where
  major : BitVec 32
  minor : BitVec 32
  patch : BitVec 32
deriving DecidableEq

structure ServerConfig where
  version : ProtocolVersion
  properties : StringMap

/-! ### Conversions -/

def toProtoUUID (id : UUID) : MsgUUID := ⟨id.bits.extractLsb' 64 64, id.bits.extractLsb' 0 64⟩

def fromProtoUUID (m : MsgUUID) : UUID := ⟨m.msb ++ m.lsb⟩

def toProtoDate (date : LocalDate) : MsgDate := ⟨.ofInt 32 date.year, .ofInt 32 date.month, .ofInt 32 date.day⟩

def fromProtoDate (m : MsgDate) : Option LocalDate :=
  LocalDate.of_ m.year.toInt m.month.toInt m.day.toInt

def toProtoOptionalSerial : Option Long → MsgOptionalSerial
  | some serial => ⟨true, serial⟩
  | none => ⟨false, 0⟩

def fromProtoOptionalSerial (m : MsgOptionalSerial) : Option Long := if m.present then some m.serial else none

def toProtoStateFor (req : StateForRequest) : MsgStateForRequest :=
  ⟨req.ns.isSome, req.ns.getD "", req.aggIds.map toProtoUUID⟩

def fromProtoStateFor (m : MsgStateForRequest) : StateForRequest :=
  ⟨m.aggIds.map fromProtoUUID, if m.nsPresent then some m.ns else none⟩

def toProtoVersion (v : ProtocolVersion) : MsgServerProtocolVersion := ⟨v.major, v.minor, v.patch⟩

def fromProtoVersion (m : MsgServerProtocolVersion) : ProtocolVersion := ⟨m.major, m.minor, m.patch⟩

def toProtoConfig (cfg : ServerConfig) : MsgServerConfig := ⟨some (toProtoVersion cfg.version), some cfg.properties⟩

def fromProtoConfig (m : MsgServerConfig) : ServerConfig :=
  ⟨fromProtoVersion (m.version.getD serverProtocolVersion.default), m.properties.getD serverProperties.default⟩

section Facts
variable {F : Type} (kind : FactKind F)

def toProtoFact (f : F) : MsgFact := ⟨kind.jsonHeader f, kind.jsonPayload f⟩

def fromProtoFact (m : MsgFact) : Option F := kind.of_ m.header m.payload

def toProtoFacts (facts : List F) : List MsgFact := facts.map (toProtoFact kind)

def fromProtoFacts (m : List MsgFact) : Option (List F) := m.mapM (fromProtoFact kind)

def toProtoOptionalFact (optFact : Option F) : MsgOptionalFact := ⟨optFact.isSome, optFact.map (toProtoFact kind)⟩

def fromProtoOptionalFact (m : MsgOptionalFact) : Option (Option F) :=
  if m.present then (fromProtoFact kind (m.fact.getD fact.default)).map some else some none

def toProtoConditional (req : ConditionalPublishRequest F) : MsgConditionalPublishRequest :=
  ⟨some (toProtoFacts kind req.facts), req.token.isSome, req.token.map toProtoUUID⟩

def fromProtoConditional (m : MsgConditionalPublishRequest) : Option (ConditionalPublishRequest F) :=
  (fromProtoFacts kind (m.facts.getD facts.default)).map fun facts =>
    ⟨facts, if m.tokenPresent then some (fromProtoUUID (m.token.getD uuid.default)) else none⟩

end Facts

/-! ### Calls -/

/-- The methods of the service. -/
inductive Method where
  | subscribe
  | fetchById
  | publish
  | serialOf
  | handshake
  | enumerateNamespaces
  | enumerateTypes
  | publishConditional
  | invalidate
  | stateFor
  | currentTime
  | fetchByIdAndVersion
  | stateForSpecsJson
  | currentStateForSpecsJson
  | latestSerial
  | lastSerialBefore
  | fetchBySerial
deriving DecidableEq

/-- A call with what is asked. Subscriptions and specifications are texts of JSON. -/
inductive Request (F : Type) where
  | subscribe (json : String)
  | fetchById (id : UUID)
  | publish (facts : List F)
  | serialOf (id : UUID)
  | handshake
  | enumerateNamespaces
  | enumerateTypes (ns : String)
  | publishConditional (req : ConditionalPublishRequest F)
  | invalidate (token : UUID)
  | stateFor (req : StateForRequest)
  | currentTime
  | fetchByIdAndVersion (id : UUID) (version : BitVec 32)
  | stateForSpecsJson (json : String)
  | currentStateForSpecsJson (json : String)
  | latestSerial
  | lastSerialBefore (date : LocalDate)
  | fetchBySerial (serial : Long)

def Request.method {F : Type} : Request F → Method
  | .subscribe _ => .subscribe
  | .fetchById _ => .fetchById
  | .publish _ => .publish
  | .serialOf _ => .serialOf
  | .handshake => .handshake
  | .enumerateNamespaces => .enumerateNamespaces
  | .enumerateTypes _ => .enumerateTypes
  | .publishConditional _ => .publishConditional
  | .invalidate _ => .invalidate
  | .stateFor _ => .stateFor
  | .currentTime => .currentTime
  | .fetchByIdAndVersion _ _ => .fetchByIdAndVersion
  | .stateForSpecsJson _ => .stateForSpecsJson
  | .currentStateForSpecsJson _ => .currentStateForSpecsJson
  | .latestSerial => .latestSerial
  | .lastSerialBefore _ => .lastSerialBefore
  | .fetchBySerial _ => .fetchBySerial

/-- What is answered, if the call succeeds. What a subscription sends is not an answer. -/
inductive Reply (F : Type) where
  | empty
  | fact (fact : Option F)
  | optionalSerial (serial : Option Long)
  | config (cfg : ServerConfig)
  | strings (set : Finset String)
  | published (success : Bool)
  | token (id : UUID)
  | time (millis : Long)
  | serial (serial : Long)

/-- A reply of the type that the method returns. -/
def Reply.answers {F : Type} : Reply F → Method → Bool
  | .empty, m => m == .publish || m == .invalidate
  | .fact _, m => m == .fetchById || m == .fetchByIdAndVersion || m == .fetchBySerial
  | .optionalSerial _, m => m == .serialOf
  | .config _, m => m == .handshake
  | .strings _, m => m == .enumerateNamespaces || m == .enumerateTypes
  | .published _, m => m == .publishConditional
  | .token _, m => m == .stateFor || m == .stateForSpecsJson || m == .currentStateForSpecsJson
  | .time _, m => m == .currentTime
  | .serial _, m => m == .latestSerial || m == .lastSerialBefore

/-- A value, and how it is written. -/
structure Message where
  {Value : Type}
  codec : Codec Value
  value : Value

namespace Message

def bytes (m : Message) : List UInt8 := m.codec.encode m.value

/-- The bytes hold the message, and maybe fields it does not have. -/
def Holds (m : Message) (bytes : List UInt8) : Prop := m.codec.Holds m.value bytes

end Message

section Calls
variable {F : Type} (kind : FactKind F)

def Request.message : Request F → Message
  | .subscribe json => ⟨string, json⟩
  | .fetchById id => ⟨uuid, toProtoUUID id⟩
  | .publish facts => ⟨FactStoreProto.facts, toProtoFacts kind facts⟩
  | .serialOf id => ⟨uuid, toProtoUUID id⟩
  | .handshake => ⟨empty, ()⟩
  | .enumerateNamespaces => ⟨empty, ()⟩
  | .enumerateTypes ns => ⟨string, ns⟩
  | .publishConditional req => ⟨conditionalPublishRequest, toProtoConditional kind req⟩
  | .invalidate token => ⟨uuid, toProtoUUID token⟩
  | .stateFor req => ⟨stateForRequest, toProtoStateFor req⟩
  | .currentTime => ⟨empty, ()⟩
  | .fetchByIdAndVersion id version =>
    ⟨uuidAndVersion, ⟨(toProtoUUID id).msb, (toProtoUUID id).lsb, version⟩⟩
  | .stateForSpecsJson json => ⟨string, json⟩
  | .currentStateForSpecsJson json => ⟨string, json⟩
  | .latestSerial => ⟨empty, ()⟩
  | .lastSerialBefore date => ⟨FactStoreProto.date, toProtoDate date⟩
  | .fetchBySerial serial => ⟨FactStoreProto.serial, serial⟩

/-- What the server reads. -/
def Method.request : Method → List UInt8 → Option (Request F)
  | .subscribe, b => (string.decode b).map .subscribe
  | .fetchById, b => (uuid.decode b).map fun m => .fetchById (fromProtoUUID m)
  | .publish, b => (facts.decode b).bind fun m => (fromProtoFacts kind m).map .publish
  | .serialOf, b => (uuid.decode b).map fun m => .serialOf (fromProtoUUID m)
  | .handshake, b => (empty.decode b).map fun _ => .handshake
  | .enumerateNamespaces, b => (empty.decode b).map fun _ => .enumerateNamespaces
  | .enumerateTypes, b => (string.decode b).map .enumerateTypes
  | .publishConditional, b =>
    (conditionalPublishRequest.decode b).bind fun m => (fromProtoConditional kind m).map .publishConditional
  | .invalidate, b => (uuid.decode b).map fun m => .invalidate (fromProtoUUID m)
  | .stateFor, b => (stateForRequest.decode b).map fun m => .stateFor (fromProtoStateFor m)
  | .currentTime, b => (empty.decode b).map fun _ => .currentTime
  | .fetchByIdAndVersion, b =>
    (uuidAndVersion.decode b).map fun m => .fetchByIdAndVersion (fromProtoUUID ⟨m.msb, m.lsb⟩) m.ver
  | .stateForSpecsJson, b => (string.decode b).map .stateForSpecsJson
  | .currentStateForSpecsJson, b => (string.decode b).map .currentStateForSpecsJson
  | .latestSerial, b => (empty.decode b).map fun _ => .latestSerial
  | .lastSerialBefore, b => (date.decode b).bind fun m => (fromProtoDate m).map .lastSerialBefore
  | .fetchBySerial, b => (serial.decode b).map .fetchBySerial

variable (order : HashOrder String) (n : Nat)

def Reply.message : Reply F → Message
  | .empty => ⟨FactStoreProto.empty, ()⟩
  | .fact f => ⟨optionalFact, toProtoOptionalFact kind f⟩
  | .optionalSerial s => ⟨FactStoreProto.optionalSerial, toProtoOptionalSerial s⟩
  | .config cfg => ⟨serverConfig, toProtoConfig cfg⟩
  | .strings set => ⟨stringSet, order.order n set⟩
  | .published success => ⟨conditionalPublishResult, success⟩
  | .token id => ⟨uuid, toProtoUUID id⟩
  | .time millis => ⟨FactStoreProto.serial, millis⟩
  | .serial s => ⟨FactStoreProto.serial, s⟩

/-- What the client reads. -/
def Method.reply : Method → List UInt8 → Option (Reply F)
  | .subscribe, _ => none
  | .fetchById, b | .fetchByIdAndVersion, b | .fetchBySerial, b =>
    (optionalFact.decode b).bind fun m => (fromProtoOptionalFact kind m).map .fact
  | .publish, b | .invalidate, b => (empty.decode b).map fun _ => .empty
  | .serialOf, b => (optionalSerial.decode b).map fun m => .optionalSerial (fromProtoOptionalSerial m)
  | .handshake, b => (serverConfig.decode b).map fun m => .config (fromProtoConfig m)
  | .enumerateNamespaces, b | .enumerateTypes, b => (stringSet.decode b).map fun l => .strings l.toFinset
  | .publishConditional, b => (conditionalPublishResult.decode b).map .published
  | .stateFor, b | .stateForSpecsJson, b | .currentStateForSpecsJson, b =>
    (uuid.decode b).map fun m => .token (fromProtoUUID m)
  | .currentTime, b => (serial.decode b).map .time
  | .latestSerial, b | .lastSerialBefore, b => (serial.decode b).map .serial

end Calls

/-! ### What arrives -/

theorem fromProto_toProtoUUID (id : UUID) : fromProtoUUID (toProtoUUID id) = id := by
  have hhalves : id.bits.extractLsb' 64 64 ++ id.bits.extractLsb' 0 64 = id.bits := by
    rw [BitVec.extractLsb'_append_extractLsb'_eq_extractLsb' (Nat.zero_add 64).symm]
    exact BitVec.extractLsb'_eq_self
  rw [fromProtoUUID, toProtoUUID, hhalves]

theorem map_toProtoUUID (ids : List UUID) : (ids.map toProtoUUID).map fromProtoUUID = ids := by
  have hid : fromProtoUUID ∘ toProtoUUID = id := funext fromProto_toProtoUUID
  rw [List.map_map, hid, List.map_id]

theorem toInt_ofInt32 {v : Int} (h : -999999999 ≤ v ∧ v ≤ 999999999) : (BitVec.ofInt 32 v).toInt = v := by
  rw [BitVec.toInt_ofInt]
  exact Int.bmod_eq_of_le (by omega) (by omega)

theorem lengthOfMonth_le (year month : Int) : lengthOfMonth year month ≤ 31 := by
  unfold lengthOfMonth
  split
  · split <;> decide
  · split <;> decide

theorem fromProto_toProtoDate (date : LocalDate) : fromProtoDate (toProtoDate date) = some date := by
  have hmonth := date.month_valid
  have hday := date.day_valid
  have hle := lengthOfMonth_le date.year date.month
  have hvalid := And.intro date.year_valid (And.intro hmonth hday)
  simp only [fromProtoDate, toProtoDate, toInt_ofInt32 date.year_valid,
    toInt_ofInt32 (show -999999999 ≤ date.month ∧ date.month ≤ 999999999 by omega),
    toInt_ofInt32 (show -999999999 ≤ date.day ∧ date.day ≤ 999999999 by omega), LocalDate.of_, dif_pos hvalid]

theorem fromProto_toProtoOptionalSerial (s : Option Long) :
    fromProtoOptionalSerial (toProtoOptionalSerial s) = s := by
  cases s <;> rfl

theorem fromProto_toProtoStateFor (req : StateForRequest) : fromProtoStateFor (toProtoStateFor req) = req := by
  obtain ⟨aggIds, ns⟩ := req
  simp only [fromProtoStateFor, toProtoStateFor, map_toProtoUUID]
  cases ns <;> rfl

section Arrives
variable {F : Type} {kind : FactKind F}

theorem fromProto_toProtoFact (f : F) : fromProtoFact kind (toProtoFact kind f) = some f := kind.of_texts f

theorem fromProto_toProtoFacts (facts : List F) : fromProtoFacts kind (toProtoFacts kind facts) = some facts := by
  induction facts with
  | nil => rfl
  | cons f rest ih =>
    have hrest : (rest.map (toProtoFact kind)).mapM (fromProtoFact kind) = some rest := ih
    rw [fromProtoFacts, toProtoFacts, List.map_cons, List.mapM_cons, fromProto_toProtoFact, hrest]
    rfl

theorem fromProto_toProtoOptionalFact (f : Option F) :
    fromProtoOptionalFact kind (toProtoOptionalFact kind f) = some f := by
  cases f with
  | none => rfl
  | some f =>
    show (fromProtoFact kind (toProtoFact kind f)).map some = some (some f)
    rw [fromProto_toProtoFact, Option.map_some]

theorem fromProto_toProtoConditional (req : ConditionalPublishRequest F) :
    fromProtoConditional kind (toProtoConditional kind req) = some req := by
  obtain ⟨facts, token⟩ := req
  have hfacts := @fromProto_toProtoFacts F kind facts
  simp only [fromProtoConditional, toProtoConditional, Option.getD_some, hfacts, Option.map_some]
  cases token with
  | none => rfl
  | some id => simp [fromProto_toProtoUUID]

variable {bytes : List UInt8}

/-- A request arrives as it was sent. -/
theorem request_holds {r : Request F} (h : (r.message kind).Holds bytes) (hlength : bytes.length < 2 ^ 31) :
    r.method.request kind bytes = some r := by
  have hread := Codec.decode_holds h hlength
  cases r with
  | publish facts =>
    show ((FactStoreProto.facts.decode bytes).bind fun m => (fromProtoFacts kind m).map Request.publish) = _
    rw [show FactStoreProto.facts.decode bytes = some (toProtoFacts kind facts) from hread, Option.bind_some,
      fromProto_toProtoFacts, Option.map_some]
  | publishConditional req =>
    show ((conditionalPublishRequest.decode bytes).bind fun m =>
      (fromProtoConditional kind m).map Request.publishConditional) = _
    rw [show conditionalPublishRequest.decode bytes = some (toProtoConditional kind req) from hread, Option.bind_some,
      fromProto_toProtoConditional, Option.map_some]
  | lastSerialBefore date =>
    show ((FactStoreProto.date.decode bytes).bind fun m => (fromProtoDate m).map Request.lastSerialBefore) = _
    rw [show FactStoreProto.date.decode bytes = some (toProtoDate date) from hread, Option.bind_some,
      fromProto_toProtoDate, Option.map_some]
  | stateFor req =>
    show ((stateForRequest.decode bytes).map fun m => Request.stateFor (fromProtoStateFor m)) = _
    rw [show stateForRequest.decode bytes = some (toProtoStateFor req) from hread, Option.map_some,
      fromProto_toProtoStateFor]
  | fetchById id | serialOf id | invalidate id =>
    all_goals exact (congrArg (Option.map _) hread).trans (by simp [Request.message, fromProto_toProtoUUID])
  | fetchByIdAndVersion id version =>
    have hid : fromProtoUUID ⟨(toProtoUUID id).msb, (toProtoUUID id).lsb⟩ = id := fromProto_toProtoUUID id
    exact (congrArg (Option.map _) hread).trans (by simp [Request.message, hid])
  | subscribe json | enumerateTypes json | stateForSpecsJson json | currentStateForSpecsJson json | handshake
  | enumerateNamespaces | currentTime | latestSerial | fetchBySerial serial =>
    all_goals exact congrArg (Option.map _) hread

/-- So does a reply. -/
theorem reply_holds {order : HashOrder String} {n : Nat} {m : Method} {r : Reply F} (hm : r.answers m = true)
    (h : (r.message kind order n).Holds bytes) (hlength : bytes.length < 2 ^ 31) : m.reply kind bytes = some r := by
  have hread := Codec.decode_holds h hlength
  cases r with
  | fact f =>
    have hfact : ((optionalFact.decode bytes).bind fun m => (fromProtoOptionalFact kind m).map Reply.fact) =
        some (.fact f) := by
      rw [show optionalFact.decode bytes = some (toProtoOptionalFact kind f) from hread, Option.bind_some,
        fromProto_toProtoOptionalFact, Option.map_some]
    cases m <;> first | exact absurd hm Bool.false_ne_true | exact hfact
  | strings set =>
    have hset : (order.order n set).toFinset = set := by
      ext s
      rw [List.mem_toFinset, order.mem]
    have hstrings : ((stringSet.decode bytes).map fun l => (Reply.strings l.toFinset : Reply F)) =
        some (.strings set) := by
      rw [show stringSet.decode bytes = some (order.order n set) from hread, Option.map_some, hset]
    cases m <;> first | exact absurd hm Bool.false_ne_true | exact hstrings
  | token id =>
    have htoken : ((uuid.decode bytes).map fun m => (Reply.token (fromProtoUUID m) : Reply F)) =
        some (.token id) := by
      rw [show uuid.decode bytes = some (toProtoUUID id) from hread, Option.map_some, fromProto_toProtoUUID]
    cases m <;> first | exact absurd hm Bool.false_ne_true | exact htoken
  | optionalSerial s =>
    have hserial : ((optionalSerial.decode bytes).map fun m =>
        (Reply.optionalSerial (fromProtoOptionalSerial m) : Reply F)) = some (.optionalSerial s) := by
      rw [show optionalSerial.decode bytes = some (toProtoOptionalSerial s) from hread, Option.map_some,
        fromProto_toProtoOptionalSerial]
    cases m <;> first | exact absurd hm Bool.false_ne_true | exact hserial
  | empty | config cfg | published success | time millis | serial s =>
    all_goals cases m <;> first | exact absurd hm Bool.false_ne_true | exact congrArg (Option.map _) hread

end Arrives

/-- A message that is written holds itself. What holds a request is read as that request,
and what holds a reply of the method's type as that reply. -/
theorem rpc_round_trip {F : Type} (kind : FactKind F) (order : HashOrder String) (n : Nat) :
    (∀ m : Message, m.bytes.length < 2 ^ 31 → m.Holds m.bytes) ∧
    (∀ (r : Request F) (bytes : List UInt8), (r.message kind).Holds bytes → bytes.length < 2 ^ 31 →
      r.method.request kind bytes = some r) ∧
    (∀ (m : Method) (r : Reply F) (bytes : List UInt8), r.answers m = true →
      (r.message kind order n).Holds bytes → bytes.length < 2 ^ 31 → m.reply kind bytes = some r) :=
  ⟨fun _ h => Codec.holds_encode h, fun _ _ h hlength => request_holds h hlength,
    fun _ _ _ hm h hlength => reply_holds hm h hlength⟩

end FactCast.Rpc
