import FactCast.Wire.Codec

/-! The messages of the remote fact store, with their fields. -/
namespace FactCast.FactStoreProto
open Protobuf

/-- A UUID by its two halves. -/
structure MsgUUID where
  msb : BitVec 64
  lsb : BitVec 64
deriving DecidableEq

structure MsgUUIDAndVersion where
  msb : BitVec 64
  lsb : BitVec 64
  ver : BitVec 32
deriving DecidableEq

structure MsgOptionalSerial where
  present : Bool
  serial : BitVec 64
deriving DecidableEq

structure MsgFact where
  header : String
  payload : String
deriving DecidableEq

structure MsgOptionalFact where
  present : Bool
  fact : Option MsgFact
deriving DecidableEq

structure MsgInfo where
  serialStart : BitVec 64
  serialHorizon : BitVec 64
deriving DecidableEq

/-- Which of the other fields counts is said by the type. -/
structure MsgNotification where
  type : BitVec 32
  fact : Option MsgFact
  id : Option MsgUUID
  facts : Option (List MsgFact)
  info : Option MsgInfo
  serial : Option (BitVec 64)
deriving DecidableEq

structure MsgConditionalPublishRequest where
  facts : Option (List MsgFact)
  tokenPresent : Bool
  token : Option MsgUUID
deriving DecidableEq

structure MsgServerProtocolVersion where
  major : BitVec 32
  minor : BitVec 32
  patch : BitVec 32
deriving DecidableEq

structure MsgServerConfig where
  version : Option MsgServerProtocolVersion
  properties : Option StringMap

structure MsgStateForRequest where
  nsPresent : Bool
  ns : String
  aggIds : List MsgUUID
deriving DecidableEq

structure MsgDate where
  year : BitVec 32
  month : BitVec 32
  day : BitVec 32
deriving DecidableEq

/-! ### Fields -/

theorem three_pos : 0 < 3 := Nat.succ_pos 2
theorem four_pos : 0 < 4 := Nat.succ_pos 3
theorem five_pos : 0 < 5 := Nat.succ_pos 4
theorem six_pos : 0 < 6 := Nat.succ_pos 5
theorem lt_numbers {n : Nat} (h : n ≤ 6) : n < 2 ^ 29 := Nat.lt_of_le_of_lt h (by decide)

variable {α : Type}

/-- The fields of the messages, by their numbers. -/
def field1 (kind : Kind α) : Codec α := .field 1 kind Nat.one_pos key_lt
def field2 (kind : Kind α) : Codec α := .field 2 kind Nat.two_pos value_lt
def field3 (kind : Kind α) : Codec α := .field 3 kind three_pos (lt_numbers (by decide))
def field4 (kind : Kind α) : Codec α := .field 4 kind four_pos (lt_numbers (by decide))
def field5 (kind : Kind α) : Codec α := .field 5 kind five_pos (lt_numbers (by decide))
def field6 (kind : Kind α) : Codec α := .field 6 kind six_pos (lt_numbers (Nat.le_refl 6))

/-! ### Codecs -/

/-- `MSG_Empty`. Whatever is read, it is empty. -/
def empty : Codec Unit where
  numbers := []
  default := ()
  write _ := []
  read _ _ := some ()
  ok _ _ _ hf := absurd hf List.not_mem_nil
  known _ _ hf := absurd hf List.not_mem_nil
  read_write _ _ := rfl
  read_unknown _ _ _ := rfl

theorem field1_field2 {β : Type} {kind : Kind α} {other : Kind β} :
    ∀ n ∈ (field1 kind).numbers, n ∉ (field2 other).numbers := by
  intro n hn hmem
  rw [List.mem_singleton.mp hn] at hmem
  exact absurd (List.mem_singleton.mp hmem) (by decide)

def uuidPair : Codec (BitVec 64 × BitVec 64) := .pair (field1 .int64) (field2 .int64) field1_field2

def uuid : Codec MsgUUID :=
  uuidPair.iso (fun m => (m.msb, m.lsb)) (fun p => ⟨p.1, p.2⟩) (fun _ => rfl) fun _ => rfl

def uuidAndVersion : Codec MsgUUIDAndVersion :=
  (uuidPair.pair (field3 .int32) (by decide)).iso (fun m => ((m.msb, m.lsb), m.ver)) (fun p => ⟨p.1.1, p.1.2, p.2⟩)
    (fun _ => rfl) fun _ => rfl

def optionalSerial : Codec MsgOptionalSerial :=
  (Codec.pair (field1 .bool) (field2 .int64) field1_field2).iso (fun m => (m.present, m.serial))
    (fun p => ⟨p.1, p.2⟩) (fun _ => rfl) fun _ => rfl

/-- `MSG_Serial`, and `MSG_CurrentDatabaseTime` likewise. -/
def serial : Codec (BitVec 64) := field1 .int64

def fact : Codec MsgFact :=
  (Codec.pair (field1 .string) (field2 .string) field1_field2).iso (fun m => (m.header, m.payload))
    (fun p => ⟨p.1, p.2⟩) (fun _ => rfl) fun _ => rfl

/-- `MSG_Facts`. -/
def facts : Codec (List MsgFact) := field1 (.messages fact)

def optionalFact : Codec MsgOptionalFact :=
  (Codec.pair (field1 .bool) (field2 (.message fact)) field1_field2).iso (fun m => (m.present, m.fact))
    (fun p => ⟨p.1, p.2⟩) (fun _ => rfl) fun _ => rfl

def info : Codec MsgInfo :=
  (Codec.pair (field1 .int64) (field2 .int64) field1_field2).iso (fun m => (m.serialStart, m.serialHorizon))
    (fun p => ⟨p.1, p.2⟩) (fun _ => rfl) fun _ => rfl

/-- `MSG_String`, and the requests that hold a text of JSON likewise. -/
def string : Codec String := field1 .string

/-- `MSG_StringSet`. -/
def stringSet : Codec (List String) := field1 .strings

def notificationFields :
    Codec ((BitVec 32 × Option MsgFact) ×
      ((Option MsgUUID × Option (List MsgFact)) × (Option MsgInfo × Option (BitVec 64)))) :=
  (Codec.pair (field1 .int32) (field2 (.message fact)) field1_field2).pair
    (((field3 (.message uuid)).pair (field4 (.message facts)) (by decide)).pair
      ((field5 (.message info)).pair (field6 (.message serial)) (by decide)) (by decide)) (by decide)

def notification : Codec MsgNotification :=
  notificationFields.iso (fun m => ((m.type, m.fact), ((m.id, m.facts), (m.info, m.serial))))
    (fun p => ⟨p.1.1, p.1.2, p.2.1.1, p.2.1.2, p.2.2.1, p.2.2.2⟩) (fun _ => rfl) fun _ => rfl

def conditionalPublishRequest : Codec MsgConditionalPublishRequest :=
  ((Codec.pair (field1 (.message facts)) (field2 .bool) field1_field2).pair (field3 (.message uuid)) (by decide)).iso
    (fun m => ((m.facts, m.tokenPresent), m.token)) (fun p => ⟨p.1.1, p.1.2, p.2⟩) (fun _ => rfl) fun _ => rfl

/-- `MSG_ConditionalPublishResult`. -/
def conditionalPublishResult : Codec Bool := field1 .bool

def numbers : Codec ((BitVec 32 × BitVec 32) × BitVec 32) :=
  (Codec.pair (field1 .int32) (field2 .int32) field1_field2).pair (field3 .int32) (by decide)

def serverProtocolVersion : Codec MsgServerProtocolVersion :=
  numbers.iso (fun m => ((m.major, m.minor), m.patch)) (fun p => ⟨p.1.1, p.1.2, p.2⟩) (fun _ => rfl) fun _ => rfl

def serverProperties : Codec StringMap := field1 .map

def serverConfig : Codec MsgServerConfig :=
  (Codec.pair (field1 (.message serverProtocolVersion)) (field2 (.message serverProperties)) field1_field2).iso
    (fun m => (m.version, m.properties)) (fun p => ⟨p.1, p.2⟩) (fun _ => rfl) fun _ => rfl

def stateForRequest : Codec MsgStateForRequest :=
  ((Codec.pair (field1 .bool) (field2 .string) field1_field2).pair (field3 (.messages uuid)) (by decide)).iso
    (fun m => ((m.nsPresent, m.ns), m.aggIds)) (fun p => ⟨p.1.1, p.1.2, p.2⟩) (fun _ => rfl) fun _ => rfl

def date : Codec MsgDate :=
  numbers.iso (fun m => ((m.year, m.month), m.day)) (fun p => ⟨p.1.1, p.1.2, p.2⟩) (fun _ => rfl) fun _ => rfl

end FactCast.FactStoreProto
