import FactCast.Core.Spec
import FactCast.Wire.DataStream

/-! Facts as they are written to a stream of objects.

A fact is two texts, its header and its payload, and what the mapper reads the header
as. Only the texts are written, and the header is read and validated again. A fact that
can be written comes back as it was; but a text that takes more than 65535 bytes cannot
be written (`externalized_iff`), and payloads can be longer than that.

The mapper is a parameter. Of it nothing is assumed but that a header that it writes
itself is read as that header. -/
namespace FactCast.ExternalizedFact
open DataStream

/-- A text, in UTF-16 units. -/
abbrev Text := List UInt16

structure FactHeader where
  id : Option UUID
  ns : Option Text
  type : Option Text
  version : Int
  aggIds : Option (List (Option UUID))
  «meta» : Option (List (Text × Option Text))
deriving DecidableEq

/-- Reads a header, or throws. -/
structure ObjectMapper where
  readValue : Text → Option FactHeader

/-- Nothing but spaces and control characters. -/
def isBlank (text : Text) : Bool := text.all fun c => decide (c ≤ 0x20)

def validate (header : FactHeader) : Bool :=
  header.id.isSome && header.ns.any (fun ns => !isBlank ns) && decide (0 ≤ header.version)

/-- The header was read from its text, and is valid. -/
structure DefaultFact (mapper : ObjectMapper) where
  jsonHeader : Text
  jsonPayload : Text
  deserializedHeader : FactHeader
  parsed : mapper.readValue jsonHeader = some deserializedHeader
  valid : validate deserializedHeader = true

namespace DefaultFact
variable {mapper : ObjectMapper}

/-- Nothing if this throws. -/
def init (mapper : ObjectMapper) (jsonHeader jsonPayload : Text) : Option (DefaultFact mapper) :=
  match hparsed : mapper.readValue jsonHeader with
  | some header =>
    if hvalid : validate header = true then some ⟨jsonHeader, jsonPayload, header, hparsed, hvalid⟩ else none
  | none => none

def of (mapper : ObjectMapper) (jsonHeader jsonPayload : Text) : Option (DefaultFact mapper) :=
  init mapper jsonHeader jsonPayload

/-- A fact of a header that is not read, but written by a mapper that can read it. -/
def ofHeader (writeValueAsString : FactHeader → Text)
    (reads : ∀ header, mapper.readValue (writeValueAsString header) = some header)
    (header : FactHeader) (payload : Text) : Option (DefaultFact mapper) :=
  if hvalid : validate header = true then
    some ⟨writeValueAsString header, payload, header, reads header, hvalid⟩
  else none

def writeExternal (fact : DefaultFact mapper) : Option (List UInt8) := do
  return (← writeUTF fact.jsonHeader) ++ (← writeUTF fact.jsonPayload)

/-- The fact, and what follows it in the stream. -/
def readExternal (mapper : ObjectMapper) (source : List UInt8) : Option (DefaultFact mapper × List UInt8) := do
  let (jsonHeader, source) ← readUTF source
  let (jsonPayload, source) ← readUTF source
  return (← init mapper jsonHeader jsonPayload, source)

/-- The fact is written, and read as it was wherever it stands in a stream. -/
def RoundTrips (fact : DefaultFact mapper) : Prop :=
  ∃ bytes, fact.writeExternal = some bytes ∧ ∀ rest, readExternal mapper (bytes ++ rest) = some (fact, rest)

variable {fact : DefaultFact mapper} {rest : List UInt8}

/-- The texts of a fact make that fact. -/
theorem init_texts : init mapper fact.jsonHeader fact.jsonPayload = some fact := by
  unfold init
  split
  · rename_i header hparsed
    obtain rfl : fact.deserializedHeader = header := Option.some.inj (fact.parsed.symm.trans hparsed)
    rw [dif_pos fact.valid]
  · rename_i hparsed
    rw [fact.parsed] at hparsed
    cases hparsed

/-- A fact keeps the texts it is made of. -/
theorem of_eq_some {jsonHeader jsonPayload : Text} (h : of mapper jsonHeader jsonPayload = some fact) :
    fact.jsonHeader = jsonHeader ∧ fact.jsonPayload = jsonPayload := by
  unfold of init at h
  split at h
  · split at h
    · cases h
      exact ⟨rfl, rfl⟩
    · cases h
  · cases h

theorem writeExternal_eq_some {bytes : List UInt8} : fact.writeExternal = some bytes ↔
    ∃ header payload, writeUTF fact.jsonHeader = some header ∧ writeUTF fact.jsonPayload = some payload ∧
      header ++ payload = bytes := by
  unfold writeExternal
  cases writeUTF fact.jsonHeader with
  | none => simp
  | some header =>
    cases writeUTF fact.jsonPayload with
    | none => simp
    | some payload => simp

theorem readExternal_texts (hheader : (encode fact.jsonHeader).length < 0x10000)
    (hpayload : (encode fact.jsonPayload).length < 0x10000) :
    readExternal mapper (writeNumber 2 (encode fact.jsonHeader).length ++ (encode fact.jsonHeader ++
      (writeNumber 2 (encode fact.jsonPayload).length ++ (encode fact.jsonPayload ++ rest)))) =
        some (fact, rest) := by
  unfold readExternal
  rw [readUTF_encode hheader, Option.bind_eq_bind, Option.bind_some]
  dsimp only
  rw [readUTF_encode hpayload, Option.bind_eq_bind, Option.bind_some]
  dsimp only
  rw [init_texts]
  rfl

/-- A payload of more units than bytes are allowed for. -/
theorem not_roundTrips_of_long (h : 0x10000 ≤ fact.jsonPayload.length) : ¬ fact.RoundTrips := by
  rintro ⟨bytes, hbytes, -⟩
  obtain ⟨_, payload, -, hpayload, -⟩ := writeExternal_eq_some.mp hbytes
  have hshort := writeUTF_isSome.mp (Option.isSome_of_eq_some hpayload)
  have := @length_le_encode fact.jsonPayload
  omega

end DefaultFact

open DefaultFact

/-- A fact comes back as it was just if neither text takes 65536 bytes or more. -/
theorem externalized_iff (mapper : ObjectMapper) (fact : DefaultFact mapper) : fact.RoundTrips ↔
    (encode fact.jsonHeader).length < 0x10000 ∧ (encode fact.jsonPayload).length < 0x10000 := by
  constructor
  · rintro ⟨bytes, hbytes, -⟩
    obtain ⟨header, payload, hheader, hpayload, -⟩ := writeExternal_eq_some.mp hbytes
    exact ⟨writeUTF_isSome.mp (hheader ▸ rfl), writeUTF_isSome.mp (hpayload ▸ rfl)⟩
  · rintro ⟨hheader, hpayload⟩
    refine ⟨_, writeExternal_eq_some.mpr ⟨_, _, if_pos hheader, if_pos hpayload, rfl⟩, fun rest => ?_⟩
    simp only [List.append_assoc]
    exact readExternal_texts hheader hpayload

/-! ### A long payload -/

/-- ASCII characters are UTF-16 units. -/
def ascii (s : String) : Text := s.toList.map fun c => UInt16.ofNat c.toNat

def placedHeader : FactHeader where
  id := some ⟨1⟩
  ns := some (ascii "orders")
  type := none
  version := 0
  aggIds := some []
  «meta» := some []

def placedText : Text :=
  ascii "\x7b\"id\":\"00000000-0000-0000-0000-000000000001\",\"ns\":\"orders\"\x7d"

/-- Reads one header. -/
def placedMapper : ObjectMapper := ⟨fun text => if text = placedText then some placedHeader else none⟩

/-- A string of 65534 letters, in quotes. -/
def longPayload : Text := 0x22 :: (List.replicate 65534 0x61 ++ [0x22])

def longFact : DefaultFact placedMapper where
  jsonHeader := placedText
  jsonPayload := longPayload
  deserializedHeader := placedHeader
  parsed := by simp [placedMapper]
  valid := by decide

theorem length_longPayload : longPayload.length = 65536 := by
  rw [longPayload, List.length_cons, List.length_append, List.length_replicate, List.length_singleton]

theorem long_payload_not_written : ¬ ∀ (mapper : ObjectMapper) (fact : DefaultFact mapper), fact.RoundTrips :=
  fun hall => not_roundTrips_of_long (length_longPayload ▸ Nat.le_refl _) (hall placedMapper longFact)

end FactCast.ExternalizedFact
