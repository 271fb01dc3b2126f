import Mathlib.Algebra.GroupWithZero.Nat
import Mathlib.Data.List.Basic

/-! Messages as bytes, and how many.

A number is written in groups of seven bits, a field as its tag and its content,
and a content of variable length behind that length. What a reader needs to know
of a size: it is at least what is put in (`le_length_lengthDelimited`), and what
is added grows slowly (`length_varint_le`).

Texts are sequences of characters. A text of the source may also hold one half of a
surrogate pair; such a text has no UTF-8 and does not travel. -/
namespace Protobuf

/-- Seven bits a byte, the least significant first; all bytes but the last are marked. -/
def varint (n : Nat) : List UInt8 :=
  if n < 128 then [UInt8.ofNat n] else UInt8.ofNat (n % 128 + 128) :: varint (n / 128)
termination_by n
decreasing_by omega

def tag (field wireType : Nat) : List UInt8 := varint (field * 8 + wireType)

/-- A string or a message as a field. -/
def lengthDelimited (field : Nat) (content : List UInt8) : List UInt8 :=
  tag field 2 ++ varint content.length ++ content

def utf8 (s : String) : List UInt8 := s.toList.flatMap String.utf8EncodeChar

/-- A string field. The empty string is the default, which is not written. -/
def string (field : Nat) (s : String) : List UInt8 :=
  if s.toList.isEmpty then [] else lengthDelimited field (utf8 s)

def enum (field value : Nat) : List UInt8 :=
  if value = 0 then [] else tag field 0 ++ varint value

variable {n field wireType : Nat} {content : List UInt8} {s : String}

theorem length_varint_of_lt (h : n < 128) : (varint n).length = 1 := by
  rw [varint, if_pos h]
  rfl

/-- A length takes one byte, and less than one more for every 128. -/
theorem length_varint_le : (varint n).length ≤ n / 128 + 1 := by
  induction n using varint.induct with
  | case1 n h =>
    rw [length_varint_of_lt h]
    omega
  | case2 n h ih =>
    rw [varint, if_neg h, List.length_cons]
    omega

theorem length_tag (h : field * 8 + wireType < 128) : (tag field wireType).length = 1 :=
  length_varint_of_lt h

theorem length_lengthDelimited (h : field * 8 + 2 < 128) :
    (lengthDelimited field content).length = 1 + (varint content.length).length + content.length := by
  simp only [lengthDelimited, List.length_append, length_tag h]

theorem le_length_lengthDelimited : content.length ≤ (lengthDelimited field content).length := by
  simp only [lengthDelimited, List.length_append]
  omega

theorem length_lengthDelimited_le (h : field * 8 + 2 < 128) :
    (lengthDelimited field content).length ≤ content.length + content.length / 128 + 2 := by
  have := @length_varint_le content.length
  rw [length_lengthDelimited h]
  omega

theorem length_utf8 : (utf8 s).length = (s.toList.map Char.utf8Size).sum := by
  simp [utf8, List.length_flatMap, String.length_utf8EncodeChar]

theorem le_length_string : (utf8 s).length ≤ (string field s).length := by
  unfold string
  split
  · rename_i hempty
    simp [utf8, List.isEmpty_iff.mp hempty]
  · exact le_length_lengthDelimited

theorem length_string_le (h : field * 8 + 2 < 128) :
    (string field s).length ≤ (utf8 s).length + (utf8 s).length / 128 + 2 := by
  unfold string
  split
  · exact Nat.zero_le _
  · exact length_lengthDelimited_le h

end Protobuf
