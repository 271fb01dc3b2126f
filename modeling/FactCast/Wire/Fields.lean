import FactCast.Wire.Protobuf

/-! Messages read back.

A message is a list of fields, each a number and a content of one of four types. A
reader takes more than is written: a number in more groups of bits than it needs, and
more than 64 bits, of which it drops what is too much; and fields between two marks,
which were a group once and are skipped. What is written it reads as it was
(`parse_write`), if a length still is a positive integer of 32 bits. -/
namespace Protobuf

/-! ### Numbers -/

/-- At most so many groups, and the bytes after them. -/
def readGroups : Nat → List UInt8 → Option (Nat × List UInt8)
  | 0, _ => none
  | _ + 1, [] => none
  | groups + 1, byte :: rest =>
    if byte.toNat < 128 then some (byte.toNat, rest)
    else (readGroups groups rest).map fun (high, rest) => (byte.toNat - 128 + 128 * high, rest)

/-- What is beyond 64 bits is dropped, and an eleventh group is not read. -/
def readVarint (bytes : List UInt8) : Option (Nat × List UInt8) :=
  (readGroups 10 bytes).map fun (n, rest) => (n % 2 ^ 64, rest)

section Numbers
variable {n groups : Nat} {bytes rest : List UInt8}

theorem length_varint_pos : 0 < (varint n).length := by
  rw [varint]
  split
  · exact Nat.one_pos
  · exact Nat.succ_pos _

/-- Seven bits a byte. -/
theorem length_varint_le_of_lt (h : n < 128 ^ (groups + 1)) : (varint n).length ≤ groups + 1 := by
  induction groups generalizing n with
  | zero => exact Nat.le_of_eq (length_varint_of_lt (by simpa using h))
  | succ groups ih =>
    rw [varint]
    split
    · exact Nat.succ_le_succ (Nat.zero_le _)
    · have hhigh : n / 128 < 128 ^ (groups + 1) := by
        rw [Nat.div_lt_iff_lt_mul (by decide), ← Nat.pow_succ]
        exact h
      exact Nat.succ_le_succ (ih hhigh)

theorem readGroups_varint (h : n < 128 ^ groups) (hgroups : 0 < groups) :
    readGroups groups (varint n ++ rest) = some (n, rest) := by
  induction groups generalizing n with
  | zero => exact absurd hgroups (Nat.lt_irrefl 0)
  | succ groups ih =>
    rw [varint]
    split
    · rename_i hlast
      have hbyte : (UInt8.ofNat n).toNat = n := by
        rw [UInt8.toNat_ofNat']
        exact Nat.mod_eq_of_lt (Nat.lt_trans hlast (by decide))
      rw [List.singleton_append, readGroups, hbyte, if_pos hlast]
    · rename_i hmore
      have hbyte : (UInt8.ofNat (n % 128 + 128)).toNat = n % 128 + 128 := by
        rw [UInt8.toNat_ofNat']
        exact Nat.mod_eq_of_lt (by omega)
      have hhigh : n / 128 < 128 ^ groups := by
        rw [Nat.div_lt_iff_lt_mul (by decide), ← Nat.pow_succ]
        exact h
      have hpos : 0 < groups := by
        refine Nat.pos_of_ne_zero fun hzero => hmore ?_
        rw [hzero] at h
        simpa using h
      rw [List.cons_append, readGroups, hbyte, if_neg (by omega), ih hhigh hpos]
      simp only [Option.map_some, Nat.add_sub_cancel, Nat.mod_add_div]

theorem readVarint_varint (h : n < 2 ^ 64) : readVarint (varint n ++ rest) = some (n, rest) := by
  have hgroups : n < 128 ^ 10 := Nat.lt_trans h (by decide)
  rw [readVarint, readGroups_varint hgroups (by decide)]
  simp only [Option.map_some, Nat.mod_eq_of_lt h]

end Numbers

/-! ### Contents -/

/-- What a field holds: a number, bytes behind their length, or eight or four bytes. A mark
holds nothing. -/
inductive Content where
  | varint (n : Nat)
  | fixed64 (bytes : List UInt8)
  | bytes (bytes : List UInt8)
  | startGroup
  | endGroup
  | fixed32 (bytes : List UInt8)
deriving DecidableEq

namespace Content

def wireType : Content → Nat
  | .varint _ => 0
  | .fixed64 _ => 1
  | .bytes _ => 2
  | .startGroup => 3
  | .endGroup => 4
  | .fixed32 _ => 5

def write : Content → List UInt8
  | .varint n => Protobuf.varint n
  | .fixed64 b => b
  | .bytes b => Protobuf.varint b.length ++ b
  | .startGroup | .endGroup => []
  | .fixed32 b => b

/-- Contents that can be written. Groups are not written any more. -/
def Ok : Content → Prop
  | .varint n => n < 2 ^ 64
  | .fixed64 b => b.length = 8
  | .bytes b => b.length < 2 ^ 31
  | .startGroup | .endGroup => False
  | .fixed32 b => b.length = 4

def isMark : Content → Bool
  | .startGroup | .endGroup => true
  | _ => false

theorem Ok.not_isMark {c : Content} (h : c.Ok) : c.isMark = false := by
  cases c with
  | startGroup => cases h
  | endGroup => cases h
  | _ => rfl

end Content

/-- So many bytes, and the bytes after them. -/
def takeBytes (n : Nat) (bytes : List UInt8) : Option (List UInt8 × List UInt8) :=
  if n ≤ bytes.length then some (bytes.take n, bytes.drop n) else none

/-- A length is an integer of 32 bits, and must not be negative. -/
def readLength (bytes : List UInt8) : Option (Nat × List UInt8) :=
  (readVarint bytes).bind fun (n, rest) =>
    if n % 2 ^ 32 < 2 ^ 31 then some (n % 2 ^ 32, rest) else none

def readContent (wireType : Nat) (bytes : List UInt8) : Option (Content × List UInt8) :=
  match wireType with
  | 0 => (readVarint bytes).map fun (n, rest) => (.varint n, rest)
  | 1 => (takeBytes 8 bytes).map fun (taken, rest) => (.fixed64 taken, rest)
  | 2 => (readLength bytes).bind fun (n, rest) =>
    (takeBytes n rest).map fun (taken, rest) => (.bytes taken, rest)
  | 3 => some (.startGroup, bytes)
  | 4 => some (.endGroup, bytes)
  | 5 => (takeBytes 4 bytes).map fun (taken, rest) => (.fixed32 taken, rest)
  | _ => none

section Contents
variable {n : Nat} {bytes rest : List UInt8} {c : Content}

theorem takeBytes_append (h : bytes.length = n) : takeBytes n (bytes ++ rest) = some (bytes, rest) := by
  have hle : n ≤ (bytes ++ rest).length := by
    rw [List.length_append]
    omega
  rw [takeBytes, if_pos hle, List.take_left' h, List.drop_left' h]

theorem readLength_varint (h : n < 2 ^ 31) : readLength (varint n ++ rest) = some (n, rest) := by
  have hsmall : n % 2 ^ 32 = n := Nat.mod_eq_of_lt (by omega)
  rw [readLength, readVarint_varint (by omega), Option.bind_some]
  simp only [hsmall, if_pos h]

theorem readContent_mark (h : c.isMark = true) :
    readContent c.wireType (c.write ++ rest) = some (c, rest) := by
  cases c with
  | startGroup => rfl
  | endGroup => rfl
  | _ => cases h

theorem readContent_write (h : c.Ok) : readContent c.wireType (c.write ++ rest) = some (c, rest) := by
  cases c with
  | startGroup => cases h
  | endGroup => cases h
  | varint n =>
    have hn : n < 2 ^ 64 := h
    simp only [Content.wireType, Content.write, readContent, readVarint_varint hn, Option.map_some]
  | fixed64 b =>
    have hb : b.length = 8 := h
    simp only [Content.wireType, Content.write, readContent, takeBytes_append hb, Option.map_some]
  | bytes b =>
    have hb : b.length < 2 ^ 31 := h
    simp only [Content.wireType, Content.write, readContent, List.append_assoc, readLength_varint hb,
      Option.bind_some, takeBytes_append rfl, Option.map_some]
  | fixed32 b =>
    have hb : b.length = 4 := h
    simp only [Content.wireType, Content.write, readContent, takeBytes_append hb, Option.map_some]

end Contents

/-! ### Fields -/

structure Field where
  number : Nat
  content : Content
deriving DecidableEq

namespace Field

def write (f : Field) : List UInt8 := tag f.number f.content.wireType ++ f.content.write

/-- Numbers have 29 bits, and are not zero. -/
structure Ok (f : Field) : Prop where
  pos : 0 < f.number
  lt : f.number < 2 ^ 29
  content : f.content.Ok

/-- What can stand in a message: fields that can be written, and marks. -/
structure Token (f : Field) : Prop where
  pos : 0 < f.number
  lt : f.number < 2 ^ 29
  content : f.content.isMark = false → f.content.Ok

theorem Ok.token {f : Field} (h : f.Ok) : f.Token := ⟨h.pos, h.lt, fun _ => h.content⟩

end Field

/-- A tag is an integer of 32 bits, its last three bits the type. -/
def readField (bytes : List UInt8) : Option (Field × List UInt8) :=
  (readVarint bytes).bind fun (tag, rest) =>
    if tag % 2 ^ 32 / 8 = 0 then none
    else (readContent (tag % 8) rest).map fun (content, rest) => (⟨tag % 2 ^ 32 / 8, content⟩, rest)

/-- Field after field and mark after mark, to the end of the bytes. -/
def readFields : Nat → List UInt8 → Option (List Field)
  | _, [] => some []
  | 0, _ :: _ => none
  | more + 1, byte :: bytes =>
    (readField (byte :: bytes)).bind fun (f, rest) => (readFields more rest).map (f :: ·)

/-- The fields outside of groups, given those that are open. A group ends at the mark with its
number; a hundred of them may be open. -/
def skipGroups : List Field → List Nat → Option (List Field)
  | [], [] => some []
  | [], _ :: _ => none
  | f :: rest, groups =>
    match f.content, groups with
    | .startGroup, _ => if groups.length < 100 then skipGroups rest (f.number :: groups) else none
    | .endGroup, [] => none
    | .endGroup, group :: groups => if f.number = group then skipGroups rest groups else none
    | _, [] => (skipGroups rest []).map (f :: ·)
    | _, _ :: _ => skipGroups rest groups

/-- A field takes a byte at least, so there are no more fields than bytes. -/
def parse (bytes : List UInt8) : Option (List Field) := (readFields bytes.length bytes).bind fun fields => skipGroups fields []

def writeFields (fields : List Field) : List UInt8 := fields.flatMap Field.write

section Fields
variable {f : Field} {fields more : List Field} {rest : List UInt8}

theorem Content.wireType_lt {c : Content} : c.wireType < 8 := by
  cases c <;> simp [Content.wireType]

theorem readField_write (h : f.Token) : readField (f.write ++ rest) = some (f, rest) := by
  have hlt := h.lt
  have hpos := h.pos
  have htype := @Content.wireType_lt f.content
  have hmod : (f.number * 8 + f.content.wireType) % 2 ^ 32 = f.number * 8 + f.content.wireType :=
    Nat.mod_eq_of_lt (by omega)
  have hnumber : (f.number * 8 + f.content.wireType) / 8 = f.number := by omega
  have hlast : (f.number * 8 + f.content.wireType) % 8 = f.content.wireType := by omega
  have hcontent : readContent f.content.wireType (f.content.write ++ rest) = some (f.content, rest) := by
    cases hmark : f.content.isMark with
    | true => exact readContent_mark hmark
    | false => exact readContent_write (h.content hmark)
  rw [readField, Field.write, tag, List.append_assoc, readVarint_varint (by omega), Option.bind_some]
  simp only [hmod, hnumber, hlast, hcontent, Option.map_some]
  rw [if_neg (Nat.ne_of_gt hpos)]

theorem length_write_pos : 0 < f.write.length := by
  rw [Field.write, List.length_append, tag]
  exact Nat.add_pos_left length_varint_pos _

theorem length_le_writeFields : fields.length ≤ (writeFields fields).length := by
  induction fields with
  | nil => exact Nat.le_refl 0
  | cons f rest ih =>
    have hpos := @length_write_pos f
    simp only [writeFields, List.flatMap_cons, List.length_append, List.length_cons] at ih ⊢
    omega

theorem readFields_write (h : ∀ f ∈ fields, f.Token) {n : Nat} (hn : fields.length ≤ n) :
    readFields n (writeFields fields) = some fields := by
  induction fields generalizing n with
  | nil => cases n <;> rfl
  | cons f rest ih =>
    obtain ⟨k, rfl⟩ : ∃ k, n = k + 1 := Nat.exists_eq_succ_of_ne_zero (by simp at hn; omega)
    have hk : rest.length ≤ k := Nat.le_of_succ_le_succ hn
    have hwrite : writeFields (f :: rest) = f.write ++ writeFields rest := List.flatMap_cons
    have hfield := @readField_write f (writeFields rest) (h f List.mem_cons_self)
    rw [← hwrite] at hfield
    cases hbytes : writeFields (f :: rest) with
    | nil =>
      have := @length_write_pos f
      rw [hwrite] at hbytes
      rw [List.append_eq_nil_iff.mp hbytes |>.1] at this
      exact absurd this (Nat.lt_irrefl 0)
    | cons byte bytes =>
      rw [hbytes] at hfield
      rw [readFields, hfield]
      simp only [Option.bind_some, ih (fun g hg => h g (List.mem_cons_of_mem f hg)) hk, Option.map_some]

theorem parse_tokens (h : ∀ f ∈ fields, f.Token) : parse (writeFields fields) = skipGroups fields [] := by
  rw [parse, readFields_write h length_le_writeFields, Option.bind_some]

/-- Where there is no group, nothing is skipped. -/
theorem skipGroups_fields (h : ∀ f ∈ fields, f.content.isMark = false) : skipGroups fields [] = some fields := by
  induction fields with
  | nil => rfl
  | cons f rest ih =>
    have hf := h f List.mem_cons_self
    have hrest := ih fun g hg => h g (List.mem_cons_of_mem _ hg)
    cases hcontent : f.content with
    | startGroup =>
      rw [hcontent] at hf
      cases hf
    | endGroup =>
      rw [hcontent] at hf
      cases hf
    | _ => simp only [skipGroups, hcontent, hrest, Option.map_some]

/-- What is written is read as it was. -/
theorem parse_write (h : ∀ f ∈ fields, f.Ok) : parse (writeFields fields) = some fields := by
  rw [parse_tokens fun f hf => (h f hf).token, skipGroups_fields fun f hf => (h f hf).content.not_isMark]

/-- What is outside of groups is left in its order. -/
theorem skipGroups_sublist {groups : List Nat} {outside : List Field}
    (h : skipGroups fields groups = some outside) : outside.Sublist fields := by
  induction fields generalizing groups outside with
  | nil =>
    cases groups with
    | nil =>
      cases h
      exact List.Sublist.refl _
    | cons => cases h
  | cons f rest ih =>
    unfold skipGroups at h
    split at h
    · split at h
      · exact (ih h).cons f
      · cases h
    · cases h
    · split at h
      · exact (ih h).cons f
      · cases h
    · obtain ⟨others, hothers, rfl⟩ := Option.map_eq_some_iff.mp h
      exact (ih hothers).cons_cons f
    · exact (ih h).cons f

/-- The last three bits of a tag say what is a mark: a field of a group is skipped. -/
example : parse [0x23, 0x08, 0x05, 0x24, 0x08, 0x07] = some [⟨1, .varint 7⟩] := by decide +kernel

@[simp] theorem writeFields_append : writeFields (fields ++ more) = writeFields fields ++ writeFields more :=
  List.flatMap_append

end Fields

end Protobuf
