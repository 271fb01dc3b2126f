import FactCast.Wire.Fields
import Mathlib.Data.List.Flatten

/-! Messages by their fields.

A field is of a kind: what its default is, which contents are written for a value, and
how a content changes what was read before. A later number replaces an earlier one, a
message is read into an earlier one, an item is put behind earlier ones. A codec puts
fields together. It carries its round trip along, and so what is put together has one as
well (`Codec.decode_encode`). Fields that a codec does not know make no difference to it
(`Codec.decode_holds`). -/
namespace Protobuf

/-! ### Kinds -/

/-- How the values of one field are written and read. A content of the wrong type is
passed over, a malformed one makes the whole message malformed. -/
structure Kind (α : Type) where
  default : α
  contents : α → List Content
  read : α → Content → Option α
  ok : ∀ a, ∀ c ∈ contents a, c.write.length < 2 ^ 31 → c.Ok
  read_contents : ∀ a, (∀ c ∈ contents a, c.write.length < 2 ^ 31) → (contents a).foldlM read default = some a

section Numbers
variable {α : Type} [DecidableEq α] (default : α) (toNat : α → Nat) (ofNat : Nat → α)

def numberContents (a : α) : List Content := if a = default then [] else [.varint (toNat a)]

def readNumber (old : α) : Content → Option α
  | .varint n => some (ofNat n)
  | _ => some old

variable {default toNat ofNat}

theorem numberContents_ok (hlt : ∀ a, toNat a < 2 ^ 64) (a : α) :
    ∀ c ∈ numberContents default toNat a, c.write.length < 2 ^ 31 → c.Ok := by
  intro c hc _
  unfold numberContents at hc
  split at hc
  · exact absurd hc List.not_mem_nil
  · rw [List.mem_singleton.mp hc]
    exact hlt a

theorem readNumber_contents (hinv : ∀ a, ofNat (toNat a) = a) (a : α)
    (_ : ∀ c ∈ numberContents default toNat a, c.write.length < 2 ^ 31) :
    (numberContents default toNat a).foldlM (readNumber ofNat) default = some a := by
  unfold numberContents
  split
  · rename_i hdefault
    rw [hdefault]
    rfl
  · exact congrArg some (hinv a)

end Numbers

/-- A number of at most 64 bits. The default is not written. -/
def Kind.number {α : Type} [DecidableEq α] (default : α) (toNat : α → Nat) (ofNat : Nat → α)
    (lt : ∀ a, toNat a < 2 ^ 64) (inv : ∀ a, ofNat (toNat a) = a) : Kind α where
  default := default
  contents := numberContents default toNat
  read := readNumber ofNat
  ok := numberContents_ok lt
  read_contents := readNumber_contents inv

theorem ofNat_toNat64 (v : BitVec 64) : BitVec.ofNat 64 v.toNat = v := by
  rw [BitVec.ofNat_toNat, BitVec.setWidth_eq]

/-- `int64` and `uint64`. -/
def Kind.int64 : Kind (BitVec 64) := .number 0 BitVec.toNat (BitVec.ofNat 64) BitVec.isLt ofNat_toNat64

/-- Such a number takes at most eleven bytes. -/
theorem length_number_le {number : Nat} (hnumber : number < 16) (v : BitVec 64) :
    (writeFields ((numberContents 0 BitVec.toNat v).map fun content => ⟨number, content⟩)).length ≤ 11 := by
  unfold numberContents
  split
  · exact Nat.zero_le _
  · have hvarint := @length_varint_le_of_lt v.toNat 9 (Nat.lt_trans v.isLt (by decide))
    have htag := @length_tag number 0 (by omega)
    simp only [List.map_singleton, writeFields, List.flatMap_cons, List.flatMap_nil, List.append_nil, Field.write,
      Content.wireType, Content.write, List.length_append, htag]
    omega

/-- A number of 32 bits is written with its sign, in 64 bits. -/
def toNat32 (v : BitVec 32) : Nat := (v.signExtend 64).toNat

theorem toNat32_lt (v : BitVec 32) : toNat32 v < 2 ^ 64 := BitVec.isLt _

theorem ofNat_toNat32 (v : BitVec 32) : BitVec.ofNat 32 (toNat32 v) = v := by
  have htrunc : BitVec.ofNat 32 (toNat32 v) = (v.signExtend 64).setWidth 32 := by
    rw [toNat32, BitVec.ofNat_toNat]
  rw [htrunc]
  ext i hi
  simp only [BitVec.getElem_setWidth, BitVec.getLsbD_signExtend]
  simp [hi, show i < 64 by omega]

/-- `int32`, and enumerations with what their values are written as. -/
def Kind.int32 : Kind (BitVec 32) := .number 0 toNat32 (BitVec.ofNat 32) toNat32_lt ofNat_toNat32

theorem toNat_bool_lt (b : Bool) : b.toNat < 2 ^ 64 := Nat.lt_of_le_of_lt b.toNat_le (by decide)

theorem toNat_bool_ne (b : Bool) : (b.toNat != 0) = b := by cases b <;> rfl

def Kind.bool : Kind Bool := .number false Bool.toNat (· != 0) toNat_bool_lt toNat_bool_ne

/-! ### Bytes -/

section Bytes
variable {α : Type} (encode : α → List UInt8) (decode : List UInt8 → Option α)

/-- What is written is read back, as long as there are not too many bytes. -/
def RoundTrips : Prop := ∀ a, (encode a).length < 2 ^ 31 → decode (encode a) = some a

def readOne (old : α) : Content → Option α
  | .bytes b => decode b
  | _ => some old

def readItem (old : List α) : Content → Option (List α)
  | .bytes b => (decode b).map fun a => old ++ [a]
  | _ => some old

variable {encode decode}

theorem Content.ok_of_bytes {b : List UInt8} (h : (Content.bytes b).write.length < 2 ^ 31) : b.length < 2 ^ 31 := by
  simp only [Content.write, List.length_append] at h
  omega

theorem itemContents_ok (as : List α) :
    ∀ c ∈ as.map (fun a => Content.bytes (encode a)), c.write.length < 2 ^ 31 → c.Ok := by
  intro c hc hlength
  obtain ⟨a, _, rfl⟩ := List.mem_map.mp hc
  exact Content.ok_of_bytes hlength

theorem readItem_contents_from (h : RoundTrips encode decode) (old as : List α)
    (hlength : ∀ c ∈ as.map (fun a => Content.bytes (encode a)), c.write.length < 2 ^ 31) :
    (as.map fun a => Content.bytes (encode a)).foldlM (readItem decode) old = some (old ++ as) := by
  induction as generalizing old with
  | nil => simp
  | cons a rest ih =>
    have hfirst := h a (Content.ok_of_bytes (hlength _ List.mem_cons_self))
    have hrest := ih (old ++ [a]) fun c hc => hlength c (List.mem_cons_of_mem _ hc)
    rw [List.map_cons, List.foldlM_cons, readItem, hfirst]
    simpa using hrest

theorem readItem_contents (h : RoundTrips encode decode) (as : List α)
    (hlength : ∀ c ∈ as.map (fun a => Content.bytes (encode a)), c.write.length < 2 ^ 31) :
    (as.map fun a => Content.bytes (encode a)).foldlM (readItem decode) [] = some as :=
  readItem_contents_from h [] as hlength

end Bytes

/-- `repeated`, each item as bytes. -/
def Kind.repeated {α : Type} (encode : α → List UInt8) (decode : List UInt8 → Option α)
    (h : RoundTrips encode decode) : Kind (List α) where
  default := []
  contents as := as.map fun a => .bytes (encode a)
  read := readItem decode
  ok := itemContents_ok
  read_contents := readItem_contents h

/-- Bytes that are no text are malformed. -/
def fromUtf8 (bytes : List UInt8) : Option String := String.fromUTF8? bytes.toByteArray

theorem fromUtf8_utf8 (s : String) : fromUtf8 (utf8 s) = some s := by
  have hbytes : (utf8 s).toByteArray = s.toByteArray := String.utf8Encode_toList
  have hvalid : (utf8 s).toByteArray.IsValidUTF8 := hbytes ▸ s.isValidUTF8
  rw [fromUtf8, String.fromUTF8?, dif_pos hvalid]
  exact congrArg some (String.toByteArray_inj.mp hbytes)

theorem utf8_roundTrips : RoundTrips utf8 fromUtf8 := fun s _ => fromUtf8_utf8 s

def Kind.strings : Kind (List String) := .repeated utf8 fromUtf8 utf8_roundTrips

def stringContents (s : String) : List Content := if s = "" then [] else [.bytes (utf8 s)]

theorem stringContents_ok (s : String) : ∀ c ∈ stringContents s, c.write.length < 2 ^ 31 → c.Ok := by
  intro c hc hlength
  unfold stringContents at hc
  split at hc
  · exact absurd hc List.not_mem_nil
  · rw [List.mem_singleton.mp hc] at hlength ⊢
    exact Content.ok_of_bytes hlength

theorem readOne_string (s : String) (_ : ∀ c ∈ stringContents s, c.write.length < 2 ^ 31) :
    (stringContents s).foldlM (readOne fromUtf8) "" = some s := by
  unfold stringContents
  split
  · rename_i hempty
    rw [hempty]
    rfl
  · rw [List.foldlM_cons, readOne, fromUtf8_utf8]
    rfl

/-- The empty string is not written. -/
def Kind.string : Kind String where
  default := ""
  contents := stringContents
  read := readOne fromUtf8
  ok := stringContents_ok
  read_contents := readOne_string

theorem entryString_ok (s : String) : ∀ c ∈ [Content.bytes (utf8 s)], c.write.length < 2 ^ 31 → c.Ok := by
  intro c hc hlength
  rw [List.mem_singleton.mp hc] at hlength ⊢
  exact Content.ok_of_bytes hlength

theorem readOne_entryString (s : String) (_ : ∀ c ∈ [Content.bytes (utf8 s)], c.write.length < 2 ^ 31) :
    [Content.bytes (utf8 s)].foldlM (readOne fromUtf8) "" = some s := by
  rw [List.foldlM_cons, readOne, fromUtf8_utf8]
  rfl

/-- A key or a value of a map is written even if it is empty. -/
def Kind.entryString : Kind String where
  default := ""
  contents s := [.bytes (utf8 s)]
  read := readOne fromUtf8
  ok := entryString_ok
  read_contents := readOne_entryString

/-! ### Codecs -/

/-- How the values of a message are written and read, and that it is no loss. -/
structure Codec (α : Type) where
  /-- The numbers of its fields. -/
  numbers : List Nat
  default : α
  write : α → List Field
  read : α → Field → Option α
  ok : ∀ a, (writeFields (write a)).length < 2 ^ 31 → ∀ f ∈ write a, f.Ok
  known : ∀ a, ∀ f ∈ write a, f.number ∈ numbers
  read_write : ∀ a, (writeFields (write a)).length < 2 ^ 31 → (write a).foldlM read default = some a
  read_unknown : ∀ a f, f.number ∉ numbers → read a f = some a

namespace Codec

def encode {α : Type} (c : Codec α) (a : α) : List UInt8 := writeFields (c.write a)

/-- The fields that are read are read into a message that is there already. -/
def merge {α : Type} (c : Codec α) (old : α) (bytes : List UInt8) : Option α :=
  (parse bytes).bind fun fields => fields.foldlM c.read old

def decode {α : Type} (c : Codec α) (bytes : List UInt8) : Option α := c.merge c.default bytes

section Laws
variable {α : Type} {c : Codec α} {a : α} {fields : List Field}

/-- What is written is read back. -/
theorem decode_encode (h : (c.encode a).length < 2 ^ 31) : c.decode (c.encode a) = some a := by
  rw [decode, merge, encode, parse_write (c.ok a h), Option.bind_some]
  exact c.read_write a h

theorem roundTrips (c : Codec α) : RoundTrips c.encode c.decode := fun _ h => decode_encode h

theorem foldlM_known (a : α) :
    fields.foldlM c.read a = (fields.filter fun f => decide (f.number ∈ c.numbers)).foldlM c.read a := by
  induction fields generalizing a with
  | nil => rfl
  | cons f rest ih =>
    by_cases hknown : f.number ∈ c.numbers
    · rw [List.filter_cons_of_pos (by simpa using hknown), List.foldlM_cons, List.foldlM_cons]
      exact bind_congr fun b => ih b
    · rw [List.filter_cons_of_neg (by simpa using hknown), List.foldlM_cons, c.read_unknown a f hknown]
      exact ih a

theorem foldlM_unknown (h : ∀ f ∈ fields, f.number ∉ c.numbers) (a : α) : fields.foldlM c.read a = some a := by
  rw [foldlM_known, List.filter_eq_nil_iff.mpr fun f hf => by simpa using h f hf]
  rfl

/-- The bytes are those of a value, with groups and fields of other numbers anywhere among its
own. -/
def Holds (c : Codec α) (a : α) (bytes : List UInt8) : Prop :=
  ∃ fields outside, (∀ f ∈ fields, f.Token) ∧ skipGroups fields [] = some outside ∧
    (outside.filter fun f => decide (f.number ∈ c.numbers)) = c.write a ∧ bytes = writeFields fields

theorem holds_encode (h : (c.encode a).length < 2 ^ 31) : c.Holds a (c.encode a) := by
  refine ⟨c.write a, c.write a, fun f hf => (c.ok a h f hf).token, ?_, ?_, rfl⟩
  · exact skipGroups_fields fun f hf => (c.ok a h f hf).content.not_isMark
  · exact List.filter_eq_self.mpr fun f hf => by simpa using c.known a f hf

theorem length_writeFields_le {some all : List Field} (h : some.Sublist all) :
    (writeFields some).length ≤ (writeFields all).length :=
  (h.flatMap Field.write).length_le

/-- Groups and fields of other numbers make no difference. -/
theorem decode_holds {bytes : List UInt8} (h : c.Holds a bytes) (hlength : bytes.length < 2 ^ 31) :
    c.decode bytes = some a := by
  obtain ⟨fields, outside, htoken, houtside, hwritten, rfl⟩ := h
  have hsublist : (c.write a).Sublist fields := by
    rw [← hwritten]
    exact List.filter_sublist.trans (skipGroups_sublist houtside)
  rw [decode, merge, parse_tokens htoken, houtside, Option.bind_some, foldlM_known, hwritten]
  exact c.read_write a (Nat.lt_of_le_of_lt (length_writeFields_le hsublist) hlength)

end Laws

/-! ### Fields -/

section Field
variable {α : Type} (number : Nat) (kind : Kind α)

def fieldWrite (a : α) : List Field := (kind.contents a).map fun content => ⟨number, content⟩

def fieldRead (a : α) (f : Field) : Option α := if f.number = number then kind.read a f.content else some a

variable {number kind}

theorem length_write_le {c : Content} {f : Field} {fields : List Field} (h : f ∈ fields) (hc : f.content = c) :
    c.write.length ≤ (writeFields fields).length := by
  induction fields with
  | nil => exact absurd h List.not_mem_nil
  | cons g rest ih =>
    rw [writeFields, List.flatMap_cons, List.length_append]
    cases List.mem_cons.mp h with
    | inl heq =>
      rw [← heq, Field.write, List.length_append, hc]
      omega
    | inr hrest =>
      have hle := ih hrest
      rw [writeFields] at hle
      omega

theorem length_contents {a : α} (h : (writeFields (fieldWrite number kind a)).length < 2 ^ 31) :
    ∀ c ∈ kind.contents a, c.write.length < 2 ^ 31 := fun c hc =>
  Nat.lt_of_le_of_lt (length_write_le (List.mem_map.mpr ⟨c, hc, rfl⟩) rfl) h

theorem fieldWrite_ok (hpos : 0 < number) (hlt : number < 2 ^ 29) (a : α)
    (h : (writeFields (fieldWrite number kind a)).length < 2 ^ 31) : ∀ f ∈ fieldWrite number kind a, f.Ok := by
  intro f hf
  obtain ⟨c, hc, rfl⟩ := List.mem_map.mp hf
  exact ⟨hpos, hlt, kind.ok a c hc (length_contents h c hc)⟩

theorem fieldWrite_known (a : α) : ∀ f ∈ fieldWrite number kind a, f.number ∈ [number] := by
  intro f hf
  obtain ⟨c, _, rfl⟩ := List.mem_map.mp hf
  exact List.mem_singleton_self number

theorem foldlM_fieldRead (contents : List Content) (a : α) :
    (contents.map fun content => (⟨number, content⟩ : Field)).foldlM (fieldRead number kind) a =
      contents.foldlM kind.read a := by
  induction contents generalizing a with
  | nil => rfl
  | cons c rest ih =>
    rw [List.map_cons, List.foldlM_cons, List.foldlM_cons, fieldRead, if_pos rfl]
    exact bind_congr fun b => ih b

theorem fieldRead_write (a : α) (h : (writeFields (fieldWrite number kind a)).length < 2 ^ 31) :
    (fieldWrite number kind a).foldlM (fieldRead number kind) kind.default = some a := by
  rw [fieldWrite, foldlM_fieldRead]
  exact kind.read_contents a (length_contents h)

theorem fieldRead_unknown (a : α) (f : Field) (h : f.number ∉ [number]) : fieldRead number kind a f = some a :=
  if_neg fun heq => h (List.mem_singleton.mpr heq)

end Field

/-- A message of one field. -/
def field {α : Type} (number : Nat) (kind : Kind α) (hpos : 0 < number) (hlt : number < 2 ^ 29) : Codec α where
  numbers := [number]
  default := kind.default
  write := fieldWrite number kind
  read := fieldRead number kind
  ok := fieldWrite_ok hpos hlt
  known := fieldWrite_known
  read_write := fieldRead_write
  read_unknown := fieldRead_unknown

/-! ### Composition -/

section Pair
variable {α β : Type} (c : Codec α) (d : Codec β)

def pairWrite (a : α × β) : List Field := c.write a.1 ++ d.write a.2

/-- Each reads what it knows. -/
def pairRead (a : α × β) (f : Field) : Option (α × β) :=
  (c.read a.1 f).bind fun x => (d.read a.2 f).map fun y => (x, y)

variable {c d}

theorem foldlM_pairRead (fields : List Field) (a : α × β) :
    fields.foldlM (pairRead c d) a =
      (fields.foldlM c.read a.1).bind fun x => (fields.foldlM d.read a.2).map fun y => (x, y) := by
  induction fields generalizing a with
  | nil => rfl
  | cons f rest ih =>
    simp only [List.foldlM_cons, pairRead, Option.bind_eq_bind]
    cases hc : c.read a.1 f with
    | none => rfl
    | some x =>
      cases hd : d.read a.2 f with
      | none =>
        simp only [Option.bind_some, Option.map_none, Option.bind_none]
        cases rest.foldlM c.read x <;> rfl
      | some y =>
        simp only [Option.bind_some, Option.map_some]
        exact ih (x, y)

theorem pairWrite_ok (a : α × β) (h : (writeFields (pairWrite c d a)).length < 2 ^ 31) :
    ∀ f ∈ pairWrite c d a, f.Ok := by
  rw [pairWrite, writeFields_append, List.length_append] at h
  intro f hf
  cases List.mem_append.mp hf with
  | inl hf => exact c.ok a.1 (by omega) f hf
  | inr hf => exact d.ok a.2 (by omega) f hf

theorem pairWrite_known (a : α × β) : ∀ f ∈ pairWrite c d a, f.number ∈ c.numbers ++ d.numbers := by
  intro f hf
  cases List.mem_append.mp hf with
  | inl hf => exact List.mem_append_left _ (c.known a.1 f hf)
  | inr hf => exact List.mem_append_right _ (d.known a.2 f hf)

theorem pairRead_write (hdisjoint : ∀ n ∈ c.numbers, n ∉ d.numbers) (a : α × β)
    (h : (writeFields (pairWrite c d a)).length < 2 ^ 31) :
    (pairWrite c d a).foldlM (pairRead c d) (c.default, d.default) = some a := by
  rw [pairWrite, writeFields_append, List.length_append] at h
  have hfirst := c.read_write a.1 (by omega)
  have hsecond := d.read_write a.2 (by omega)
  have hskip : ∀ x, (d.write a.2).foldlM c.read x = some x :=
    foldlM_unknown fun f hf hmem => hdisjoint _ hmem (d.known a.2 f hf)
  have hkeep : ∀ y, (c.write a.1).foldlM d.read y = some y :=
    foldlM_unknown fun f hf hmem => hdisjoint _ (c.known a.1 f hf) hmem
  rw [foldlM_pairRead, pairWrite, List.foldlM_append, List.foldlM_append, hfirst, hkeep]
  simp only [Option.bind_eq_bind, Option.bind_some, hskip, hsecond, Option.map_some]

theorem pairRead_unknown (a : α × β) (f : Field) (h : f.number ∉ c.numbers ++ d.numbers) :
    pairRead c d a f = some a := by
  have hc := c.read_unknown a.1 f fun hmem => h (List.mem_append_left _ hmem)
  have hd := d.read_unknown a.2 f fun hmem => h (List.mem_append_right _ hmem)
  rw [pairRead, hc, hd]
  rfl

end Pair

/-- The fields of one message and those of another, of other numbers. -/
def pair {α β : Type} (c : Codec α) (d : Codec β) (h : ∀ n ∈ c.numbers, n ∉ d.numbers) : Codec (α × β) where
  numbers := c.numbers ++ d.numbers
  default := (c.default, d.default)
  write := pairWrite c d
  read := pairRead c d
  ok := pairWrite_ok
  known := pairWrite_known
  read_write := pairRead_write h
  read_unknown := pairRead_unknown

section Iso
variable {α β : Type} {c : Codec α} {un : β → α} {mk : α → β}

theorem foldlM_iso (left : ∀ b, mk (un b) = b) (right : ∀ a, un (mk a) = a) (fields : List Field) (b : β) :
    fields.foldlM (fun b f => (c.read (un b) f).map mk) b = (fields.foldlM c.read (un b)).map mk := by
  induction fields generalizing b with
  | nil => exact congrArg some (left b).symm
  | cons f rest ih =>
    simp only [List.foldlM_cons, Option.bind_eq_bind]
    cases c.read (un b) f with
    | none => rfl
    | some a =>
      have hrest := ih (mk a)
      rw [right] at hrest
      exact hrest

theorem isoRead_write (left : ∀ b, mk (un b) = b) (right : ∀ a, un (mk a) = a) (b : β)
    (h : (writeFields (c.write (un b))).length < 2 ^ 31) :
    (c.write (un b)).foldlM (fun b f => (c.read (un b) f).map mk) (mk c.default) = some b := by
  rw [foldlM_iso left right, right, c.read_write (un b) h, Option.map_some, left]

theorem isoRead_unknown (left : ∀ b, mk (un b) = b) (b : β) (f : Field) (h : f.number ∉ c.numbers) :
    (c.read (un b) f).map mk = some b := by
  rw [c.read_unknown (un b) f h, Option.map_some, left]

end Iso

/-- The same fields, with names. -/
def iso {α β : Type} (c : Codec α) (un : β → α) (mk : α → β) (left : ∀ b, mk (un b) = b)
    (right : ∀ a, un (mk a) = a) : Codec β where
  numbers := c.numbers
  default := mk c.default
  write b := c.write (un b)
  read b f := (c.read (un b) f).map mk
  ok b := c.ok (un b)
  known b := c.known (un b)
  read_write := isoRead_write left right
  read_unknown := isoRead_unknown left

end Codec

/-! ### Messages in messages -/

section Message
variable {α : Type} (c : Codec α)

def messageContents : Option α → List Content
  | some a => [.bytes (c.encode a)]
  | none => []

def readMessage (old : Option α) : Content → Option (Option α)
  | .bytes b => (c.merge (old.getD c.default) b).map some
  | _ => some old

variable {c}

theorem messageContents_ok (a : Option α) :
    ∀ content ∈ messageContents c a, content.write.length < 2 ^ 31 → content.Ok := by
  intro content hmem hlength
  cases a with
  | none => exact absurd hmem List.not_mem_nil
  | some a =>
    rw [List.mem_singleton.mp hmem] at hlength ⊢
    exact Content.ok_of_bytes hlength

theorem readMessage_contents (a : Option α) (h : ∀ content ∈ messageContents c a, content.write.length < 2 ^ 31) :
    (messageContents c a).foldlM (readMessage c) none = some a := by
  cases a with
  | none => rfl
  | some a =>
    have hread : c.merge c.default (c.encode a) = some a :=
      Codec.decode_encode (Content.ok_of_bytes (h _ (List.mem_singleton_self _)))
    rw [messageContents, List.foldlM_cons, readMessage, Option.getD_none, hread]
    rfl

end Message

/-- A message, which may be missing. One that is there twice is read into one. -/
def Kind.message {α : Type} (c : Codec α) : Kind (Option α) where
  default := none
  contents := messageContents c
  read := readMessage c
  ok := messageContents_ok
  read_contents := readMessage_contents

def Kind.messages {α : Type} (c : Codec α) : Kind (List α) := .repeated c.encode c.decode c.roundTrips

/-! ### Maps -/

/-- A map of strings, in the order in which its keys were put. -/
structure StringMap where
  entries : List (String × String)
  nodup : (entries.map Prod.fst).Nodup

namespace StringMap

theorem nodup_nil : (([] : List (String × String)).map Prod.fst).Nodup := .nil

def empty : StringMap := ⟨[], nodup_nil⟩

def putEntry (entries : List (String × String)) (e : String × String) : List (String × String) :=
  if e.1 ∈ entries.map Prod.fst then entries.map fun other => if other.1 = e.1 then e else other
  else entries ++ [e]

theorem nodup_putEntry {entries : List (String × String)} (h : (entries.map Prod.fst).Nodup) (e : String × String) :
    ((putEntry entries e).map Prod.fst).Nodup := by
  unfold putEntry
  split
  · have hkeys : ∀ other : String × String, (if other.1 = e.1 then e else other).1 = other.1 := by
      intro other
      split
      · rename_i heq
        exact heq.symm
      · rfl
    have hsame : (entries.map fun other => if other.1 = e.1 then e else other).map Prod.fst =
        entries.map Prod.fst := by
      rw [List.map_map]
      exact List.map_congr_left fun other _ => hkeys other
    rw [hsame]
    exact h
  · rename_i hnew
    rw [List.map_append, List.map_singleton]
    exact List.nodup_append.mpr ⟨h, List.pairwise_singleton _ _, fun a ha b hb heq =>
      hnew (List.mem_singleton.mp hb ▸ heq ▸ ha)⟩

/-- An entry takes the place of one with its key. -/
def put (m : StringMap) (e : String × String) : StringMap := ⟨putEntry m.entries e, nodup_putEntry m.nodup e⟩

end StringMap

theorem key_lt : 1 < 2 ^ 29 := by decide

theorem value_lt : 2 < 2 ^ 29 := by decide

theorem key_ne_value : ∀ n ∈ (Codec.field 1 .entryString Nat.one_pos key_lt).numbers,
    n ∉ (Codec.field 2 .entryString Nat.two_pos value_lt).numbers := by decide

/-- An entry of a map. -/
def Codec.entry : Codec (String × String) :=
  .pair (.field 1 .entryString Nat.one_pos key_lt) (.field 2 .entryString Nat.two_pos value_lt) key_ne_value

def readEntry (old : StringMap) : Content → Option StringMap
  | .bytes b => (Codec.entry.decode b).map old.put
  | _ => some old

theorem readEntry_contents_from (old m : List (String × String)) (hold : (old.map Prod.fst).Nodup)
    (hm : ((old ++ m).map Prod.fst).Nodup)
    (h : ∀ c ∈ m.map (fun e => Content.bytes (Codec.entry.encode e)), c.write.length < 2 ^ 31) :
    (m.map fun e => Content.bytes (Codec.entry.encode e)).foldlM readEntry ⟨old, hold⟩ = some ⟨old ++ m, hm⟩ := by
  induction m generalizing old with
  | nil => simp
  | cons e rest ih =>
    have hread := Codec.decode_encode (Content.ok_of_bytes (h _ List.mem_cons_self))
    have hnew : e.1 ∉ old.map Prod.fst := fun hmem => by
      rw [List.map_append, List.map_cons, List.nodup_append] at hm
      exact hm.2.2 _ hmem _ List.mem_cons_self rfl
    have hput : StringMap.putEntry old e = old ++ [e] := if_neg hnew
    have hnext : ((old ++ [e]).map Prod.fst).Nodup := hput ▸ StringMap.nodup_putEntry hold e
    have hall : ((old ++ [e] ++ rest).map Prod.fst).Nodup := by simpa using hm
    have hrest := ih (old ++ [e]) hnext hall fun c hc => h c (List.mem_cons_of_mem _ hc)
    have hstep : StringMap.put ⟨old, hold⟩ e = ⟨old ++ [e], hnext⟩ := by simp only [StringMap.put, hput]
    rw [List.map_cons, List.foldlM_cons, readEntry, hread, Option.map_some, hstep]
    simpa using hrest

theorem readEntry_contents (m : StringMap)
    (h : ∀ c ∈ m.entries.map (fun e => Content.bytes (Codec.entry.encode e)), c.write.length < 2 ^ 31) :
    (m.entries.map fun e => Content.bytes (Codec.entry.encode e)).foldlM readEntry .empty = some m :=
  readEntry_contents_from [] m.entries StringMap.nodup_nil m.nodup h

/-- `map<string, string>`. -/
def Kind.map : Kind StringMap where
  default := .empty
  contents m := m.entries.map fun e => .bytes (Codec.entry.encode e)
  read := readEntry
  ok m := itemContents_ok m.entries
  read_contents := readEntry_contents

end Protobuf
