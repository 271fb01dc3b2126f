import FactCast.Core.Spec
import FactCast.Wire.DataStream

/-! Snapshots as the bytes of a cache entry.

An entry begins with two magic bytes, by which an array of another format is told and
taken for no snapshot at all. The identifier of the last fact follows, the serializer's
name, and the serialized projection behind its length.

Every snapshot whose serializer has a name short enough is read as it was written. But
an array that begins with the magic bytes is read to the end, and one too short for
them is not even looked at: what ends too early is not taken for a missing snapshot, it
is an exception. And a name that is not written in the shortest form is read, so that
the snapshot is not the one that was written there (`codec_iff`). -/
namespace FactCast.SnapshotDataCodec
open DataStream

structure SnapshotData where
  serializedProjection : List UInt8
  snapshotSerializerId : List UInt16
  lastFactId : UUID
  /-- The projection is an array. -/
  length_lt : serializedProjection.length < 2 ^ 31
deriving DecidableEq

inductive Throwable where
  /-- The array ends, or a name is malformed. -/
  | illegalState
  | negativeArraySize
deriving DecidableEq

def magicBytes : Nat := 0x09af

def getMostSignificantBits (id : UUID) : BitVec 64 := id.bits.extractLsb' 64 64

def getLeastSignificantBits (id : UUID) : BitVec 64 := id.bits.extractLsb' 0 64

def writeLong (n : BitVec 64) : List UInt8 := writeNumber 8 n.toNat

/-- Nothing if the name is too long to be written. -/
def toBytes (sd : SnapshotData) : Option (List UInt8) :=
  (writeUTF sd.snapshotSerializerId).map fun name =>
    writeNumber 2 magicBytes ++ (writeLong (getMostSignificantBits sd.lastFactId) ++
      (writeLong (getLeastSignificantBits sd.lastFactId) ++ (name ++
        (writeNumber 4 sd.serializedProjection.length ++ sd.serializedProjection))))

/-- Every exception of the stream is turned into one that is not checked. -/
def orThrow {α : Type} : Option α → Except Throwable α
  | some a => .ok a
  | none => .error .illegalState

def readLong (is : List UInt8) : Option (BitVec 64 × List UInt8) :=
  (readFully 8 is).map fun (bytes, is) => (BitVec.ofNat 64 (number bytes), is)

/-- The length is signed. One that no memory has room for is an error as well. -/
def readArray (length : Nat) (is : List UInt8) : Except Throwable { bytes : List UInt8 // bytes.length < 2 ^ 31 } :=
  if h : length < 2 ^ 31 then
    match hread : readFully length is with
    | some (bytes, _) => .ok ⟨bytes, by rwa [(readFully_eq_some.mp hread).2]⟩
    | none => .error .illegalState
  else .error .negativeArraySize

/-- What follows the magic bytes. -/
def Protocol.from (is : List UInt8) : Except Throwable (Option SnapshotData) := do
  let (most, is) ← orThrow (readLong is)
  let (least, is) ← orThrow (readLong is)
  let (serId, is) ← orThrow (readUTF is)
  let (length, is) ← orThrow (readFully 4 is)
  let bytes ← readArray (number length) is
  return some ⟨bytes.1, serId, ⟨most ++ least⟩, bytes.2⟩

def «from» (source : List UInt8) : Except Throwable (Option SnapshotData) := do
  let (magic, is) ← orThrow (readFully 2 source)
  if number magic = magicBytes then Protocol.from is else return none

/-! ### What is expected -/

/-- The snapshot that is found in an array, if there is one, is what the array begins with. -/
def Decodes (source : List UInt8) : Prop :=
  ∃ found, «from» source = .ok found ∧
    ∀ sd, found = some sd → ∃ bytes, toBytes sd = some bytes ∧ bytes <+: source

/-- An array of another format, not shorter than the magic bytes. -/
def foreign (source : List UInt8) : Bool :=
  decide (2 ≤ source.length) && decide (number (source.take 2) ≠ magicBytes)

/-- The magic bytes, an identifier, a name in the shortest form, and all of the projection. -/
def whole (source : List UInt8) : Bool :=
  let utflen := number ((source.drop 18).take 2)
  let length := number ((source.drop (20 + utflen)).take 4)
  decide (24 + utflen + length ≤ source.length) && decide (number (source.take 2) = magicBytes) &&
    shortest ((source.drop 20).take utflen) && decide (length < 2 ^ 31)

section Proofs
variable {sd : SnapshotData} {source is rest : List UInt8} {most least n : BitVec 64} {length : Nat}

/-! ### The fields -/

theorem readLong_writeLong : readLong (writeLong n ++ rest) = some (n, rest) := by
  unfold readLong writeLong
  rw [readFully_writeNumber, Option.map_some]
  dsimp only
  rw [number_writeNumber n.isLt, BitVec.ofNat_toNat, BitVec.setWidth_eq]

theorem exists_long (bytes : List UInt8) (h : bytes.length = 8) : ∃ n, bytes = writeLong n := by
  have hlt := @number_lt bytes
  have hback := @writeNumber_number bytes
  rw [h] at hlt hback
  have hnumber : (BitVec.ofNat 64 (number bytes)).toNat = number bytes := Nat.mod_eq_of_lt hlt
  exact ⟨BitVec.ofNat 64 (number bytes), by rw [writeLong, hnumber, hback]⟩

theorem readLong_eq_some : readLong is = some (n, rest) ↔ is = writeLong n ++ rest := by
  constructor
  · intro h
    obtain ⟨⟨bytes, is'⟩, hread, -⟩ := Option.map_eq_some_iff.mp h
    obtain ⟨rfl, height⟩ := readFully_eq_some.mp hread
    obtain ⟨m, rfl⟩ := exists_long bytes height
    rw [readLong_writeLong] at h
    cases h
    rfl
  · rintro rfl
    exact readLong_writeLong

theorem readArray_eq_ok {array : { bytes : List UInt8 // bytes.length < 2 ^ 31 }} :
    readArray length is = .ok array ↔ array.1.length = length ∧ ∃ rest, is = array.1 ++ rest := by
  unfold readArray
  split
  · split
    · rename_i bytes rest hread
      obtain ⟨rfl, rfl⟩ := readFully_eq_some.mp hread
      constructor
      · intro h
        cases h
        exact ⟨rfl, rest, rfl⟩
      · rintro ⟨hlength, rest', heq⟩
        congr 1
        exact Subtype.ext (List.append_inj heq hlength.symm).1
    · rename_i hread
      have hshort := readFully_eq_none.mp hread
      constructor
      · intro h
        cases h
      · rintro ⟨rfl, rest, rfl⟩
        rw [List.length_append] at hshort
        omega
  · rename_i hnegative
    constructor
    · intro h
      cases h
    · rintro ⟨rfl, -⟩
      exact absurd array.2 hnegative

theorem bits_append (id : UUID) : getMostSignificantBits id ++ getLeastSignificantBits id = id.bits :=
  BitVec.extractLsb'_append_extractLsb'

theorem getMostSignificantBits_append : getMostSignificantBits ⟨most ++ least⟩ = most :=
  BitVec.extractLsb'_append_eq_left

theorem getLeastSignificantBits_append : getLeastSignificantBits ⟨most ++ least⟩ = least :=
  BitVec.extractLsb'_append_eq_right

/-! ### An entry -/

/-- The bytes of a snapshot, those of the name being given. -/
def entry (sd : SnapshotData) (utf : List UInt8) : List UInt8 :=
  writeNumber 2 magicBytes ++ (writeLong (getMostSignificantBits sd.lastFactId) ++
    (writeLong (getLeastSignificantBits sd.lastFactId) ++ (writeNumber 2 utf.length ++ (utf ++
      (writeNumber 4 sd.serializedProjection.length ++ sd.serializedProjection)))))

theorem toBytes_eq : toBytes sd =
    if (encode sd.snapshotSerializerId).length < 0x10000 then some (entry sd (encode sd.snapshotSerializerId))
    else none := by
  unfold toBytes writeUTF
  split
  · simp only [Option.map_some, entry, List.append_assoc]
  · rfl

theorem bind_orThrow {α β : Type} {o : Option α} {f : α → Except Throwable β} {b : β} :
    (orThrow o >>= f) = .ok b ↔ ∃ a, o = some a ∧ f a = .ok b := by
  cases o with
  | none =>
    constructor
    · intro h
      cases h
    · rintro ⟨a, h, -⟩
      cases h
  | some a => exact ⟨fun h => ⟨a, rfl, h⟩, fun ⟨a', ha, h⟩ => Option.some.inj ha ▸ h⟩

theorem protocol_from : Protocol.from is = .ok (some sd) ↔ ∃ utf rest,
    is = writeLong (getMostSignificantBits sd.lastFactId) ++ (writeLong (getLeastSignificantBits sd.lastFactId) ++
      (writeNumber 2 utf.length ++ (utf ++ (writeNumber 4 sd.serializedProjection.length ++
        (sd.serializedProjection ++ rest))))) ∧
      utf.length < 0x10000 ∧ decode utf = some sd.snapshotSerializerId := by
  constructor
  · intro h
    obtain ⟨⟨most, is₁⟩, hmost, h⟩ := bind_orThrow.mp h
    obtain ⟨⟨least, is₂⟩, hleast, h⟩ := bind_orThrow.mp h
    obtain ⟨⟨serId, is₃⟩, hserId, h⟩ := bind_orThrow.mp h
    obtain ⟨⟨length, is₄⟩, hlength, h⟩ := bind_orThrow.mp h
    dsimp only at h
    cases harray : readArray (number length) is₄ with
    | error e =>
      rw [harray] at h
      cases h
    | ok array =>
      rw [harray] at h
      cases h
      obtain ⟨hcount, rest, rfl⟩ := readArray_eq_ok.mp harray
      obtain ⟨rfl, hfour⟩ := readFully_eq_some.mp hlength
      obtain ⟨utf, rfl, hutf, hdecode⟩ := readUTF_eq_some.mp hserId
      rw [readLong_eq_some] at hmost hleast
      rw [hmost, hleast]
      have hback := @writeNumber_number length
      rw [hfour] at hback
      refine ⟨utf, rest, ?_, hutf, hdecode⟩
      rw [getMostSignificantBits_append, getLeastSignificantBits_append, hcount, hback]
  · rintro ⟨utf, rest, rfl, hutf, hdecode⟩
    have hsmall : sd.serializedProjection.length < 256 ^ 4 := lt_trans sd.length_lt (by decide)
    have harray : readArray sd.serializedProjection.length (sd.serializedProjection ++ rest) =
        .ok ⟨sd.serializedProjection, sd.length_lt⟩ := readArray_eq_ok.mpr ⟨rfl, rest, rfl⟩
    refine bind_orThrow.mpr ⟨_, readLong_writeLong, bind_orThrow.mpr ⟨_, readLong_writeLong, ?_⟩⟩
    refine bind_orThrow.mpr ⟨_, readUTF_eq_some.mpr ⟨utf, rfl, hutf, hdecode⟩, ?_⟩
    refine bind_orThrow.mpr ⟨_, readFully_writeNumber, ?_⟩
    dsimp only
    rw [number_writeNumber hsmall, harray]
    show Except.ok (some (SnapshotData.mk _ _ ⟨_ ++ _⟩ _)) = _
    rw [bits_append]

/-- What is read is an entry, its name written in whatever way. -/
theorem from_some : «from» source = .ok (some sd) ↔ ∃ utf rest, source = entry sd utf ++ rest ∧
    utf.length < 0x10000 ∧ decode utf = some sd.snapshotSerializerId := by
  unfold «from»
  rw [bind_orThrow]
  constructor
  · rintro ⟨⟨magic, is⟩, hmagic, h⟩
    obtain ⟨rfl, htwo⟩ := readFully_eq_some.mp hmagic
    dsimp only at h
    split at h
    · rename_i heq
      obtain ⟨utf, rest, rfl, hname⟩ := protocol_from.mp h
      have hback := @writeNumber_number magic
      rw [htwo, heq] at hback
      refine ⟨utf, rest, ?_, hname⟩
      simp only [entry, hback, List.append_assoc]
    · cases h
  · rintro ⟨utf, rest, rfl, hname⟩
    simp only [entry, List.append_assoc]
    refine ⟨_, readFully_writeNumber, ?_⟩
    dsimp only
    rw [if_pos (number_writeNumber (by decide))]
    exact protocol_from.mpr ⟨utf, rest, rfl, hname⟩

/-- A snapshot is not read from less than its fields take. -/
theorem length_of_from (h : «from» source = .ok (some sd)) :
    24 + sd.serializedProjection.length ≤ source.length := by
  obtain ⟨utf, rest, rfl, -⟩ := from_some.mp h
  simp only [entry, List.length_append, writeLong, length_writeNumber]
  omega

theorem protocol_from_ne : Protocol.from is ≠ .ok none := by
  intro h
  obtain ⟨_, -, h⟩ := bind_orThrow.mp h
  obtain ⟨_, -, h⟩ := bind_orThrow.mp h
  obtain ⟨_, -, h⟩ := bind_orThrow.mp h
  obtain ⟨⟨length, is'⟩, -, h⟩ := bind_orThrow.mp h
  dsimp only at h
  cases harray : readArray (number length) is' with
  | error e =>
    rw [harray] at h
    cases h
  | ok array =>
    rw [harray] at h
    cases h

theorem from_none : «from» source = .ok none ↔ foreign source = true := by
  unfold «from» foreign
  rw [bind_orThrow, Bool.and_eq_true, decide_eq_true_iff, decide_eq_true_iff]
  constructor
  · rintro ⟨⟨magic, is⟩, hmagic, h⟩
    obtain ⟨rfl, htwo⟩ := readFully_eq_some.mp hmagic
    dsimp only at h
    split at h
    · exact absurd h protocol_from_ne
    · refine ⟨by rw [List.length_append]; omega, ?_⟩
      rwa [← htwo, List.take_left]
  · rintro ⟨hlong, hother⟩
    refine ⟨(source.take 2, source.drop 2), if_pos hlong, ?_⟩
    dsimp only
    rw [if_neg hother]
    rfl

/-- Of two names, one is in front of what the other is in front of only if they are the same. -/
theorem name_of_prefix {utf utf' : List UInt8} (hutf : utf.length < 0x10000) (hutf' : utf'.length < 0x10000)
    (h : entry sd utf' <+: entry sd utf ++ rest) : utf' = utf := by
  obtain ⟨rest', h⟩ := h
  simp only [entry, List.append_assoc, List.append_cancel_left_eq] at h
  obtain ⟨hlength, h⟩ := List.append_inj h (by rw [length_writeNumber, length_writeNumber])
  have hsame : utf'.length = utf.length := by
    have hnumber := congrArg number hlength
    rwa [number_writeNumber hutf', number_writeNumber hutf] at hnumber
  exact (List.append_inj h hsame).1

theorem length_header {id : UUID} : (writeNumber 2 magicBytes ++ (writeLong (getMostSignificantBits id) ++
    writeLong (getLeastSignificantBits id))).length = 18 := by
  simp only [List.length_append, writeLong, length_writeNumber]

/-- What is looked at, field by field. -/
theorem whole_fields {header utflen utf length : List UInt8} (hheader : header.length = 18)
    (htwo : utflen.length = 2) (hutf : utf.length = number utflen) (hfour : length.length = 4) :
    whole (header ++ (utflen ++ (utf ++ (length ++ rest)))) = true ↔ number length ≤ rest.length ∧
      number (header.take 2) = magicBytes ∧ shortest utf = true ∧ number length < 2 ^ 31 := by
  have hmagic : (header ++ (utflen ++ (utf ++ (length ++ rest)))).take 2 = header.take 2 :=
    List.take_append_of_le_length (by omega)
  have hname : (header ++ (utflen ++ (utf ++ (length ++ rest)))).drop 18 =
      utflen ++ (utf ++ (length ++ rest)) := List.drop_left' hheader
  have hafter : (header ++ (utflen ++ (utf ++ (length ++ rest)))).drop 20 = utf ++ (length ++ rest) := by
    rw [← List.append_assoc header]
    exact List.drop_left' (by rw [List.length_append]; omega)
  have harray : (header ++ (utflen ++ (utf ++ (length ++ rest)))).drop (20 + number utflen) =
      length ++ rest := by
    rw [← List.drop_drop, hafter]
    exact List.drop_left' hutf
  unfold whole
  dsimp only
  rw [hmagic, hname, hafter, List.take_left' htwo, harray, List.take_left' hfour, List.take_left' hutf]
  simp only [Bool.and_eq_true, decide_eq_true_iff, List.length_append]
  constructor
  · rintro ⟨⟨⟨hlong, hmagic⟩, hshortest⟩, hsmall⟩
    exact ⟨by omega, hmagic, hshortest, hsmall⟩
  · rintro ⟨hlong, hmagic, hshortest, hsmall⟩
    exact ⟨⟨⟨by omega, hmagic⟩, hshortest⟩, hsmall⟩

theorem exists_split (source : List UInt8) {k : Nat} (h : k ≤ source.length) :
    ∃ front rest, source = front ++ rest ∧ front.length = k :=
  ⟨source.take k, source.drop k, (List.take_append_drop k source).symm, List.length_take_of_le h⟩

/-- Such an array begins with the entry of a snapshot. -/
theorem whole_iff : whole source = true ↔ ∃ sd rest, source = entry sd (encode sd.snapshotSerializerId) ++ rest ∧
    (encode sd.snapshotSerializerId).length < 0x10000 := by
  constructor
  · intro h
    have hlong : 24 + number ((source.drop 18).take 2) ≤ source.length := by
      simp only [whole, Bool.and_eq_true, decide_eq_true_iff] at h
      omega
    obtain ⟨header, fields, rfl, hheader⟩ := exists_split source (k := 18) (by omega)
    rw [List.drop_left' hheader, List.length_append] at hlong
    obtain ⟨utflen, fields, rfl, htwo⟩ := exists_split fields (k := 2) (by omega)
    rw [List.take_left' htwo, List.length_append] at hlong
    obtain ⟨utf, fields, rfl, hutf⟩ := exists_split fields (k := number utflen) (by omega)
    rw [List.length_append] at hlong
    obtain ⟨length, array, rfl, hfour⟩ := exists_split fields (k := 4) (by omega)
    obtain ⟨harray, hmagic, hshortest, hsmall⟩ := (whole_fields hheader htwo hutf hfour).mp h
    obtain ⟨projection, rest, rfl, hprojection⟩ := exists_split array harray
    obtain ⟨magic, ids, rfl, hmagictwo⟩ := exists_split header (k := 2) (by omega)
    rw [List.length_append] at hheader
    obtain ⟨mostBytes, leastBytes, rfl, hmost⟩ := exists_split ids (k := 8) (by omega)
    rw [List.length_append] at hheader
    obtain ⟨most, rfl⟩ := exists_long mostBytes hmost
    obtain ⟨least, rfl⟩ := exists_long leastBytes (by omega)
    obtain ⟨name, rfl⟩ := shortest_iff.mp hshortest
    rw [List.take_left' hmagictwo] at hmagic
    have hmagicBytes := @writeNumber_number magic
    rw [hmagictwo, hmagic] at hmagicBytes
    have hutflen := @writeNumber_number utflen
    rw [htwo, ← hutf] at hutflen
    have hlength := @writeNumber_number length
    rw [hfour, ← hprojection] at hlength
    have hname := @number_lt utflen
    rw [htwo, ← hutf] at hname
    refine ⟨⟨projection, name, ⟨most ++ least⟩, hprojection ▸ hsmall⟩, rest, ?_, hname⟩
    simp only [entry, getMostSignificantBits_append, getLeastSignificantBits_append, hmagicBytes, hutflen,
      hlength, List.append_assoc]
  · rintro ⟨sd, rest, rfl, hname⟩
    have hsmall : sd.serializedProjection.length < 256 ^ 4 := lt_trans sd.length_lt (by decide)
    have hshape : entry sd (encode sd.snapshotSerializerId) ++ rest =
        (writeNumber 2 magicBytes ++ (writeLong (getMostSignificantBits sd.lastFactId) ++
          writeLong (getLeastSignificantBits sd.lastFactId))) ++
        (writeNumber 2 (encode sd.snapshotSerializerId).length ++ (encode sd.snapshotSerializerId ++
          (writeNumber 4 sd.serializedProjection.length ++ (sd.serializedProjection ++ rest)))) := by
      simp only [entry, List.append_assoc]
    rw [hshape, whole_fields length_header length_writeNumber (number_writeNumber hname).symm length_writeNumber,
      number_writeNumber hsmall, List.take_left' length_writeNumber, List.length_append]
    exact ⟨by omega, number_writeNumber (by decide), shortest_encode, sd.length_lt⟩

end Proofs

/-- Every snapshot is read from its entry, if its serializer's name is short enough to be
written. And an array is read as it should just if it is of another format, or whole. -/
theorem codec_iff (sd : SnapshotData) (source : List UInt8) :
    ((∃ bytes, toBytes sd = some bytes ∧ «from» bytes = .ok (some sd)) ↔
      (encode sd.snapshotSerializerId).length < 0x10000) ∧
    (Decodes source ↔ foreign source = true ∨ whole source = true) := by
  constructor
  · rw [toBytes_eq]
    constructor
    · rintro ⟨bytes, hbytes, -⟩
      split at hbytes
      · assumption
      · cases hbytes
    · intro hname
      refine ⟨_, if_pos hname, from_some.mpr ⟨_, [], ?_, hname, decode_encode⟩⟩
      rw [List.append_nil]
  · constructor
    · rintro ⟨found, hfound, hprefix⟩
      cases found with
      | none => exact .inl (from_none.mp hfound)
      | some sd =>
        obtain ⟨utf, rest, rfl, hutf, -⟩ := from_some.mp hfound
        obtain ⟨bytes, hbytes, hprefix⟩ := hprefix sd rfl
        rw [toBytes_eq] at hbytes
        split at hbytes
        · rename_i hname
          cases hbytes
          obtain rfl := name_of_prefix hutf hname hprefix
          exact .inr (whole_iff.mpr ⟨sd, rest, rfl, hname⟩)
        · cases hbytes
    · rintro (hforeign | hwhole)
      · exact ⟨none, from_none.mpr hforeign, fun sd h => by cases h⟩
      · obtain ⟨sd, rest, rfl, hname⟩ := whole_iff.mp hwhole
        refine ⟨some sd, from_some.mpr ⟨_, rest, rfl, hname, decode_encode⟩, fun sd' h => ?_⟩
        cases h
        exact ⟨_, by rw [toBytes_eq, if_pos hname], List.prefix_append _ _⟩

/-- An entry that ends within the identifier. -/
theorem truncated_entry_thrown :
    ¬ ((∀ sd, (encode sd.snapshotSerializerId).length < 0x10000 →
        ∃ bytes, toBytes sd = some bytes ∧ «from» bytes = .ok (some sd)) ∧
      ∀ source, Decodes source) := by
  rintro ⟨-, hall⟩
  obtain ⟨found, hfound, -⟩ := hall [0x09, 0xaf, 0x00]
  cases found with
  | none =>
    have hforeign := from_none.mp hfound
    revert hforeign
    decide
  | some sd =>
    have hlong := length_of_from hfound
    simp only [List.length_cons, List.length_nil] at hlong
    omega

end FactCast.SnapshotDataCodec
