import Mathlib.Algebra.GroupWithZero.Nat
import Mathlib.Data.List.Basic

/-! Numbers and strings in a stream of bytes.

A number is written with its most significant byte first. A string is a list of UTF-16
units. Each unit takes one to three bytes, zero takes two, and in front of them stands
how many bytes there are, in two bytes: a string that needs more cannot be written.

A reader takes more than is written: zero as one byte, and units in more bytes than
they need. What it reads from is what it would write just where each unit is in its
`shortest` form (`shortest_iff`). -/
namespace DataStream

/-! ### Numbers -/

/-- The last bytes of a number, so many. -/
def writeNumber : Nat → Nat → List UInt8
  | 0, _ => []
  | width + 1, n => UInt8.ofNat (n / 256 ^ width) :: writeNumber width n

def number : List UInt8 → Nat
  | [] => 0
  | b :: rest => b.toNat * 256 ^ rest.length + number rest

/-- So many bytes, and the bytes after them. Nothing if the stream ends before. -/
def readFully (n : Nat) (source : List UInt8) : Option (List UInt8 × List UInt8) :=
  if n ≤ source.length then some (source.take n, source.drop n) else none

section Numbers
variable {width n m : Nat} {bytes front source rest : List UInt8}

@[simp] theorem length_writeNumber : (writeNumber width n).length = width := by
  induction width with
  | zero => rfl
  | succ width ih => rw [writeNumber, List.length_cons, ih]

theorem number_lt : number bytes < 256 ^ bytes.length := by
  induction bytes with
  | nil => exact Nat.one_pos
  | cons b rest ih =>
    have hb : b.toNat + 1 ≤ 256 := b.toNat_lt
    have hfront : (b.toNat + 1) * 256 ^ rest.length ≤ 256 * 256 ^ rest.length := Nat.mul_le_mul_right _ hb
    rw [number, List.length_cons, Nat.pow_succ, Nat.mul_comm (256 ^ rest.length)]
    rw [Nat.succ_mul] at hfront
    omega

/-- What is too big for the bytes does not show. -/
theorem writeNumber_add : writeNumber width (m * 256 ^ width + n) = writeNumber width n := by
  induction width generalizing m with
  | zero => rfl
  | succ width ih =>
    have hpow : m * 256 ^ (width + 1) + n = m * 256 * 256 ^ width + n := by
      rw [Nat.pow_succ, Nat.mul_comm (256 ^ width), Nat.mul_assoc]
    have hdiv : (m * 256 * 256 ^ width + n) / 256 ^ width = m * 256 + n / 256 ^ width := by
      rw [Nat.add_comm, Nat.add_mul_div_right _ _ (Nat.pow_pos (by decide)), Nat.add_comm]
    rw [writeNumber, writeNumber, hpow, ih, hdiv]
    congr 1
    apply UInt8.toNat_inj.mp
    simp only [UInt8.toNat_ofNat']
    omega

theorem writeNumber_number : writeNumber bytes.length (number bytes) = bytes := by
  induction bytes with
  | nil => rfl
  | cons b rest ih =>
    have hdiv : (b.toNat * 256 ^ rest.length + number rest) / 256 ^ rest.length = b.toNat := by
      rw [Nat.add_comm, Nat.add_mul_div_right _ _ (Nat.pow_pos (by decide)), Nat.div_eq_of_lt number_lt,
        Nat.zero_add]
    rw [List.length_cons, number, writeNumber, hdiv, writeNumber_add, ih, UInt8.ofNat_toNat]

theorem number_writeNumber (h : n < 256 ^ width) : number (writeNumber width n) = n := by
  induction width generalizing n with
  | zero =>
    have : n = 0 := by simpa using h
    exact this.symm
  | succ width ih =>
    have hpos : 0 < 256 ^ width := Nat.pow_pos (by decide)
    have hdigit : n / 256 ^ width < 256 := by
      rw [Nat.pow_succ] at h
      exact Nat.div_lt_of_lt_mul h
    have hsplit := Nat.div_add_mod' n (256 ^ width)
    have hrest : writeNumber width n = writeNumber width (n % 256 ^ width) := by
      conv_lhs => rw [← hsplit]
      exact writeNumber_add
    rw [writeNumber, number, length_writeNumber, hrest, ih (Nat.mod_lt _ hpos), UInt8.toNat_ofNat_of_lt' hdigit,
      hsplit]

theorem readFully_append : readFully front.length (front ++ rest) = some (front, rest) := by
  rw [readFully, if_pos (by simp), List.take_left, List.drop_left]

theorem readFully_eq_some : readFully n source = some (front, rest) ↔
    source = front ++ rest ∧ front.length = n := by
  constructor
  · intro h
    unfold readFully at h
    split at h
    · cases h
      exact ⟨(List.take_append_drop n source).symm, List.length_take_of_le ‹_›⟩
    · cases h
  · rintro ⟨rfl, rfl⟩
    exact readFully_append

theorem readFully_eq_none : readFully n source = none ↔ source.length < n := by
  unfold readFully
  split
  · simpa using ‹n ≤ source.length›
  · simpa using ‹¬ n ≤ source.length›

/-- A number that was written is read. -/
theorem readFully_writeNumber : readFully width (writeNumber width n ++ rest) =
    some (writeNumber width n, rest) := by
  rw [readFully_eq_some]
  exact ⟨rfl, length_writeNumber⟩

end Numbers

/-! ### Strings -/

/-- A unit in one to three bytes, zero in two. -/
def encodeUnit (c : UInt16) : List UInt8 :=
  let n := c.toNat
  if n ≠ 0 ∧ n < 0x80 then [UInt8.ofNat n]
  else if n < 0x800 then [UInt8.ofNat (0xC0 + n / 64), UInt8.ofNat (0x80 + n % 64)]
  else [UInt8.ofNat (0xE0 + n / 4096), UInt8.ofNat (0x80 + n / 64 % 64), UInt8.ofNat (0x80 + n % 64)]

def encode (s : List UInt16) : List UInt8 := s.flatMap encodeUnit

/-- A byte that is not the first one of a unit. -/
def isTail (b : UInt8) : Bool := b.toNat / 64 == 2

/-- Nothing if a unit is cut off, or its bytes are not of the right form. -/
def decode : List UInt8 → Option (List UInt16)
  | [] => some []
  | a :: rest =>
    if a.toNat < 0x80 then (decode rest).map (UInt16.ofNat a.toNat :: ·)
    else if a.toNat / 32 = 6 then
      match rest with
      | b :: rest =>
        if isTail b then (decode rest).map (UInt16.ofNat (a.toNat % 32 * 64 + b.toNat % 64) :: ·) else none
      | [] => none
    else if a.toNat / 16 = 14 then
      match rest with
      | b :: c :: rest =>
        if isTail b && isTail c then
          (decode rest).map (UInt16.ofNat (a.toNat % 16 * 4096 + b.toNat % 64 * 64 + c.toNat % 64) :: ·)
        else none
      | _ => none
    else none

def writeUTF (s : List UInt16) : Option (List UInt8) :=
  if (encode s).length < 0x10000 then some (writeNumber 2 (encode s).length ++ encode s) else none

def readUTF (source : List UInt8) : Option (List UInt16 × List UInt8) := do
  let (utflen, source) ← readFully 2 source
  let (utf, source) ← readFully (number utflen) source
  return (← decode utf, source)

/-- No unit takes more bytes than it needs, and zero takes two. -/
def shortest : List UInt8 → Bool
  | [] => true
  | a :: rest =>
    if a.toNat < 0x80 then a != 0 && shortest rest
    else if a.toNat / 32 = 6 then
      match rest with
      | b :: rest => isTail b && (decide (0xC2 ≤ a.toNat) || a == 0xC0 && b == 0x80) && shortest rest
      | [] => false
    else if a.toNat / 16 = 14 then
      match rest with
      | b :: c :: rest =>
        isTail b && isTail c && (decide (0xE1 ≤ a.toNat) || decide (0xA0 ≤ b.toNat)) && shortest rest
      | _ => false
    else false

section Strings
variable {c : UInt16} {s : List UInt16} {a b d : UInt8} {bytes rest source : List UInt8}

theorem toNat_ofNat {n : Nat} (h : n < 256) : (UInt8.ofNat n).toNat = n := UInt8.toNat_ofNat_of_lt' h

theorem toNat_ofNat_unit {n : Nat} (h : n < 65536) : (UInt16.ofNat n).toNat = n :=
  UInt16.toNat_ofNat_of_lt' h

theorem decode_one (h : a.toNat < 0x80) :
    decode (a :: rest) = (decode rest).map (UInt16.ofNat a.toNat :: ·) := by
  rw [decode.eq_def]
  exact if_pos h

theorem decode_two (h : a.toNat / 32 = 6) : decode (a :: b :: rest) =
    if isTail b then (decode rest).map (UInt16.ofNat (a.toNat % 32 * 64 + b.toNat % 64) :: ·) else none := by
  rw [decode.eq_def]
  exact (if_neg (by omega)).trans (if_pos h)

theorem decode_three (h : a.toNat / 16 = 14) : decode (a :: b :: d :: rest) =
    if isTail b && isTail d then
      (decode rest).map (UInt16.ofNat (a.toNat % 16 * 4096 + b.toNat % 64 * 64 + d.toNat % 64) :: ·)
    else none := by
  rw [decode.eq_def]
  exact (if_neg (by omega)).trans ((if_neg (by omega)).trans (if_pos h))

theorem shortest_one (h : a.toNat < 0x80) : shortest (a :: rest) = (a != 0 && shortest rest) := by
  rw [shortest.eq_def]
  exact if_pos h

theorem shortest_two (h : a.toNat / 32 = 6) : shortest (a :: b :: rest) =
    (isTail b && (decide (0xC2 ≤ a.toNat) || a == 0xC0 && b == 0x80) && shortest rest) := by
  rw [shortest.eq_def]
  exact (if_neg (by omega)).trans (if_pos h)

theorem shortest_three (h : a.toNat / 16 = 14) : shortest (a :: b :: d :: rest) =
    (isTail b && isTail d && (decide (0xE1 ≤ a.toNat) || decide (0xA0 ≤ b.toNat)) && shortest rest) := by
  rw [shortest.eq_def]
  exact (if_neg (by omega)).trans ((if_neg (by omega)).trans (if_pos h))

@[simp] theorem encode_nil : encode [] = [] := rfl

@[simp] theorem encode_cons : encode (c :: s) = encodeUnit c ++ encode s := rfl

theorem length_encodeUnit_pos : 0 < (encodeUnit c).length := by
  unfold encodeUnit
  dsimp only
  split
  · exact Nat.one_pos
  split
  · exact Nat.two_pos
  · exact Nat.succ_pos _

/-- Every unit takes a byte at least. -/
theorem length_le_encode : s.length ≤ (encode s).length := by
  induction s with
  | nil => exact Nat.le_refl _
  | cons c s ih =>
    have := @length_encodeUnit_pos c
    rw [List.length_cons, encode_cons, List.length_append]
    omega

theorem decode_encodeUnit : decode (encodeUnit c ++ rest) = (decode rest).map (c :: ·) := by
  have hc := c.toNat_lt
  unfold encodeUnit
  dsimp only
  split
  · rename_i hone
    have hbyte : (UInt8.ofNat c.toNat).toNat = c.toNat := toNat_ofNat (by omega)
    rw [List.singleton_append, decode_one (by rw [hbyte]; exact hone.2), hbyte, UInt16.ofNat_toNat]
  split
  · rename_i hone htwo
    have hfirst : (UInt8.ofNat (0xC0 + c.toNat / 64)).toNat = 0xC0 + c.toNat / 64 := toNat_ofNat (by omega)
    have hsecond : (UInt8.ofNat (0x80 + c.toNat % 64)).toNat = 0x80 + c.toNat % 64 := toNat_ofNat (by omega)
    have hunit : (0xC0 + c.toNat / 64) % 32 * 64 + (0x80 + c.toNat % 64) % 64 = c.toNat := by omega
    rw [List.cons_append, List.singleton_append, decode_two (by rw [hfirst]; omega), isTail, hsecond,
      if_pos (by rw [beq_iff_eq]; omega), hfirst, hunit, UInt16.ofNat_toNat]
  · rename_i hone htwo
    have hfirst : (UInt8.ofNat (0xE0 + c.toNat / 4096)).toNat = 0xE0 + c.toNat / 4096 := toNat_ofNat (by omega)
    have hsecond : (UInt8.ofNat (0x80 + c.toNat / 64 % 64)).toNat = 0x80 + c.toNat / 64 % 64 :=
      toNat_ofNat (by omega)
    have hthird : (UInt8.ofNat (0x80 + c.toNat % 64)).toNat = 0x80 + c.toNat % 64 := toNat_ofNat (by omega)
    have hunit : (0xE0 + c.toNat / 4096) % 16 * 4096 + (0x80 + c.toNat / 64 % 64) % 64 * 64 +
        (0x80 + c.toNat % 64) % 64 = c.toNat := by omega
    have htails : (isTail (UInt8.ofNat (0x80 + c.toNat / 64 % 64)) &&
        isTail (UInt8.ofNat (0x80 + c.toNat % 64))) = true := by
      rw [isTail, isTail, hsecond, hthird, Bool.and_eq_true, beq_iff_eq, beq_iff_eq]
      omega
    rw [List.cons_append, List.cons_append, List.singleton_append, decode_three (by rw [hfirst]; omega),
      if_pos htails, hfirst, hsecond, hthird, hunit, UInt16.ofNat_toNat]

/-- What was written is read. -/
@[simp] theorem decode_encode : decode (encode s) = some s := by
  induction s with
  | nil => rfl
  | cons c s ih => rw [encode_cons, decode_encodeUnit, ih, Option.map_some]

theorem shortest_encodeUnit : shortest (encodeUnit c ++ rest) = shortest rest := by
  have hc := c.toNat_lt
  unfold encodeUnit
  dsimp only
  split
  · rename_i hone
    have hbyte : (UInt8.ofNat c.toNat).toNat = c.toNat := toNat_ofNat (by omega)
    have hne : (UInt8.ofNat c.toNat != 0) = true := by
      rw [bne_iff_ne]
      intro heq
      rw [heq] at hbyte
      exact hone.1 hbyte.symm
    rw [List.singleton_append, shortest_one (by rw [hbyte]; exact hone.2), hne, Bool.true_and]
  split
  · rename_i hone htwo
    have hfirst : (UInt8.ofNat (0xC0 + c.toNat / 64)).toNat = 0xC0 + c.toNat / 64 := toNat_ofNat (by omega)
    have hsecond : (UInt8.ofNat (0x80 + c.toNat % 64)).toNat = 0x80 + c.toNat % 64 := toNat_ofNat (by omega)
    have htail : isTail (UInt8.ofNat (0x80 + c.toNat % 64)) = true := by
      rw [isTail, hsecond, beq_iff_eq]
      omega
    have hform : (decide (0xC2 ≤ 0xC0 + c.toNat / 64) || UInt8.ofNat (0xC0 + c.toNat / 64) == 0xC0 &&
        UInt8.ofNat (0x80 + c.toNat % 64) == 0x80) = true := by
      by_cases hzero : c.toNat = 0
      · rw [hzero]
        decide
      · rw [decide_eq_true (by omega), Bool.true_or]
    rw [List.cons_append, List.singleton_append, shortest_two (by rw [hfirst]; omega), htail, hfirst, hform,
      Bool.true_and, Bool.true_and]
  · rename_i hone htwo
    have hfirst : (UInt8.ofNat (0xE0 + c.toNat / 4096)).toNat = 0xE0 + c.toNat / 4096 := toNat_ofNat (by omega)
    have hsecond : (UInt8.ofNat (0x80 + c.toNat / 64 % 64)).toNat = 0x80 + c.toNat / 64 % 64 :=
      toNat_ofNat (by omega)
    have hthird : (UInt8.ofNat (0x80 + c.toNat % 64)).toNat = 0x80 + c.toNat % 64 := toNat_ofNat (by omega)
    have htails : (isTail (UInt8.ofNat (0x80 + c.toNat / 64 % 64)) &&
        isTail (UInt8.ofNat (0x80 + c.toNat % 64))) = true := by
      rw [isTail, isTail, hsecond, hthird, Bool.and_eq_true, beq_iff_eq, beq_iff_eq]
      omega
    have hform : (decide (0xE1 ≤ 0xE0 + c.toNat / 4096) || decide (0xA0 ≤ 0x80 + c.toNat / 64 % 64)) =
        true := by
      rw [Bool.or_eq_true, decide_eq_true_iff, decide_eq_true_iff]
      omega
    rw [List.cons_append, List.cons_append, List.singleton_append, shortest_three (by rw [hfirst]; omega),
      htails, hfirst, hsecond, hform, Bool.true_and, Bool.true_and]

@[simp] theorem shortest_encode : shortest (encode s) = true := by
  induction s with
  | nil => rfl
  | cons c s ih => rw [encode_cons, shortest_encodeUnit, ih]

/-- Bytes in their shortest form are what is written for a unit, and bytes after it. -/
theorem exists_unit (h : shortest (a :: bytes) = true) :
    ∃ c rest, a :: bytes = encodeUnit c ++ rest ∧ shortest rest = true := by
  have ha := a.toNat_lt
  by_cases hone : a.toNat < 0x80
  · rw [shortest_one hone, Bool.and_eq_true, bne_iff_ne] at h
    have hpos : a.toNat ≠ 0 := fun hzero => h.1 (UInt8.toNat_inj.mp hzero)
    have hunit : (UInt16.ofNat a.toNat).toNat = a.toNat := toNat_ofNat_unit (by omega)
    refine ⟨UInt16.ofNat a.toNat, bytes, ?_, h.2⟩
    simp only [encodeUnit, hunit, if_pos (And.intro hpos hone), UInt8.ofNat_toNat, List.singleton_append]
  by_cases htwo : a.toNat / 32 = 6
  · cases bytes with
    | nil =>
      simp [shortest, hone, htwo] at h
    | cons b rest =>
      rw [shortest_two htwo] at h
      simp only [isTail, Bool.and_eq_true, Bool.or_eq_true, decide_eq_true_iff, beq_iff_eq] at h
      obtain ⟨⟨htail, hform⟩, hrest⟩ := h
      have hvalue : a.toNat % 32 * 64 + b.toNat % 64 = 0 ∨ 0x80 ≤ a.toNat % 32 * 64 + b.toNat % 64 := by
        rcases hform with hbig | ⟨rfl, rfl⟩
        · exact .inr (by omega)
        · exact .inl rfl
      have hunit : (UInt16.ofNat (a.toNat % 32 * 64 + b.toNat % 64)).toNat =
          a.toNat % 32 * 64 + b.toNat % 64 := toNat_ofNat_unit (by omega)
      have hfirst : 0xC0 + (a.toNat % 32 * 64 + b.toNat % 64) / 64 = a.toNat := by omega
      have hsecond : 0x80 + (a.toNat % 32 * 64 + b.toNat % 64) % 64 = b.toNat := by omega
      refine ⟨UInt16.ofNat (a.toNat % 32 * 64 + b.toNat % 64), rest, ?_, hrest⟩
      simp only [encodeUnit, hunit]
      rw [if_neg (by omega), if_pos (by omega), hfirst, hsecond, UInt8.ofNat_toNat, UInt8.ofNat_toNat]
      rfl
  by_cases hthree : a.toNat / 16 = 14
  · match bytes with
    | [] | [_] =>
      simp [shortest, hone, htwo, hthree] at h
    | b :: d :: rest =>
      rw [shortest_three hthree] at h
      simp only [isTail, Bool.and_eq_true, Bool.or_eq_true, decide_eq_true_iff, beq_iff_eq] at h
      obtain ⟨⟨⟨hb, hd⟩, hform⟩, hrest⟩ := h
      have hunit : (UInt16.ofNat (a.toNat % 16 * 4096 + b.toNat % 64 * 64 + d.toNat % 64)).toNat =
          a.toNat % 16 * 4096 + b.toNat % 64 * 64 + d.toNat % 64 := toNat_ofNat_unit (by omega)
      have hfirst : 0xE0 + (a.toNat % 16 * 4096 + b.toNat % 64 * 64 + d.toNat % 64) / 4096 = a.toNat := by omega
      have hsecond : 0x80 + (a.toNat % 16 * 4096 + b.toNat % 64 * 64 + d.toNat % 64) / 64 % 64 = b.toNat := by
        omega
      have hthird : 0x80 + (a.toNat % 16 * 4096 + b.toNat % 64 * 64 + d.toNat % 64) % 64 = d.toNat := by omega
      refine ⟨UInt16.ofNat (a.toNat % 16 * 4096 + b.toNat % 64 * 64 + d.toNat % 64), rest, ?_, hrest⟩
      simp only [encodeUnit, hunit]
      rw [if_neg (by omega), if_neg (by omega), hfirst, hsecond, hthird, UInt8.ofNat_toNat, UInt8.ofNat_toNat,
        UInt8.ofNat_toNat]
      rfl
  · simp [shortest.eq_def, hone, htwo, hthree] at h

/-- Bytes in their shortest form, and no others, are what is written for a string. -/
theorem shortest_iff : shortest bytes = true ↔ ∃ s, bytes = encode s := by
  constructor
  · intro h
    induction hn : bytes.length using Nat.strongRecOn generalizing bytes with
    | ind n ih =>
      cases bytes with
      | nil => exact ⟨[], rfl⟩
      | cons a bytes =>
        obtain ⟨c, rest, hsplit, hrest⟩ := exists_unit h
        have hshorter : rest.length < n := by
          have hlength := congrArg List.length hsplit
          rw [hn, List.length_append] at hlength
          have := @length_encodeUnit_pos c
          omega
        obtain ⟨s, rfl⟩ := ih rest.length hshorter hrest rfl
        exact ⟨c :: s, hsplit⟩
  · rintro ⟨s, rfl⟩
    exact shortest_encode

/-- What is read are two bytes and as many more as they say. -/
theorem readUTF_eq_some : readUTF source = some (s, rest) ↔
    ∃ utf, source = writeNumber 2 utf.length ++ (utf ++ rest) ∧ utf.length < 0x10000 ∧ decode utf = some s := by
  constructor
  · intro h
    obtain ⟨⟨utflen, source'⟩, hlength, h⟩ := Option.bind_eq_some_iff.mp h
    obtain ⟨⟨utf, rest'⟩, hutf, h⟩ := Option.bind_eq_some_iff.mp h
    obtain ⟨s', hs, h⟩ := Option.bind_eq_some_iff.mp h
    cases h
    obtain ⟨rfl, htwo⟩ := readFully_eq_some.mp hlength
    obtain ⟨rfl, hcount⟩ := readFully_eq_some.mp hutf
    have hlt := @number_lt utflen
    have hback := @writeNumber_number utflen
    rw [htwo] at hlt hback
    refine ⟨utf, ?_, hcount ▸ hlt, hs⟩
    rw [hcount, hback]
  · rintro ⟨utf, rfl, hlt, hs⟩
    unfold readUTF
    rw [readFully_writeNumber, Option.bind_eq_bind, Option.bind_some]
    dsimp only
    rw [number_writeNumber hlt, readFully_append, Option.bind_eq_bind, Option.bind_some]
    dsimp only
    rw [hs]
    rfl

/-- A letter that takes two bytes is read, and would be written as one. -/
example : decode [0xC1, 0x81] = some [0x41] ∧ shortest [0xC1, 0x81] = false := by decide

/-- A string that takes less than 65536 bytes can be written, and is read as it was. -/
theorem readUTF_encode (h : (encode s).length < 0x10000) :
    readUTF (writeNumber 2 (encode s).length ++ (encode s ++ rest)) = some (s, rest) :=
  readUTF_eq_some.mpr ⟨encode s, rfl, h, decode_encode⟩

theorem writeUTF_isSome : (writeUTF s).isSome = true ↔ (encode s).length < 0x10000 := by
  unfold writeUTF
  split
  · simpa using ‹(encode s).length < 0x10000›
  · simpa using ‹¬ (encode s).length < 0x10000›

end Strings

end DataStream
