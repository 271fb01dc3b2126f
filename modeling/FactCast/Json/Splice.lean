import FactCast.Json.Parser
import Mathlib.Data.List.TakeDrop
import Mathlib.Data.List.TakeWhile
import Mathlib.Tactic.Common

/-! Strings spliced into JSON texts.

Concatenating a text around a string is safe exactly as long as the string is
plain. One half (`string_plain` and what is built on it) reads a text around a
plain string back. The other half counts characters: what a reader returns is no
heavier than what it consumed (`value_weight`), and where it is as heavy, nothing
was escaped (`string_tight`). A text that ends right after a string of the length
it was written for has no room for anything else. -/
namespace Json
open Jsonb

variable {fuel : Nat} {text rest : List Char} {name s : String} {v : Jsonb}

/-! ### Plain strings read as themselves -/

theorem plainChar_iff {c : Char} :
    plainChar c = true ↔ c ≠ '"' ∧ c ≠ '\\' ∧ ¬ c.toNat < 0x20 := by
  simp [plainChar, and_assoc]

theorem scan_quote : scan ('"' :: rest) = some ([], rest) := by
  unfold scan
  rfl

theorem scan_cons_plain {c : Char} (h : plainChar c = true) :
    scan (c :: rest) = pieceBefore (.char c) (scan rest) := by
  obtain ⟨hq, hb, hc⟩ := plainChar_iff.mp h
  rw [scan.eq_def (c :: rest)]
  simp only [if_neg hq, if_neg hb, if_neg hc]

theorem scan_plain {cs : List Char} (h : cs.all plainChar = true) :
    scan (cs ++ '"' :: rest) = some (cs.map .char, rest) := by
  induction cs with
  | nil => exact scan_quote
  | cons c cs ih =>
    simp only [List.all_cons, Bool.and_eq_true] at h
    rw [List.cons_append, scan_cons_plain h.1, ih h.2]
    rfl

theorem join_chars (cs : List Char) : join (cs.map .char) = some cs := by
  induction cs with
  | nil => rfl
  | cons c cs ih => simp [join, ih]

/-- A plain string reads as itself. -/
theorem string_plain (h : Plain s) : string (s.toList ++ '"' :: rest) = some (s, rest) := by
  simp [string, scan_plain h, join_chars]

theorem value_str (h : Plain s) :
    value (fuel + 1) ('"' :: (s.toList ++ '"' :: rest)) = some (.str s, rest) := by
  simp [value, string_plain h]

theorem members_last (hn : Plain name) (hv : value fuel (skip text) = some (v, '}' :: rest)) :
    members (fuel + 1) ('"' :: (name.toList ++ '"' :: ':' :: text)) = some ([(name, v)], rest) := by
  have hskip : ∀ t, skip (':' :: t) = ':' :: t := fun t => rfl
  have hbrace : skip ('}' :: rest) = '}' :: rest := rfl
  simp [members, string_plain hn, colon, hskip, hv, hbrace]

/-- An object of one member with a plain name. -/
theorem value_member (hn : Plain name) (hv : value fuel (skip text) = some (v, '}' :: rest)) :
    value (fuel + 2) ('{' :: '"' :: (name.toList ++ '"' :: ':' :: text)) =
      some (.obj [(name, v)], rest) := by
  have hskip : ∀ t, skip ('"' :: t) = '"' :: t := fun t => rfl
  simp [value, hskip, members_last hn hv, lastOfEach]

/-- An array of plain strings, a comma and no space between them. -/
theorem elements_strs {ss : List String} (hs : ∀ s ∈ ss, Plain s) (hne : ss ≠ [])
    (hfuel : ss.length < fuel) :
    elements fuel ('"' :: (List.intercalate ['"', ',', '"'] (ss.map String.toList) ++
      '"' :: ']' :: rest)) = some (ss.map .str, rest) := by
  induction ss generalizing fuel with
  | nil => exact absurd rfl hne
  | cons s ss ih =>
    obtain ⟨f, rfl⟩ : ∃ f, fuel = f + 2 := ⟨fuel - 2, by simp at hfuel; omega⟩
    have hplain : Plain s := hs s (by simp)
    cases ss with
    | nil =>
      have hbracket : skip (']' :: rest) = ']' :: rest := rfl
      simp [elements, value_str hplain, hbracket]
    | cons s' ss =>
      have htail := ih (fun x hx => hs x (by simp [hx])) (by simp)
        (show (s' :: ss).length < f + 1 by simp at hfuel ⊢; omega)
      have hcomma : ∀ t, skip (',' :: t) = ',' :: t := fun t => rfl
      have hquote : ∀ t, skip ('"' :: t) = '"' :: t := fun t => rfl
      simp only [List.map_cons, List.intercalate_cons_cons, List.append_assoc] at htail ⊢
      rw [elements]
      simp [value_str hplain, hcomma, hquote, htail]

theorem value_strs {ss : List String} (hs : ∀ s ∈ ss, Plain s) (hne : ss ≠ [])
    (hfuel : ss.length < fuel) :
    value (fuel + 1) ('[' :: '"' :: (List.intercalate ['"', ',', '"'] (ss.map String.toList) ++
      '"' :: ']' :: rest)) = some (.arr (ss.map .str), rest) := by
  have hquote : ∀ t, skip ('"' :: t) = '"' :: t := fun t => rfl
  simp [value, hquote, elements_strs hs hne hfuel]

/-- A text that begins with its value is read by the value's reader. -/
theorem parse_brace {t : String} {cs : List Char} (ht : t.toList = '{' :: cs) :
    parse t = match value (2 * t.toList.length + 1) ('{' :: cs) with
      | some (v, rest) => if (skip rest).isEmpty then some v else none
      | none => none := by
  rw [parse, ht]
  rfl

theorem parse_of_value {t : String} {cs : List Char} (ht : t.toList = '{' :: cs)
    (hv : ∀ f, t.toList.length ≤ f → value (f + 1) ('{' :: cs) = some (v, [])) :
    parse t = some v := by
  rw [parse_brace ht, hv _ (by omega)]
  rfl

/-- `{"name": "s"}` -/
theorem parse_member {t : String} (hn : Plain name) (hs : Plain s)
    (ht : t.toList = '{' :: '"' :: (name.toList ++ '"' :: ':' :: ' ' :: '"' ::
      (s.toList ++ ['"', '}']))) :
    parse t = some (.obj [(name, .str s)]) := by
  refine parse_of_value ht fun f hf => ?_
  obtain ⟨f, rfl⟩ : ∃ g, f = g + 2 := ⟨f - 2, by rw [ht] at hf; simp at hf; omega⟩
  exact value_member hn (value_str hs)

/-- `{"name": ["s","s'",...]}` -/
theorem parse_strs {t : String} {ss : List String} (hn : Plain name) (hs : ∀ s ∈ ss, Plain s)
    (hne : ss ≠ [])
    (ht : t.toList = '{' :: '"' :: (name.toList ++ '"' :: ':' :: ' ' :: '[' :: '"' ::
      (List.intercalate ['"', ',', '"'] (ss.map String.toList) ++ ['"', ']', '}']))) :
    parse t = some (.obj [(name, .arr (ss.map .str))]) := by
  have hlen : ss.length ≤ (List.intercalate ['"', ',', '"'] (ss.map String.toList)).length + 1 := by
    clear hs hne ht
    induction ss with
    | nil => exact Nat.zero_le _
    | cons s ss ih =>
      cases ss with
      | nil => simp
      | cons s' ss =>
        simp only [List.map_cons, List.intercalate_cons_cons, List.length_append,
          List.length_cons] at ih ⊢
        omega
  refine parse_of_value ht fun f hf => ?_
  obtain ⟨f, rfl, hfuel⟩ : ∃ g, f = g + 2 ∧ ss.length < g := by
    rw [ht] at hf
    simp only [List.length_cons, List.length_append] at hf
    exact ⟨f - 2, by omega, by omega⟩
  exact value_member hn (value_strs hs hne hfuel)

/-- `{"name":{"k":"s"}}` -/
theorem parse_nested {t k : String} (hn : Plain name) (hk : Plain k) (hs : Plain s)
    (ht : t.toList = '{' :: '"' :: (name.toList ++ '"' :: ':' :: '{' :: '"' ::
      (k.toList ++ '"' :: ':' :: '"' :: (s.toList ++ ['"', '}', '}'])))) :
    parse t = some (.obj [(name, .obj [(k, .str s)])]) := by
  refine parse_of_value ht fun f hf => ?_
  obtain ⟨f, rfl⟩ : ∃ g, f = g + 4 := ⟨f - 4, by rw [ht] at hf; simp at hf; omega⟩
  exact value_member hn (value_member hk (value_str hs))

/-! ### A document is no heavier than its text -/

mutual

/-- The characters a document takes at least: its strings, their quotes and, for
every member, a colon and what ends it. -/
def weight : Jsonb → Nat
  | .str s => s.toList.length + 2
  | .obj ms => 1 + membersWeight ms
  | _ => 1

def membersWeight : List (String × Jsonb) → Nat
  | [] => 0
  | (name, v) :: ms => name.toList.length + weight v + 4 + membersWeight ms

end

theorem weight_pos : 0 < weight v := by
  cases v with
  | obj ms => exact Nat.lt_of_lt_of_le Nat.one_pos (Nat.le_add_right ..)
  | _ => simp [weight]

theorem le_membersWeight {ms : List (String × Jsonb)} (h : (name, v) ∈ ms) :
    name.toList.length + weight v + 4 ≤ membersWeight ms := by
  induction ms with
  | nil => cases h
  | cons q ms ih =>
    obtain ⟨k, w⟩ := q
    simp only [membersWeight]
    rcases List.mem_cons.mp h with he | h
    · cases he
      omega
    · have := ih h
      omega

theorem membersWeight_lastOfEach (ms : List (String × Jsonb)) :
    membersWeight (lastOfEach ms) ≤ membersWeight ms := by
  induction ms with
  | nil => exact Nat.le_refl _
  | cons q ms ih =>
    obtain ⟨k, w⟩ := q
    simp only [lastOfEach]
    split
    · simp only [membersWeight]
      omega
    · simp only [membersWeight]
      omega

theorem skip_length (text : List Char) : (skip text).length ≤ text.length :=
  List.length_dropWhile_le ..

/-! Scanning: every piece took a character, and took only one if it is plain. -/

/-- Pieces in front of a shorter text. -/
theorem pieceBefore_eq_some {p : Piece} {r : Option (List Piece × List Char)} {ps : List Piece}
    (h : pieceBefore p r = some (ps, rest)) :
    ∃ qs, r = some (qs, rest) ∧ ps = p :: qs := by
  cases r with
  | none => cases h
  | some r =>
    simp only [pieceBefore, Option.map_some, Option.some.injEq, Prod.mk.injEq] at h
    exact ⟨r.1, by rw [← h.2], h.1.symm⟩

/-- Every piece takes a character, and a text that has no more was plain. -/
theorem scan_room {ps : List Piece} (h : scan text = some (ps, rest)) :
    ps.length + 1 + rest.length < text.length ∨
      ∃ cs, cs.all plainChar = true ∧ ps = cs.map .char ∧ text = cs ++ '"' :: rest := by
  induction text using scan.induct generalizing ps with
  | case1 => cases h
  | case2 text =>
    rw [scan_quote] at h
    cases h
    exact .inr ⟨[], rfl, rfl, rfl⟩
  | case3 h₁ h₂ h₃ h₄ text _ ih =>
    rw [scan.eq_def] at h
    simp only [Char.reduceEq, if_false, if_true] at h
    obtain ⟨n, _, h⟩ := Option.bind_eq_some_iff.mp h
    obtain ⟨qs, hqs, rfl⟩ := pieceBefore_eq_some h
    refine .inl ?_
    rcases ih hqs with hlt | ⟨cs, _, rfl, rfl⟩ <;> simp at * <;> omega
  | case4 e text hne _ ih =>
    rw [scan] at h
    · obtain ⟨n, _, h⟩ := Option.bind_eq_some_iff.mp h
      obtain ⟨qs, hqs, rfl⟩ := pieceBefore_eq_some h
      refine .inl ?_
      rcases ih hqs with hlt | ⟨cs, _, rfl, rfl⟩ <;> simp at * <;> omega
    · exact hne
  | case5 => cases h
  | case6 c text hq hb hc =>
    rw [scan.eq_def] at h
    simp only [if_neg hq, if_neg hb, if_pos hc] at h
    cases h
  | case7 c text hq hb hc ih =>
    have hp := plainChar_iff.mpr ⟨hq, hb, hc⟩
    rw [scan_cons_plain hp] at h
    obtain ⟨qs, hqs, rfl⟩ := pieceBefore_eq_some h
    rcases ih hqs with hlt | ⟨cs, hcs, rfl, rfl⟩
    · exact .inl (by simp; omega)
    · exact .inr ⟨c :: cs, by simp [hp, hcs], rfl, rfl⟩

theorem join_length {ps : List Piece} {cs : List Char} (h : join ps = some cs) :
    cs.length ≤ ps.length := by
  induction ps using join.induct generalizing cs with
  | case1 =>
    cases h
    exact Nat.le_refl _
  | case2 c ps ih =>
    simp only [join, Option.bind_eq_bind, Option.bind_eq_some_iff] at h
    obtain ⟨ds, hds, hcs⟩ := h
    cases hcs
    simpa using ih hds
  | case3 ps =>
    rw [join.eq_def] at h
    cases h
  | case4 n hn hhi m ps hlo ih =>
    simp only [join, if_neg hn, if_pos hhi, if_pos hlo, Option.bind_eq_bind,
      Option.bind_eq_some_iff] at h
    obtain ⟨ds, hds, hcs⟩ := h
    cases hcs
    have := ih hds
    simp only [List.length_cons]
    omega
  | case5 n hn hhi m ps hlo => simp [join, hn, hhi, hlo] at h
  | case6 n ps hn hhi hps =>
    rw [join.eq_def] at h
    simp [hn, hhi] at h
  | case7 n ps hn hhi hlo => 
    rw [join.eq_def] at h
    simp [hn, hhi, hlo] at h
  | case8 n ps hn hhi hlo ih =>
    rw [join.eq_def] at h
    simp only [if_neg hn, if_neg hhi, if_neg hlo, Option.bind_eq_bind,
      Option.bind_eq_some_iff] at h
    obtain ⟨ds, hds, hcs⟩ := h
    cases hcs
    simpa using ih hds

/-- A string is shorter than the text it was read from by at least its quote, and
where it is not shorter by more, it is plain and was written as it is. -/
theorem string_room (h : string text = some (s, rest)) :
    s.toList.length + 1 + rest.length < text.length ∨
      (Plain s ∧ text = s.toList ++ '"' :: rest) := by
  simp only [string, Option.bind_eq_bind, Option.bind_eq_some_iff] at h
  obtain ⟨⟨ps, r⟩, hscan, cs, hjoin, hs⟩ := h
  cases hs
  have hlen := join_length hjoin
  rcases scan_room hscan with hlt | ⟨ds, hds, rfl, rfl⟩
  · left
    simp only [String.toList_ofList] at hlt hlen ⊢
    omega
  · right
    obtain rfl : ds = cs := by simpa [join_chars] using hjoin
    exact ⟨by simpa [Plain] using hds, by simp⟩

theorem string_length (h : string text = some (s, rest)) :
    s.toList.length + 1 + rest.length ≤ text.length := by
  rcases string_room h with hlt | ⟨_, rfl⟩
  · omega
  · simp
    omega

/-- Read from a text with no room to spare, a string is plain. -/
theorem string_tight (h : string text = some (s, rest))
    (hlen : text.length ≤ s.toList.length + 1 + rest.length) :
    Plain s ∧ text = s.toList ++ '"' :: rest := by
  rcases string_room h with hlt | hp
  · omega
  · exact hp

theorem digits_length {ds : List Char} (h : digits text = (ds, rest)) :
    ds.length + rest.length = text.length := by
  rw [digits, List.span_eq_takeWhile_dropWhile] at h
  cases h
  rw [← List.length_append, List.takeWhile_append_dropWhile]

theorem intPart_length {ds : List Char} (h : intPart text = some (ds, rest)) :
    rest.length < text.length := by
  unfold intPart at h
  split at h
  · cases h
  · cases h
  · rename_i es r hne _ hd
    cases h
    have := digits_length hd
    cases ds with
    | nil => exact (hne rfl).elim
    | cons d ds =>
      simp only [List.length_cons] at this
      omega

theorem fracPart_length {ds : List Char} (h : fracPart text = some (ds, rest)) :
    rest.length ≤ text.length := by
  unfold fracPart at h
  split at h
  · split at h
    · cases h
    · rename_i hd
      cases h
      have := digits_length hd
      simp
      omega
  · cases h
    exact Nat.le_refl _

theorem expDigits_length {n : Nat} (h : expDigits text = some (n, rest)) :
    rest.length ≤ text.length := by
  unfold expDigits at h
  split at h
  · cases h
  · rename_i hd
    cases h
    have := digits_length hd
    omega

theorem expPart_length {e : Int} (h : expPart text = some (e, rest)) :
    rest.length ≤ text.length := by
  unfold expPart at h
  split at h
  · split at h
    · have key : ∀ {t : List Char} {f : Nat × List Char → Int × List Char},
          (∀ r, (f r).2 = r.2) → (expDigits t).map f = some (e, rest) → rest.length ≤ t.length := by
        intro t f hf ht
        obtain ⟨r, hr, hfr⟩ := Option.map_eq_some_iff.mp ht
        obtain rfl : rest = r.2 := by rw [← hf r, hfr]
        exact expDigits_length hr
      split at h
      · have := key (fun _ => rfl) h
        simp
        omega
      · have := key (fun _ => rfl) h
        simp
        omega
      · have := key (fun _ => rfl) h
        simp
        omega
    · cases h
      exact Nat.le_refl _
  · cases h
    exact Nat.le_refl _

theorem unsigned_length {neg : Bool} (h : unsigned neg text = some (v, rest)) :
    rest.length < text.length ∧ weight v = 1 := by
  simp only [unsigned, Option.bind_eq_bind, Option.bind_eq_some_iff] at h
  obtain ⟨⟨ip, r₁⟩, h₁, ⟨fp, r₂⟩, h₂, ⟨e, r₃⟩, h₃, hv⟩ := h
  cases hv
  have := intPart_length h₁
  have := fracPart_length h₂
  have := expPart_length h₃
  refine ⟨?_, rfl⟩
  simp only at *
  omega

theorem number_length (h : number text = some (v, rest)) :
    rest.length < text.length ∧ weight v = 1 := by
  unfold number at h
  split at h
  · have := unsigned_length h
    exact ⟨by simp; omega, this.2⟩
  · exact unsigned_length h

theorem word_length {w : List Char} (hw : w ≠ []) (h : word w text = some rest) :
    rest.length < text.length := by
  unfold word at h
  split at h
  · rename_i hp
    cases h
    have hle := (List.isPrefixOf_iff_prefix.mp hp).length_le
    have : 0 < w.length := List.length_pos_of_ne_nil hw
    simp
    omega
  · cases h

theorem literal_length (h : literal text = some (v, rest)) :
    rest.length < text.length ∧ weight v = 1 := by
  unfold literal at h
  split at h
  · rename_i hw
    cases h
    exact ⟨word_length (by decide) hw, rfl⟩
  · split at h
    · rename_i hw
      cases h
      exact ⟨word_length (by decide) hw, rfl⟩
    · split at h
      · rename_i hw
        cases h
        exact ⟨word_length (by decide) hw, rfl⟩
      · exact number_length h

theorem scalar_length (h : scalar text = some (v, rest)) :
    rest.length < text.length ∧ weight v = 1 :=
  literal_length (Option.filter_eq_some_iff.mp h).1

theorem colon_length (h : colon text = some rest) : rest.length < text.length := by
  unfold colon at h
  split at h
  · rename_i r heq
    cases h
    have := skip_length text
    have := skip_length r
    simp only [heq, List.length_cons] at *
    omega
  · cases h

/-! ### Objects, member by member -/

/-- What an object's text begins with: a name, a value, and either the end or a
comma and more members. -/
theorem members_cases {ms : List (String × Jsonb)} (h : members (fuel + 1) text = some (ms, rest)) :
    ∃ t name t₁ t₂ v t₃, text = '"' :: t ∧ string t = some (name, t₁) ∧ colon t₁ = some t₂ ∧
      value fuel t₂ = some (v, t₃) ∧
      ((skip t₃ = '}' :: rest ∧ ms = [(name, v)]) ∨
        ∃ t₄ ms', skip t₃ = ',' :: t₄ ∧ members fuel (skip t₄) = some (ms', rest) ∧
          ms = (name, v) :: ms') := by
  cases text with
  | nil => cases h
  | cons c t =>
    rw [members] at h
    split at h
    · rename_i hc
      subst hc
      simp only [Option.bind_eq_bind, Option.bind_eq_some_iff] at h
      obtain ⟨⟨name, t₁⟩, hname, t₂, hcolon, ⟨v, t₃⟩, hv, h⟩ := h
      refine ⟨t, name, t₁, t₂, v, t₃, rfl, hname, hcolon, hv, ?_⟩
      split at h
      · rename_i r heq
        cases h
        exact .inl ⟨heq, rfl⟩
      · rename_i r heq
        obtain ⟨⟨ms', r'⟩, hms, h⟩ := Option.bind_eq_some_iff.mp h
        cases h
        exact .inr ⟨r, ms', heq, hms, rfl⟩
      · cases h
    · cases h

/-- A reader returns no more than it consumed. -/
theorem reader_weight (fuel : Nat) :
    (∀ text v rest, value fuel text = some (v, rest) → weight v + rest.length ≤ text.length) ∧
    (∀ text ms rest, members fuel text = some (ms, rest) →
      membersWeight ms + rest.length ≤ text.length) ∧
    (∀ text vs rest, elements fuel text = some (vs, rest) → rest.length < text.length) := by
  induction fuel with
  | zero => refine ⟨?_, ?_, ?_⟩ <;> (intro _ _ _ h; cases h)
  | succ fuel ih =>
    obtain ⟨hvalue, hmembers, helements⟩ := ih
    refine ⟨?_, ?_, ?_⟩
    · intro text v rest h
      cases text with
      | nil => cases h
      | cons c t =>
        rw [value] at h
        have hskip := skip_length t
        split at h
        · obtain ⟨⟨s, r⟩, hs, he⟩ := Option.map_eq_some_iff.mp h
          cases he
          have := string_length hs
          simp only [weight, List.length_cons]
          omega
        · split at h
          · split at h
            · rename_i r heq
              cases h
              simp only [heq, weight, membersWeight, List.length_cons] at *
              omega
            · obtain ⟨⟨ms, r⟩, hms, he⟩ := Option.map_eq_some_iff.mp h
              cases he
              have := hmembers _ _ _ hms
              have := membersWeight_lastOfEach ms
              simp only [weight, List.length_cons]
              omega
          · split at h
            · split at h
              · rename_i r heq
                cases h
                simp only [heq, weight, List.length_cons] at *
                omega
              · obtain ⟨⟨vs, r⟩, hvs, he⟩ := Option.map_eq_some_iff.mp h
                cases he
                have := helements _ _ _ hvs
                simp only [weight, List.length_cons]
                omega
            · have := scalar_length h
              omega
    · intro text ms rest h
      obtain ⟨t, name, t₁, t₂, v, t₃, rfl, hname, hcolon, hv, htail⟩ := members_cases h
      have h₁ := string_length hname
      have h₂ := colon_length hcolon
      have h₃ := hvalue _ _ _ hv
      have h₄ := skip_length t₃
      rcases htail with ⟨heq, rfl⟩ | ⟨t₄, ms', heq, hms, rfl⟩
      · simp only [heq, membersWeight, List.length_cons] at *
        omega
      · have h₅ := hmembers _ _ _ hms
        have h₆ := skip_length t₄
        simp only [heq, membersWeight, List.length_cons] at *
        omega
    · intro text vs rest h
      simp only [elements, Option.bind_eq_bind, Option.bind_eq_some_iff] at h
      obtain ⟨⟨v, t⟩, hv, h⟩ := h
      have h₁ := hvalue _ _ _ hv
      have h₂ := skip_length t
      have h₃ : 0 < weight v := weight_pos
      split at h
      · rename_i r heq
        cases h
        simp only [heq, List.length_cons] at *
        omega
      · rename_i r heq
        obtain ⟨⟨us, r'⟩, hvs, he⟩ := Option.bind_eq_some_iff.mp h
        cases he
        have h₄ := helements _ _ _ hvs
        have h₅ := skip_length r
        simp only [heq, List.length_cons] at *
        omega
      · cases h

theorem value_weight (h : value fuel text = some (v, rest)) :
    weight v + rest.length ≤ text.length :=
  (reader_weight fuel).1 _ _ _ h

theorem members_weight {ms : List (String × Jsonb)} (h : members fuel text = some (ms, rest)) :
    membersWeight ms + rest.length ≤ text.length :=
  (reader_weight fuel).2.1 _ _ _ h

/-! ### Texts with no room to spare -/

theorem mem_lastOfEach_cons {ms : List (String × Jsonb)} {k : String} {w : Jsonb}
    (h : (k, w) ∈ lastOfEach ((name, v) :: ms)) :
    (k = name ∧ w = v) ∨ k.toList.length + weight w + 4 ≤ membersWeight ms := by
  rcases List.mem_cons.mp (mem_of_mem_lastOfEach h) with he | hm
  · cases he
    exact .inl ⟨rfl, rfl⟩
  · exact .inr (le_membersWeight hm)

/-- Under the name it begins with an object has a member. -/
theorem hasMember_first {ms : List (String × Jsonb)} :
    ∃ w, (Jsonb.obj (lastOfEach ((name, v) :: ms))).HasMember name w := by
  have hname : name ∈ (lastOfEach ((name, v) :: ms)).map Prod.fst := names_lastOfEach.mpr (by simp)
  obtain ⟨q, hq, rfl⟩ := List.mem_map.mp hname
  exact ⟨q.2, _, rfl, hq⟩

/-- An object's first name and value, and what else it can hold. -/
theorem value_object {t : List Char} {d : Jsonb}
    (h : value fuel ('{' :: '"' :: t) = some (d, rest)) :
    ∃ f name t₁ t₂ v t₃, string t = some (name, t₁) ∧ colon t₁ = some t₂ ∧
      value f t₂ = some (v, t₃) ∧ rest.length < t₃.length ∧ (∃ w, d.HasMember name w) ∧
      ∀ k w, d.HasMember k w → (k = name ∧ w = v) ∨
        k.toList.length + weight w + 5 + rest.length ≤ t₃.length := by
  obtain _ | _ | f := fuel
  · cases h
  · cases h
  have hquote : skip ('"' :: t) = '"' :: t := rfl
  simp only [value, Char.reduceEq, if_false, if_true, hquote] at h
  obtain ⟨⟨ms, r⟩, hms, he⟩ := Option.map_eq_some_iff.mp h
  simp only [Prod.mk.injEq] at he
  obtain ⟨rfl, rfl⟩ := he
  obtain ⟨t', name, t₁, t₂, v, t₃, ht, hname, hcolon, hv, htail⟩ := members_cases hms
  cases ht
  have hskip := skip_length t₃
  refine ⟨f, name, t₁, t₂, v, t₃, hname, hcolon, hv, ?_, ?_, ?_⟩
  · rcases htail with ⟨heq, _⟩ | ⟨t₄, ms', heq, hms', _⟩
    · simp only [heq, List.length_cons] at hskip
      omega
    · have := members_weight hms'
      have := skip_length t₄
      simp only [heq, List.length_cons] at hskip
      omega
  · rcases htail with ⟨_, rfl⟩ | ⟨t₄, ms', _, _, rfl⟩
    · exact hasMember_first
    · exact hasMember_first
  · rintro k w ⟨_, he, hw⟩
    cases he
    rcases htail with ⟨_, rfl⟩ | ⟨t₄, ms', heq, hms', rfl⟩
    · rcases mem_lastOfEach_cons hw with hl | hl
      · exact .inl hl
      · simp [membersWeight] at hl
    · rcases mem_lastOfEach_cons hw with hl | hl
      · exact .inl hl
      · have := members_weight hms'
        have := skip_length t₄
        simp only [heq, List.length_cons] at hskip
        right
        omega

/-- Only a quote begins a string. -/
theorem value_eq_str (h : value fuel text = some (.str s, rest)) :
    ∃ t, text = '"' :: t ∧ string t = some (s, rest) := by
  obtain _ | fuel := fuel
  · cases h
  obtain _ | ⟨c, t⟩ := text
  · cases h
  rw [value] at h
  split at h
  · rename_i hc
    obtain ⟨⟨s', r⟩, hs, he⟩ := Option.map_eq_some_iff.mp h
    cases he
    exact ⟨t, by rw [hc], hs⟩
  · split at h
    · split at h
      · cases h
      · obtain ⟨_, _, he⟩ := Option.map_eq_some_iff.mp h
        cases he
    · split at h
      · split at h
        · cases h
        · obtain ⟨_, _, he⟩ := Option.map_eq_some_iff.mp h
          cases he
      · have := (scalar_length h).2
        simp [weight] at this

theorem value_of_parse {t : String} {cs : List Char} (ht : t.toList = '{' :: cs)
    (h : parse t = some v) : ∃ fuel rest, value fuel ('{' :: cs) = some (v, rest) := by
  rw [parse_brace ht] at h
  split at h
  · rename_i w rest hv
    split at h
    · cases h
      exact ⟨_, _, hv⟩
    · cases h
  · cases h

/-- A string spliced as the only value of an object, and found there, is plain. -/
theorem member_tight {d : Jsonb} (hn : Plain name)
    (h : value fuel ('{' :: '"' :: (name.toList ++ '"' :: ':' :: ' ' :: '"' ::
      (s.toList ++ ['"', '}']))) = some (d, rest)) :
    (∃ w, d.HasMember name w) ∧ (d.HasMember name (.str s) → Plain s) := by
  obtain ⟨f, k, t₁, t₂, v, t₃, hk, hcolon, hv, hrest, hfirst, hget⟩ := value_object h
  rw [string_plain hn] at hk
  cases hk
  cases hcolon
  refine ⟨hfirst, fun hs => ?_⟩
  have hweight := value_weight hv
  have hlen : (skip (' ' :: '"' :: (s.toList ++ ['"', '}']))).length = s.toList.length + 3 := by
    show ('"' :: (s.toList ++ ['"', '}'])).length = _
    simp
  obtain ⟨_, rfl⟩ | hroom := hget _ _ hs
  · obtain ⟨t, ht, hstr⟩ := value_eq_str hv
    cases ht
    refine (string_tight hstr ?_).1
    simp
    omega
  · simp only [weight] at hroom
    omega

theorem skip_tight (h : text.length ≤ (skip text).length) : skip text = text :=
  (List.dropWhile_suffix _).eq_of_length (Nat.le_antisymm (skip_length text) h)

/-- A colon that takes one character has no spaces around it. -/
theorem colon_tight (h : colon text = some rest) (hlen : text.length ≤ rest.length + 1) :
    text = ':' :: rest := by
  unfold colon at h
  split at h
  · rename_i r heq
    cases h
    have h₁ := skip_length text
    have h₂ := skip_length r
    rw [heq, List.length_cons] at h₁
    have hr : skip r = r := skip_tight (by omega)
    have ht : skip text = text := skip_tight (by rw [heq, List.length_cons]; omega)
    rw [hr, ← ht, heq]
  · cases h

/-- If a text between plain strings can be cut at its quotes in another way, the
parts of the other cut are plain as well: there are not enough quotes. -/
theorem plain_of_cut {a b c d : List Char}
    (h : a ++ '"' :: ':' :: '"' :: (b ++ ['"', '}', '}']) =
      c ++ '"' :: ':' :: '"' :: (d ++ ['"', '}', '}']))
    (ha : a.all plainChar = true) (hb : b.all plainChar = true) :
    c.all plainChar = true ∧ d.all plainChar = true := by
  have hnone : ∀ l : List Char, l.all plainChar = true → l.count '"' = 0 := by
    intro l hl
    exact List.count_eq_zero.mpr fun hm => absurd (List.all_eq_true.mp hl _ hm) (by decide)
  have hcount := congrArg (List.count '"') h
  simp [List.count_append, hnone a ha, hnone b hb] at hcount
  have hplain : ∀ x, x ∈ c ∨ x ∈ d → x ≠ '"' → plainChar x = true := by
    intro x hx hq
    have hmem : x ∈ a ++ '"' :: ':' :: '"' :: (b ++ ['"', '}', '}']) := by
      rw [h]
      rcases hx with hx | hx <;> simp [hx]
    simp only [List.mem_append, List.mem_cons, List.not_mem_nil, or_false] at hmem
    rcases hmem with hx | rfl | rfl | rfl | hx | rfl | rfl | rfl
    · exact List.all_eq_true.mp ha x hx
    · exact absurd rfl hq
    · decide
    · exact absurd rfl hq
    · exact List.all_eq_true.mp hb x hx
    · exact absurd rfl hq
    · decide
    · decide
  have hcut : ∀ l : List Char, l.count '"' = 0 → (∀ x ∈ l, x ∈ c ∨ x ∈ d) →
      l.all plainChar = true := by
    intro l hl hsub
    refine List.all_eq_true.mpr fun x hx => hplain x (hsub x hx) ?_
    rintro rfl
    exact List.count_eq_zero.mp hl hx
  exact ⟨hcut c (by omega) fun x hx => .inl hx, hcut d (by omega) fun x hx => .inr hx⟩

/-- A name and a string spliced into an object within an object, where the object
holds no shorter a string under no shorter a name, are plain. -/
theorem nested_tight {d : Jsonb} {k₀ v₀ : String} (hn : Plain name)
    (h : value fuel ('{' :: '"' :: (name.toList ++ '"' :: ':' :: '{' :: '"' ::
      (k₀.toList ++ '"' :: ':' :: '"' :: (v₀.toList ++ ['"', '}', '}'])))) = some (d, rest)) :
    (∃ e, d.HasMember name e) ∧ ∀ e k s, d.HasMember name e → e.HasMember k (.str s) →
      k₀.toList.length + v₀.toList.length ≤ k.toList.length + s.toList.length →
      Plain k₀ ∧ Plain v₀ := by
  obtain ⟨f, n, t₁, t₂, v, t₃, hname, hcolon, hv, hrest, hfirst, hget⟩ := value_object h
  rw [string_plain hn] at hname
  cases hname
  cases hcolon
  refine ⟨hfirst, fun e k s he hs hlen => ?_⟩
  change value f ('{' :: '"' :: _) = _ at hv
  have hinner : k.toList.length + s.toList.length + 7 ≤ weight e := by
    obtain ⟨ms, rfl, hm⟩ := hs
    have := le_membersWeight hm
    simp only [weight] at this ⊢
    omega
  have hvw := value_weight hv
  obtain ⟨_, rfl⟩ | hroom := hget _ _ he
  swap
  · simp at hvw
    omega
  obtain ⟨f', k', u₁, u₂, w, u₃, hk, hcolon, hw, ht₃, _, hget'⟩ := value_object hv
  have h₁ := string_length hk
  have h₂ := colon_length hcolon
  have hww := value_weight hw
  obtain ⟨rfl, rfl⟩ | hroom := hget' _ _ hs
  swap
  · simp [weight] at hroom h₁
    omega
  obtain ⟨t, rfl, ht⟩ := value_eq_str hw
  have h₃ := string_length ht
  simp only [List.length_append, List.length_cons, List.length_nil] at h₁ h₂ h₃
  obtain ⟨hkp, hkt⟩ := string_tight hk (by simp; omega)
  obtain ⟨hsp, hst⟩ := string_tight ht (by omega)
  have hu₁ := colon_tight hcolon (by simp; omega)
  subst hu₁ hst
  have hend : u₃ = ['}', '}'] := by
    have hsplit : (k₀.toList ++ '"' :: ':' :: '"' :: (v₀.toList ++ ['"'])) ++ ['}', '}'] =
        (k.toList ++ '"' :: ':' :: '"' :: (s.toList ++ ['"'])) ++ u₃ := by
      simpa using hkt
    have hl := congrArg List.length hsplit
    simp only [List.length_append, List.length_cons, List.length_nil] at hl h₁
    exact (List.append_inj' hsplit (by simp; omega)).2.symm
  subst hend
  exact plain_of_cut hkt.symm hkp hsp

theorem parse_member_tight {t : String} (hn : Plain name)
    (ht : t.toList = '{' :: '"' :: (name.toList ++ '"' :: ':' :: ' ' :: '"' ::
      (s.toList ++ ['"', '}']))) (h : parse t = some v) :
    (∃ w, v.HasMember name w) ∧ (v.HasMember name (.str s) → Plain s) := by
  obtain ⟨_, _, hv⟩ := value_of_parse ht h
  exact member_tight hn hv

theorem parse_nested_tight {t k₀ v₀ : String} (hn : Plain name)
    (ht : t.toList = '{' :: '"' :: (name.toList ++ '"' :: ':' :: '{' :: '"' ::
      (k₀.toList ++ '"' :: ':' :: '"' :: (v₀.toList ++ ['"', '}', '}'])))) (h : parse t = some v) :
    (∃ e, v.HasMember name e) ∧ ∀ e k s, v.HasMember name e → e.HasMember k (.str s) →
      k₀.toList.length + v₀.toList.length ≤ k.toList.length + s.toList.length →
      Plain k₀ ∧ Plain v₀ := by
  obtain ⟨_, _, hv⟩ := value_of_parse ht h
  exact nested_tight hn hv

end Json
