import Mathlib.Algebra.Group.Int.Defs
import Mathlib.Data.List.Basic

/-! JSON values as a database keeps them.

A `Jsonb` is a document after parsing: members of an object have distinct names
and numbers are decimals. Three questions are asked of a document: what a member
holds (`get?`), whether it contains another document (`contains`, the operator
`@>`), and whether a path of member names leads anywhere (`laxMembers`, one step
of a path in lax mode). Containment is asked of documents of the same shape; the
one exception the database makes, an array that contains a bare scalar, needs a
pattern that is a bare scalar. -/

/-- The decimal `mantissa / 10 ^ scale`. -/
structure Numeric where
  mantissa : Int
  scale : Nat
deriving DecidableEq, Repr

/-- Equality of decimals: trailing zeros do not count. -/
def Numeric.same (a b : Numeric) : Bool := a.mantissa * 10 ^ b.scale == b.mantissa * 10 ^ a.scale

/-- The decimal notation, with as many digits after the point as the scale says. -/
def Numeric.text (n : Numeric) : String :=
  let digits := Nat.toDigits 10 n.mantissa.natAbs
  let padded := List.replicate (n.scale + 1 - digits.length) '0' ++ digits
  let whole := padded.take (padded.length - n.scale)
  let fraction := padded.drop (padded.length - n.scale)
  String.ofList ((if n.mantissa < 0 then ['-'] else []) ++ whole ++
    if n.scale = 0 then [] else '.' :: fraction)

inductive Jsonb where
  | null
  | bool (b : Bool)
  | num (n : Numeric)
  | str (s : String)
  | arr (items : List Jsonb)
  | obj (members : List (String × Jsonb))

theorem List.lookup_map_snd {α β : Type} (entries : List (String × α)) (g : α → β) (key : String) :
    (entries.map fun e => (e.1, g e.2)).lookup key = (entries.lookup key).map g := by
  induction entries with
  | nil => rfl
  | cons e rest ih =>
    rw [List.map_cons, List.lookup_cons, List.lookup_cons, ih]
    cases key == e.1 <;> rfl

namespace Jsonb

/-- What an object holds under a name. -/
def get? : Jsonb → String → Option Jsonb
  | .obj members, name => members.lookup name
  | _, _ => none

/-- The members with one of them set. -/
def setMember (members : List (String × Jsonb)) (name : String) (v : Jsonb) :
    List (String × Jsonb) :=
  members.filter (fun m => m.1 != name) ++ [(name, v)]

theorem lookup_setMember (members : List (String × Jsonb)) (name : String) (v : Jsonb)
    (key : String) :
    (setMember members name v).lookup key = if key = name then some v else members.lookup key := by
  unfold setMember
  induction members with
  | nil =>
    by_cases h : key = name
    · simp [h]
    · have : (key == name) = false := by simpa using h
      simp [List.lookup_cons, h, this]
  | cons m rest ih =>
    by_cases hm : m.1 = name
    · rw [List.filter_cons_of_neg (by simp [hm]), ih, List.lookup_cons]
      by_cases h : key = name
      · simp [h]
      · have : (key == m.1) = false := by simpa [hm] using h
        simp [h, this]
    · rw [List.filter_cons_of_pos (by simp [hm]), List.cons_append, List.lookup_cons, ih, List.lookup_cons]
      by_cases h : key = m.1
      · have : ¬ key = name := h ▸ hm
        simp [h, hm]
      · have : (key == m.1) = false := by simpa using h
        simp [this]

/-- A scalar as text. -/
def scalarText : Jsonb → Option String
  | .str s => some s
  | .num n => some n.text
  | .bool b => some (if b then "true" else "false")
  | _ => none

/-- The document is an object with this member. -/
def HasMember (d : Jsonb) (name : String) (v : Jsonb) : Prop :=
  ∃ members, d = .obj members ∧ (name, v) ∈ members

/-- Of several members of one name the last one counts. -/
def lastOfEach : List (String × Jsonb) → List (String × Jsonb)
  | [] => []
  | (name, v) :: rest =>
    if (rest.map Prod.fst).contains name then lastOfEach rest else (name, v) :: lastOfEach rest

mutual

/-- `d.contains p`: the document `d` contains the pattern `p`. -/
def contains : Jsonb → Jsonb → Bool
  | .obj members, .obj pattern => containsMembers members pattern
  | .arr items, .arr pattern => containsItems items pattern
  | .null, .null => true
  | .bool a, .bool b => a == b
  | .num a, .num b => a.same b
  | .str a, .str b => a == b
  | _, _ => false

def containsMembers (members : List (String × Jsonb)) : List (String × Jsonb) → Bool
  | [] => true
  | (name, p) :: rest =>
    (match members.lookup name with
      | some v => v.contains p
      | none => false) && containsMembers members rest

def containsItems (items : List Jsonb) : List Jsonb → Bool
  | [] => true
  | p :: rest => items.any (fun v => v.contains p) && containsItems items rest

end

/-- What one step of a path in lax mode reaches: the member of that name, where
an array stands for its elements. -/
def laxMembers (name : String) : Jsonb → List Jsonb
  | .obj members => (members.lookup name).toList
  | .arr items => items.flatMap fun v => (v.get? name).toList
  | _ => []

variable {d v : Jsonb} {name s : String} {members pattern : List (String × Jsonb)}

@[simp] theorem get?_obj : (Jsonb.obj members).get? name = members.lookup name := rfl

theorem get?_eq_some (h : d.get? name = some v) :
    ∃ members, d = .obj members ∧ members.lookup name = some v := by
  cases d with
  | obj members => exact ⟨members, rfl, h⟩
  | _ => cases h

theorem containsMembers_iff : containsMembers members pattern = true ↔
    ∀ q ∈ pattern, ∃ v, members.lookup q.1 = some v ∧ v.contains q.2 = true := by
  induction pattern with
  | nil => simp [containsMembers]
  | cons q rest ih =>
    obtain ⟨name, p⟩ := q
    simp only [containsMembers, Bool.and_eq_true, ih, List.forall_mem_cons]
    refine and_congr ?_ Iff.rfl
    cases members.lookup name <;> simp

theorem containsItems_iff {items patterns : List Jsonb} : containsItems items patterns = true ↔
    ∀ p ∈ patterns, ∃ v ∈ items, v.contains p = true := by
  induction patterns with
  | nil => simp [containsItems]
  | cons p rest ih => simp [containsItems, ih]

/-- An object pattern asks each of its members of the document. -/
theorem contains_obj_iff : d.contains (.obj pattern) = true ↔
    (∃ members, d = .obj members) ∧
      ∀ q ∈ pattern, ∃ v, d.get? q.1 = some v ∧ v.contains q.2 = true := by
  cases d with
  | obj members => simp [contains, containsMembers_iff]
  | _ => simp [contains]

theorem str_contains {p : Jsonb} : (Jsonb.str s).contains p = true ↔ p = .str s := by
  cases p with
  | str t =>
    show (s == t) = true ↔ _
    simp only [beq_iff_eq, Jsonb.str.injEq]
    exact eq_comm
  | _ => simp [contains]

/-- Every member of a pattern is asked for. -/
theorem contains_hasMember {p q : Jsonb} (h : d.contains p = true) (hm : p.HasMember name q) :
    ∃ v, d.get? name = some v ∧ v.contains q = true := by
  obtain ⟨pattern, rfl, hmem⟩ := hm
  exact (contains_obj_iff.mp h).2 _ hmem

/-- Where one object contains a pattern and another does not, a member of the
pattern makes the difference. -/
theorem contains_change {members' : List (String × Jsonb)} {p : Jsonb}
    (h : (Jsonb.obj members).contains p = true) (h' : ¬ (Jsonb.obj members').contains p = true) :
    ∃ name q v, p.HasMember name q ∧ members.lookup name = some v ∧ v.contains q = true ∧
      ∀ v', members'.lookup name = some v' → ¬ v'.contains q = true := by
  cases p with
  | obj pattern =>
    have hall := (contains_obj_iff.mp h).2
    by_contra hno
    refine h' (contains_obj_iff.mpr ⟨⟨_, rfl⟩, fun q hq => ?_⟩)
    obtain ⟨v, hv, hvq⟩ := hall q hq
    by_contra hnone
    refine hno ⟨q.1, q.2, v, ⟨_, rfl, hq⟩, hv, hvq, fun v' hv' hvq' => ?_⟩
    exact hnone ⟨v', hv', hvq'⟩
  | _ => simp [contains] at h

/-- A pattern of one member asks only for that member. -/
theorem contains_member {p : Jsonb} : d.contains (.obj [(name, p)]) = true ↔
    ∃ v, d.get? name = some v ∧ v.contains p = true := by
  rw [contains_obj_iff]
  constructor
  · rintro ⟨_, h⟩
    exact h (name, p) (by simp)
  · rintro ⟨v, hv, hp⟩
    obtain ⟨members, rfl, _⟩ := get?_eq_some hv
    exact ⟨⟨members, rfl⟩, by simpa using ⟨v, hv, hp⟩⟩

@[simp] theorem contains_str : d.contains (.str s) = true ↔ d = .str s := by
  cases d <;> simp [contains]

theorem contains_member_str : d.contains (.obj [(name, .str s)]) = true ↔
    d.get? name = some (.str s) := by
  simp [contains_member]

/-- A pattern of strings asks each of them of an array. -/
theorem contains_strs {ss : List String} : d.contains (.arr (ss.map .str)) = true ↔
    ∃ items, d = .arr items ∧ ∀ s ∈ ss, .str s ∈ items := by
  cases d with
  | arr items =>
    rw [show (Jsonb.arr items).contains (.arr (ss.map .str)) = containsItems items (ss.map .str)
      from rfl, containsItems_iff]
    simp
  | _ => simp [contains]

theorem mem_of_mem_lastOfEach {q : String × Jsonb} (h : q ∈ lastOfEach members) : q ∈ members := by
  induction members with
  | nil => cases h
  | cons x rest ih =>
    simp only [lastOfEach] at h
    split at h
    · exact List.mem_cons_of_mem _ (ih h)
    · rcases List.mem_cons.mp h with rfl | h
      · exact List.mem_cons_self ..
      · exact List.mem_cons_of_mem _ (ih h)

/-- Every name that occurs keeps a member. -/
theorem names_lastOfEach : name ∈ (lastOfEach members).map Prod.fst ↔
    name ∈ members.map Prod.fst := by
  induction members with
  | nil => simp [lastOfEach]
  | cons x rest ih =>
    obtain ⟨k, v⟩ := x
    simp only [lastOfEach]
    by_cases hc : (rest.map Prod.fst).contains k = true
    · rw [if_pos hc, ih]
      simp only [List.map_cons, List.mem_cons]
      constructor
      · exact Or.inr
      · rintro (rfl | h)
        · simpa using hc
        · exact h
    · rw [if_neg hc]
      simp only [List.map_cons, List.mem_cons, ih]

end Jsonb
