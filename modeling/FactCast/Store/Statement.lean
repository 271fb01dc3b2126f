import FactCast.Core.Spec

/-! What a database makes of a prepared statement over the table `fact`.

A condition is a disjunction of conjunctions, each conjunct with one placeholder,
and ` AND ser>?` at its end (`Where`). Placeholders are numbered from one in the
order they stand in the text. A text parameter is cast to a document or to a
path, which fails the statement if the text is malformed; what is left is a
predicate on rows.

`Where.execute` binds by number. `execute_of_bound` reads it by place: if the
parameters, in the order of their numbers, are those the criteria stand with,
then a row is selected when every criterion of some disjunct holds of its header
and its serial is above the last parameter. -/
namespace FactCast

/-! ### Parameters -/

inductive Param where
  | string (s : String)
  | long (n : Int)
deriving DecidableEq

/-- The parameters set so far, each with its number. -/
structure PreparedStatement where
  params : List (Nat × Param)
deriving DecidableEq

namespace PreparedStatement

def setString (p : PreparedStatement) (index : Nat) (s : String) : PreparedStatement :=
  ⟨p.params ++ [(index, .string s)]⟩

def setLong (p : PreparedStatement) (index : Nat) (n : Int) : PreparedStatement :=
  ⟨p.params ++ [(index, .long n)]⟩

/-- What the placeholder of a number is bound to. -/
def bound (p : PreparedStatement) (index : Nat) : Option Param := p.params.lookup index

end PreparedStatement

/-- Parameters numbered from `n` on. -/
def numbered : Nat → List Param → List (Nat × Param)
  | _, [] => []
  | n, v :: vs => (n, v) :: numbered (n + 1) vs

theorem numbered_append (n : Nat) (vs ws : List Param) :
    numbered n (vs ++ ws) = numbered n vs ++ numbered (n + vs.length) ws := by
  induction vs generalizing n with
  | nil => rfl
  | cons v vs ih =>
    simp only [List.cons_append, numbered, ih, List.length_cons]
    rw [Nat.add_assoc, Nat.add_comm 1]

theorem lookup_numbered (n k : Nat) (vs : List Param) :
    (numbered n vs).lookup (n + k) = vs[k]? := by
  induction vs generalizing n k with
  | nil => rfl
  | cons v vs ih =>
    cases k with
    | zero => simp [numbered]
    | succ k =>
      have hne : (n + (k + 1) == n) = false := by simp
      rw [numbered, List.lookup_cons, hne]
      show (numbered (n + 1) vs).lookup (n + (k + 1)) = vs[k]?
      rw [← ih (n + 1) k]
      congr 1
      omega

/-! ### Conditions -/

/-- Paths as the database reads them. All that is assumed of them is where two
quoted member names lead: to what the one reaches in lax mode below what the
other reaches. -/
structure JsonPath where
  /-- The test whether a path finds anything, unless the path is malformed. -/
  compile : String → Option (Jsonb → Bool)
  members : ∀ a b : String, (∀ c ∈ a.toList ++ b.toList, c ≠ '"' ∧ c ≠ '\\' ∧ c.toNat ≠ 0) →
    compile ("$.\"" ++ a ++ "\".\"" ++ b ++ "\"") =
      some fun d => !((d.laxMembers a).flatMap fun m => m.laxMembers b).isEmpty

namespace JsonPath

/-- The characters before the next quote, and the text after it. -/
def untilQuote : List Char → Option (List Char × List Char)
  | [] => none
  | c :: rest =>
    if c = '"' then some ([], rest)
    else if c = '\\' ∨ c.toNat = 0 then none
    else (untilQuote rest).map fun r => (c :: r.1, r.2)

theorem untilQuote_append {cs rest : List Char}
    (h : ∀ c ∈ cs, c ≠ '"' ∧ c ≠ '\\' ∧ c.toNat ≠ 0) :
    untilQuote (cs ++ '"' :: rest) = some (cs, rest) := by
  induction cs with
  | nil => rfl
  | cons c cs ih =>
    obtain ⟨hq, hb, hz⟩ := h c (by simp)
    rw [List.cons_append, untilQuote, if_neg hq, if_neg (by simp [hb, hz]),
      ih fun x hx => h x (by simp [hx])]
    rfl

/-- The two names of a path that is two quoted names and nothing else. -/
def twoNames : List Char → Option (String × String)
  | '$' :: '.' :: '"' :: text =>
    match untilQuote text with
    | some (a, '.' :: '"' :: text) =>
      match untilQuote text with
      | some (b, []) => some (String.ofList a, String.ofList b)
      | _ => none
    | _ => none
  | _ => none

/-- The paths that are two quoted names, and no other. -/
def quoted : JsonPath where
  compile s := (twoNames s.toList).map fun names d =>
    !((d.laxMembers names.1).flatMap fun m => m.laxMembers names.2).isEmpty
  members a b h := by
    have ha : ∀ c ∈ a.toList, c ≠ '"' ∧ c ≠ '\\' ∧ c.toNat ≠ 0 := fun c hc => h c (by simp [hc])
    have hb : ∀ c ∈ b.toList, c ≠ '"' ∧ c ≠ '\\' ∧ c.toNat ≠ 0 := fun c hc => h c (by simp [hc])
    have hnames : twoNames ("$.\"" ++ a ++ "\".\"" ++ b ++ "\"").toList = some (a, b) := by
      simp [twoNames, untilQuote_append ha, untilQuote_append hb]
    rw [hnames]
    rfl

end JsonPath

/-- A conjunct with its placeholder. -/
inductive Conjunct where
  /-- `header @> ?::jsonb` -/
  | contains
  /-- `jsonb_path_exists(header, ?::jsonpath)`, or its negation -/
  | path (exists_ : Bool)
deriving DecidableEq

def Conjunct.text : Conjunct → String
  | .contains => " AND header @> ?::jsonb"
  | .path exists_ =>
    " AND " ++ (if exists_ then "" else "NOT ") ++ "jsonb_path_exists(header, ?::jsonpath)"

/-- What a conjunct asks of a header once its placeholder is bound, unless the
parameter cannot be cast. -/
def Conjunct.test (jp : JsonPath) : Conjunct → Param → Option (Jsonb → Bool)
  | .contains, .string s => (Json.parse s).map fun pattern d => d.contains pattern
  | .path exists_, .string s => (jp.compile s).map fun test d => test d == exists_
  | _, .long _ => none

/-- The conjuncts of each disjunct, in the order they stand in the text. -/
structure Where where
  disjuncts : List (List Conjunct)

namespace Where

def disjunctText (cs : List Conjunct) : String := "(1=1" ++ String.join (cs.map Conjunct.text) ++ ")"

def text (w : Where) : String :=
  "( " ++ String.intercalate " OR " (w.disjuncts.map disjunctText) ++ " ) AND ser>?"

/-- How many placeholders stand before the one of ` AND ser>?`. -/
def placeholders (w : Where) : Nat := w.disjuncts.flatten.length

/-- The text has a placeholder for every conjunct, and one for the serial. -/
theorem count_text (w : Where) : w.text.toList.count '?' = w.placeholders + 1 := by
  have hconjunct : ∀ c : Conjunct, c.text.toList.count '?' = 1 := by
    intro c
    cases c with
    | contains => decide
    | path exists_ => cases exists_ <;> decide
  have hdisjunct : ∀ cs : List Conjunct, (disjunctText cs).toList.count '?' = cs.length := by
    intro cs
    have hopen : "(1=1".toList.count '?' = 0 := by decide
    have hclose : ")".toList.count '?' = 0 := by decide
    simp only [disjunctText, String.toList_append, List.count_append, hopen, hclose]
    induction cs with
    | nil => rfl
    | cons c cs ih =>
      simp only [List.map_cons, String.join_cons, String.toList_append, List.count_append,
        hconjunct, List.length_cons]
      omega
  have hopen : "( ".toList.count '?' = 0 := by decide
  have hclose : " ) AND ser>?".toList.count '?' = 1 := by decide
  have hor : " OR ".toList.count '?' = 0 := by decide
  simp only [text, placeholders, String.toList_append, List.count_append, hopen, hclose]
  induction w.disjuncts with
  | nil => rfl
  | cons cs css ih =>
    cases css with
    | nil => simp [hdisjunct]
    | cons ds css =>
      simp only [List.map_cons, String.intercalate_cons_cons, String.toList_append,
        List.count_append, hdisjunct, hor, List.flatten_cons, List.length_append] at ih ⊢
      omega

/-- The tests of conjuncts whose placeholders have the numbers after `n`. -/
def testsFrom (jp : JsonPath) (p : PreparedStatement) : Nat → List Conjunct →
    Option (List (Jsonb → Bool))
  | _, [] => some []
  | n, c :: cs => do
    let test ← c.test jp (← p.bound (n + 1))
    return test :: (← testsFrom jp p (n + 1) cs)

def disjunctsFrom (jp : JsonPath) (p : PreparedStatement) : Nat → List (List Conjunct) →
    Option (List (Jsonb → Bool))
  | _, [] => some []
  | n, cs :: rest => do
    let tests ← testsFrom jp p n cs
    return (fun d => tests.all fun test => test d) :: (← disjunctsFrom jp p (n + cs.length) rest)

/-- The rows a condition selects. Without any disjunct its text is no SQL, and a
parameter that is missing or cannot be cast is an error as well. -/
def execute (jp : JsonPath) (w : Where) (p : PreparedStatement) : Option (FactRow → Bool) :=
  if w.disjuncts.isEmpty then none
  else (disjunctsFrom jp p 0 w.disjuncts).bind fun tests =>
    match p.bound (w.placeholders + 1) with
    | some (.long serial) => some fun row =>
      tests.any (fun test => test row.fact.header.json) && decide (serial < row.ser)
    | _ => none

end Where

/-! ### Criteria -/

/-- A conjunct and the text meant for its placeholder. -/
structure Criterion where
  conjunct : Conjunct
  text : String
deriving DecidableEq

namespace Criterion

def test (jp : JsonPath) (c : Criterion) : Option (Jsonb → Bool) := c.conjunct.test jp (.string c.text)

/-- The text can be cast. -/
def WellFormed (jp : JsonPath) (c : Criterion) : Prop := (c.test jp).isSome = true

instance (jp : JsonPath) (c : Criterion) : Decidable (c.WellFormed jp) :=
  inferInstanceAs (Decidable ((c.test jp).isSome = true))

def holds (jp : JsonPath) (c : Criterion) (d : Jsonb) : Bool := (c.test jp).any fun test => test d

variable {jp : JsonPath} {c : Criterion} {d : Jsonb}

theorem test_contains {s : String} {pattern : Jsonb} (h : Json.parse s = some pattern) :
    (⟨.contains, s⟩ : Criterion).test jp = some fun d => d.contains pattern := by
  simp [test, Conjunct.test, h]

theorem test_path {s : String} {exists_ : Bool} {find : Jsonb → Bool} (h : jp.compile s = some find) :
    (⟨.path exists_, s⟩ : Criterion).test jp = some fun d => find d == exists_ := by
  simp [test, Conjunct.test, h]

theorem wellFormed_of_test {test : Jsonb → Bool} (h : c.test jp = some test) : c.WellFormed jp := by
  simp [WellFormed, h]

theorem holds_of_test {test : Jsonb → Bool} (h : c.test jp = some test) : c.holds jp = test := by
  funext d
  simp [holds, h]

end Criterion

namespace Where
variable {jp : JsonPath} {p : PreparedStatement}

/-- The placeholders after `n` are bound, in order, to the texts of the criteria. -/
def BoundFrom (p : PreparedStatement) (n : Nat) (cs : List Criterion) : Prop :=
  ∀ k c, cs[k]? = some c → p.bound (n + 1 + k) = some (.string c.text)

theorem BoundFrom.left {n : Nat} {cs ds : List Criterion} (h : BoundFrom p n (cs ++ ds)) :
    BoundFrom p n cs := by
  intro k c hc
  obtain ⟨hk, _⟩ := List.getElem?_eq_some_iff.mp hc
  exact h k c (by rw [List.getElem?_append_left hk, hc])

theorem BoundFrom.right {n : Nat} {cs ds : List Criterion} (h : BoundFrom p n (cs ++ ds)) :
    BoundFrom p (n + cs.length) ds := by
  intro k c hc
  have := h (cs.length + k) c (by rw [List.getElem?_append_right (by omega)]; simpa using hc)
  rw [← this]
  congr 1
  omega

theorem testsFrom_of_bound {n : Nat} {cs : List Criterion} (h : BoundFrom p n cs) :
    testsFrom jp p n (cs.map Criterion.conjunct) =
      if ∀ c ∈ cs, c.WellFormed jp then some (cs.map fun c => c.holds jp) else none := by
  induction cs generalizing n with
  | nil => rfl
  | cons c cs ih =>
    have hbound : p.bound (n + 1) = some (.string c.text) := h 0 c rfl
    have htail := ih (n := n + 1) (BoundFrom.right (show BoundFrom p n ([c] ++ cs) from h))
    have hstep : testsFrom jp p n ((c :: cs).map Criterion.conjunct) =
        (c.test jp).bind fun test =>
          (testsFrom jp p (n + 1) (cs.map Criterion.conjunct)).bind fun tests => some (test :: tests) := by
      simp only [List.map_cons, testsFrom, hbound]
      rfl
    rw [hstep, htail]
    cases ht : c.test jp with
    | none =>
      have hbad : ¬ ∀ x ∈ c :: cs, x.WellFormed jp := by
        intro hall
        have := hall c (by simp)
        simp [Criterion.WellFormed, ht] at this
      rw [if_neg hbad]
      rfl
    | some test =>
      have hc : c.WellFormed jp := by simp [Criterion.WellFormed, ht]
      rw [List.map_cons, Criterion.holds_of_test ht]
      by_cases hall : ∀ x ∈ cs, x.WellFormed jp
      · rw [if_pos hall, if_pos (by simpa using ⟨hc, hall⟩)]
        rfl
      · rw [if_neg hall, if_neg (fun h => hall fun x hx => h x (by simp [hx]))]
        rfl

theorem disjunctsFrom_of_bound {n : Nat} {css : List (List Criterion)}
    (h : BoundFrom p n css.flatten) :
    disjunctsFrom jp p n (css.map fun cs => cs.map Criterion.conjunct) =
      if ∀ cs ∈ css, ∀ c ∈ cs, c.WellFormed jp then
        some (css.map fun cs d => cs.all fun c => c.holds jp d)
      else none := by
  induction css generalizing n with
  | nil => rfl
  | cons cs css ih =>
    rw [List.flatten_cons] at h
    simp only [List.map_cons, disjunctsFrom, testsFrom_of_bound h.left, List.length_map,
      ih h.right]
    have hholds : (fun d => (cs.map fun c => c.holds jp).all fun test => test d) =
        fun d => cs.all fun c => c.holds jp d := by
      funext d
      rw [List.all_map]
      rfl
    by_cases hcs : ∀ c ∈ cs, c.WellFormed jp
    · by_cases hall : ∀ ds ∈ css, ∀ c ∈ ds, c.WellFormed jp
      · have hboth : ∀ ds ∈ cs :: css, ∀ c ∈ ds, c.WellFormed jp :=
          List.forall_mem_cons.mpr ⟨hcs, hall⟩
        rw [if_pos hcs, if_pos hall, if_pos hboth, ← hholds]
        rfl
      · have hbad : ¬ ∀ ds ∈ cs :: css, ∀ c ∈ ds, c.WellFormed jp :=
          fun h => hall (List.forall_mem_cons.mp h).2
        rw [if_pos hcs, if_neg hall, if_neg hbad]
        rfl
    · have hbad : ¬ ∀ ds ∈ cs :: css, ∀ c ∈ ds, c.WellFormed jp :=
        fun h => hcs (List.forall_mem_cons.mp h).1
      rw [if_neg hcs, if_neg hbad]
      rfl

/-- If the parameters are the criteria's texts in order, and a serial, a row is
selected when some disjunct's criteria all hold of it and it lies above the
serial. -/
theorem execute_of_bound {css : List (List Criterion)} {serial : Int}
    (h : p.params = numbered 1 (css.flatten.map (fun c => .string c.text) ++ [.long serial])) :
    execute jp ⟨css.map fun cs => cs.map Criterion.conjunct⟩ p =
      if css ≠ [] ∧ ∀ cs ∈ css, ∀ c ∈ cs, c.WellFormed jp then
        some fun row => (css.any fun cs => cs.all fun c => c.holds jp row.fact.header.json) &&
          decide (serial < row.ser)
      else none := by
  have hbound : ∀ k, p.bound (1 + k) =
      (css.flatten.map (fun c => Param.string c.text) ++ [.long serial])[k]? := fun k => by
    rw [PreparedStatement.bound, h, lookup_numbered]
  have hcs : BoundFrom p 0 css.flatten := by
    intro k c hc
    obtain ⟨hk, _⟩ := List.getElem?_eq_some_iff.mp hc
    rw [Nat.zero_add, hbound, List.getElem?_append_left (by rwa [List.length_map]),
      List.getElem?_map, hc]
    rfl
  have hserial : p.bound ((⟨css.map fun cs => cs.map Criterion.conjunct⟩ : Where).placeholders + 1) =
      some (.long serial) := by
    have hlen : (⟨css.map fun cs => cs.map Criterion.conjunct⟩ : Where).placeholders = css.flatten.length := by
      simp [placeholders, List.length_flatten, Function.comp_def]
    rw [hlen, Nat.add_comm, hbound, List.getElem?_append_right (by rw [List.length_map]),
      List.length_map, Nat.sub_self]
    rfl
  cases css with
  | nil => rfl
  | cons cs css =>
    rw [execute, if_neg (by simp), disjunctsFrom_of_bound hcs]
    by_cases hall : ∀ ds ∈ cs :: css, ∀ c ∈ ds, c.WellFormed jp
    · rw [if_pos hall, if_pos ⟨by simp, hall⟩, Option.bind_some, hserial]
      simp [Function.comp_def]
    · rw [if_neg hall, if_neg fun h => hall h.2]
      rfl

end Where
end FactCast
