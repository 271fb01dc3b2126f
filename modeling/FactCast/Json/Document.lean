import FactCast.Json.Parser
import Mathlib.Data.List.Forall2

/-! JSON documents as they are written.

A `Document` is the tree of a text: numbers are literals, and names may be repeated in
an object. A database that keeps what a text says (`toJsonb`) writes it down in its own
way (`Jsonb.document`). What is read then is `stored`: strings are what they were, and
so is a number whose literal is that of its decimal (`asWritten`). -/

inductive Document where
  | null
  | bool (b : Bool)
  | num (literal : String)
  | str (s : String)
  | arr (items : List Document)
  | obj (members : List (String × Document))

/-! ### The last member of a name -/

section Last
variable {α β : Type}

/-- Of several members of one name the last one counts. -/
def lastMember (members : List (String × α)) (name : String) : Option α := members.reverse.lookup name

variable {members : List (String × α)} {name key : String} {v : α}

@[simp] theorem lastMember_nil : lastMember ([] : List (String × α)) name = none := rfl

theorem lastMember_append (front back : List (String × α)) :
    lastMember (front ++ back) name = (lastMember back name).or (lastMember front name) := by
  rw [lastMember, List.reverse_append, List.lookup_append]
  rfl

theorem lastMember_singleton : lastMember [(key, v)] name = if name = key then some v else none := by
  by_cases h : name = key
  · simp [lastMember, h]
  · have hne : (name == key) = false := by simpa using h
    simp [lastMember, List.lookup_cons, h, hne]

theorem lastMember_cons : lastMember ((key, v) :: members) name =
    (lastMember members name).or (if name = key then some v else none) := by
  rw [show (key, v) :: members = [(key, v)] ++ members from rfl, lastMember_append, lastMember_singleton]

theorem lastMember_map (f : α → β) : lastMember (members.map fun m => (m.1, f m.2)) name =
    (lastMember members name).map f := by
  induction members with
  | nil => rfl
  | cons m rest ih =>
    rw [List.map_cons, lastMember_cons, ih, lastMember_cons]
    cases lastMember rest name with
    | some _ => rfl
    | none =>
      rw [Option.none_or, Option.map_none, Option.none_or]
      split <;> rfl

theorem lastMember_eq_none : lastMember members name = none ↔ name ∉ members.map Prod.fst := by
  induction members with
  | nil => simp
  | cons m rest ih =>
    rw [lastMember_cons, Option.or_eq_none_iff, ih, List.map_cons, List.mem_cons, not_or, and_comm]
    simp

/-- A member whose name follows again does not count. -/
theorem lastMember_cons_of_mem (h : key ∈ members.map Prod.fst) :
    lastMember ((key, v) :: members) name = lastMember members name := by
  rw [lastMember_cons]
  split
  · rename_i heq
    cases hfound : lastMember members name with
    | none => exact absurd (heq ▸ h) (lastMember_eq_none.mp hfound)
    | some _ => rfl
  · rw [Option.or_none]

/-- A member whose name does not follow again counts for its name. -/
theorem lastMember_cons_of_not_mem (h : key ∉ members.map Prod.fst) :
    lastMember ((key, v) :: members) name = if name = key then some v else lastMember members name := by
  rw [lastMember_cons]
  split
  · rename_i heq
    rw [heq, lastMember_eq_none.mpr h, Option.none_or]
  · rw [Option.or_none]

theorem mem_of_lastMember (h : lastMember members name = some v) : (name, v) ∈ members := by
  induction members with
  | nil => cases h
  | cons m rest ih =>
    rw [lastMember_cons] at h
    cases hrest : lastMember rest name with
    | some w =>
      rw [hrest, Option.some_or] at h
      exact List.mem_cons_of_mem m (ih (hrest.trans h))
    | none =>
      rw [hrest, Option.none_or] at h
      split at h
      · rename_i heq
        cases h
        exact heq ▸ List.mem_cons_self ..
      · cases h

/-- A fold that each member of a name sets a part of the state in: the part is what
the last member sets it to. -/
theorem foldlM_lastMember {σ : Type} {f : σ → String × α → Option σ} (part : σ → β) {read : α → Option β}
    (hself : ∀ s v s', f s (name, v) = some s' → read v = some (part s'))
    (hother : ∀ s m s', m.1 ≠ name → f s m = some s' → part s' = part s) {s s' : σ}
    (h : members.foldlM f s = some s') :
    (lastMember members name).elim (some (part s)) read = some (part s') := by
  induction members generalizing s with
  | nil =>
    cases h
    rfl
  | cons m rest ih =>
    obtain ⟨s₁, hm, hrest⟩ := Option.bind_eq_some_iff.mp h
    have hlast := ih hrest
    rw [lastMember_cons]
    cases hfound : lastMember rest name with
    | some v =>
      rw [hfound] at hlast
      exact hlast
    | none =>
      rw [hfound] at hlast
      have hpart : part s₁ = part s' := Option.some.inj hlast
      rw [Option.none_or]
      split
      · rename_i heq
        subst heq
        exact hpart ▸ hself s m.2 s₁ hm
      · rename_i hne
        rw [← hpart, hother s m s₁ (Ne.symm hne) hm]
        rfl

theorem foldlM_isSome {σ : Type} {f : σ → String × α → Option σ} {s : σ}
    (h : ∀ m ∈ members, ∀ s, (f s m).isSome = true) : ∃ s', members.foldlM f s = some s' := by
  induction members generalizing s with
  | nil => exact ⟨s, rfl⟩
  | cons m rest ih =>
    obtain ⟨hm, hrest⟩ := List.forall_mem_cons.mp h
    obtain ⟨s₁, hs₁⟩ := Option.isSome_iff_exists.mp (hm s)
    obtain ⟨s', hs'⟩ := @ih s₁ hrest
    exact ⟨s', by rw [List.foldlM_cons, hs₁]; exact hs'⟩

theorem mapM_eq_some_iff {f : α → Option β} {l : List α} {out : List β} :
    l.mapM f = some out ↔ List.Forall₂ (fun a b => f a = some b) l out := by
  induction l generalizing out with
  | nil =>
    constructor
    · intro h
      cases h
      exact .nil
    · intro h
      cases h
      rfl
  | cons a l ih =>
    rw [List.mapM_cons]
    constructor
    · intro h
      obtain ⟨b, hb, h⟩ := Option.bind_eq_some_iff.mp h
      obtain ⟨bs, hbs, h⟩ := Option.bind_eq_some_iff.mp h
      cases h
      exact .cons hb (ih.mp hbs)
    · intro h
      cases h with
      | cons hb hbs =>
        rw [hb, ih.mpr hbs]
        rfl

theorem exists_of_mem_mapM {f : α → Option β} {l : List α} {out : List β} (h : l.mapM f = some out) :
    ∀ b ∈ out, ∃ a ∈ l, f a = some b := by
  have hall := mapM_eq_some_iff.mp h
  clear h
  induction hall with
  | nil => nofun
  | @cons a b l out hab _ ih =>
    refine List.forall_mem_cons.mpr ⟨⟨a, List.mem_cons_self .., hab⟩, fun b' hb' => ?_⟩
    obtain ⟨a', ha', hab'⟩ := ih b' hb'
    exact ⟨a', List.mem_cons_of_mem a ha', hab'⟩

/-- What is the same of each element and of what it is read as. -/
theorem map_mapM {γ : Type} {f : α → Option β} {g : α → γ} {k : β → γ} {l : List α} {out : List β}
    (hf : ∀ a b, f a = some b → k b = g a) (h : l.mapM f = some out) : out.map k = l.map g := by
  have hall := mapM_eq_some_iff.mp h
  clear h
  induction hall with
  | nil => rfl
  | cons hab _ ih => rw [List.map_cons, List.map_cons, ih, hf _ _ hab]

/-- Members are read one by one. -/
def readMembers (read : α → Option β) (members : List (String × α)) : Option (List (String × β)) :=
  members.mapM fun m => (read m.2).map fun v => (m.1, v)

theorem isSome_of_readMembers {read : α → Option β} {values : List (String × β)}
    (h : readMembers read members = some values) : ∀ m ∈ members, (read m.2).isSome = true := by
  have hall := mapM_eq_some_iff.mp h
  clear h
  induction hall with
  | nil => nofun
  | cons hm _ ih =>
    obtain ⟨v, hv, -⟩ := Option.map_eq_some_iff.mp hm
    exact List.forall_mem_cons.mpr ⟨by rw [hv]; rfl, ih⟩

theorem readMembers_isSome {read : α → Option β} (h : ∀ m ∈ members, (read m.2).isSome = true) :
    (readMembers read members).isSome = true := by
  induction members with
  | nil => rfl
  | cons m rest ih =>
    obtain ⟨hm, hrest⟩ := List.forall_mem_cons.mp h
    obtain ⟨v, hv⟩ := Option.isSome_iff_exists.mp hm
    obtain ⟨values, hvalues⟩ := Option.isSome_iff_exists.mp (ih hrest)
    unfold readMembers at hvalues ⊢
    rw [List.mapM_cons, hv, hvalues]
    rfl

/-- What is read last is the last member. -/
theorem lastMember_readMembers {read : α → Option β} {values : List (String × β)}
    (h : readMembers read members = some values) :
    (lastMember values name).map some = (lastMember members name).map read := by
  have hall := mapM_eq_some_iff.mp h
  clear h
  induction hall with
  | nil => rfl
  | cons hm _ ih =>
    obtain ⟨v, hv, rfl⟩ := Option.map_eq_some_iff.mp hm
    rw [lastMember_cons, lastMember_cons, Option.map_or, Option.map_or, ih]
    congr 1
    split
    · exact congrArg some hv.symm
    · rfl

end Last

namespace Jsonb
variable {members : List (String × Jsonb)} {name key : String} {v : Jsonb}

theorem lastMember_lastOfEach : lastMember (lastOfEach members) name = lastMember members name := by
  induction members with
  | nil => rfl
  | cons m rest ih =>
    rw [lastOfEach]
    split
    · rename_i hrepeated
      rw [ih, lastMember_cons_of_mem (by simpa using hrepeated)]
    · rw [lastMember_cons, ih, lastMember_cons]

/-- Each member that is kept is the last of its name. -/
theorem lastMember_of_mem_lastOfEach (h : (name, v) ∈ lastOfEach members) :
    lastMember members name = some v := by
  induction members with
  | nil => cases h
  | cons m rest ih =>
    rw [lastOfEach] at h
    split at h
    · rw [lastMember_cons, ih h, Option.some_or]
    · rename_i hnew
      rcases List.mem_cons.mp h with heq | h
      · obtain ⟨rfl, rfl⟩ := Prod.mk.inj heq
        rw [lastMember_cons_of_not_mem (by simpa using hnew), if_pos rfl]
      · rw [lastMember_cons, ih h, Option.some_or]

theorem lookup_lastOfEach : (lastOfEach members).lookup name = lastMember members name := by
  induction members with
  | nil => rfl
  | cons m rest ih =>
    rw [lastOfEach]
    split
    · rename_i hrepeated
      rw [ih, lastMember_cons_of_mem (by simpa using hrepeated)]
    · rename_i hnew
      rw [List.lookup_cons, ih, lastMember_cons_of_not_mem (by simpa using hnew)]
      by_cases heq : name = m.1
      · simp [heq]
      · have hne : (name == m.1) = false := by simpa using heq
        simp [heq, hne]

theorem lastMember_setMember : lastMember (setMember members key v) name =
    if name = key then some v else lastMember members name := by
  have hothers : lastMember (members.filter fun m => m.1 != key) name =
      if name = key then none else lastMember members name := by
    induction members with
    | nil => simp
    | cons m rest ih =>
      by_cases hm : m.1 = key
      · rw [List.filter_cons_of_neg (by simp [hm]), ih, lastMember_cons]
        split
        · rfl
        · rename_i hne
          rw [if_neg (hm ▸ hne), Option.or_none]
      · rw [List.filter_cons_of_pos (by simp [hm]), lastMember_cons, ih, lastMember_cons]
        split
        · rename_i heq
          rw [if_neg fun h => hm (h.symm.trans heq), Option.or_none]
        · rfl
  rw [setMember, lastMember_append, lastMember_singleton, hothers]
  split
  · rfl
  · rfl

/-- A member that is set in an object of distinct names is the only one of its name. -/
theorem lastMember_of_mem_setMember {w : Jsonb} (h : (name, v) ∈ setMember (lastOfEach members) key w) :
    lastMember (setMember (lastOfEach members) key w) name = some v := by
  rw [lastMember_setMember]
  rcases List.mem_append.mp h with h | h
  · obtain ⟨h, hne⟩ := List.mem_filter.mp h
    rw [if_neg (bne_iff_ne.mp hne), lastMember_lastOfEach, lastMember_of_mem_lastOfEach h]
  · obtain ⟨rfl, rfl⟩ := Prod.mk.inj (List.mem_singleton.mp h)
    rw [if_pos rfl]

end Jsonb

/-! ### What is stored -/

/-- The decimal a literal stands for. -/
def Numeric.read (literal : String) : Numeric :=
  match Json.number literal.toList with
  | some (.num n, []) => n
  | _ => ⟨0, 0⟩

namespace Document

mutual

/-- What the text says. -/
def toJsonb : Document → Jsonb
  | .null => .null
  | .bool b => .bool b
  | .num literal => .num (.read literal)
  | .str s => .str s
  | .arr items => .arr (toJsonbs items)
  | .obj members => .obj (Jsonb.lastOfEach (membersToJsonb members))

def toJsonbs : List Document → List Jsonb
  | [] => []
  | d :: rest => d.toJsonb :: toJsonbs rest

def membersToJsonb : List (String × Document) → List (String × Jsonb)
  | [] => []
  | (name, d) :: rest => (name, d.toJsonb) :: membersToJsonb rest

end

theorem toJsonbs_eq (items : List Document) : toJsonbs items = items.map toJsonb := by
  induction items with
  | nil => rfl
  | cons d rest ih => rw [toJsonbs, ih, List.map_cons]

theorem membersToJsonb_eq (members : List (String × Document)) :
    membersToJsonb members = members.map fun m => (m.1, m.2.toJsonb) := by
  induction members with
  | nil => rfl
  | cons m rest ih => rw [membersToJsonb, ih, List.map_cons]

end Document

namespace Jsonb

mutual

/-- The text it is written as. -/
def document : Jsonb → Document
  | .null => .null
  | .bool b => .bool b
  | .num n => .num n.text
  | .str s => .str s
  | .arr items => .arr (documents items)
  | .obj members => .obj (membersDocument members)

def documents : List Jsonb → List Document
  | [] => []
  | v :: rest => v.document :: documents rest

def membersDocument : List (String × Jsonb) → List (String × Document)
  | [] => []
  | (name, v) :: rest => (name, v.document) :: membersDocument rest

end

theorem documents_eq (items : List Jsonb) : documents items = items.map document := by
  induction items with
  | nil => rfl
  | cons v rest ih => rw [documents, ih, List.map_cons]

theorem membersDocument_eq (members : List (String × Jsonb)) :
    membersDocument members = members.map fun m => (m.1, m.2.document) := by
  induction members with
  | nil => rfl
  | cons m rest ih => rw [membersDocument, ih, List.map_cons]

end Jsonb

namespace Document

/-- The document as a database writes it down that has read it. -/
def stored (d : Document) : Document := d.toJsonb.document

/-- A number has the literal it is written down with. -/
def asWritten : Document → Bool
  | .num literal => (Numeric.read literal).text == literal
  | _ => true

theorem stored_num (literal : String) : stored (.num literal) = .num (Numeric.read literal).text := rfl

theorem stored_arr (items : List Document) : stored (.arr items) = .arr (items.map stored) := by
  rw [stored, toJsonb, toJsonbs_eq, Jsonb.document, Jsonb.documents_eq, List.map_map]
  rfl

theorem document_obj (members : List (String × Jsonb)) :
    (Jsonb.obj members).document = .obj (members.map fun m => (m.1, m.2.document)) := by
  rw [Jsonb.document, Jsonb.membersDocument_eq]

end Document
