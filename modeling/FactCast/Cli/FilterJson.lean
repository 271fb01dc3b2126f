import FactCast.Json.Document
import Mathlib.Data.Finset.Dedup
import Mathlib.Data.Finset.Insert

/-! Removing properties from schemas.

Properties are removed by name, one name after the other, and only from objects that
are marked as schemas: by a `type` that is a text, or by `required`, an array. That is
looked up anew for every name. So an object that loses its marks, because their names
are among those to be removed, keeps what comes after them.

What is wanted is that the marks of the input count (`without`). It is got, whatever
the order of the names, just if every object that is marked has a mark that stays, or
nothing to lose but its marks (`filterJson_iff`). -/
namespace FactCast.FilterJson

abbrev Members := List (String × Document)

def isTextual : Document → Bool
  | .str _ => true
  | _ => false

def isArray : Document → Bool
  | .arr _ => true
  | _ => false

/-- The member of this name marks the object as a schema. -/
def isMark (members : Members) (key : String) : Bool :=
  key == "type" && (members.lookup "type").any isTextual ||
    key == "required" && (members.lookup "required").any isArray

def marked (members : Members) : Bool :=
  (members.lookup "type").any isTextual || (members.lookup "required").any isArray

mutual

/-- The property is removed from the object, and then from what is left in it. -/
def filter (name : String) : Document → Document
  | .obj members => .obj (filterMembers name (marked members) members)
  | .arr items => .arr (filterItems name items)
  | d => d

def filterMembers (name : String) (remove : Bool) : Members → Members
  | [] => []
  | (key, v) :: rest =>
    if remove && key == name then filterMembers name remove rest
    else (key, filter name v) :: filterMembers name remove rest

def filterItems (name : String) : List Document → List Document
  | [] => []
  | d :: rest => filter name d :: filterItems name rest

end

/-- The tree is a copy of the input. The set is gone through in any order. -/
def filterJson (input : Document) (removedSchemaProps : List String) : Document :=
  removedSchemaProps.foldl (fun tree property => filter property tree) input

/-! ### What is expected -/

mutual

/-- The document without the properties, where the document itself marks a schema. -/
def without (names : Finset String) : Document → Document
  | .obj members => .obj (withoutMembers names (marked members) members)
  | .arr items => .arr (withoutItems names items)
  | d => d

def withoutMembers (names : Finset String) (remove : Bool) : Members → Members
  | [] => []
  | (key, v) :: rest =>
    if remove && decide (key ∈ names) then withoutMembers names remove rest
    else (key, without names v) :: withoutMembers names remove rest

def withoutItems (names : Finset String) : List Document → List Document
  | [] => []
  | d :: rest => without names d :: withoutItems names rest

end

/-- The names in some order. -/
structure Enumerates (order : List String) (names : Finset String) : Prop where
  nodup : order.Nodup
  mem : ∀ name, name ∈ order ↔ name ∈ names

/-- In every order exactly these properties are removed, and then there are none to be
removed again. -/
def WellDefined (names : Finset String) (input : Document) : Prop :=
  ∀ order, Enumerates order names → filterJson input order = without names input ∧
    ∀ again, Enumerates again names → filterJson (filterJson input order) again = filterJson input order

/-- An object that is marked has a mark that stays, or nothing to lose but its marks. -/
def steady (names : Finset String) (members : Members) : Bool :=
  !marked members || (["type", "required"].any fun key => isMark members key && decide (key ∉ names)) ||
    members.all fun m => decide (m.1 ∉ names) || isMark members m.1

mutual

/-- Objects are steady, those apart that are removed with what is around them. -/
def stable (names : Finset String) : Document → Bool
  | .obj members => steady names members && stableMembers names (marked members) members
  | .arr items => stableItems names items
  | _ => true

def stableMembers (names : Finset String) (remove : Bool) : Members → Bool
  | [] => true
  | (key, v) :: rest => (remove && decide (key ∈ names) || stable names v) && stableMembers names remove rest

def stableItems (names : Finset String) : List Document → Bool
  | [] => true
  | d :: rest => stable names d && stableItems names rest

end

section Proofs
variable {name key : String} {names : Finset String} {members : Members} {order prior : List String}
  {remove : Bool} {d : Document}

/-! ### Members -/

theorem filterMembers_eq : filterMembers name remove members =
    (members.filter fun m => !(remove && m.1 == name)).map fun m => (m.1, filter name m.2) := by
  induction members with
  | nil => rfl
  | cons m rest ih =>
    rw [filterMembers, ih, List.filter_cons]
    cases remove && m.1 == name with
    | true => rfl
    | false => rfl

theorem filterItems_eq {items : List Document} : filterItems name items = items.map (filter name) := by
  induction items with
  | nil => rfl
  | cons d rest ih => rw [filterItems, ih, List.map_cons]

theorem withoutMembers_eq : withoutMembers names remove members =
    (members.filter fun m => !(remove && decide (m.1 ∈ names))).map fun m => (m.1, without names m.2) := by
  induction members with
  | nil => rfl
  | cons m rest ih =>
    rw [withoutMembers, ih, List.filter_cons]
    cases remove && decide (m.1 ∈ names) with
    | true => rfl
    | false => rfl

theorem withoutItems_eq {items : List Document} : withoutItems names items = items.map (without names) := by
  induction items with
  | nil => rfl
  | cons d rest ih => rw [withoutItems, ih, List.map_cons]

theorem stableMembers_iff : stableMembers names remove members = true ↔
    ∀ m ∈ members.filter (fun m => !(remove && decide (m.1 ∈ names))), stable names m.2 = true := by
  induction members with
  | nil => simp [stableMembers]
  | cons m rest ih =>
    rw [stableMembers, Bool.and_eq_true, ih, List.filter_cons]
    cases remove && decide (m.1 ∈ names) with
    | true => simp
    | false => simp

theorem stableItems_iff {items : List Document} :
    stableItems names items = true ↔ ∀ d ∈ items, stable names d = true := by
  induction items with
  | nil => simp [stableItems]
  | cons d rest ih => rw [stableItems, Bool.and_eq_true, ih, List.forall_mem_cons]

/-! ### One object -/

/-- The members that go with the name. -/
def drop (members : Members) (name : String) : Members :=
  members.filter fun m => !(marked members && m.1 == name)

/-- The members that are left after all the names. -/
def drops (members : Members) (order : List String) : Members := order.foldl drop members

/-- The members that should be left. -/
def kept (names : Finset String) (members : Members) : Members :=
  members.filter fun m => !(marked members && decide (m.1 ∈ names))

theorem marked_iff : marked members = true ↔ ∃ key, isMark members key = true := by
  constructor
  · intro h
    rw [marked, Bool.or_eq_true] at h
    cases h with
    | inl h => exact ⟨"type", by simp [isMark, h]⟩
    | inr h => exact ⟨"required", by simp [isMark, h]⟩
  · intro ⟨key, h⟩
    rw [isMark, Bool.or_eq_true, Bool.and_eq_true, Bool.and_eq_true] at h
    rw [marked, Bool.or_eq_true]
    exact h.imp And.right And.right

theorem isMark_name (h : isMark members key = true) : key ∈ ["type", "required"] := by
  rw [isMark, Bool.or_eq_true, Bool.and_eq_true, Bool.and_eq_true, beq_iff_eq, beq_iff_eq] at h
  simpa using h.imp And.left And.left

theorem lookup_filter {keep : String → Bool} (h : keep key = true) :
    (members.filter fun m => keep m.1).lookup key = members.lookup key := by
  induction members with
  | nil => rfl
  | cons m rest ih =>
    rw [List.filter_cons, List.lookup_cons]
    by_cases heq : key = m.1
    · rw [← heq, h, if_pos rfl, List.lookup_cons, ← heq, beq_self_eq_true]
    · have hne : (key == m.1) = false := by simpa using heq
      rw [hne, ← ih]
      split
      · rw [List.lookup_cons, hne]
      · rfl

theorem lookup_filter_none {keep : String → Bool} (h : keep key = false) :
    (members.filter fun m => keep m.1).lookup key = none := by
  rw [List.lookup_eq_none_iff]
  intro m hm
  have hkeep := (List.mem_filter.mp hm).2
  have hne : key ≠ m.1 := fun heq => by rw [← heq, h] at hkeep; exact nomatch hkeep
  simpa using hne

/-- Only the member of this name says whether it is a mark. -/
theorem isMark_congr {other : Members} (h : members.lookup key = other.lookup key) :
    isMark members key = isMark other key := by
  rw [isMark, isMark]
  congr 1
  · by_cases heq : key = "type"
    · rw [← heq, h]
    · rw [beq_eq_false_iff_ne.mpr heq, Bool.false_and, Bool.false_and]
  · by_cases heq : key = "required"
    · rw [← heq, h]
    · rw [beq_eq_false_iff_ne.mpr heq, Bool.false_and, Bool.false_and]

/-- A mark is one in what is left just if it is left itself. -/
theorem isMark_filter (keep : String → Bool) :
    isMark (members.filter fun m => keep m.1) key = (keep key && isMark members key) := by
  cases h : keep key with
  | true => rw [isMark_congr (lookup_filter h), Bool.true_and]
  | false =>
    rw [isMark_congr ((lookup_filter_none h).trans List.lookup_nil.symm), Bool.false_and]
    simp [isMark]

theorem drop_of_unmarked (h : marked members = false) : drop members name = members := by
  rw [drop, h]
  simp

theorem drops_of_unmarked (h : marked members = false) : drops members order = members := by
  induction order with
  | nil => rfl
  | cons name rest ih => rw [drops, List.foldl_cons, drop_of_unmarked h, ← drops, ih]

theorem drop_of_marked (h : marked members = true) :
    drop members name = members.filter fun m => !(m.1 == name) := by
  rw [drop, h]
  rfl

theorem drop_of_absent (h : ∀ m ∈ members, m.1 ≠ name) : drop members name = members :=
  List.filter_eq_self.mpr fun m hm => by simp [h m hm]

theorem drops_of_absent (h : ∀ m ∈ members, m.1 ∉ order) : drops members order = members := by
  induction order with
  | nil => rfl
  | cons name rest ih =>
    rw [drops, List.foldl_cons, drop_of_absent fun m hm heq => h m hm (heq ▸ List.mem_cons_self), ← drops]
    exact ih fun m hm hrest => h m hm (List.mem_cons_of_mem name hrest)

theorem filter_filter_not_mem {rest : List String} :
    ((members.filter fun m => !(m.1 == name)).filter fun m => !decide (m.1 ∈ rest)) =
      members.filter fun m => !decide (m.1 ∈ name :: rest) := by
  rw [List.filter_filter]
  refine List.filter_congr fun m _ => ?_
  by_cases h : m.1 = name <;> simp [h]

/-- As long as the object is marked, every name goes. -/
theorem drops_of_marked (h : marked (drops members order) = true) :
    drops members order = members.filter fun m => !decide (m.1 ∈ order) := by
  induction order generalizing members with
  | nil => simp [drops]
  | cons name rest ih =>
    have hmarked : marked members = true := by
      by_contra hno
      rw [drops_of_unmarked (by simpa using hno)] at h
      exact hno h
    rw [drops, List.foldl_cons, ← drops] at h ⊢
    rw [ih h, drop_of_marked hmarked, filter_filter_not_mem]

theorem mem_drops {m : String × Document} (hm : m ∈ members) (h : m.1 ∉ order) : m ∈ drops members order := by
  induction order generalizing members with
  | nil => exact hm
  | cons name rest ih =>
    rw [List.mem_cons, not_or] at h
    exact ih (List.mem_filter.mpr ⟨hm, by simp [h.1]⟩) h.2

/-- What a name to be removed leaves is marked still, or has nothing more to lose. -/
def Steady (names : Finset String) (members : Members) : Prop :=
  (∃ key, isMark members key = true ∧ key ∉ names) ∨ ∀ m ∈ members, m.1 ∈ names → isMark members m.1 = true

theorem Steady.drop (h : Steady names members) (hname : name ∈ names) :
    FilterJson.drop members name = (members.filter fun m => !(m.1 == name)) ∧
      Steady names (FilterJson.drop members name) := by
  cases hmarked : marked members with
  | true =>
    rw [drop_of_marked hmarked]
    refine ⟨rfl, h.imp ?_ ?_⟩
    · intro ⟨key, hkey, hnot⟩
      have hne : key ≠ name := fun heq => hnot (heq ▸ hname)
      refine ⟨key, ?_, hnot⟩
      rw [isMark_filter fun k => !(k == name), hkey]
      simpa using hne
    · intro hall m hm hmem
      have hkeep := List.mem_filter.mp hm
      rw [isMark_filter fun k => !(k == name), hall m hkeep.1 hmem, hkeep.2]
      rfl
  | false =>
    have hno : ∀ key, isMark members key ≠ true := fun key hkey => by
      rw [marked_iff.mpr ⟨key, hkey⟩] at hmarked
      exact nomatch hmarked
    have habsent : ∀ m ∈ members, m.1 ≠ name := fun m hm heq =>
      h.elim (fun ⟨key, hkey, _⟩ => hno key hkey) fun hall => hno m.1 (hall m hm (heq ▸ hname))
    rw [drop_of_unmarked hmarked]
    exact ⟨(List.filter_eq_self.mpr fun m hm => by simpa using habsent m hm).symm, h⟩

theorem Steady.drops (h : Steady names members) (hsub : ∀ name ∈ order, name ∈ names) :
    FilterJson.drops members order = members.filter fun m => !decide (m.1 ∈ order) := by
  induction order generalizing members with
  | nil => simp [FilterJson.drops]
  | cons name rest ih =>
    have hdrop := h.drop (hsub name List.mem_cons_self)
    rw [FilterJson.drops, List.foldl_cons, ← FilterJson.drops,
      ih hdrop.2 fun n hn => hsub n (List.mem_cons_of_mem name hn), hdrop.1, filter_filter_not_mem]

theorem kept_of_marked (h : marked members = true) :
    kept names members = members.filter fun m => !decide (m.1 ∈ names) := by
  rw [kept, h]
  rfl

theorem kept_of_unmarked (h : marked members = false) : kept names members = members := by
  rw [kept, h]
  simp

theorem steady_of_unmarked (h : marked members = false) : steady names members = true := by
  rw [steady, h]
  rfl

theorem steady_iff (h : marked members = true) : steady names members = true ↔ Steady names members := by
  rw [steady, h, Steady]
  simp only [Bool.not_true, Bool.false_or, Bool.or_eq_true, List.any_eq_true, List.all_eq_true,
    Bool.and_eq_true, decide_eq_true_eq]
  refine or_congr ⟨fun ⟨key, _, hkey⟩ => ⟨key, hkey⟩, fun ⟨key, hkey⟩ => ⟨key, isMark_name hkey.1, hkey⟩⟩
    (forall₂_congr fun m _ => ?_)
  rw [Decidable.imp_iff_not_or]

/-- Any of the names can come first. -/
theorem Enumerates.extend (hnodup : order.Nodup) (hsub : ∀ name ∈ order, name ∈ names) :
    ∃ rest, Enumerates (order ++ rest) names := by
  refine ⟨names.toList.filter fun name => !decide (name ∈ order), ?_, fun name => ?_⟩
  · refine hnodup.append (names.nodup_toList.filter _) fun name hfirst hrest => ?_
    simp [hfirst] at hrest
  · rw [List.mem_append, List.mem_filter, Finset.mem_toList]
    by_cases h : name ∈ order
    · simp [h, hsub name h]
    · simp [h]

theorem not_mem_kept {m : String × Document} (h : marked members = true) (hname : m.1 ∈ names) :
    m.1 ∉ (kept names members).map Prod.fst := by
  rw [kept_of_marked h, List.mem_map]
  intro ⟨other, hother, heq⟩
  have hkeep := (List.mem_filter.mp hother).2
  rw [heq] at hkeep
  simp [hname] at hkeep

/-- With the marks first, what is left is not marked, and all the rest stays. -/
theorem exists_order_of_not_steady (h : steady names members = false) :
    ∃ order, Enumerates order names ∧
      (drops members order).map Prod.fst ≠ (kept names members).map Prod.fst := by
  have hmarked : marked members = true := by
    by_contra hno
    rw [steady_of_unmarked (by simpa using hno)] at h
    exact nomatch h
  have hnot : ¬ Steady names members := fun hs => by
    rw [(steady_iff hmarked).mpr hs] at h
    exact nomatch h
  rw [Steady, not_or] at hnot
  obtain ⟨hmarks, hothers⟩ := hnot
  push Not at hmarks hothers
  obtain ⟨m, hm, hname, hother⟩ := hothers
  let first := ["type", "required"].filter fun key => isMark members key
  have hfirst : ∀ key, key ∈ first ↔ isMark members key = true := fun key =>
    List.mem_filter.trans ⟨And.right, fun hkey => ⟨isMark_name hkey, hkey⟩⟩
  obtain ⟨rest, horder⟩ := Enumerates.extend (List.Nodup.filter _ (by decide) : first.Nodup)
    fun key hkey => hmarks key ((hfirst key).mp hkey)
  have hunmarked : marked (drops members first) = false := by
    by_contra hyes
    rw [Bool.not_eq_false] at hyes
    obtain ⟨key, hkey⟩ := marked_iff.mp hyes
    rw [drops_of_marked hyes, isMark_filter fun key => !decide (key ∈ first), Bool.and_eq_true] at hkey
    simp [(hfirst key).mpr hkey.2] at hkey
  refine ⟨first ++ rest, horder, fun heq => not_mem_kept hmarked hname ?_⟩
  rw [← heq, drops, List.foldl_append, ← drops, ← drops, drops_of_unmarked hunmarked]
  exact List.mem_map_of_mem (mem_drops hm fun hin => hother ((hfirst m.1).mp hin))

/-- One object loses what it should, in whatever order, just if it is steady. -/
theorem steady_iff_drops : steady names members = true ↔
    ∀ order, Enumerates order names → drops members order = kept names members := by
  constructor
  · intro h order horder
    cases hmarked : marked members with
    | true =>
      rw [((steady_iff hmarked).mp h).drops fun name => (horder.mem name).mp, kept_of_marked hmarked]
      exact List.filter_congr fun m _ => by simp [horder.mem]
    | false => rw [drops_of_unmarked hmarked, kept_of_unmarked hmarked]
  · intro h
    by_contra hno
    obtain ⟨order, horder, hne⟩ := exists_order_of_not_steady (by simpa using hno)
    exact hne (congrArg _ (h order horder))

/-! ### Documents -/

theorem isTextual_filter : isTextual (filter name d) = isTextual d := by
  cases d <;> simp [filter, isTextual]

theorem isArray_filter : isArray (filter name d) = isArray d := by
  cases d <;> simp [filter, isArray]

/-- What is done inside of the members leaves the marks. -/
theorem marked_map (f : Document → Document) (htext : ∀ d, isTextual (f d) = isTextual d)
    (harray : ∀ d, isArray (f d) = isArray d) :
    marked (members.map fun m => (m.1, f m.2)) = marked members := by
  have hany : ∀ (found : Option Document) (p : Document → Bool), (∀ d, p (f d) = p d) →
      (found.map f).any p = found.any p := fun found p hp => by
    cases found with
    | none => rfl
    | some d => exact hp d
  rw [marked, List.lookup_map_snd, List.lookup_map_snd, hany _ _ htext, hany _ _ harray, marked]

theorem drops_map (f : Document → Document) (htext : ∀ d, isTextual (f d) = isTextual d)
    (harray : ∀ d, isArray (f d) = isArray d) :
    drops (members.map fun m => (m.1, f m.2)) order = (drops members order).map fun m => (m.1, f m.2) := by
  induction order generalizing members with
  | nil => rfl
  | cons name rest ih =>
    have hdrop : drop (members.map fun m => (m.1, f m.2)) name = (drop members name).map fun m => (m.1, f m.2) := by
      rw [drop, marked_map f htext harray, List.filter_map]
      rfl
    rw [drops, List.foldl_cons, ← drops, hdrop, ih]
    rfl

theorem filter_obj : filter name (.obj members) = .obj ((drop members name).map fun m => (m.1, filter name m.2)) := by
  rw [filter, filterMembers_eq, drop]

theorem filterJson_cons : filterJson d (name :: order) = filterJson (filter name d) order := rfl

/-- What is removed from an object and what is removed inside of it go side by side. -/
theorem filterJson_obj : filterJson (.obj members) order =
    .obj ((drops members order).map fun m => (m.1, filterJson m.2 order)) := by
  induction order generalizing members with
  | nil => simp [filterJson, drops]
  | cons name rest ih =>
    rw [filterJson_cons, filter_obj, ih, drops_map _ (fun _ => isTextual_filter) fun _ => isArray_filter,
      List.map_map]
    rfl

theorem filterJson_arr {items : List Document} :
    filterJson (.arr items) order = .arr (items.map fun d => filterJson d order) := by
  induction order generalizing items with
  | nil => simp [filterJson]
  | cons name rest ih =>
    rw [filterJson_cons, filter, filterItems_eq, ih, List.map_map]
    rfl

theorem without_obj : without names (.obj members) =
    .obj ((kept names members).map fun m => (m.1, without names m.2)) := by
  rw [without, withoutMembers_eq, kept]

theorem Document.induct {P : Document → Prop} (obj : ∀ members, (∀ m ∈ members, P m.2) → P (.obj members))
    (arr : ∀ items, (∀ d ∈ items, P d) → P (.arr items))
    (scalar : ∀ d, (∀ members, d ≠ .obj members) → (∀ items, d ≠ .arr items) → P d) (d : Document) : P d := by
  induction hn : sizeOf d using Nat.strong_induction_on generalizing d with
  | _ n ih =>
    subst hn
    cases d with
    | obj members =>
      refine obj members fun m hm => ih _ ?_ m.2 rfl
      have hlt := List.sizeOf_lt_of_mem hm
      have hsnd : sizeOf m = 1 + sizeOf m.1 + sizeOf m.2 := rfl
      simp only [Document.obj.sizeOf_spec]
      omega
    | arr items =>
      refine arr items fun d hd => ih _ ?_ d rfl
      have hlt := List.sizeOf_lt_of_mem hd
      simp only [Document.arr.sizeOf_spec]
      omega
    | _ => exact scalar _ nofun nofun

/-- A document with nothing in it is left as it is. -/
theorem filterJson_scalar (hobj : ∀ members, d ≠ .obj members) (harr : ∀ items, d ≠ .arr items) :
    filterJson d order = d := by
  have hfilter : ∀ name, filter name d = d := fun name => by
    cases d with
    | obj members => exact absurd rfl (hobj members)
    | arr items => exact absurd rfl (harr items)
    | _ => rw [filter] <;> nofun
  induction order with
  | nil => rfl
  | cons name rest ih => rw [filterJson_cons, hfilter, ih]

theorem without_scalar (hobj : ∀ members, d ≠ .obj members) (harr : ∀ items, d ≠ .arr items) :
    without names d = d := by
  cases d with
  | obj members => exact absurd rfl (hobj members)
  | arr items => exact absurd rfl (harr items)
  | _ => rw [without] <;> nofun

theorem stable_obj : stable names (.obj members) = true ↔
    steady names members = true ∧ ∀ m ∈ kept names members, stable names m.2 = true := by
  rw [stable, Bool.and_eq_true, stableMembers_iff, kept]

/-- Exactly the properties are removed, in every order, just if the document is stable. -/
theorem stable_iff : stable names d = true ↔
    ∀ order, Enumerates order names → filterJson d order = without names d := by
  induction d using Document.induct with
  | obj members ih =>
    rw [stable_obj, steady_iff_drops]
    constructor
    · intro ⟨hdrops, hinside⟩ order horder
      rw [filterJson_obj, without_obj, hdrops order horder, List.map_congr_left fun m hm => ?_]
      rw [(ih m (List.mem_of_mem_filter hm)).mp (hinside m hm) order horder]
    · intro h
      have hall : ∀ order, Enumerates order names →
          ((drops members order).map fun m => (m.1, filterJson m.2 order)) =
            (kept names members).map fun m => (m.1, without names m.2) := fun order horder => by
        have heq := h order horder
        rw [filterJson_obj, without_obj] at heq
        injection heq
      have hdrops : ∀ order, Enumerates order names → drops members order = kept names members := by
        rw [← steady_iff_drops]
        by_contra hno
        obtain ⟨order, horder, hne⟩ := exists_order_of_not_steady (by simpa using hno)
        have hkeys := congrArg (List.map Prod.fst) (hall order horder)
        rw [List.map_map, List.map_map] at hkeys
        exact hne hkeys
      refine ⟨hdrops, fun m hm => (ih m (List.mem_of_mem_filter hm)).mpr fun order horder => ?_⟩
      have heq := hall order horder
      rw [hdrops order horder, List.map_inj_left] at heq
      exact congrArg Prod.snd (heq m hm)
  | arr items ih =>
    rw [stable, stableItems_iff]
    constructor
    · intro h order horder
      rw [filterJson_arr, without, withoutItems_eq, List.map_congr_left fun d hd => ?_]
      exact (ih d hd).mp (h d hd) order horder
    · intro h d hd
      refine (ih d hd).mpr fun order horder => ?_
      have heq := h order horder
      rw [filterJson_arr, without, withoutItems_eq, Document.arr.injEq, List.map_inj_left] at heq
      exact heq d hd
  | scalar d hobj harr =>
    refine iff_of_true ?_ fun order _ => (filterJson_scalar hobj harr).trans (without_scalar hobj harr).symm
    cases d with
    | obj members => exact absurd rfl (hobj members)
    | arr items => exact absurd rfl (harr items)
    | _ => rw [stable] <;> nofun

theorem isTextual_without : isTextual (without names d) = isTextual d := by
  cases d <;> simp [without, isTextual]

theorem isArray_without : isArray (without names d) = isArray d := by
  cases d <;> simp [without, isArray]

/-- Where nothing is left to be removed, nothing is. -/
theorem drops_kept (hsub : ∀ name ∈ order, name ∈ names) :
    drops (kept names members) order = kept names members := by
  cases h : marked members with
  | true =>
    refine drops_of_absent fun m hm hin => ?_
    rw [kept_of_marked h] at hm
    have hkeep := (List.mem_filter.mp hm).2
    simp [hsub m.1 hin] at hkeep
  | false => rw [kept_of_unmarked h, drops_of_unmarked h]

theorem filterJson_without (hsub : ∀ name ∈ order, name ∈ names) :
    filterJson (without names d) order = without names d := by
  induction d using Document.induct with
  | obj members ih =>
    rw [without_obj, filterJson_obj, drops_map _ (fun _ => isTextual_without) fun _ => isArray_without,
      drops_kept hsub, List.map_map]
    congr 1
    exact List.map_congr_left fun m hm => congrArg _ (ih m (List.mem_of_mem_filter hm))
  | arr items ih =>
    rw [without, withoutItems_eq, filterJson_arr, List.map_map]
    congr 1
    exact List.map_congr_left ih
  | scalar d hobj harr => rw [without_scalar hobj harr, filterJson_scalar hobj harr]

end Proofs

theorem filterJson_iff (names : Finset String) (input : Document) :
    WellDefined names input ↔ stable names input = true := by
  constructor
  · intro h
    exact stable_iff.mpr fun order horder => (h order horder).1
  · intro h order horder
    have hfilter := stable_iff.mp h order horder
    refine ⟨hfilter, fun again hagain => ?_⟩
    rw [hfilter]
    exact filterJson_without fun name => (hagain.mem name).mp

/-- A title is removed after the type: it stays, as the object is no schema any more. -/
theorem type_removed_first : ¬ ∀ names input, WellDefined names input := by
  intro h
  have horder : Enumerates ["type", "title"] {"type", "title"} := ⟨by decide, by simp⟩
  have heq := (h {"type", "title"} (.obj [("type", .str "string"), ("title", .str "x")]) _ horder).1
  rw [filterJson_obj, without_obj] at heq
  injection heq with hmembers
  have hlength := congrArg List.length hmembers
  exact nomatch hlength

/-- The marks themselves are not among the names that are removed. -/
theorem stable_of_marks_kept {names : Finset String} (htype : "type" ∉ names)
    (hrequired : "required" ∉ names) (d : Document) : stable names d = true := by
  induction d using Document.induct with
  | obj members ih =>
    refine stable_obj.mpr ⟨?_, fun m hm => ih m (List.mem_of_mem_filter hm)⟩
    cases h : marked members with
    | true =>
      obtain ⟨key, hkey⟩ := marked_iff.mp h
      refine (steady_iff h).mpr (.inl ⟨key, hkey, fun hin => ?_⟩)
      have hname := isMark_name hkey
      simp only [List.mem_cons, List.not_mem_nil, or_false] at hname
      exact hname.elim (fun heq => htype (heq ▸ hin)) fun heq => hrequired (heq ▸ hin)
    | false => exact steady_of_unmarked h
  | arr items ih =>
    rw [stable, stableItems_iff]
    exact ih
  | scalar d hobj harr =>
    cases d with
    | obj members => exact absurd rfl (hobj members)
    | arr items => exact absurd rfl (harr items)
    | _ => rw [stable] <;> nofun

end FactCast.FilterJson
