import Mathlib.Data.Finset.Card

/-! Hash sets, which are iterated in some order and fail-fast.

An iterator remembers which element comes next. It does not go on to that one once
the set was changed in another way than through the iterator (`removeEach`). Removing
all elements of a collection iterates whichever of the two has fewer elements, and
where the collection is a view of the set itself, that matters
(`removeAll_returns_iff`). -/

/-- The orders in which sets are iterated, which may depend on anything that happened. -/
structure HashOrder (α : Type) where
  order : Nat → Finset α → List α
  nodup : ∀ n s, (order n s).Nodup
  mem : ∀ n s a, a ∈ order n s ↔ a ∈ s

namespace HashSet
variable {α : Type}

/-- The sets that a call leaves one after another, and whether it returns. -/
structure Changes (α : Type) where
  sets : List (Finset α)
  returns : Bool

def Changes.last (changes : Changes α) (s : Finset α) : Finset α := changes.sets.getLast?.getD s

theorem last_cons {s t : Finset α} {sets : List (Finset α)} {returns : Bool} :
    Changes.last ⟨t :: sets, returns⟩ s = Changes.last ⟨sets, returns⟩ t := by
  simp [Changes.last, List.getLast?_cons]

variable [DecidableEq α]

/-- The elements of a view are removed while it is iterated. -/
def removeEach (inView : α → Bool) : (modified : Bool) → Finset α → List α → Changes α
  | _, _, [] => ⟨[], true⟩
  | true, _, _ :: _ => ⟨[], false⟩
  | false, s, a :: rest =>
    if inView a then
      let later := removeEach inView true (s.erase a) rest
      ⟨s.erase a :: later.sets, later.returns⟩
    else removeEach inView false s rest

/-- The set is iterated, and elements are removed through the iterator. -/
def removeThrough (inView : α → Bool) : Finset α → List α → List (Finset α)
  | _, [] => []
  | s, a :: rest =>
    if inView a && decide (a ∈ s) then s.erase a :: removeThrough inView (s.erase a) rest
    else removeThrough inView s rest

/-- The elements of a view of the set itself are removed from it. -/
def removeAll (inView : α → Bool) (s : Finset α) (order : List α) : Changes α :=
  if (order.filter inView).length < s.card then removeEach inView false s order
  else ⟨removeThrough inView s order, true⟩

section Lemmas
variable {inView : α → Bool} {s t : Finset α} {order rest : List α} {a : α}

theorem removeEach_modified :
    (removeEach inView true s order).returns = true ↔ order = [] := by
  cases order with
  | nil => exact iff_of_true rfl rfl
  | cons a rest => exact iff_of_false Bool.false_ne_true (List.cons_ne_nil a rest)

/-- The iteration gets through if and only if nothing comes after what is removed. -/
theorem removeEach_returns_iff :
    (removeEach inView false s order).returns = true ↔ ∀ a ∈ order.dropLast, inView a = false := by
  induction order with
  | nil => simp [removeEach]
  | cons a rest ih =>
    unfold removeEach
    by_cases ha : inView a = true
    · rw [if_pos ha]
      dsimp only
      rw [removeEach_modified]
      cases rest with
      | nil => simp
      | cons b rest => simp [ha]
    · rw [if_neg ha, ih]
      cases rest with
      | nil => simp
      | cons b rest => simp [Bool.eq_false_iff.mpr ha]

theorem mem_of_removeEach {modified : Bool} (ha : a ∈ s) (hkept : inView a = false)
    (ht : t ∈ (removeEach inView modified s order).sets) : a ∈ t := by
  induction order generalizing modified s with
  | nil => cases ht
  | cons b rest ih =>
    cases modified with
    | true => cases ht
    | false =>
      unfold removeEach at ht
      split at ht
      · rename_i hb
        have hne : a ≠ b := fun heq => Bool.false_ne_true (hkept.symm.trans (heq ▸ hb))
        have hmem : a ∈ s.erase b := Finset.mem_erase.mpr ⟨hne, ha⟩
        rcases List.mem_cons.mp ht with rfl | ht
        · exact hmem
        · exact ih hmem ht
      · exact ih ha ht

theorem mem_of_removeThrough (ha : a ∈ s) (hkept : inView a = false)
    (ht : t ∈ removeThrough inView s order) : a ∈ t := by
  induction order generalizing s with
  | nil => cases ht
  | cons b rest ih =>
    unfold removeThrough at ht
    split at ht
    · rename_i hb
      have hne : a ≠ b := fun heq =>
        Bool.false_ne_true (hkept.symm.trans (heq ▸ (Bool.and_eq_true_iff.mp hb).1))
      have hmem : a ∈ s.erase b := Finset.mem_erase.mpr ⟨hne, ha⟩
      rcases List.mem_cons.mp ht with rfl | ht
      · exact hmem
      · exact ih hmem ht
    · exact ih ha ht

/-- Nothing is removed that is not in the view. -/
theorem mem_of_removeAll (ha : a ∈ s) (hkept : inView a = false)
    (ht : t ∈ (removeAll inView s order).sets) : a ∈ t := by
  unfold removeAll at ht
  split at ht
  · exact mem_of_removeEach ha hkept ht
  · exact mem_of_removeThrough ha hkept ht

theorem mem_last_removeEach (h : (removeEach inView false s order).returns = true) :
    a ∈ (removeEach inView false s order).last s ↔ a ∈ s ∧ ¬ (a ∈ order ∧ inView a = true) := by
  induction order with
  | nil => simp [removeEach, Changes.last]
  | cons b rest ih =>
    unfold removeEach at h ⊢
    split at h
    · rename_i hb
      obtain rfl := removeEach_modified.mp h
      rw [if_pos hb, last_cons]
      simp only [removeEach, Changes.last, List.getLast?_nil, Option.getD_none, Finset.mem_erase,
        List.mem_singleton]
      exact ⟨fun ⟨hne, ha⟩ => ⟨ha, fun heq => hne heq.1⟩,
        fun ⟨ha, hnot⟩ => ⟨fun heq => hnot ⟨heq, heq ▸ hb⟩, ha⟩⟩
    · rename_i hb
      rw [if_neg hb, ih h, List.mem_cons]
      refine and_congr_right fun _ => not_congr (and_congr_left fun ha => ?_)
      exact ⟨Or.inr, fun hor => hor.resolve_left fun heq => hb (heq ▸ ha)⟩

theorem mem_last_removeThrough :
    a ∈ Changes.last ⟨removeThrough inView s order, true⟩ s ↔ a ∈ s ∧ ¬ (a ∈ order ∧ inView a = true) := by
  induction order generalizing s with
  | nil => simp [removeThrough, Changes.last]
  | cons b rest ih =>
    unfold removeThrough
    split
    · rename_i hb
      obtain ⟨hview, -⟩ := Bool.and_eq_true_iff.mp hb
      rw [last_cons, ih, Finset.mem_erase, List.mem_cons]
      constructor
      · rintro ⟨⟨hne, ha⟩, hnot⟩
        exact ⟨ha, fun ⟨hor, hin⟩ => hnot ⟨hor.resolve_left hne, hin⟩⟩
      · rintro ⟨ha, hnot⟩
        exact ⟨⟨fun heq => hnot ⟨.inl heq, heq ▸ hview⟩, ha⟩, fun ⟨hrest, hin⟩ => hnot ⟨.inr hrest, hin⟩⟩
    · rename_i hb
      rw [ih, List.mem_cons]
      refine and_congr_right fun ha => not_congr (and_congr_left fun hin => ?_)
      refine ⟨Or.inr, fun hor => hor.resolve_left ?_⟩
      rintro rfl
      exact hb (by simp [hin, ha])

/-- If the call returns, the view is empty. -/
theorem mem_last_removeAll (hmem : ∀ a, a ∈ order ↔ a ∈ s) (h : (removeAll inView s order).returns = true) :
    a ∈ (removeAll inView s order).last s ↔ a ∈ s ∧ inView a = false := by
  have hview : (a ∈ s ∧ ¬ (a ∈ order ∧ inView a = true)) ↔ a ∈ s ∧ inView a = false := by
    refine and_congr_right fun ha => ?_
    simp [(hmem a).mpr ha]
  unfold removeAll at h ⊢
  split at h
  · rename_i hsize
    rw [if_pos hsize, mem_last_removeEach h, hview]
  · rename_i hsize
    rw [if_neg hsize, mem_last_removeThrough, hview]

/-- The call returns if the view is the whole set, or if of the set only the element
that is iterated last may be in the view. -/
theorem removeAll_returns_iff (hnodup : order.Nodup) (hmem : ∀ a, a ∈ order ↔ a ∈ s) :
    (removeAll inView s order).returns = true ↔
      (∀ a ∈ order, inView a = true) ∨ ∀ a ∈ order.dropLast, inView a = false := by
  have hcard : s.card = order.length := by
    have hset : s = ⟨order, hnodup⟩ := Finset.ext fun a => (hmem a).symm
    rw [hset]
    rfl
  have hsize : (order.filter inView).length < s.card ↔ ¬ ∀ a ∈ order, inView a = true := by
    rw [hcard, List.length_filter_lt_length_iff_exists]
    simp
  unfold removeAll
  by_cases hall : ∀ a ∈ order, inView a = true
  · rw [if_neg fun hlt => hsize.mp hlt hall]
    exact iff_of_true rfl (.inl hall)
  · rw [if_pos (hsize.mpr hall), removeEach_returns_iff, or_iff_right hall]

end Lemmas

end HashSet
