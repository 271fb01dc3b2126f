import Mathlib.Data.List.Sort
import Mathlib.Data.List.Nodup

/-! The greatest of a list by a key.

An item is among the `k` greatest if fewer than `k` are above it (`top`). A list that is
sorted has them in front (`mem_take_iff`), and they are `k` unless there are fewer items
at all. Two keys need not agree; items that are greatest by one of them are so by the
other just if none is passed over (`subset_top_of_separated`). -/
namespace Ranking
variable {α κ ι : Type} [LinearOrder κ] [LinearOrder ι]

/-- How many are above the item. -/
def above (key : α → κ) (items : List α) (i : α) : Nat := (items.filter fun j => key i < key j).length

/-- The greatest `k` items. -/
def top (key : α → κ) (k : Nat) (items : List α) : List α := items.filter fun i => above key items i < k

section
variable {key : α → κ} {other : α → ι} {k : Nat} {items items' : List α} {i j : α}

theorem mem_top : i ∈ top key k items ↔ i ∈ items ∧ above key items i < k := by
  rw [top, List.mem_filter, decide_eq_true_eq]

theorem above_perm (h : items.Perm items') : above key items i = above key items' i :=
  (h.filter _).length_eq

/-- Greater items have fewer above them. -/
theorem above_le_of_le (h : key i ≤ key j) : above key items j ≤ above key items i :=
  (List.monotone_filter_right items fun x hx => by
    rw [decide_eq_true_eq] at hx ⊢
    exact lt_of_le_of_lt h hx).length_le

/-- The greatest of the items that are in order come first. -/
theorem mem_take_iff (hsorted : items.Pairwise fun a b => key b < key a) (hi : i ∈ items) :
    i ∈ items.take k ↔ above key items i < k := by
  induction items generalizing k with
  | nil => exact absurd hi List.not_mem_nil
  | cons a rest ih =>
    rw [List.pairwise_cons] at hsorted
    cases k with
    | zero => simp
    | succ k =>
      rw [List.take_succ_cons, List.mem_cons]
      cases List.mem_cons.mp hi with
      | inl heq =>
        have hnone : above key (a :: rest) i = 0 := by
          rw [above, heq, List.length_eq_zero_iff, List.filter_eq_nil_iff]
          intro x hx
          cases List.mem_cons.mp hx with
          | inl hax => simp [hax]
          | inr hrest => simpa using (hsorted.1 x hrest).le
        exact iff_of_true (.inl heq) (hnone ▸ Nat.succ_pos k)
      | inr hrest =>
        have hlt := hsorted.1 i hrest
        have hcount : above key (a :: rest) i = above key rest i + 1 := by
          rw [above, List.filter_cons, if_pos (by simpa using hlt), List.length_cons, above]
        rw [hcount, Nat.add_lt_add_iff_right, ← ih hsorted.2 hrest]
        exact or_iff_right fun heq => absurd hlt (heq ▸ lt_irrefl _)

/-- In order, from the greatest on. -/
def ranked (key : α → κ) (items : List α) : List α := items.insertionSort fun a b => key b ≤ key a

theorem ranked_perm : (ranked key items).Perm items := List.perm_insertionSort _ _

theorem ranked_sorted (hnodup : (items.map key).Nodup) :
    (ranked key items).Pairwise fun a b => key b < key a := by
  have htotal : Std.Total fun a b => key b ≤ key a := ⟨fun a b => le_total (key b) (key a)⟩
  have htrans : IsTrans α fun a b => key b ≤ key a := ⟨fun a b c hab hbc => hbc.trans hab⟩
  have hsorted := List.pairwise_insertionSort (fun a b => key b ≤ key a) items
  have hdistinct : (ranked key items).Pairwise fun a b => key a ≠ key b :=
    List.pairwise_map.mp ((ranked_perm.map key).nodup_iff.mpr hnodup)
  exact hsorted.imp₂ (fun a b hle hne => lt_of_le_of_ne hle hne.symm) hdistinct

theorem mem_take_ranked (hnodup : (items.map key).Nodup) :
    i ∈ (ranked key items).take k ↔ i ∈ top key k items := by
  rw [mem_top]
  constructor
  · intro h
    have hmem := List.mem_of_mem_take h
    rw [mem_take_iff (ranked_sorted hnodup) hmem, above_perm ranked_perm] at h
    exact ⟨ranked_perm.mem_iff.mp hmem, h⟩
  · intro ⟨hi, hlt⟩
    rw [mem_take_iff (ranked_sorted hnodup) (ranked_perm.mem_iff.mpr hi), above_perm ranked_perm]
    exact hlt

theorem length_top (hnodup : (items.map key).Nodup) : (top key k items).length = min k items.length := by
  have hitems : items.Nodup := hnodup.of_map
  have hperm : (top key k items).Perm ((ranked key items).take k) :=
    (List.perm_ext_iff_of_nodup (hitems.filter _)
      ((ranked_perm.nodup_iff.mpr hitems).sublist (List.take_sublist _ _))).mpr
      fun _ => (mem_take_ranked hnodup).symm
  rw [hperm.length_eq, List.length_take, ranked_perm.length_eq]

/-- Of the items that are greatest by one key none is passed over, if by the other key all
of those are above the rest. -/
theorem subset_top_of_separated (hnodup : (items.map key).Nodup)
    (h : ∀ i ∈ top key k items, ∀ j ∈ items, j ∉ top key k items → other j < other i) :
    top other k items ⊆ top key k items := by
  intro i hi
  by_contra hnot
  obtain ⟨hmem, hlt⟩ := mem_top.mp hi
  have hsub : top key k items ⊆ items.filter fun j => other i < other j := fun j hj =>
    List.mem_filter.mpr ⟨(mem_top.mp hj).1, by simpa using h j hj i hmem hnot⟩
  have hle : (top key k items).length ≤ above other items i :=
    (List.subperm_of_subset (hnodup.of_map.filter _) hsub).length_le
  -- Fewer than `k` are left, so these are all.
  rw [length_top hnodup] at hle
  have hall : above key items i < k := by
    have hcount : above key items i ≤ items.length := List.length_filter_le _ _
    omega
  exact hnot (mem_top.mpr ⟨hmem, by omega⟩)

/-- No item is passed over for a smaller one: what is above in the one order by enough is
so in the other. -/
def Agrees (key : α → κ) (other : α → ι) (k : Nat) (items : List α) : Prop :=
  ∀ a ∈ items, ∀ b ∈ items, other a < other b → above key items a < k → above key items b < k

theorem Agrees.of_monotone (h : ∀ a ∈ items, ∀ b ∈ items, other a < other b → key a < key b) :
    Agrees key other k items :=
  fun a ha b hb hlt hcount => lt_of_le_of_lt (above_le_of_le (h a ha b hb hlt).le) hcount

theorem agrees_iff (hnodup : (items.map other).Nodup) : Agrees key other k items ↔
    ∀ i ∈ top key k items, ∀ j ∈ items, j ∉ top key k items → other j < other i := by
  constructor
  · intro h i hi j hj hnot
    obtain ⟨hmem, hlt⟩ := mem_top.mp hi
    by_contra hle
    cases lt_or_eq_of_le (not_lt.mp hle) with
    | inl hij => exact hnot (mem_top.mpr ⟨hj, h i hmem j hj hij hlt⟩)
    | inr heq => exact hnot (List.inj_on_of_nodup_map hnodup hmem hj heq ▸ hi)
  · intro h a ha b hb hlt hcount
    by_contra hnot
    exact lt_asymm hlt (h a (mem_top.mpr ⟨ha, hcount⟩) b hb fun hb' => hnot (mem_top.mp hb').2)

/-- Some of the items are left out first. What is greatest of the others is greatest of
all just if none of the `k` greatest has been left out. -/
theorem top_filter_iff {keep : α → Bool} (hkey : (items.map key).Nodup) (hother : (items.map other).Nodup) :
    ((∀ i ∈ top key k (items.filter keep), ∀ j ∈ items, j ∉ top key k (items.filter keep) → other j < other i) ∧
        top other k items ⊆ top key k (items.filter keep)) ↔
      (∀ j ∈ items, keep j = false → k ≤ above other items j) ∧ Agrees key other k (items.filter keep) := by
  have hkey' : ((items.filter keep).map key).Nodup := hkey.sublist (List.filter_sublist.map _)
  rw [agrees_iff (hother.sublist (List.filter_sublist.map _))]
  constructor
  · intro ⟨hsep, hsub⟩
    refine ⟨fun j hj hout => ?_, fun i hi j hj => hsep i hi j (List.mem_of_mem_filter hj)⟩
    by_contra hlt
    have htop := hsub (mem_top.mpr ⟨hj, not_le.mp hlt⟩)
    have hkept := (List.mem_filter.mp (mem_top.mp htop).1).2
    rw [hout] at hkept
    exact nomatch hkept
  · intro ⟨hout, hsep⟩
    have hsub : top other k items ⊆ top key k (items.filter keep) := fun i hi => by
      obtain ⟨hmem, hlt⟩ := mem_top.mp hi
      have hkept : keep i = true := by
        by_contra hno
        exact absurd (hout i hmem (by simpa using hno)) (not_le.mpr hlt)
      refine subset_top_of_separated hkey' hsep (mem_top.mpr ⟨List.mem_filter.mpr ⟨hmem, hkept⟩, ?_⟩)
      exact lt_of_le_of_lt (List.filter_sublist.filter _).length_le hlt
    refine ⟨fun i hi j hj hnot => ?_, hsub⟩
    cases hkept : keep j with
    | true => exact hsep i hi j (List.mem_filter.mpr ⟨hj, hkept⟩) hnot
    | false =>
      -- There are `k` above what has been left out, so what is left is just those.
      have hcount := hout j hj hkept
      have hlength : (top key k (items.filter keep)).length ≤ (top other k items).length := by
        rw [length_top hkey', length_top hother]
        have hall : above other items j ≤ items.length := List.length_filter_le _ _
        omega
      have hperm := (List.subperm_of_subset (hother.of_map.filter _) hsub).perm_of_length_le hlength
      have hlt := (mem_top.mp (hperm.mem_iff.mpr hi)).2
      by_contra hle
      exact absurd (above_le_of_le (not_lt.mp hle)) (not_le.mpr (lt_of_lt_of_le hlt hcount))

end

end Ranking
