import FactCast.Machine.Log

/-! States that are what the entries of a log made of them.

A reader applies the entries that satisfy a predicate to its state, in order.
What this file says is how far such a state depends on the log: it can be resumed
where it was left, and entries that do not satisfy the predicate leave it alone. -/
namespace Log
variable {α σ : Type} (ser : α → Nat) (p : α → Bool) (apply : σ → α → σ)

/-- A state after the entries of a log that satisfy `p`. -/
def replay (s : σ) (l : List α) : σ := (l.filter p).foldl apply s

variable {ser p apply} {s : σ} {l m : List α} {x : α} {n k j : Nat}

theorem replay_append : replay p apply s (l ++ m) = replay p apply (replay p apply s l) m := by
  simp [replay, List.filter_append, List.foldl_append]

/-- Entries that do not satisfy the predicate leave the state alone. -/
theorem replay_of_none (h : ∀ x ∈ l, p x = false) : replay p apply s l = s := by
  have hnone : l.filter p = [] := List.filter_eq_nil_iff.mpr fun x hx => by simp [h x hx]
  simp [replay, hnone]

/-- Resuming after the first `n` entries, up to the `k`-th. -/
theorem replay_take (h : n ≤ k) :
    replay p apply (replay p apply s (l.take n)) ((l.take k).drop n) = replay p apply s (l.take k) := by
  rw [← replay_append]
  congr 1
  have hn : l.take n = (l.take k).take n := by rw [List.take_take, Nat.min_eq_left h]
  rw [hn, List.take_append_drop]

/-- A range in which nothing satisfies the predicate does not matter. -/
theorem replay_take_of_clear (h : n ≤ k) (hclear : ((l.take k).drop n).filter p = []) :
    replay p apply s (l.take k) = replay p apply s (l.take n) := by
  rw [← replay_take h]
  apply replay_of_none
  intro x hx
  exact Bool.eq_false_iff.mpr (List.filter_eq_nil_iff.mp hclear x hx)

/-- Where the last entry of a range that satisfies the predicate lies. -/
theorem exists_last (h : ((l.take k).drop n).filter p = m ++ [x]) :
    ∃ i, n ≤ i ∧ i < k ∧ l[i]? = some x ∧ p x = true ∧ ((l.take k).drop (i + 1)).filter p = [] := by
  obtain ⟨before, behind, hsplit, _, hbehind⟩ := List.filter_eq_append_iff.mp h
  obtain ⟨between, rest, rfl, _, hx, hrest⟩ := List.filter_eq_cons_iff.mp hbehind
  have hplace : (l.take k).drop n = (before ++ between) ++ x :: rest := by
    rw [hsplit, List.append_assoc]
  refine ⟨n + (before ++ between).length, Nat.le_add_right _ _, ?_, ?_, hx, ?_⟩
  · have hlen := congrArg List.length hplace
    simp only [List.length_drop, List.length_take, List.length_append, List.length_cons] at hlen ⊢
    omega
  · have hget : ((l.take k).drop n)[(before ++ between).length]? = some x := by
      rw [hplace, List.getElem?_append_right (Nat.le_refl _), Nat.sub_self]
      rfl
    rw [List.getElem?_drop, List.getElem?_take] at hget
    split at hget
    · exact hget
    · cases hget
  · rw [Nat.add_assoc, ← List.drop_drop, hplace, List.drop_append, List.drop_eq_nil_of_le (Nat.le_succ _),
      List.nil_append, Nat.add_sub_cancel_left]
    exact hrest

/-- Adjacent ranges concatenate. -/
theorem range_append (hn : n ≤ k) (hk : k ≤ j) (hlen : k ≤ l.length) :
    (l.take j).drop n = (l.take k).drop n ++ (l.take j).drop k := by
  have hcut : l.take j = l.take k ++ (l.take j).drop k := by
    rw [← Nat.min_eq_left hk, ← List.take_take, Nat.min_eq_left hk, List.take_append_drop]
  have hle : n ≤ (l.take k).length := by
    rw [List.length_take]
    omega
  conv => lhs; rw [hcut]
  exact List.drop_append_of_le_length hle

/-- A range grows by what is next. -/
theorem filter_next (hn : n ≤ k) (hnext : (l.drop k).findIdx? p = some j) (hx : l[k + j]? = some x) :
    ((l.take (k + j + 1)).drop n).filter p = ((l.take k).drop n).filter p ++ [x] := by
  obtain ⟨hlen, hmatch, hbefore⟩ := List.findIdx?_eq_some_iff_getElem.mp hnext
  rw [List.length_drop] at hlen
  have hget : (l.drop k)[j]? = some x := by rw [List.getElem?_drop, hx]
  have hbetween : ((l.drop k).take j).filter p = [] := by
    rw [List.filter_eq_nil_iff]
    intro y hy
    obtain ⟨i, hi, rfl⟩ := List.mem_take_iff_getElem.mp hy
    exact hbefore i (by omega)
  rw [List.getElem?_eq_some_iff] at hget
  obtain ⟨hj, rfl⟩ := hget
  have hstep : (l.take (k + j + 1)).drop k = (l.drop k).take j ++ [(l.drop k)[j]] := by
    rw [List.drop_take, Nat.add_assoc, Nat.add_sub_cancel_left, List.take_add_one,
      List.getElem?_eq_getElem hj]
    rfl
  rw [range_append hn (by omega) (by omega), List.filter_append, hstep, List.filter_append, hbetween,
    List.nil_append, List.filter_cons_of_pos hmatch, List.filter_nil]

/-- A range does not grow by what does not satisfy the predicate. -/
theorem filter_clear (hn : n ≤ k) (hlen : k ≤ l.length) (hclear : ((l.take j).drop k).filter p = []) :
    ((l.take (max k j)).drop n).filter p = ((l.take k).drop n).filter p := by
  rcases Nat.le_total j k with hj | hk
  · rw [Nat.max_eq_left hj]
  · rw [Nat.max_eq_right hk, range_append hn hk hlen, List.filter_append, hclear, List.append_nil]

/-- The serials of a cut log: those behind the cut are above all before it. -/
theorem last_take_lt (hasc : Ascending ser l) (hpos : ∀ x ∈ l, 0 < ser x)
    (hx : x ∈ l.drop n) : last ser (l.take n) < ser x := by
  have hcut : Ascending ser (l.take n ++ l.drop n) := by
    rw [List.take_append_drop]
    exact hasc
  have hx0 := hpos x (List.mem_of_mem_drop hx)
  have hle : last ser (l.take n) ≤ ser x - 1 := by
    refine last_le fun y hy => ?_
    have := hcut.lt_of_append hy hx
    omega
  omega

end Log
