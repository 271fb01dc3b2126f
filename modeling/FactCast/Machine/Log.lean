import Mathlib.Data.List.Basic

/-! Append-only logs whose entries carry serials.

A log is ascending when every entry's serial is above those before it. Readers
of a log take the entries that satisfy a predicate and lie above one serial
(`after`), or above one and not above another (`between`). What this file says is
how these two fit together: adjacent ranges concatenate, and an append at the
end does not disturb a range that stops below it. -/
namespace Log
variable {α : Type} (ser : α → Nat) (p : α → Bool)

/-- Every entry's serial is above the serials of the entries before it. -/
def Ascending (l : List α) : Prop := l.Pairwise fun a b => ser a < ser b

instance (l : List α) : Decidable (Ascending ser l) :=
  inferInstanceAs (Decidable (l.Pairwise fun a b => ser a < ser b))

/-- The entries that satisfy `p` above serial `a`. -/
def after (a : Nat) (l : List α) : List α := l.filter fun r => p r && decide (a < ser r)

/-- The entries that satisfy `p` above serial `a` and not above serial `b`. -/
def between (a b : Nat) (l : List α) : List α :=
  l.filter fun r => p r && decide (a < ser r) && decide (ser r ≤ b)

/-- The highest serial of a log, zero if it is empty. -/
def last (l : List α) : Nat := (l.map ser).foldr max 0

variable {ser p} {a b c : Nat} {l m : List α} {r : α}

@[simp] theorem mem_after : r ∈ after ser p a l ↔ r ∈ l ∧ p r = true ∧ a < ser r := by
  simp [after]

@[simp] theorem mem_between :
    r ∈ between ser p a b l ↔ r ∈ l ∧ p r = true ∧ a < ser r ∧ ser r ≤ b := by
  simp [between, and_assoc]

theorem le_last (h : r ∈ l) : ser r ≤ last ser l := by
  induction l with
  | nil => cases h
  | cons x rest ih =>
    simp only [last, List.map_cons, List.foldr_cons]
    rcases List.mem_cons.mp h with rfl | h
    · exact Nat.le_max_left ..
    · exact Nat.le_trans (ih h) (Nat.le_max_right ..)

theorem last_le (h : ∀ x ∈ l, ser x ≤ a) : last ser l ≤ a := by
  induction l with
  | nil => exact Nat.zero_le a
  | cons x rest ih =>
    simp only [last, List.map_cons, List.foldr_cons]
    exact Nat.max_le.mpr ⟨h x (by simp), ih fun y hy => h y (by simp [hy])⟩

/-- A log of positive serials has none if and only if it is empty. -/
theorem last_eq_zero (h : ∀ x ∈ l, 0 < ser x) : last ser l = 0 ↔ l = [] := by
  constructor
  · intro h0
    cases l with
    | nil => rfl
    | cons x rest =>
      have hx := h x (by simp)
      have hle : ser x ≤ last ser (x :: rest) := le_last (List.mem_cons_self ..)
      omega
  · rintro rfl
    rfl

theorem Ascending.append (hl : Ascending ser l) (hm : Ascending ser m)
    (h : ∀ x ∈ l, ∀ y ∈ m, ser x < ser y) : Ascending ser (l ++ m) :=
  List.pairwise_append.mpr ⟨hl, hm, h⟩

theorem Ascending.of_append_left (h : Ascending ser (l ++ m)) : Ascending ser l :=
  (List.pairwise_append.mp h).1

theorem Ascending.lt_of_append (h : Ascending ser (l ++ m)) {x y : α} (hx : x ∈ l) (hy : y ∈ m) :
    ser x < ser y :=
  (List.pairwise_append.mp h).2.2 x hx y hy

theorem Ascending.filter (h : Ascending ser l) (q : α → Bool) : Ascending ser (l.filter q) :=
  List.Pairwise.filter q h

theorem Ascending.after (h : Ascending ser l) : Ascending ser (after ser p a l) := h.filter _

theorem Ascending.between (h : Ascending ser l) : Ascending ser (between ser p a b l) := h.filter _

/-- An ascending log holds no entry twice. -/
theorem Ascending.nodup (h : Ascending ser l) : l.Nodup :=
  List.Pairwise.imp (fun hlt he => by simp [he] at hlt) h

theorem Ascending.of_isPrefix (h : Ascending ser m) (hp : l <+: m) : Ascending ser l := by
  obtain ⟨t, rfl⟩ := hp
  exact h.of_append_left

theorem after_append : after ser p a (l ++ m) = after ser p a l ++ after ser p a m :=
  List.filter_append ..

theorem between_append : between ser p a b (l ++ m) = between ser p a b l ++ between ser p a b m :=
  List.filter_append ..

/-- Adjacent ranges of an ascending log concatenate. -/
theorem between_append_after (h : Ascending ser l) (hab : a ≤ b) :
    between ser p a b l ++ after ser p b l = after ser p a l := by
  induction l with
  | nil => rfl
  | cons x rest ih =>
    have hrest := ih (List.pairwise_cons.mp h).2
    by_cases hb : ser x ≤ b
    · by_cases hk : p x = true ∧ a < ser x
      · simp_all [between, after, Nat.not_lt.mpr hb]
      · have h1 : (p x && decide (a < ser x)) = false := by simpa using hk
        simp_all [between, after, Nat.not_lt.mpr hb]
    · -- everything from here on lies above `b`, so the range up to `b` is over
      have hempty : between ser p a b rest = [] := by
        simp only [between, List.filter_eq_nil_iff]
        intro y hy
        have := (List.pairwise_cons.mp h).1 y hy
        simp only [Bool.and_eq_true, decide_eq_true_eq]
        omega
      have h1 : between ser p a b (x :: rest) = [] := by
        simp [between, hb] at hempty ⊢
        exact hempty
      rw [hempty, List.nil_append] at hrest
      have hxa : a < ser x := by omega
      have hxb : b < ser x := by omega
      rw [h1, List.nil_append]
      simp only [after, List.filter_cons, hxa, hxb] at hrest ⊢
      rw [hrest]

theorem between_eq_filter :
    between ser p a b l = (after ser p a l).filter fun r => decide (ser r ≤ b) := by
  simp [between, after, List.filter_filter, Bool.and_comm]

/-- Entries appended above a range leave it as it was. -/
theorem between_append_above (h : ∀ x ∈ m, b < ser x) :
    between ser p a b (l ++ m) = between ser p a b l := by
  have hm : between ser p a b m = [] := by
    simp only [between, List.filter_eq_nil_iff, Bool.and_eq_true, decide_eq_true_eq]
    intro x hx
    have := h x hx
    omega
  rw [between_append, hm, List.append_nil]

@[simp] theorem between_self : between ser p a a l = [] := by
  simp only [between, List.filter_eq_nil_iff, Bool.and_eq_true, decide_eq_true_eq]
  intro x _
  omega

/-- What follows a prefix of a range is what lies above the prefix's last entry. -/
theorem append_after_of_isPrefix (h : Ascending ser l) (hp : m ++ [r] <+: after ser p a l) :
    m ++ [r] ++ after ser p (ser r) l = after ser p a l := by
  obtain ⟨rest, hrest⟩ := hp
  have hasc : Ascending ser (m ++ [r] ++ rest) := hrest ▸ h.after
  have hr : r ∈ after ser p a l := by simp [← hrest]
  have hlt := (mem_after.mp hr).2.2
  have htail : after ser p (ser r) l = (m ++ [r] ++ rest).filter fun x => decide (ser r < ser x) := by
    rw [hrest]
    simp only [after, List.filter_filter]
    refine List.filter_congr fun x _ => ?_
    by_cases hx : ser r < ser x
    · simp [hx, Nat.lt_trans hlt hx]
    · simp [hx]
  have hbefore : m.filter (fun x => decide (ser r < ser x)) = [] := by
    refine List.filter_eq_nil_iff.mpr fun x hx => ?_
    have := hasc.of_append_left.lt_of_append hx (List.mem_singleton_self r)
    simp only [decide_eq_true_eq]
    omega
  have hafter : rest.filter (fun x => decide (ser r < ser x)) = rest := by
    refine List.filter_eq_self.mpr fun x hx => ?_
    exact decide_eq_true (hasc.lt_of_append (by simp) hx)
  rw [htail, List.filter_append, List.filter_append, hbefore, hafter, ← hrest]
  simp

end Log
