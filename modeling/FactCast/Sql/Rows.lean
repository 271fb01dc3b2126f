import Mathlib.Algebra.GroupWithZero.Nat
import Mathlib.Data.List.Nodup

/-! Tables as lists of rows.

A row has a key if the table holds no two rows with it (`Keyed`). What the
statements that write do is said by the rows there are afterwards (`mem_deleteAt`,
`mem_upsert`) or by what is found under each key (`row_deleteAt`, `row_merge`). A
comparison with a value that is not given is never true (`equals`), so a row found by
such a comparison has a key of values that are. -/
namespace Sql

/-- `a = b` is true. -/
def equals {α : Type} [DecidableEq α] : Option α → Option α → Bool
  | some a, some b => decide (a = b)
  | _, _ => false

@[simp] theorem equals_none {α : Type} [DecidableEq α] (a : Option α) : equals a none = false := by
  cases a <;> rfl

@[simp] theorem equals_some {α : Type} [DecidableEq α] (a : Option α) (b : α) :
    equals a (some b) = decide (a = some b) := by
  cases a <;> simp [equals]

/-- A column of a limited length takes the text. -/
def varchar (n : Nat) (text : String) : Bool := decide (text.length ≤ n)

section Rows
variable {ρ κ : Type} (key : ρ → κ)

/-- The key is unique. -/
def Keyed (rows : List ρ) : Prop := (rows.map key).Nodup

@[simp] theorem keyed_nil : Keyed key [] := List.nodup_nil

theorem Keyed.map {key : ρ → κ} {rows : List ρ} {f : ρ → ρ} (h : Keyed key rows)
    (hf : ∀ r, key (f r) = key r) : Keyed key (rows.map f) := by
  rw [Keyed, List.map_map, show key ∘ f = key from funext hf]
  exact h

theorem Keyed.append {key : ρ → κ} {rows : List ρ} {new : ρ} (h : Keyed key rows)
    (hfree : ∀ r ∈ rows, key r ≠ key new) :
    Keyed key (rows ++ [new]) := by
  rw [Keyed, List.map_append]
  refine List.nodup_append.mpr ⟨h, List.nodup_singleton _, fun a ha b hb heq => ?_⟩
  obtain ⟨r, hr, rfl⟩ := List.mem_map.mp ha
  obtain rfl : b = key new := by simpa using hb
  exact hfree r hr heq

/-- Rows that match are updated; the new one is inserted if none does. -/
def merge (on : ρ → Bool) (update : ρ → ρ) (new : ρ) (rows : List ρ) : List ρ :=
  if rows.any on then rows.map fun r => if on r then update r else r else rows ++ [new]

theorem Keyed.merge {key : ρ → κ} {rows : List ρ} {on : ρ → Bool} {update : ρ → ρ} {new : ρ}
    (h : Keyed key rows) (hon : ∀ r, on r = true ↔ key r = key new)
    (hupdate : ∀ r, key (update r) = key r) : Keyed key (merge on update new rows) := by
  unfold Sql.merge
  split
  · refine h.map fun r => ?_
    split
    · exact hupdate r
    · rfl
  · rename_i hnone
    exact h.append fun r hr heq => hnone (List.any_eq_true.mpr ⟨r, hr, (hon r).mpr heq⟩)

variable [DecidableEq κ]

/-- The row with the key, if there is one. -/
def row (rows : List ρ) (k : κ) : Option ρ := rows.find? fun r => decide (key r = k)

def deleteAt (rows : List ρ) (k : κ) : List ρ := rows.filter fun r => decide (key r ≠ k)

/-- The row takes the place of the one with its key. -/
def upsert (rows : List ρ) (r : ρ) : List ρ := deleteAt key rows (key r) ++ [r]

/-- The first row with the key is overwritten where it is, or a row is appended. -/
def put (new : ρ) : List ρ → List ρ
  | [] => [new]
  | r :: rest => if key r = key new then new :: rest else r :: put new rest

variable {key} {rows : List ρ} {r : ρ} {k l : κ}

theorem row_eq_none_iff : row key rows k = none ↔ ∀ r ∈ rows, key r ≠ k := by
  simp [row, List.find?_eq_none]

theorem mem_of_row (h : row key rows k = some r) : r ∈ rows ∧ key r = k :=
  ⟨List.mem_of_find?_eq_some h, by simpa using List.find?_some h⟩

theorem row_eq_some_iff (h : Keyed key rows) : row key rows k = some r ↔ r ∈ rows ∧ key r = k := by
  refine ⟨mem_of_row, fun ⟨hr, hk⟩ => ?_⟩
  cases hfound : row key rows k with
  | none => exact absurd hk (row_eq_none_iff.mp hfound r hr)
  | some r' =>
    obtain ⟨hr', hk'⟩ := mem_of_row hfound
    rw [List.inj_on_of_nodup_map h hr' hr (hk'.trans hk.symm)]

/-- The rows with one key are one at most. -/
theorem Keyed.countP_le_one (h : Keyed key rows) : rows.countP (fun r => decide (key r = k)) ≤ 1 := by
  have hcount := List.nodup_iff_count_le_one.mp h k
  rw [List.count_eq_countP, List.countP_map] at hcount
  exact hcount

@[simp] theorem row_nil : row key [] k = none := rfl

theorem row_cons {new : ρ} : row key (new :: rows) k = if key new = k then some new else row key rows k := by
  rw [row, List.find?_cons]
  by_cases heq : key new = k
  · simp [heq]
  · simp [heq, row]

@[simp] theorem mem_deleteAt : r ∈ deleteAt key rows k ↔ r ∈ rows ∧ key r ≠ k := by
  simp [deleteAt]

theorem Keyed.deleteAt (h : Keyed key rows) : Keyed key (deleteAt key rows k) :=
  h.sublist (List.filter_sublist.map key)

theorem row_deleteAt : row key (deleteAt key rows l) k = if k = l then none else row key rows k := by
  split
  · rename_i heq
    rw [row_eq_none_iff]
    exact fun r hr => heq ▸ (mem_deleteAt.mp hr).2
  · rename_i hne
    rw [row, Sql.deleteAt, List.find?_filter]
    refine congrArg (rows.find? ·) (funext fun r => ?_)
    by_cases hk : key r = k
    · simp [hk, hne]
    · simp [hk]

@[simp] theorem mem_upsert {new : ρ} : r ∈ upsert key rows new ↔ r = new ∨ r ∈ rows ∧ key r ≠ key new := by
  simp [upsert, or_comm]

/-- Another key is kept if no row that stays has that of the new one. -/
theorem Keyed.upsert_of {μ : Type} {other : ρ → μ} {new : ρ} (h : Keyed other rows)
    (hfree : ∀ r ∈ rows, other r = other new → key r = key new) : Keyed other (upsert key rows new) := by
  rw [Keyed, Sql.upsert, List.map_append]
  refine List.nodup_append.mpr ⟨h.sublist (List.filter_sublist.map other), List.nodup_singleton _,
    fun a ha b hb heq => ?_⟩
  obtain ⟨r, hr, rfl⟩ := List.mem_map.mp ha
  obtain rfl : b = other new := by simpa using hb
  obtain ⟨hold, hne⟩ := mem_deleteAt.mp hr
  exact hne (hfree r hold heq)

theorem Keyed.upsert {new : ρ} (h : Keyed key rows) : Keyed key (upsert key rows new) :=
  h.upsert_of fun _ _ heq => heq

/-- The new row takes the place of the one with its key. -/
theorem mem_put {new : ρ} (h : Keyed key rows) :
    r ∈ put key new rows ↔ r = new ∨ r ∈ rows ∧ key r ≠ key new := by
  induction rows with
  | nil => simp [put]
  | cons q rest ih =>
    obtain ⟨hq, hrest⟩ := List.nodup_cons.mp h
    unfold put
    split
    · rename_i heq
      have hothers : r ∈ rest → key r ≠ key new := fun hr hkey =>
        hq (heq.trans hkey.symm ▸ List.mem_map_of_mem hr)
      rw [List.mem_cons, List.mem_cons]
      constructor
      · exact Or.imp_right fun hr => ⟨.inr hr, hothers hr⟩
      · refine Or.imp_right fun ⟨hr, hne⟩ => hr.resolve_left ?_
        rintro rfl
        exact hne heq
    · rename_i hne
      rw [List.mem_cons, ih hrest, List.mem_cons]
      constructor
      · rintro (rfl | hr)
        · exact .inr ⟨.inl rfl, hne⟩
        · exact hr.imp_right fun ⟨hr, hne⟩ => ⟨.inr hr, hne⟩
      · rintro (hnew | ⟨hr, hne⟩)
        · exact .inr (.inl hnew)
        · exact hr.imp_right fun hr => .inr ⟨hr, hne⟩

theorem Keyed.put {new : ρ} (h : Keyed key rows) : Keyed key (put key new rows) := by
  induction rows with
  | nil => exact List.nodup_singleton _
  | cons q rest ih =>
    obtain ⟨hq, hrest⟩ := List.nodup_cons.mp h
    unfold Sql.put
    split
    · rename_i heq
      exact List.nodup_cons.mpr ⟨heq ▸ hq, hrest⟩
    · rename_i hne
      refine List.nodup_cons.mpr ⟨fun hmem => ?_, ih hrest⟩
      obtain ⟨r, hr, hkey⟩ := List.mem_map.mp hmem
      rcases (mem_put hrest).mp hr with rfl | ⟨hr, -⟩
      · exact hne hkey.symm
      · exact hq (hkey ▸ List.mem_map_of_mem hr)

/-- Rows changed under their keys are found where they were. -/
theorem row_map {f : ρ → ρ} (hf : ∀ r, key (f r) = key r) :
    row key (rows.map f) k = (row key rows k).map f := by
  rw [row, row, List.find?_map]
  exact congrArg (fun p => (rows.find? p).map f) (funext fun r => by simp [hf])

section Total
variable (size : ρ → Nat)

/-- What the rows take up. -/
def total (rows : List ρ) : Nat := (rows.map size).sum

@[simp] theorem total_cons (r : ρ) (rows : List ρ) : total size (r :: rows) = size r + total size rows := by
  simp [total]

theorem total_deleteAt (h : Keyed key rows) (hr : row key rows k = some r) :
    total size (deleteAt key rows k) + size r = total size rows := by
  induction rows with
  | nil => cases hr
  | cons q rest ih =>
    obtain ⟨hq, hrest⟩ := List.nodup_cons.mp h
    rw [row_cons] at hr
    by_cases heq : key q = k
    · obtain rfl : q = r := by simpa [heq] using hr
      have hkept : deleteAt key rest k = rest :=
        List.filter_eq_self.mpr fun p hp => decide_eq_true fun hk =>
          hq (heq.trans hk.symm ▸ List.mem_map_of_mem hp)
      rw [Sql.deleteAt, List.filter_cons_of_neg (by simp [heq]), total_cons, Nat.add_comm]
      exact congrArg (size q + total size ·) hkept
    · have hdelete : deleteAt key (q :: rest) k = q :: deleteAt key rest k :=
        List.filter_cons_of_pos (by simp [heq])
      rw [hdelete, total_cons, total_cons, Nat.add_assoc, ih hrest (by simpa [heq] using hr)]

theorem total_put (new : ρ) : total size (put key new rows) + ((row key rows (key new)).elim 0 size) =
    total size rows + size new := by
  induction rows with
  | nil => simp [put, total]
  | cons q rest ih =>
    rw [row_cons]
    unfold put
    split
    · rw [total_cons, total_cons, Option.elim_some]
      omega
    · rw [total_cons, total_cons]
      omega

end Total

section Merge
variable {on : ρ → Bool} {update : ρ → ρ} {new : ρ}

/-- A merge on the whole key touches what has the key of the new row. -/
theorem row_merge (hon : ∀ r, on r = true ↔ key r = key new) (hupdate : ∀ r, key (update r) = key r) :
    row key (merge on update new rows) k =
      if k = key new then some (((row key rows k).map update).getD new) else row key rows k := by
  unfold merge
  split
  · rename_i hany
    have hkey : ∀ r, key (if on r then update r else r) = key r := fun r => by
      split
      · exact hupdate r
      · rfl
    rw [row_map hkey]
    cases hfound : row key rows k with
    | none =>
      split
      · rename_i heq
        obtain ⟨r, hr, hmatches⟩ := List.any_eq_true.mp hany
        exact absurd ((hon r).mp hmatches) (heq ▸ row_eq_none_iff.mp hfound r hr)
      · rfl
    | some r =>
      have hk := (mem_of_row hfound).2
      by_cases heq : k = key new
      · simp [heq, (hon r).mpr (hk.trans heq)]
      · have hnot : on r = false := by
          rw [← Bool.not_eq_true, hon]
          exact fun h => heq (hk.symm.trans h)
        simp [heq, hnot]
  · rename_i hnone
    have hfree : ∀ r ∈ rows, key r ≠ key new := fun r hr hk =>
      hnone (List.any_eq_true.mpr ⟨r, hr, (hon r).mpr hk⟩)
    rw [row, List.find?_append]
    show (row key rows k).or _ = _
    by_cases heq : k = key new
    · rw [heq, row_eq_none_iff.mpr hfree]
      simp
    · simp [heq, Ne.symm heq]

end Merge

end Rows

end Sql
