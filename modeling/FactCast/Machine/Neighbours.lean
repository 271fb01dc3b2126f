import Mathlib.Data.List.Pairwise

/-! Neighbours in a list.

What holds of all neighbours holds of every two elements if it is transitive
(`pairwise_of_neighbours`). In a list that is in order nothing lies between two
neighbours (`outside_of_neighbours`), and two elements with nothing between them are
equivalent to neighbours (`exists_neighbours`). -/

/-- Each element with the one that follows. -/
def neighbours {α : Type} (l : List α) : List (α × α) := l.zip l.tail

section Neighbours
variable {α : Type} {r : α → α → Prop} {l : List α} {a b v w z : α}

theorem neighbours_cons_cons : neighbours (a :: b :: l) = (a, b) :: neighbours (b :: l) := rfl

theorem mem_of_neighbours (h : (a, b) ∈ neighbours l) : a ∈ l ∧ b ∈ l :=
  ⟨(List.of_mem_zip h).1, List.mem_of_mem_tail (List.of_mem_zip h).2⟩

theorem rel_of_neighbours (hl : l.Pairwise r) (h : (a, b) ∈ neighbours l) : r a b := by
  induction l with
  | nil => cases h
  | cons c rest ih =>
    cases rest with
    | nil => cases h
    | cons d rest =>
      obtain ⟨hc, hrest⟩ := List.pairwise_cons.mp hl
      rw [neighbours_cons_cons] at h
      rcases List.mem_cons.mp h with heq | h
      · obtain ⟨rfl, rfl⟩ := Prod.mk.inj heq
        exact hc b (List.mem_cons_self ..)
      · exact ih hrest h

/-- The last of different elements has none that follows it. -/
theorem ne_last_of_neighbours (hl : l.Nodup) (h : (a, b) ∈ neighbours l) : l.getLast? ≠ some a := by
  induction l with
  | nil => cases h
  | cons c rest ih =>
    cases rest with
    | nil => cases h
    | cons d rest =>
      obtain ⟨hc, hrest⟩ := List.nodup_cons.mp hl
      rw [List.getLast?_cons_cons]
      rw [neighbours_cons_cons] at h
      rcases List.mem_cons.mp h with heq | h
      · obtain ⟨rfl, rfl⟩ := Prod.mk.inj heq
        exact fun hlast => hc (List.mem_of_getLast? hlast)
      · exact ih hrest h

theorem pairwise_of_neighbours (htrans : ∀ a b c, r a b → r b c → r a c)
    (h : ∀ p ∈ neighbours l, r p.1 p.2) : l.Pairwise r := by
  induction l with
  | nil => exact .nil
  | cons a rest ih =>
    cases rest with
    | nil => exact List.pairwise_singleton r a
    | cons b rest =>
      rw [neighbours_cons_cons, List.forall_mem_cons] at h
      have hrest := ih h.2
      refine List.pairwise_cons.mpr ⟨fun c hc => ?_, hrest⟩
      rcases List.mem_cons.mp hc with rfl | hc
      · exact h.1
      · exact htrans a b c h.1 ((List.pairwise_cons.mp hrest).1 c hc)

/-- Of two elements the one that does not come later comes first. -/
theorem rel_of_not_rel {s : α → α → Prop} (hl : l.Pairwise r) (hs : l.Pairwise s) (ha : a ∈ l) (hb : b ∈ l)
    (hne : a ≠ b) (hba : ¬ r b a) : s a b := by
  induction l with
  | nil => cases ha
  | cons c rest ih =>
    obtain ⟨hc, hrest⟩ := List.pairwise_cons.mp hl
    obtain ⟨hsc, hsrest⟩ := List.pairwise_cons.mp hs
    rcases List.mem_cons.mp ha with rfl | harest
    · exact hsc b ((List.mem_cons.mp hb).resolve_left hne.symm)
    · rcases List.mem_cons.mp hb with rfl | hbrest
      · exact absurd (hc a harest) hba
      · exact ih hrest hsrest harest hbrest

/-- An element that is neither of two neighbours comes before both, or after both. -/
theorem outside_of_neighbours (hl : l.Pairwise r) (h : (a, b) ∈ neighbours l) (hz : z ∈ l) :
    (z = a ∨ r z a) ∨ z = b ∨ r b z := by
  induction l with
  | nil => cases hz
  | cons c rest ih =>
    cases rest with
    | nil => cases h
    | cons d rest =>
      obtain ⟨hc, hrest⟩ := List.pairwise_cons.mp hl
      rw [neighbours_cons_cons] at h
      rcases List.mem_cons.mp h with heq | hlater
      · obtain ⟨rfl, rfl⟩ := Prod.mk.inj heq
        rcases List.mem_cons.mp hz with rfl | hz
        · exact .inl (.inl rfl)
        · rcases List.mem_cons.mp hz with rfl | hz
          · exact .inr (.inl rfl)
          · exact .inr (.inr ((List.pairwise_cons.mp hrest).1 z hz))
      · rcases List.mem_cons.mp hz with rfl | hz
        · exact .inl (.inr (hc a (mem_of_neighbours hlater).1))
        · exact ih hrest hlater hz

/-- In order, `w` comes after `v`, and everything comes before `v` or after `w`. -/
theorem exists_neighbours (hrefl : ∀ a, r a a) (htrans : ∀ a b c, r a b → r b c → r a c)
    (hl : l.Pairwise r) (hv : ∃ a ∈ l, r a v ∧ r v a) (hw : w ∈ l) (hvw : ¬ r w v)
    (houtside : ∀ z ∈ l, r z v ∨ r w z) :
    ∃ a b, (a, b) ∈ neighbours l ∧ (r a v ∧ r v a) ∧ r b w ∧ r w b := by
  induction l with
  | nil => cases hw
  | cons a rest ih =>
    obtain ⟨ha, hrest⟩ := List.pairwise_cons.mp hl
    obtain ⟨v', hv', hv'v, hvv'⟩ := hv
    cases rest with
    | nil =>
      rw [List.mem_singleton] at hv' hw
      exact absurd (hw ▸ hv' ▸ hv'v) hvw
    | cons b rest =>
      rw [neighbours_cons_cons]
      obtain ⟨hb, -⟩ := List.pairwise_cons.mp hrest
      by_cases hbv : r b v
      · -- `b` is not after `v` yet, so the neighbours come later
        have hlater : ∃ q ∈ b :: rest, r q v ∧ r v q := by
          rcases List.mem_cons.mp hv' with rfl | hv'
          · exact ⟨b, List.mem_cons_self .., hbv, htrans v v' b hvv' (ha b (List.mem_cons_self ..))⟩
          · exact ⟨v', hv', hv'v, hvv'⟩
        have hw' : w ∈ b :: rest := by
          rcases List.mem_cons.mp hw with rfl | hw
          · exact absurd (htrans w b v (ha b (List.mem_cons_self ..)) hbv) hvw
          · exact hw
        obtain ⟨x, y, hxy, hequiv⟩ :=
          ih hrest hlater hw' fun z hz => houtside z (List.mem_cons_of_mem a hz)
        exact ⟨x, y, List.mem_cons_of_mem _ hxy, hequiv⟩
      · have hfirst : v' = a := by
          rcases List.mem_cons.mp hv' with heq | hv'
          · exact heq
          · rcases List.mem_cons.mp hv' with rfl | hv'
            · exact absurd hv'v hbv
            · exact absurd (htrans b v' v (hb v' hv') hv'v) hbv
        have hbw : r b w := by
          rcases List.mem_cons.mp hw with rfl | hw
          · exact absurd (hfirst ▸ hv'v) hvw
          · rcases List.mem_cons.mp hw with rfl | hw
            · exact hrefl w
            · exact hb w hw
        have hwb : r w b :=
          (houtside b (List.mem_cons_of_mem a (List.mem_cons_self ..))).resolve_left hbv
        exact ⟨a, b, List.mem_cons_self .., hfirst ▸ ⟨hv'v, hvv'⟩, hbw, hwb⟩

end Neighbours
