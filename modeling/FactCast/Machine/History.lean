import FactCast.Machine.Run

/-! What was noted along a run.

A history watches the steps of a machine and keeps what a state has forgotten. It
decides nothing: a run goes where it went without it (`reachable`), and every run
has one (`exists_history`). -/

/-- What is noted at first, and what a step adds. -/
structure History (S A H : Type) where
  initial : H
  note : S → A → H → H

namespace Machine
variable {S A H : Type} {M : Machine S A} {o : History S A H} {C : S → A → Prop}

/-- The machine beside its history. -/
def along (M : Machine S A) (o : History S A H) : Machine (S × H) A where
  Start p := M.Start p.1 ∧ p.2 = o.initial
  step p a := (M.step p.1 a).map fun s => (s, o.note p.1 a p.2)

theorem along_step {p p' : S × H} {a : A} :
    (M.along o).step p a = some p' ↔ M.step p.1 a = some p'.1 ∧ p'.2 = o.note p.1 a p.2 := by
  simp only [along, Option.map_eq_some_iff]
  constructor
  · rintro ⟨s, hs, rfl⟩
    exact ⟨hs, rfl⟩
  · rintro ⟨hs, hnote⟩
    exact ⟨p'.1, hs, by rw [← hnote]⟩

theorem ReachableUnder.along_fst {p : S × H}
    (h : (M.along o).ReachableUnder (fun p a => C p.1 a) p) : M.ReachableUnder C p.1 := by
  induction h with
  | start h => exact .start h.1
  | step _ hc hs ih => exact .step ih hc (along_step.mp hs).1

/-- No run is lost for being watched. -/
theorem ReachableUnder.exists_history (o : History S A H) {s : S} (h : M.ReachableUnder C s) :
    ∃ noted, (M.along o).ReachableUnder (fun p a => C p.1 a) (s, noted) := by
  induction h with
  | start h => exact ⟨o.initial, .start ⟨h, rfl⟩⟩
  | step _ hc hs ih =>
    obtain ⟨noted, ih⟩ := ih
    exact ⟨_, ReachableUnder.step (C := fun (p : S × H) a => C p.1 a) ih hc
      (along_step.mpr ⟨hs, rfl⟩)⟩

end Machine
