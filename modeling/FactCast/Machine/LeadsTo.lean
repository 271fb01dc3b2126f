import FactCast.Machine.Fair

/-! What leads to what.

A condition leads to another if wherever it holds in an execution the other holds then or
later. That is shown for one action that is due and possible as long as the first condition
lasts (`leadsTo_of_help`), and put together: one after another, by cases, and by what comes
closer (`LeadsTo.falls`). -/
namespace Machine
variable {S A ι : Type} {M : Machine S A}

/-- Runs of a machine that go on from wherever it has been. -/
def resumed (M : Machine S A) (C : S → A → Prop) : Machine S A where
  Start := M.ReachableUnder C
  step := M.step

theorem resumed_reachable {C D : S → A → Prop} (hdc : ∀ s a, D s a → C s a) {s : S}
    (h : (M.resumed C).ReachableUnder D s) : M.ReachableUnder C s := by
  induction h with
  | start h => exact h
  | step _ hd hs ih => exact .step ih (hdc _ _ hd) hs

theorem resumed_run {C : S → A → Prop} (s : S) (as : List A) : (M.resumed C).run s as = M.run s as := by
  induction as generalizing s with
  | nil => rfl
  | cons a rest ih => exact Option.bind_congr fun t _ => ih t

namespace Execution

/-- Wherever the one holds, the other holds then or later. -/
def LeadsTo (e : M.Execution) (p q : S → Prop) : Prop :=
  ∀ n, p (e.state n) → ∃ m, n ≤ m ∧ q (e.state m)

variable {e : M.Execution} {p q r : S → Prop} {C : S → A → Prop} {due : A → Prop}

theorem LeadsTo.of_imp (h : ∀ n, p (e.state n) → q (e.state n)) : e.LeadsTo p q :=
  fun n hp => ⟨n, Nat.le_refl n, h n hp⟩

theorem LeadsTo.imp (h : e.LeadsTo p q) (hqr : ∀ s, q s → r s) : e.LeadsTo p r := by
  intro n hp
  obtain ⟨m, hm, hq⟩ := h n hp
  exact ⟨m, hm, hqr _ hq⟩

theorem LeadsTo.trans (h : e.LeadsTo p q) (h' : e.LeadsTo q r) : e.LeadsTo p r := by
  intro n hp
  obtain ⟨m, hm, hq⟩ := h n hp
  obtain ⟨k, hk, hr⟩ := h' m hq
  exact ⟨k, Nat.le_trans hm hk, hr⟩

theorem LeadsTo.or (h : e.LeadsTo p r) (h' : e.LeadsTo q r) : e.LeadsTo (fun s => p s ∨ q s) r :=
  fun n hpq => hpq.elim (h n) (h' n)

/-- What is not reached at once comes closer. -/
theorem LeadsTo.falls {lt : ι → ι → Prop} (hwf : WellFounded lt) {p : ι → S → Prop}
    (h : ∀ i, e.LeadsTo (p i) fun s => q s ∨ ∃ j, lt j i ∧ p j s) (i : ι) : e.LeadsTo (p i) q := by
  induction i using hwf.induction with
  | _ i ih =>
    intro n hp
    obtain ⟨m, hm, hq | ⟨j, hj, hlower⟩⟩ := h i n hp
    · exact ⟨m, hm, hq⟩
    · obtain ⟨l, hl, hq⟩ := ih j hj m hlower
      exact ⟨l, Nat.le_trans hm hl, hq⟩

/-- One action that is due helps, and stays possible until it is taken or not needed any more. -/
theorem leadsTo_of_help (hc : e.Under C) (hfair : e.Fair due) {help : A} (hdue : due help)
    (hpossible : ∀ s, M.ReachableUnder C s → p s → (M.step s help).isSome)
    (hhelps : ∀ s s', M.ReachableUnder C s → p s → C s help → M.step s help = some s' → q s')
    (hlasts : ∀ s a s', M.ReachableUnder C s → p s → C s a → M.step s a = some s' → a ≠ help → p s' ∨ q s') :
    e.LeadsTo p q := by
  intro n hp
  by_contra hnever
  have hnot : ∀ m, n ≤ m → ¬ q (e.state m) := fun m hm hq => hnever ⟨m, hm, hq⟩
  have hone : ∀ m, n ≤ m → p (e.state m) → p (e.state (m + 1)) ∧ e.act m ≠ some help := by
    intro m hm hpm
    cases ha : e.act m with
    | none => exact ⟨by rwa [e.rests m ha], nofun⟩
    | some a =>
      have hr := reachableUnder hc m
      by_cases hhelp : a = help
      · subst hhelp
        exact absurd (hhelps _ _ hr hpm (hc m a ha) (e.moves m a ha)) (hnot (m + 1) (by omega))
      · rcases hlasts _ a _ hr hpm (hc m a ha) (e.moves m a ha) hhelp with hp' | hq
        · exact ⟨hp', by simpa using hhelp⟩
        · exact absurd hq (hnot (m + 1) (by omega))
  have hstays : ∀ m, n ≤ m → p (e.state m) := by
    intro m hm
    induction m, hm using Nat.le_induction with
    | base => exact hp
    | succ m hm ih => exact (hone m hm ih).1
  obtain ⟨m, hm, ha⟩ := hfair help hdue n fun m hm => hpossible _ (reachableUnder hc m) (hstays m hm)
  exact (hone m hm (hstays m hm)).2 ha

end Execution
end Machine
