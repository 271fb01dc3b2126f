import Mathlib.Data.Nat.Init
import Mathlib.Tactic.ByContra
import FactCast.Machine.Run

/-! Runs that go on, and what must happen in them.

An execution has no end; a machine that comes to rest rests from then on. It is fair
to an action if the action is taken once it stays possible. What must happen is shown
by stages: each names an action that gets on, which is possible as long as the stage
lasts, and every step that ends a stage without the good one leads to a lower stage
(`Stages.eventually`). -/

namespace Machine
variable {S A ι : Type} {M : Machine S A}

structure Execution (M : Machine S A) where
  state : Nat → S
  /-- What is done at each time, if anything is. -/
  act : Nat → Option A
  start : M.Start (state 0)
  moves : ∀ n a, act n = some a → M.step (state n) a = some (state (n + 1))
  rests : ∀ n, act n = none → state (n + 1) = state n

variable {C : S → A → Prop} {due Good : A → Prop}

namespace Execution

/-- Every step that is taken meets the condition. -/
def Under (e : M.Execution) (C : S → A → Prop) : Prop :=
  ∀ n a, e.act n = some a → C (e.state n) a

/-- What is due is done, once it stays possible. -/
def Fair (e : M.Execution) (due : A → Prop) : Prop :=
  ∀ a, due a → ∀ n, (∀ m, n ≤ m → (M.step (e.state m) a).isSome) → ∃ m, n ≤ m ∧ e.act m = some a

theorem reachableUnder {e : M.Execution} (hc : e.Under C) (n : Nat) :
    M.ReachableUnder C (e.state n) := by
  induction n with
  | zero => exact .start e.start
  | succ n ih =>
    cases ha : e.act n with
    | none => rwa [e.rests n ha]
    | some a => exact .step ih (hc n a ha) (e.moves n a ha)

end Execution

/-- What is left to do until one of the good actions is taken. -/
structure Stages (M : Machine S A) (C : S → A → Prop) (due Good : A → Prop) (ι : Type) where
  /-- The states of a stage. -/
  At : ι → S → Prop
  /-- What gets on from there. -/
  help : ι → A
  rank : ι → Nat
  due : ∀ i, due (help i)
  possible : ∀ i s, M.ReachableUnder C s → At i s → (M.step s (help i)).isSome
  /-- It gets on. -/
  helps : ∀ i s s', M.ReachableUnder C s → At i s → C s (help i) → M.step s (help i) = some s' →
    Good (help i) ∨ ∃ j, rank j < rank i ∧ At j s'
  /-- What others do does not set back. -/
  lasts : ∀ i s a s', M.ReachableUnder C s → At i s → C s a → M.step s a = some s' → a ≠ help i →
    Good a ∨ At i s' ∨ ∃ j, rank j < rank i ∧ At j s'

theorem Stages.step (p : M.Stages C due Good ι) {i : ι} {s s' : S} {a : A}
    (h : M.ReachableUnder C s) (hat : p.At i s) (hc : C s a) (hs : M.step s a = some s') :
    Good a ∨ (p.At i s' ∧ a ≠ p.help i) ∨ ∃ j, p.rank j < p.rank i ∧ p.At j s' := by
  by_cases ha : a = p.help i
  · subst ha
    obtain hgood | hlower := p.helps i s s' h hat hc hs
    · exact .inl hgood
    · exact .inr (.inr hlower)
  · obtain hgood | hat' | hlower := p.lasts i s a s' h hat hc hs ha
    · exact .inl hgood
    · exact .inr (.inl ⟨hat', ha⟩)
    · exact .inr (.inr hlower)

theorem Stages.eventually (p : M.Stages C due Good ι) {e : M.Execution} (hc : e.Under C)
    (hfair : e.Fair due) {i : ι} {n : Nat} (h : p.At i (e.state n)) :
    ∃ m, n ≤ m ∧ ∃ a, e.act m = some a ∧ Good a := by
  induction hr : p.rank i using Nat.strongRecOn generalizing i n with
  | _ r ih =>
    by_contra hnever
    -- nothing good happens, so that no step may lead to a lower stage
    have hlast : ∀ m, n ≤ m → p.At i (e.state m) →
        p.At i (e.state (m + 1)) ∧ e.act m ≠ some (p.help i) := by
      intro m hm hat
      cases ha : e.act m with
      | none => exact ⟨by rwa [e.rests m ha], by simp⟩
      | some a =>
        have hr' := Execution.reachableUnder hc m
        obtain hgood | ⟨hat', hne⟩ | ⟨j, hj, hat'⟩ := p.step hr' hat (hc m a ha) (e.moves m a ha)
        · exact absurd ⟨m, hm, a, ha, hgood⟩ hnever
        · exact ⟨hat', by simpa using hne⟩
        · obtain ⟨k, hk, hgood⟩ := ih _ (hr ▸ hj) hat' rfl
          exact absurd ⟨k, by omega, hgood⟩ hnever
    have hstays : ∀ m, n ≤ m → p.At i (e.state m) := by
      intro m hm
      induction m, hm using Nat.le_induction with
      | base => exact h
      | succ m hm ihm => exact (hlast m hm ihm).1
    obtain ⟨m, hm, ha⟩ := hfair _ (p.due i) n fun m hm =>
      p.possible i _ (Execution.reachableUnder hc m) (hstays m hm)
    exact (hlast m hm (hstays m hm)).2 ha

/-! ### A run that ends -/

theorem run_take {s t : S} {as : List A} (hr : M.run s as = some t) (n : Nat) :
    ∃ u, M.run s (as.take n) = some u := by
  rw [← List.take_append_drop n as, run_append] at hr
  obtain ⟨u, hu, _⟩ := Option.bind_eq_some_iff.mp hr
  exact ⟨u, hu⟩

namespace Execution
variable {s t : S} {as : List A}

theorem run_take_moves (hr : M.run s as = some t) {n : Nat} {a : A} (ha : as[n]? = some a) :
    M.step ((M.run s (as.take n)).getD t) a = some ((M.run s (as.take (n + 1))).getD t) := by
  obtain ⟨u, hu⟩ := run_take hr (n + 1)
  obtain ⟨v, hv⟩ := run_take hr n
  have hsplit : as.take (n + 1) = as.take n ++ [a] := by rw [List.take_add_one, ha]; rfl
  rw [hsplit, run_append, hv] at hu
  rw [hv, hsplit, run_append, hv]
  simp only [Option.bind_some, run, Option.bind_eq_some_iff, Option.some.injEq,
    exists_eq_right] at hu
  simp [run, hu]

theorem run_take_rests {n : Nat} (hn : as[n]? = none) :
    (M.run s (as.take (n + 1))).getD t = (M.run s (as.take n)).getD t := by
  have hn : as.length ≤ n := by simpa using hn
  rw [List.take_of_length_le hn, List.take_of_length_le (by omega)]

/-- A run, and rest at its end. -/
def ofRun (hs : M.Start s) (hr : M.run s as = some t) : M.Execution where
  state n := (M.run s (as.take n)).getD t
  act n := as[n]?
  start := hs
  moves _ _ ha := run_take_moves hr ha
  rests _ hn := run_take_rests hn

theorem ofRun_under (hs : M.Start s) (hr : M.run s as = some t)
    (hc : ∀ a ∈ as, ∀ s, C s a) : (ofRun hs hr).Under C :=
  fun _ a ha => hc a (List.mem_of_getElem? ha) _

/-- Where nothing due is possible, rest is fair. -/
theorem ofRun_fair (hs : M.Start s) (hr : M.run s as = some t)
    (hrest : ∀ a, due a → M.step t a = none) : (ofRun hs hr).Fair due := by
  intro a ha n hpossible
  have hend : (ofRun hs hr).state (n + as.length) = t := by
    simp [ofRun, List.take_of_length_le, hr]
  have := hpossible (n + as.length) (by omega)
  rw [hend, hrest a ha] at this
  cases this

end Execution
end Machine
