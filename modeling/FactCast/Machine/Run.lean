import Mathlib.Logic.Function.Basic

/-! Machines, their runs, and what holds along them.

A machine says where it may start and what an action makes of a state; an action
that cannot be taken there yields nothing. The moves of every party are actions,
so an interleaving is a run: a list of actions, each taken where the one before
it ended.

A condition on steps is part of reachability: `ReachableUnder C` are the states
reached by steps that all meet `C`, and `Reachable` puts no condition. An
invariant is proved once, from what one step preserves. -/

structure Machine (S A : Type) where
  /-- Where a run may begin. -/
  Start : S → Prop
  /-- What an action makes of a state, if it can be taken there. -/
  step : S → A → Option S

namespace Machine
variable {S A T B : Type} {M : Machine S A} {N : Machine T B}

/-- Reached from a start by steps that all meet `C`. -/
inductive ReachableUnder (M : Machine S A) (C : S → A → Prop) : S → Prop where
  | start {s : S} : M.Start s → ReachableUnder M C s
  | step {s s' : S} {a : A} :
      ReachableUnder M C s → C s a → M.step s a = some s' → ReachableUnder M C s'

/-- Reached from a start, whatever the steps. -/
abbrev Reachable (M : Machine S A) : S → Prop := M.ReachableUnder fun _ _ => True

/-- The state after a list of actions, if every one of them can be taken. -/
def run (M : Machine S A) : S → List A → Option S
  | s, [] => some s
  | s, a :: rest => (M.step s a).bind fun t => M.run t rest

/-- The same, refusing a step that does not meet `c`. -/
def runUnder (M : Machine S A) (c : S → A → Bool) : S → List A → Option S
  | s, [] => some s
  | s, a :: rest => if c s a then (M.step s a).bind fun t => M.runUnder c t rest else none

variable {C D : S → A → Prop}

/-- What holds at the start and survives every step that meets the condition
holds wherever such steps lead. -/
theorem ReachableUnder.invariant {I : S → Prop} (hstart : ∀ s, M.Start s → I s)
    (hstep : ∀ s a s', I s → C s a → M.step s a = some s' → I s') {s : S}
    (h : M.ReachableUnder C s) : I s := by
  induction h with
  | start h => exact hstart _ h
  | step _ hc hs ih => exact hstep _ _ _ ih hc hs

/-- The step may use that its source is itself reached, and so every invariant
already proved. -/
theorem ReachableUnder.invariant_from {I : S → Prop} (hstart : ∀ s, M.Start s → I s)
    (hstep : ∀ s a s', M.ReachableUnder C s → I s → C s a → M.step s a = some s' → I s') {s : S}
    (h : M.ReachableUnder C s) : I s := by
  induction h with
  | start h => exact hstart _ h
  | step hr hc hs ih => exact hstep _ _ _ hr ih hc hs

/-- A weaker condition reaches at least as much. -/
theorem ReachableUnder.mono (hcd : ∀ s a, C s a → D s a) {s : S} (h : M.ReachableUnder C s) :
    M.ReachableUnder D s := by
  induction h with
  | start h => exact .start h
  | step _ hc hs ih => exact .step ih (hcd _ _ hc) hs

theorem ReachableUnder.reachable {s : S} (h : M.ReachableUnder C s) : M.Reachable s :=
  h.mono fun _ _ _ => trivial

theorem ReachableUnder.run {s t : S} (h : M.ReachableUnder C s) (c : S → A → Bool)
    (hc : ∀ s a, c s a = true → C s a) (as : List A) (hr : M.runUnder c s as = some t) :
    M.ReachableUnder C t := by
  induction as generalizing s with
  | nil =>
    obtain rfl : s = t := by simpa [runUnder] using hr
    exact h
  | cons a rest ih =>
    simp only [runUnder] at hr
    split at hr
    · rename_i ha
      obtain ⟨u, hu, hr⟩ := Option.bind_eq_some_iff.mp hr
      exact ih (.step h (hc s a ha) hu) hr
    · cases hr

/-- Every state a run passes is reachable. -/
theorem Reachable.run {s t : S} (h : M.Reachable s) (as : List A) (hr : M.run s as = some t) :
    M.Reachable t := by
  induction as generalizing s with
  | nil =>
    obtain rfl : s = t := by simpa [Machine.run] using hr
    exact h
  | cons a rest ih =>
    obtain ⟨u, hu, hr⟩ := Option.bind_eq_some_iff.mp hr
    exact ih (.step h trivial hu) hr

theorem run_append {s : S} (as bs : List A) :
    M.run s (as ++ bs) = (M.run s as).bind fun t => M.run t bs := by
  induction as generalizing s with
  | nil => rfl
  | cons a rest ih =>
    simp only [List.cons_append, run, Option.bind_assoc]
    exact Option.bind_congr fun u _ => ih

/-- A run that can be taken leads to a reachable state, with what it computes there. -/
theorem exists_reachable {β : Type} {s : S} (h : M.Start s) (as : List A) (f : S → β) {b : β}
    (hr : (M.run s as).map f = some b) : ∃ t, M.Reachable t ∧ f t = b := by
  obtain ⟨t, ht, hb⟩ := Option.map_eq_some_iff.mp hr
  exact ⟨t, Reachable.run (.start h) as ht, hb⟩

/-- The same for a condition that can be computed. -/
theorem exists_reachableUnder {β : Type} {c : S → A → Bool} {s : S} (h : M.Start s) (as : List A)
    (f : S → β) {b : β} (hr : (M.runUnder c s as).map f = some b) :
    ∃ t, M.ReachableUnder (fun s a => c s a = true) t ∧ f t = b := by
  obtain ⟨t, ht, hb⟩ := Option.map_eq_some_iff.mp hr
  exact ⟨t, ReachableUnder.run (.start h) c (fun _ _ hc => hc) as ht, hb⟩

end Machine
