import Mathlib.Logic.Basic

/-! Calls that complete normally or abruptly.

A call leaves a state either way. What it leaves is described by two predicates,
one for each way (`Leaves`), and the rules say how descriptions are composed along
calls made one after another. -/

/-- How a call that yields nothing but effects completes. -/
inductive Completion (ε S : Type) where
  | normally (s : S)
  | abruptly (e : ε) (s : S)

namespace Completion
variable {ε S T : Type}

def state : Completion ε S → S
  | normally s => s
  | abruptly _ s => s

/-- The next call is made if this one completes normally. -/
def andThen (c : Completion ε S) (next : S → Completion ε S) : Completion ε S :=
  match c with
  | normally s => next s
  | abruptly e s => abruptly e s

/-- The same call, seen in another state. -/
def map (f : S → T) : Completion ε S → Completion ε T
  | normally s => normally (f s)
  | abruptly e s => abruptly e (f s)

/-- What is left, by the way it completes. -/
def Leaves (c : Completion ε S) (N : S → Prop) (A : ε → S → Prop) : Prop :=
  match c with
  | normally s => N s
  | abruptly e s => A e s

variable {c : Completion ε S} {next : S → Completion ε S} {N M : S → Prop} {A B : ε → S → Prop}

@[simp] theorem normally_andThen (s : S) : (normally s : Completion ε S).andThen next = next s := rfl

@[simp] theorem map_normally (f : S → T) (s : S) :
    (normally s : Completion ε S).map f = normally (f s) := rfl

theorem Leaves.mono (h : c.Leaves N A) (hN : ∀ s, N s → M s) (hA : ∀ e s, A e s → B e s) :
    c.Leaves M B := by
  cases c with
  | normally s => exact hN s h
  | abruptly e s => exact hA e s h

theorem Leaves.andThen (h : c.Leaves N A) (hnext : ∀ s, N s → (next s).Leaves M A) :
    (c.andThen next).Leaves M A := by
  cases c with
  | normally s => exact hnext s h
  | abruptly e s => exact h

theorem Leaves.and (h : c.Leaves N A) (h' : c.Leaves M B) :
    c.Leaves (fun s => N s ∧ M s) fun e s => A e s ∧ B e s := by
  cases c with
  | normally s => exact ⟨h, h'⟩
  | abruptly e s => exact ⟨h, h'⟩

theorem leaves_map {f : S → T} {N : T → Prop} {A : ε → T → Prop}
    (h : c.Leaves (fun s => N (f s)) fun e s => A e (f s)) : (c.map f).Leaves N A := by
  cases c with
  | normally s => exact h
  | abruptly e s => exact h

/-- What holds whatever way it completes holds of the state it leaves. -/
theorem Leaves.state (h : c.Leaves N fun _ => N) : N c.state := by
  cases c with
  | normally s => exact h
  | abruptly e s => exact h

end Completion
