import Mathlib.Logic.Basic

/-! A lock that its holder can take again.

It is free after as many releases as acquisitions, and nobody but its holder can
release it. -/

structure ReentrantLock (τ : Type) where
  /-- Who holds it, and how often beyond the first time. -/
  held : Option (τ × Nat)

namespace ReentrantLock
variable {τ : Type}

def free : ReentrantLock τ := ⟨none⟩

def holder (l : ReentrantLock τ) : Option τ := l.held.map Prod.fst

/-- How often it is held. -/
def holds (l : ReentrantLock τ) : Nat :=
  match l.held with
  | some (_, again) => again + 1
  | none => 0

def isLocked (l : ReentrantLock τ) : Bool := l.held.isSome

variable [DecidableEq τ]

/-- Nothing if somebody else holds it. -/
def tryLock (l : ReentrantLock τ) (thread : τ) : Option (ReentrantLock τ) :=
  match l.held with
  | some (owner, again) => if owner = thread then some ⟨some (owner, again + 1)⟩ else none
  | none => some ⟨some (thread, 0)⟩

/-- Nothing if the thread does not hold it. -/
def unlock (l : ReentrantLock τ) (thread : τ) : Option (ReentrantLock τ) :=
  match l.held with
  | some (owner, again) =>
    if owner = thread then
      match again with
      | 0 => some free
      | again + 1 => some ⟨some (owner, again)⟩
    else none
  | none => none

variable {l l' : ReentrantLock τ} {thread : τ}

/-- It was free or held by the thread, which holds it once more. -/
theorem tryLock_eq (h : l.tryLock thread = some l') :
    l'.holder = some thread ∧ l'.holds = l.holds + 1 ∧
      (l.holder = some thread ∨ l.holds = 0) := by
  rcases l with ⟨_ | ⟨owner, again⟩⟩
  · obtain rfl : l' = ⟨some (thread, 0)⟩ := by simpa [tryLock] using h.symm
    exact ⟨rfl, rfl, .inr rfl⟩
  · simp only [tryLock] at h
    split at h
    · rename_i heq
      cases h
      subst heq
      exact ⟨rfl, rfl, .inl rfl⟩
    · cases h

/-- The thread held it, and holds it once less. -/
theorem unlock_eq (h : l.unlock thread = some l') :
    l.holder = some thread ∧ l'.holds + 1 = l.holds ∧
      (0 < l'.holds → l'.holder = some thread) := by
  rcases l with ⟨_ | ⟨owner, again⟩⟩
  · cases h
  · simp only [unlock] at h
    split at h
    · rename_i heq
      subst heq
      cases again with
      | zero =>
        cases h
        exact ⟨rfl, rfl, fun hpos => absurd hpos (Nat.lt_irrefl 0)⟩
      | succ again =>
        cases h
        exact ⟨rfl, rfl, fun _ => rfl⟩
    · cases h

end ReentrantLock
