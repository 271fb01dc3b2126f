import Mathlib.Data.List.Basic

/-! Routes through a graph that is given by its edges.

A route is a list of edges, each of which begins where the one before it ends. A
search answers with a shortest one, or with none if there is none (`Finds`). -/

/-- The edges lead from one vertex to another. -/
def Route {V E : Type} (source target : E → V) (edges : List E) : V → List E → V → Prop
  | a, [], b => a = b
  | a, e :: path, b => e ∈ edges ∧ source e = a ∧ Route source target edges (target e) path b

namespace Route
variable {V E : Type} {source target : E → V} {edges path : List E} {a b : V} {e : E}

theorem single (he : e ∈ edges) : Route source target edges (source e) [e] (target e) := ⟨he, rfl, rfl⟩

theorem append {others : List E} {c : V} (h : Route source target edges a path b)
    (hothers : Route source target edges b others c) : Route source target edges a (path ++ others) c := by
  induction path generalizing a with
  | nil => exact (show a = b from h) ▸ hothers
  | cons e rest ih => exact ⟨h.1, h.2.1, ih h.2.2⟩

theorem last (h : Route source target edges a path b) (he : path.getLast? = some e) :
    target e = b := by
  induction path generalizing a with
  | nil => cases he
  | cons first rest ih =>
    cases rest with
    | nil =>
      cases he
      exact h.2.2
    | cons second rest => exact ih h.2.2 (by simpa using he)

/-- A route between two vertices has a first and a last edge. -/
theorem ends (h : Route source target edges a path b) (hne : a ≠ b) :
    ∃ first last, path.head? = some first ∧ path.getLast? = some last ∧
      source first = a ∧ target last = b := by
  cases path with
  | nil => exact absurd h hne
  | cons first rest =>
    have hlast := List.getLast?_eq_some_getLast (List.cons_ne_nil first rest)
    exact ⟨first, _, rfl, hlast, h.2.1, h.last hlast⟩

/-- Where no edge leads there directly, two are needed. -/
theorem two_le (h : Route source target edges a path b) (hne : a ≠ b)
    (hdirect : ∀ e ∈ edges, source e = a → target e ≠ b) : 2 ≤ path.length := by
  cases path with
  | nil => exact absurd h hne
  | cons e rest =>
    cases rest with
    | nil => exact absurd h.2.2 (hdirect e h.1 h.2.1)
    | cons => exact Nat.le_add_left 2 _

/-- The path is a route, and no other takes fewer edges. -/
def Shortest (source target : E → V) (edges : List E) (a : V) (path : List E) (b : V) : Prop :=
  Route source target edges a path b ∧
    ∀ other, Route source target edges a other b → path.length ≤ other.length

/-- A search answers with a shortest route if there is a route. -/
def Finds (source target : E → V) (edges : List E) (a : V) (found : Option (List E)) (b : V) : Prop :=
  (∀ path, found = some path → Shortest source target edges a path b) ∧
    (found = none → ∀ path, ¬ Route source target edges a path b)

end Route
