import FactCast.Core.Spec
import FactCast.Machine.HashSet

/-! Updating the blacklist.

The set of blocked ids is updated in place: what is not on the new list is removed,
and the list is added. What is to be removed is a view of the set itself, and if
something is to be kept the view is smaller than the set, so ids are removed while it
is iterated. That only gets through where nothing comes after the first id that is
removed (`accept_exact_iff`). -/
namespace FactCast.Blacklist
open HashSet

def isBlocked (blocked : Finset UUID) (factId : UUID) : Bool := decide (factId ∈ blocked)

/-- The ids are iterated in the given order. -/
def accept (blocked : Finset UUID) (order : List UUID) (currentList : Finset UUID) : Changes UUID :=
  let removal := removeAll (fun id => decide (id ∉ currentList)) blocked order
  if removal.returns then ⟨removal.sets ++ [removal.last blocked ∪ currentList], true⟩ else removal

/-- The call returns, exactly the list is blocked then, and what was blocked before and
stays on the list is blocked all along. -/
structure Exact (previous currentList : Finset UUID) (changes : Changes UUID) : Prop where
  returns : changes.returns = true
  blocked : ∀ id, isBlocked (changes.last previous) id = true ↔ id ∈ currentList
  kept : ∀ id ∈ previous, id ∈ currentList → ∀ set ∈ changes.sets, isBlocked set id = true

/-- Nothing is kept, or of the ids only the one iterated last may be removed. -/
def Safe (order : List UUID) (currentList : Finset UUID) : Prop :=
  (∀ id ∈ order, id ∉ currentList) ∨ ∀ id ∈ order.dropLast, id ∈ currentList

instance (order : List UUID) (currentList : Finset UUID) : Decidable (Safe order currentList) :=
  inferInstanceAs (Decidable (_ ∨ _))

/-! ### One call -/

section Call
variable {blocked currentList set : Finset UUID} {order : List UUID} {id : UUID}

theorem accept_returns_iff (hnodup : order.Nodup) (hmem : ∀ id, id ∈ order ↔ id ∈ blocked) :
    (accept blocked order currentList).returns = true ↔ Safe order currentList := by
  have hremoval : (removeAll (fun id => decide (id ∉ currentList)) blocked order).returns = true ↔ _ :=
    removeAll_returns_iff hnodup hmem
  have hsafe : Safe order currentList ↔ _ := Iff.trans (by simp [Safe]) hremoval.symm
  rw [hsafe]
  unfold accept
  dsimp only
  split
  · rename_i hreturns
    exact iff_of_true rfl hreturns
  · exact Iff.rfl

theorem mem_of_accept (hid : id ∈ blocked) (hlist : id ∈ currentList)
    (hset : set ∈ (accept blocked order currentList).sets) : id ∈ set := by
  have hview : (fun id => decide (id ∉ currentList)) id = false := by simp [hlist]
  unfold accept at hset
  dsimp only at hset
  split at hset
  · rcases List.mem_append.mp hset with hset | hset
    · exact mem_of_removeAll hid hview hset
    · rw [List.mem_singleton.mp hset]
      exact Finset.mem_union_right _ hlist
  · exact mem_of_removeAll hid hview hset

theorem last_accept (hmem : ∀ id, id ∈ order ↔ id ∈ blocked)
    (h : (accept blocked order currentList).returns = true) :
    (accept blocked order currentList).last blocked = currentList := by
  unfold accept at h ⊢
  dsimp only at h ⊢
  split at h
  · rename_i hreturns
    rw [if_pos hreturns, Changes.last, List.getLast?_append, List.getLast?_singleton]
    refine Finset.union_eq_right.mpr fun id hid => ?_
    have hview := ((mem_last_removeAll hmem hreturns).mp hid).2
    simpa using hview
  · rename_i hthrows
    exact absurd h hthrows

theorem accept_exact (hnodup : order.Nodup) (hmem : ∀ id, id ∈ order ↔ id ∈ blocked) :
    Exact blocked currentList (accept blocked order currentList) ↔ Safe order currentList := by
  rw [← accept_returns_iff hnodup hmem]
  refine ⟨Exact.returns, fun hreturns => ⟨hreturns, fun id => ?_, fun id hid hlist set hset => ?_⟩⟩
  · rw [last_accept hmem hreturns, isBlocked, decide_eq_true_iff]
  · rw [isBlocked, decide_eq_true_iff]
    exact mem_of_accept hid hlist hset

end Call

/-! ### A sequence of calls -/

/-- Every call is exact. -/
def AllExact (hash : HashOrder UUID) : Nat → Finset UUID → List (Finset UUID) → Prop
  | _, _, [] => True
  | n, blocked, currentList :: rest =>
    let changes := accept blocked (hash.order n blocked) currentList
    Exact blocked currentList changes ∧ AllExact hash (n + 1) (changes.last blocked) rest

/-- Every list is safe after the one before. -/
def AllSafe (hash : HashOrder UUID) : Nat → Finset UUID → List (Finset UUID) → Prop
  | _, _, [] => True
  | n, previous, currentList :: rest =>
    Safe (hash.order n previous) currentList ∧ AllSafe hash (n + 1) currentList rest

theorem allExact_iff {hash : HashOrder UUID} {n : Nat} {blocked : Finset UUID} {lists : List (Finset UUID)} :
    AllExact hash n blocked lists ↔ AllSafe hash n blocked lists := by
  induction lists generalizing n blocked with
  | nil => exact Iff.rfl
  | cons currentList rest ih =>
    have hmem := hash.mem n blocked
    have hone := @accept_exact blocked currentList _ (hash.nodup n blocked) hmem
    unfold AllExact AllSafe
    dsimp only
    rw [ih]
    constructor
    · rintro ⟨hexact, hrest⟩
      rw [last_accept hmem hexact.returns] at hrest
      exact ⟨hone.mp hexact, hrest⟩
    · rintro ⟨hsafe, hrest⟩
      have hexact := hone.mpr hsafe
      rw [last_accept hmem hexact.returns]
      exact ⟨hexact, hrest⟩

/-- Every update of a sequence is exact if and only if each list either keeps nothing of
the one before, or drops at most the id of it that is iterated last. -/
theorem accept_exact_iff (hash : HashOrder UUID) (lists : List (Finset UUID)) :
    AllExact hash 0 ∅ lists ↔ AllSafe hash 0 ∅ lists :=
  allExact_iff

/-- Two ids are dropped, and the first of them is not iterated last. -/
theorem two_dropped_throws : ¬ ∀ (hash : HashOrder UUID) (lists : List (Finset UUID)),
    AllExact hash 0 ∅ lists := by
  intro hall
  let hash : HashOrder UUID := ⟨fun _ s => s.toList, fun _ s => s.nodup_toList, fun _ s _ => s.mem_toList⟩
  let previous : Finset UUID := {⟨1⟩, ⟨2⟩, ⟨3⟩}
  have hsafe : Safe previous.toList {⟨3⟩} := (allExact_iff.mp (hall hash [previous, {⟨3⟩}])).2.1
  rcases hsafe with hnone | hlast
  · exact hnone ⟨3⟩ (Finset.mem_toList.mpr (by decide)) (Finset.mem_singleton_self _)
  · have hsub : previous.toList.dropLast ⊆ [⟨3⟩] := fun id hid =>
      List.mem_singleton.mpr (Finset.mem_singleton.mp (hlast id hid))
    have hnodup := previous.nodup_toList.sublist (List.dropLast_sublist _)
    have hlength := (hnodup.subperm hsub).length_le
    rw [List.length_dropLast, Finset.length_toList] at hlength
    exact absurd hlength (by decide)

end FactCast.Blacklist
