import FactCast.Machine.Ranking
import Mathlib.Data.String.Basic

/-! Maintenance of the tail indexes.

A tail index covers the end of the log and bears the time of its creation in its name.
A run of the maintenance creates a new one when it is time, drops the valid ones that
are too many, and all that are invalid. What there is is listed by name, and the names
are texts: of two times that differ in their number of digits the later one may come
behind. An index that cannot be created is dropped by its name, and so is one that had
this name before.

A run keeps the newest just if among the valid indexes there is no such pair around the
last one that is kept, and none of the newest bears the name that fails
(`triggerTailCreation_iff`). -/
namespace FactCast.PGTailIndexManager

structure TailIndex where
  epoch : Nat
  valid : Bool
deriving DecidableEq, Repr

def tailIndexName (epoch : Nat) : String := "idx_fact_tail_" ++ toString epoch

def TailIndex.name (i : TailIndex) : String := tailIndexName i.epoch

/-- The tail indexes of the database, by distinct names. -/
structure Catalog where
  indexes : List TailIndex
  distinct : (indexes.map TailIndex.name).Nodup

def Catalog.has (c : Catalog) (name : String) : Bool := c.indexes.any fun i => i.name == name

def Catalog.add (c : Catalog) (i : TailIndex) (h : c.has i.name = false) : Catalog where
  indexes := i :: c.indexes
  distinct := by
    refine List.nodup_cons.mpr ⟨fun hmem => ?_, c.distinct⟩
    obtain ⟨j, hj, heq⟩ := List.mem_map.mp hmem
    have hne := List.any_eq_false.mp h j hj
    exact hne (beq_iff_eq.mpr heq)

/-- `DROP INDEX CONCURRENTLY IF EXISTS`. -/
def removeTailIndex (c : Catalog) (name : String) : Catalog where
  indexes := c.indexes.filter fun i => i.name != name
  distinct := c.distinct.sublist (List.filter_sublist.map _)

/-- Times are in milliseconds. -/
structure StoreConfigurationProperties where
  tailIndexingEnabled : Bool
  tailGenerationsToKeep : Nat
  minimumTailAge : Int
  tailCreationTimeout : Int

/-- What becomes of a creation. One that fails can leave an invalid index. -/
inductive Creation where
  | succeeds
  | fails (remnant : Bool)
deriving DecidableEq, Repr

/-- What a run meets: the other operations, the clock, which is read twice, and the
creation, if it comes to that. -/
structure Run where
  operationInProgress : Bool
  checkedAt : Nat
  createdAt : Nat
  creation : Creation

/-! ### The run -/

/-- `order by index_name desc`. -/
def getTailIndices (c : Catalog) : List TailIndex := Ranking.ranked TailIndex.name c.indexes

def getValidIndices (rows : List TailIndex) : List TailIndex := rows.filter TailIndex.valid

def getInvalidIndices (rows : List TailIndex) : List TailIndex := rows.filter fun i => !i.valid

def exceedsMinimumTailAge (props : StoreConfigurationProperties) (now : Nat) (i : TailIndex) : Bool :=
  decide (props.minimumTailAge - (now - i.epoch : Int) < 0)

def timeToCreateANewTail (props : StoreConfigurationProperties) (now : Nat) (c : Catalog) : Bool :=
  match getValidIndices (getTailIndices c) with
  | [] => true
  | newestIndex :: _ => exceedsMinimumTailAge props now newestIndex

/-- The database takes a timeout of 32 bits that is not negative. -/
def setStatementTimeout (millis : Int) : Bool := decide (0 ≤ millis ∧ millis < 0x80000000)

/-- `create index concurrently`, and whether it went well. -/
def createTailIndex (c : Catalog) (epoch : Nat) (creation : Creation) : Catalog × Bool :=
  if h : c.has (tailIndexName epoch) = false then
    match creation with
    | .succeeds => (c.add ⟨epoch, true⟩ h, true)
    | .fails true => (c.add ⟨epoch, false⟩ h, false)
    | .fails false => (c, false)
  else (c, false)

/-- None if an exception is thrown. The one of the creation is not. -/
def createNewTail (props : StoreConfigurationProperties) (run : Run) (c : Catalog) : Option Catalog :=
  if setStatementTimeout (props.tailCreationTimeout - 5000) then
    match createTailIndex c run.createdAt run.creation with
    | (c', true) => some c'
    | (c', false) => some (removeTailIndex c' (tailIndexName run.createdAt))
  else none

/-- The last one is dropped until there are no more than are to be kept. -/
def removeOldestValidIndices (keep : Nat) (c : Catalog) (validIndexes : List TailIndex) : Catalog :=
  if h : keep < validIndexes.length then
    removeOldestValidIndices keep
      (removeTailIndex c (validIndexes.getLast (List.ne_nil_of_length_pos (Nat.zero_lt_of_lt h))).name)
      validIndexes.dropLast
  else c
termination_by validIndexes.length
decreasing_by
  rw [List.length_dropLast]
  omega

def removeInvalidIndices (c : Catalog) (rows : List TailIndex) : Catalog :=
  (getInvalidIndices rows).foldl (fun c i => removeTailIndex c i.name) c

def processExistingIndices (props : StoreConfigurationProperties) (c : Catalog) : Catalog :=
  let rows := getTailIndices c
  removeInvalidIndices
    (removeOldestValidIndices props.tailGenerationsToKeep c (getValidIndices rows)) rows

def triggerTailCreation (props : StoreConfigurationProperties) (run : Run) (c : Catalog) : Catalog :=
  if !props.tailIndexingEnabled || run.operationInProgress then c
  else if timeToCreateANewTail props run.checkedAt c then
    match createNewTail props run c with
    | some c' => processExistingIndices props c'
    -- The exception ends the run.
    | none => c
  else processExistingIndices props c

/-! ### What is expected -/

/-- It is time, and the timeout is one that the database takes. -/
def attempts (props : StoreConfigurationProperties) (run : Run) (c : Catalog) : Bool :=
  timeToCreateANewTail props run.checkedAt c && setStatementTimeout (props.tailCreationTimeout - 5000)

/-- The valid indexes, with the one that the run creates. -/
def candidates (props : StoreConfigurationProperties) (run : Run) (c : Catalog) : List TailIndex :=
  if attempts props run c && !c.has (tailIndexName run.createdAt) && run.creation == .succeeds then
    ⟨run.createdAt, true⟩ :: c.indexes.filter TailIndex.valid
  else c.indexes.filter TailIndex.valid

/-- Of the candidates the newest are left, as many as are configured, and nothing else. -/
structure Maintained (keep : Nat) (candidates left : List TailIndex) : Prop where
  valid : ∀ i ∈ left, i.valid = true
  candidate : ∀ i ∈ left, i ∈ candidates
  few : left.length ≤ keep
  newest : ∀ i ∈ left, ∀ j ∈ candidates, j ∉ left → j.epoch < i.epoch
  kept : ∀ i ∈ candidates, (candidates.filter fun j => i.epoch < j.epoch).length < keep → i ∈ left

/-- A creation is attempted, and an index of this name is there. -/
def collides (props : StoreConfigurationProperties) (run : Run) (c : Catalog) : Bool :=
  attempts props run c && c.has (tailIndexName run.createdAt)

/-- The candidates that a failing creation does not drop. -/
def spared (props : StoreConfigurationProperties) (run : Run) (c : Catalog) (i : TailIndex) : Bool :=
  !(collides props run c && i.name == tailIndexName run.createdAt)

/-- The timeout is refused, where it is time to create an index. -/
def aborts (props : StoreConfigurationProperties) (run : Run) (c : Catalog) : Bool :=
  timeToCreateANewTail props run.checkedAt c && !setStatementTimeout (props.tailCreationTimeout - 5000)

/-- When the names do. -/
structure Orderly (props : StoreConfigurationProperties) (run : Run) (c : Catalog) : Prop where
  /-- A valid index whose name fails is not among the newest. -/
  old : ∀ i ∈ candidates props run c, spared props run c i = false →
    props.tailGenerationsToKeep ≤ Ranking.above TailIndex.epoch (candidates props run c) i
  /-- Of the others none is newer than one that is listed before it, the one to be kept and the other not. -/
  ordered : Ranking.Agrees TailIndex.name TailIndex.epoch props.tailGenerationsToKeep
    ((candidates props run c).filter (spared props run c))

/-- The run does its work, or has none. -/
def Maintainable (props : StoreConfigurationProperties) (run : Run) (c : Catalog) : Prop :=
  if aborts props run c then
    (∀ i ∈ c.indexes, i.valid = true) ∧ c.indexes.length ≤ props.tailGenerationsToKeep
  else Orderly props run c

section Proofs
variable {props : StoreConfigurationProperties} {run : Run} {c : Catalog} {i : TailIndex} {keep : Nat} {name : String}

/-! ### Dropping -/

theorem mem_removeTailIndex : i ∈ (removeTailIndex c name).indexes ↔ i ∈ c.indexes ∧ i.name ≠ name := by
  rw [removeTailIndex, List.mem_filter, bne_iff_ne]

theorem mem_removeOldestValidIndices {valid : List TailIndex} :
    i ∈ (removeOldestValidIndices keep c valid).indexes ↔
      i ∈ c.indexes ∧ i.name ∉ (valid.drop keep).map TailIndex.name := by
  induction c, valid using removeOldestValidIndices.induct keep with
  | case1 c valid h ih =>
    have hdrop : valid.drop keep = valid.dropLast.drop keep ++
        [valid.getLast (List.ne_nil_of_length_pos (Nat.zero_lt_of_lt h))] := by
      rw [← List.drop_append_of_le_length (by rw [List.length_dropLast]; omega), List.dropLast_append_getLast]
    rw [removeOldestValidIndices, dif_pos h, ih, mem_removeTailIndex, hdrop, List.map_append, List.mem_append,
      not_or, and_assoc, and_comm (a := i.name ≠ _)]
    simp
  | case2 c valid h =>
    rw [removeOldestValidIndices, dif_neg h, List.drop_eq_nil_of_le (not_lt.mp h)]
    simp

theorem mem_removeInvalidIndices {rows : List TailIndex} :
    i ∈ (removeInvalidIndices c rows).indexes ↔
      i ∈ c.indexes ∧ i.name ∉ (getInvalidIndices rows).map TailIndex.name := by
  rw [removeInvalidIndices]
  induction getInvalidIndices rows generalizing c with
  | nil => simp
  | cons j rest ih =>
    rw [List.foldl_cons, ih, mem_removeTailIndex, List.map_cons, List.mem_cons, not_or, and_assoc]

theorem Catalog.eq_of_name {j : TailIndex} (hi : i ∈ c.indexes) (hj : j ∈ c.indexes) (h : i.name = j.name) :
    i = j :=
  List.inj_on_of_nodup_map c.distinct hi hj h

/-- Of the valid indexes those by the greatest names are left. -/
theorem mem_processExistingIndices : i ∈ (processExistingIndices props c).indexes ↔
    i ∈ Ranking.top TailIndex.name props.tailGenerationsToKeep (c.indexes.filter TailIndex.valid) := by
  let rows := getTailIndices c
  let valid := getValidIndices rows
  have hrows : ∀ j, j ∈ rows ↔ j ∈ c.indexes := fun j => Ranking.ranked_perm.mem_iff
  have hperm : valid.Perm (c.indexes.filter TailIndex.valid) := Ranking.ranked_perm.filter _
  have hsorted : valid.Pairwise fun a b => b.name < a.name :=
    (Ranking.ranked_sorted c.distinct).sublist List.filter_sublist
  have hnodup : valid.Nodup := hperm.nodup_iff.mpr (c.distinct.of_map.filter _)
  rw [processExistingIndices, mem_removeInvalidIndices, mem_removeOldestValidIndices, Ranking.mem_top,
    ← Ranking.above_perm hperm, ← hperm.mem_iff]
  constructor
  · intro ⟨⟨hi, hold⟩, hinvalid⟩
    have hvalid : i.valid = true := by
      by_contra hno
      exact hinvalid (List.mem_map_of_mem (List.mem_filter.mpr ⟨(hrows i).mpr hi, by simpa using hno⟩))
    have hmem : i ∈ valid := List.mem_filter.mpr ⟨(hrows i).mpr hi, hvalid⟩
    refine ⟨hmem, (Ranking.mem_take_iff hsorted hmem).mp ?_⟩
    rw [← List.take_append_drop props.tailGenerationsToKeep valid, List.mem_append] at hmem
    exact hmem.resolve_right fun hdrop => hold (List.mem_map_of_mem hdrop)
  · intro ⟨hmem, hlt⟩
    have hi : i ∈ c.indexes := (hrows i).mp (List.mem_of_mem_filter hmem)
    refine ⟨⟨hi, fun hold => ?_⟩, fun hinvalid => ?_⟩
    · obtain ⟨j, hj, heq⟩ := List.mem_map.mp hold
      have hji : j = i := c.eq_of_name ((hrows j).mp (List.mem_of_mem_filter (List.mem_of_mem_drop hj))) hi heq
      exact (List.disjoint_take_drop hnodup le_rfl) ((Ranking.mem_take_iff hsorted hmem).mpr hlt) (hji ▸ hj)
    · obtain ⟨j, hj, heq⟩ := List.mem_map.mp hinvalid
      obtain ⟨hjrows, hjvalid⟩ := List.mem_filter.mp hj
      have hji : j = i := c.eq_of_name ((hrows j).mp hjrows) hi heq
      rw [hji, (List.mem_filter.mp hmem).2] at hjvalid
      exact nomatch hjvalid

/-! ### Creating -/

theorem Catalog.has_eq_false : c.has name = false ↔ ∀ i ∈ c.indexes, i.name ≠ name := by
  simp [Catalog.has]

theorem removeTailIndex_of_absent (h : c.has name = false) : (removeTailIndex c name).indexes = c.indexes :=
  List.filter_eq_self.mpr fun i hi => bne_iff_ne.mpr (Catalog.has_eq_false.mp h i hi)

theorem removeTailIndex_add (h : c.has i.name = false) : (removeTailIndex (c.add i h) i.name).indexes = c.indexes := by
  show (i :: c.indexes).filter (fun j => j.name != i.name) = c.indexes
  rw [List.filter_cons, if_neg (by simp)]
  exact removeTailIndex_of_absent h

/-- After an attempt there are the candidates, less those that bear the name that fails. -/
theorem valid_createNewTail (h : attempts props run c = true) : ∃ c', createNewTail props run c = some c' ∧
    c'.indexes.filter TailIndex.valid = (candidates props run c).filter (spared props run c) := by
  have htimeout := (Bool.and_eq_true_iff.mp h).2
  cases hhas : c.has (tailIndexName run.createdAt) with
  | true =>
    refine ⟨removeTailIndex c (tailIndexName run.createdAt), ?_, ?_⟩
    · rw [createNewTail, if_pos htimeout, createTailIndex, dif_neg (by simp [hhas])]
    · rw [candidates, h, hhas, if_neg (by simp), removeTailIndex, List.filter_comm]
      refine List.filter_congr fun i _ => ?_
      rw [spared, collides, h, hhas]
      rfl
  | false =>
    have hspared : spared props run c = fun _ => true := by
      funext i
      rw [spared, collides, hhas]
      simp
    rw [hspared, List.filter_true, candidates, h, hhas, createNewTail, if_pos htimeout, createTailIndex,
      dif_pos hhas]
    cases hcreation : run.creation with
    | succeeds => exact ⟨_, rfl, rfl⟩
    | fails remnant =>
      cases remnant with
      | true =>
        have hadd : c.has (⟨run.createdAt, false⟩ : TailIndex).name = false := hhas
        exact ⟨_, rfl, congrArg (List.filter TailIndex.valid) (removeTailIndex_add hadd)⟩
      | false => exact ⟨_, rfl, congrArg (List.filter TailIndex.valid) (removeTailIndex_of_absent hhas)⟩

theorem candidates_of_not_attempts (h : attempts props run c = false) :
    candidates props run c = c.indexes.filter TailIndex.valid := by
  rw [candidates, h, if_neg (by simp)]

theorem valid_of_candidate (h : i ∈ candidates props run c) : i.valid = true := by
  rw [candidates] at h
  split at h
  · cases List.mem_cons.mp h with
    | inl heq => rw [heq]
    | inr hmem => exact (List.mem_filter.mp hmem).2
  · exact (List.mem_filter.mp h).2

theorem candidates_distinct : ((candidates props run c).map TailIndex.name).Nodup := by
  have hvalid : ((c.indexes.filter TailIndex.valid).map TailIndex.name).Nodup :=
    c.distinct.sublist (List.filter_sublist.map _)
  rw [candidates]
  split
  · rename_i hcreated
    have hhas : c.has (tailIndexName run.createdAt) = false := by
      rw [Bool.and_eq_true, Bool.and_eq_true, Bool.not_eq_true'] at hcreated
      exact hcreated.1.2
    refine List.nodup_cons.mpr ⟨fun hmem => ?_, hvalid⟩
    obtain ⟨j, hj, heq⟩ := List.mem_map.mp hmem
    exact Catalog.has_eq_false.mp hhas j (List.mem_of_mem_filter hj) heq
  · exact hvalid

/-! ### What is left -/

theorem epochs_distinct {l : List TailIndex} (h : (l.map TailIndex.name).Nodup) :
    (l.map TailIndex.epoch).Nodup := by
  have hmap : l.map TailIndex.name = (l.map TailIndex.epoch).map tailIndexName := by
    rw [List.map_map]
    rfl
  exact List.Nodup.of_map _ (hmap ▸ h)

/-- What is left by name, some having been dropped before, is what should be just if
neither has cost one of the newest. -/
theorem maintained_iff {all left : List TailIndex} {spared : TailIndex → Bool}
    (hleft : ∀ i, i ∈ left ↔ i ∈ Ranking.top TailIndex.name keep (all.filter spared)) (hnodup : left.Nodup)
    (hvalid : ∀ i ∈ all, i.valid = true) (hname : (all.map TailIndex.name).Nodup) :
    Maintained keep all left ↔ (∀ i ∈ all, spared i = false → keep ≤ Ranking.above TailIndex.epoch all i) ∧
      Ranking.Agrees TailIndex.name TailIndex.epoch keep (all.filter spared) := by
  have hmem : ∀ i ∈ left, i ∈ all := fun i hi =>
    List.mem_of_mem_filter (Ranking.mem_top.mp ((hleft i).mp hi)).1
  have hname' : ((all.filter spared).map TailIndex.name).Nodup := hname.sublist (List.filter_sublist.map _)
  have hperm : left.Perm (Ranking.top TailIndex.name keep (all.filter spared)) :=
    (List.perm_ext_iff_of_nodup hnodup (hname'.of_map.filter _)).mpr hleft
  rw [← Ranking.top_filter_iff hname (epochs_distinct hname)]
  constructor
  · intro h
    refine ⟨fun i hi j hj hnot => ?_, fun i hi => ?_⟩
    · exact h.newest i ((hleft i).mpr hi) j hj fun hj' => hnot ((hleft j).mp hj')
    · obtain ⟨hi, hlt⟩ := Ranking.mem_top.mp hi
      exact (hleft i).mp (h.kept i hi hlt)
  · intro ⟨hnewest, hkept⟩
    refine ⟨fun i hi => hvalid i (hmem i hi), hmem, ?_, fun i hi j hj hnot => ?_, fun i hi hlt => ?_⟩
    · rw [hperm.length_eq, Ranking.length_top hname']
      exact min_le_left _ _
    · exact hnewest i ((hleft i).mp hi) j hj fun hj' => hnot ((hleft j).mpr hj')
    · exact (hleft i).mpr (hkept (Ranking.mem_top.mpr ⟨hi, hlt⟩))

/-- A run that does nothing leaves what should be just if there is nothing to do. -/
theorem maintained_self : Maintained keep (c.indexes.filter TailIndex.valid) c.indexes ↔
    (∀ i ∈ c.indexes, i.valid = true) ∧ c.indexes.length ≤ keep := by
  constructor
  · intro h
    exact ⟨h.valid, h.few⟩
  · intro ⟨hvalid, hfew⟩
    refine ⟨hvalid, fun i hi => List.mem_filter.mpr ⟨hi, hvalid i hi⟩, hfew, fun i _ j hj hnot => ?_,
      fun i hi _ => List.mem_of_mem_filter hi⟩
    exact absurd (List.mem_of_mem_filter hj) hnot

/-- A run that is not aborted keeps those by the greatest names. -/
theorem mem_triggerTailCreation (henabled : props.tailIndexingEnabled = true)
    (hidle : run.operationInProgress = false) (h : aborts props run c = false) :
    i ∈ (triggerTailCreation props run c).indexes ↔
      i ∈ Ranking.top TailIndex.name props.tailGenerationsToKeep
        ((candidates props run c).filter (spared props run c)) := by
  rw [triggerTailCreation, henabled, hidle, if_neg (by simp)]
  cases htime : timeToCreateANewTail props run.checkedAt c with
  | true =>
    have hattempt : attempts props run c = true := by
      rw [aborts, htime, Bool.true_and, Bool.not_eq_false'] at h
      rw [attempts, htime, h]
      rfl
    obtain ⟨c', hcreated, hvalid⟩ := valid_createNewTail hattempt
    rw [if_pos rfl, hcreated, ← hvalid]
    exact mem_processExistingIndices
  | false =>
    have hattempt : attempts props run c = false := by rw [attempts, htime, Bool.false_and]
    have hspared : spared props run c = fun _ => true := by
      funext i
      rw [spared, collides, hattempt]
      rfl
    rw [if_neg (by simp), candidates_of_not_attempts hattempt, hspared, List.filter_true]
    exact mem_processExistingIndices

theorem triggerTailCreation_of_aborts (henabled : props.tailIndexingEnabled = true)
    (hidle : run.operationInProgress = false) (h : aborts props run c = true) :
    triggerTailCreation props run c = c ∧ candidates props run c = c.indexes.filter TailIndex.valid := by
  rw [aborts, Bool.and_eq_true, Bool.not_eq_true'] at h
  constructor
  · rw [triggerTailCreation, henabled, hidle, if_neg (by simp), if_pos h.1, createNewTail, h.2,
      if_neg (by simp)]
  · exact candidates_of_not_attempts (by rw [attempts, h.2, Bool.and_false])

/-! ### Names of equal length -/

theorem append_lt_append {α : Type} [LinearOrder α] {front front' back back' : List α} (h : front < front')
    (hlength : front.length = front'.length) : front ++ back < front' ++ back' := by
  induction front generalizing front' with
  | nil =>
    rw [List.eq_nil_of_length_eq_zero hlength.symm] at h
    exact absurd h (lt_irrefl _)
  | cons a rest ih =>
    cases front' with
    | nil => exact nomatch hlength
    | cons b rest' =>
      rw [List.cons_append, List.cons_append, List.cons_lt_cons_iff]
      rw [List.cons_lt_cons_iff] at h
      exact h.imp_right fun ⟨heq, hlt⟩ => ⟨heq, ih hlt (Nat.succ.inj hlength)⟩

theorem digitChar_lt {m n : Nat} (hlt : m < n) (hn : n < 10) : m.digitChar < n.digitChar := by
  have hall : ∀ n < 10, ∀ m < n, m.digitChar < n.digitChar := by decide
  exact hall n hn m hlt

/-- Numbers of equally many digits are in the order of their digits. -/
theorem toDigits_lt_toDigits {m n : Nat} (hlt : m < n)
    (hlength : (Nat.toDigits 10 m).length = (Nat.toDigits 10 n).length) :
    Nat.toDigits 10 m < Nat.toDigits 10 n := by
  induction n using Nat.strong_induction_on generalizing m with
  | _ n ih =>
    by_cases hn : n < 10
    · rw [Nat.toDigits_of_lt_base (hlt.trans hn), Nat.toDigits_of_lt_base hn, List.cons_lt_cons_iff]
      exact .inl (digitChar_lt hlt hn)
    · have hm : 10 ≤ m := by
        by_contra hm
        have hone : (Nat.toDigits 10 n).length ≤ 1 := by
          rw [← hlength, Nat.toDigits_of_lt_base (not_le.mp hm)]
          rfl
        rw [Nat.length_toDigits_le_iff (by decide) Nat.one_pos] at hone
        omega
      rw [Nat.toDigits_of_base_le (by decide) hm, Nat.toDigits_of_base_le (by decide) (not_lt.mp hn)] at hlength ⊢
      rw [List.length_append, List.length_append, List.length_singleton, List.length_singleton,
        Nat.add_right_cancel_iff] at hlength
      cases Nat.lt_or_eq_of_le (Nat.div_le_div_right hlt.le : m / 10 ≤ n / 10) with
      | inl hdiv => exact append_lt_append (ih (n / 10) (by omega) hdiv hlength) hlength
      | inr hdiv =>
        rw [hdiv]
        refine List.append_left_lt ?_
        rw [List.cons_lt_cons_iff]
        exact .inl (digitChar_lt (by omega) (Nat.mod_lt n (by decide)))

theorem tailIndexName_lt {m n : Nat} (hlt : m < n)
    (hlength : (Nat.toDigits 10 m).length = (Nat.toDigits 10 n).length) : tailIndexName m < tailIndexName n := by
  rw [String.lt_iff, tailIndexName, tailIndexName, String.toList_append, String.toList_append]
  refine List.append_left_lt ?_
  rw [Nat.toString_eq_repr, Nat.toString_eq_repr, Nat.toList_repr, Nat.toList_repr]
  exact toDigits_lt_toDigits hlt hlength

/-- Times of the same number of digits, and a name that is new. -/
theorem orderly_of_digits (digits : Nat)
    (hdigits : ∀ i ∈ candidates props run c, (Nat.toDigits 10 i.epoch).length = digits)
    (hnew : collides props run c = false) : Orderly props run c := by
  have hspared : ∀ i, spared props run c i = true := fun i => by
    rw [spared, hnew]
    rfl
  refine ⟨fun i _ hlost => ?_, Ranking.Agrees.of_monotone fun a ha b hb hlt => ?_⟩
  · rw [hspared i] at hlost
    exact nomatch hlost
  · refine tailIndexName_lt hlt ?_
    rw [hdigits a (List.mem_of_mem_filter ha), hdigits b (List.mem_of_mem_filter hb)]

end Proofs

theorem triggerTailCreation_iff (props : StoreConfigurationProperties) (run : Run) (c : Catalog)
    (henabled : props.tailIndexingEnabled = true) (hidle : run.operationInProgress = false) :
    Maintained props.tailGenerationsToKeep (candidates props run c) (triggerTailCreation props run c).indexes ↔
      Maintainable props run c := by
  rw [Maintainable]
  cases h : aborts props run c with
  | true =>
    obtain ⟨hsame, hcandidates⟩ := triggerTailCreation_of_aborts henabled hidle h
    rw [if_pos rfl, hsame, hcandidates, maintained_self]
  | false =>
    rw [if_neg (by simp), maintained_iff (fun _ => mem_triggerTailCreation henabled hidle h)
      (triggerTailCreation props run c).distinct.of_map (fun _ => valid_of_candidate) candidates_distinct]
    exact ⟨fun h => ⟨h.1, h.2⟩, fun h => ⟨h.old, h.ordered⟩⟩

/-- Three generations, and one that is new every week. -/
def defaults : StoreConfigurationProperties := ⟨true, 3, 604800000, 86340000⟩

/-- One that is too old, an invalid one, and one that is created. -/
theorem triggerTailCreation_defaults : Maintained 3
    (candidates defaults ⟨false, 1700700000000, 1700700000001, .succeeds⟩
      ⟨[⟨1700000000000, true⟩, ⟨1700000000001, false⟩], by decide⟩)
    (triggerTailCreation defaults ⟨false, 1700700000000, 1700700000001, .succeeds⟩
      ⟨[⟨1700000000000, true⟩, ⟨1700000000001, false⟩], by decide⟩).indexes := by
  refine (triggerTailCreation_iff defaults _ _ rfl rfl).mpr ?_
  rw [Maintainable, if_neg (by decide)]
  exact orderly_of_digits 13 (by decide) (by decide)

/-- The index that has just been created comes behind the one of 1970, and is dropped. -/
theorem newest_dropped : ¬ ∀ (props : StoreConfigurationProperties) (run : Run) (c : Catalog),
    props.tailIndexingEnabled = true → run.operationInProgress = false →
      Maintained props.tailGenerationsToKeep (candidates props run c) (triggerTailCreation props run c).indexes := by
  intro h
  let c : Catalog := ⟨[⟨42, true⟩], by decide⟩
  let run : Run := ⟨false, 1700000000000, 1700000000000, .succeeds⟩
  have hleft : ∀ i, i ∈ (triggerTailCreation { defaults with tailGenerationsToKeep := 1 } run c).indexes ↔ _ :=
    fun i => mem_triggerTailCreation rfl rfl (by decide)
  have hlt := (h { defaults with tailGenerationsToKeep := 1 } run c rfl rfl).newest ⟨42, true⟩
    ((hleft _).mpr (by decide)) ⟨1700000000000, true⟩ (by decide) fun hin => absurd ((hleft _).mp hin) (by decide)
  exact absurd hlt (by decide)

end FactCast.PGTailIndexManager
