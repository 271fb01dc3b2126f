import FactCast.Machine.Run
import FactCast.Sql.Rows
import Mathlib.Data.List.Sort

/-! Snapshots in files, and the space they take up.

The repository counts the bytes of its files and deletes the files that were not
used for the longest time once there are too many. Which files these are is
remembered from one clean-up to the next (`OldestModifiedFileProvider`): the list is
made anew only when nothing is left of it, and what was saved, read or deleted since
then is found out when an entry's turn comes.

`accounting`: the counter is what the files take up, and a clean-up frees enough or
everything, in every run in which nothing but empty files is overwritten and no
clean-up comes to an entry whose file is gone. `accounted_iff`: each time this condition
is not met something goes wrong. -/
namespace FactCast.SnapshotDiskRepository
open Sql

structure File (Path : Type) where
  path : Path
  size : Nat
  lastModified : Int

structure PathWithLastModifiedDate (Path : Type) where
  path : Path
  lastAccessTime : Int

/-- The threshold in bytes, and the order in which a walk meets the files. -/
structure Config (Path : Type) where
  threshold : Int
  walk : List (File Path) → List (File Path)
  walk_perm : ∀ files, (walk files).Perm files

structure Repository (Path : Type) where
  files : List (File Path)
  currentUsedSpace : Int
  /-- What the provider has left over. -/
  lastModifiedPaths : List (PathWithLastModifiedDate Path) := []
  /-- Clean-ups that were triggered and did not run yet. -/
  triggered : Nat := 0

variable {Path : Type}

namespace OldestModifiedFileProvider

def getTheLastModifiedFiles (files : List (File Path)) : List (PathWithLastModifiedDate Path) :=
  ((files.map fun f => ⟨f.path, f.lastModified⟩).insertionSort
    fun a b => a.lastAccessTime ≤ b.lastAccessTime).take 1000

/-- The list, made anew if it is empty. -/
def filled (c : Config Path) (s : Repository Path) : List (PathWithLastModifiedDate Path) :=
  if s.lastModifiedPaths.isEmpty then getTheLastModifiedFiles (c.walk s.files) else s.lastModifiedPaths

def get (c : Config Path) (s : Repository Path) :
    Option (PathWithLastModifiedDate Path) × Repository Path :=
  ((filled c s).head?, { s with lastModifiedPaths := (filled c s).tail })

theorem filled_cons {c : Config Path} {s : Repository Path} {e : PathWithLastModifiedDate Path}
    {rest : List (PathWithLastModifiedDate Path)} (h : s.lastModifiedPaths = e :: rest) :
    filled c s = e :: rest := by
  simp [filled, h]

end OldestModifiedFileProvider

def needsCleanup (c : Config Path) (s : Repository Path) : Bool :=
  decide (c.threshold ≠ 0) && decide (c.threshold ≤ s.currentUsedSpace)

def triggerCleanup (c : Config Path) (s : Repository Path) : Repository Path :=
  if needsCleanup c s then { s with triggered := s.triggered + 1 } else s

def usedSpace (s : Repository Path) : Nat := total File.size s.files

section
variable [DecidableEq Path]

def fileAt (s : Repository Path) (path : Path) : Option (File Path) := row File.path s.files path

/-- `size` is that of the bytes that are written, `now` the time of the file system. -/
def doSave (c : Config Path) (path : Path) (size : Nat) (now : Int) (s : Repository Path) :
    Repository Path :=
  triggerCleanup c { s with
    files := put File.path ⟨path, size, now⟩ s.files
    currentUsedSpace := s.currentUsedSpace + size }

def doDelete (path : Path) (s : Repository Path) : Repository Path :=
  match fileAt s path with
  | some f => { s with
      files := deleteAt File.path s.files path
      currentUsedSpace := s.currentUsedSpace - f.size }
  | none => s

/-- Reading a file makes it the one that was used last. -/
def findById (path : Path) (now : Int) (s : Repository Path) : Repository Path :=
  { s with files := s.files.map fun f => if f.path = path then { f with lastModified := now } else f }

inductive Outcome where
  | belowThreshold
  | noMoreSnapshots
  | noSuchFile
deriving DecidableEq

/-- Each turn takes one entry. The counter, which an entry that is skipped leaves as it is,
is compared again before the next one. -/
def cleanup (c : Config Path) : Nat → Repository Path → Option (Outcome × Repository Path)
  | 0, _ => none
  | fuel + 1, s =>
    if c.threshold ≤ s.currentUsedSpace then
      match OldestModifiedFileProvider.get c s with
      | (none, s) => some (.noMoreSnapshots, s)
      | (some oldestFile, s) =>
        match fileAt s oldestFile.path with
        | none => some (.noSuchFile, s)
        | some f =>
          if f.lastModified = oldestFile.lastAccessTime then cleanup c fuel (doDelete oldestFile.path s)
          else cleanup c fuel s
    else some (.belowThreshold, s)

/-- Enough for every entry that is left over, and for every file after that. -/
def turns (s : Repository Path) : Nat := s.lastModifiedPaths.length + s.files.length + 1

inductive Action (Path : Type) where
  | save (path : Path) (size : Nat) (now : Int)
  | delete (path : Path)
  | findById (path : Path) (now : Int)
  | cleanup

def step (c : Config Path) (s : Repository Path) : Action Path → Option (Repository Path)
  | .save path size now => some (doSave c path size now s)
  | .delete path => some (doDelete path s)
  | .findById path now => some (findById path now s)
  | .cleanup =>
    match s.triggered with
    | 0 => none
    | n + 1 => (cleanup c (turns s) { s with triggered := n }).map Prod.snd

/-- The directory is measured at startup. -/
def machine (c : Config Path) : Machine (Repository Path) (Action Path) where
  Start s := Keyed File.path s.files ∧ s.currentUsedSpace = usedSpace s ∧ s.lastModifiedPaths = [] ∧
    s.triggered = 0
  step := step c

end

section Turns
variable {c : Config Path} {s s' : Repository Path} {e : PathWithLastModifiedDate Path}
  {rest : List (PathWithLastModifiedDate Path)} {f : File Path} {fuel : Nat}
  {r : Outcome × Repository Path} {path : Path}

open OldestModifiedFileProvider

/-- The repository after the provider gave the first of its list away. -/
def left (s : Repository Path) (rest : List (PathWithLastModifiedDate Path)) : Repository Path :=
  { s with lastModifiedPaths := rest }

theorem get_nil (hl : filled c s = []) : OldestModifiedFileProvider.get c s = (none, left s []) := by
  simp only [OldestModifiedFileProvider.get, hl, List.head?_nil, List.tail_nil]
  rfl

theorem get_cons (hl : filled c s = e :: rest) :
    OldestModifiedFileProvider.get c s = (some e, left s rest) := by
  simp only [OldestModifiedFileProvider.get, hl, List.head?_cons, List.tail_cons]
  rfl

/-! ### What every operation keeps -/

/-- The counter is exact; a path stands once on the disk and once in the list. -/
structure Inv (s : Repository Path) : Prop where
  keyed : Keyed File.path s.files
  distinct : (s.lastModifiedPaths.map (·.path)).Nodup
  used : s.currentUsedSpace = usedSpace s

theorem mem_getTheLastModifiedFiles {files : List (File Path)}
    (h : e ∈ getTheLastModifiedFiles files) :
    ∃ f ∈ files, f.path = e.path ∧ f.lastModified = e.lastAccessTime := by
  have he := List.mem_of_mem_take h
  rw [List.mem_insertionSort] at he
  obtain ⟨f, hf, rfl⟩ := List.mem_map.mp he
  exact ⟨f, hf, rfl, rfl⟩

theorem filled_eq_nil (h : filled c s = []) : s.files = [] := by
  unfold filled at h
  split at h
  · have hlength := congrArg List.length h
    simp only [getTheLastModifiedFiles, List.length_take, List.length_insertionSort, List.length_map,
      (c.walk_perm s.files).length_eq, List.length_nil] at hlength
    exact List.length_eq_zero_iff.mp (by omega)
  · rename_i hne
    exact absurd (List.isEmpty_iff.mpr h) hne

theorem distinct_filled (h : Inv s) : ((filled c s).map (·.path)).Nodup := by
  unfold filled
  split
  · have hwalk : ((c.walk s.files).map File.path).Nodup :=
      ((c.walk_perm s.files).map File.path).nodup_iff.mpr h.keyed
    have hsorted := (List.perm_insertionSort
      (fun a b : PathWithLastModifiedDate Path => a.lastAccessTime ≤ b.lastAccessTime)
      ((c.walk s.files).map fun f => ⟨f.path, f.lastModified⟩)).map (·.path)
    rw [List.map_map] at hsorted
    exact (hsorted.nodup_iff.mpr hwalk).sublist ((List.take_sublist _ _).map _)
  · exact h.distinct

theorem inv_left (h : Inv s) (hl : filled c s = e :: rest) : Inv (left s rest) := by
  have hd := distinct_filled (c := c) h
  rw [hl] at hd
  exact ⟨h.keyed, (List.nodup_cons.mp hd).2, h.used⟩

@[simp] theorem triggerCleanup_files : (triggerCleanup c s).files = s.files := by
  unfold triggerCleanup
  split <;> rfl

@[simp] theorem triggerCleanup_used : (triggerCleanup c s).currentUsedSpace = s.currentUsedSpace := by
  unfold triggerCleanup
  split <;> rfl

@[simp] theorem triggerCleanup_paths : (triggerCleanup c s).lastModifiedPaths = s.lastModifiedPaths := by
  unfold triggerCleanup
  split <;> rfl

variable [DecidableEq Path]

/-! ### One turn of a clean-up -/

theorem cleanup_below (h : s.currentUsedSpace < c.threshold) :
    cleanup c (fuel + 1) s = some (.belowThreshold, s) := by
  rw [cleanup, if_neg (by omega)]

theorem fileAt_left : fileAt (left s rest) path = fileAt s path := rfl

theorem cleanup_nil (h : c.threshold ≤ s.currentUsedSpace) (hl : filled c s = []) :
    cleanup c (fuel + 1) s = some (.noMoreSnapshots, left s []) := by
  simp only [cleanup, if_pos h, get_nil hl]

theorem cleanup_gone (h : c.threshold ≤ s.currentUsedSpace) (hl : filled c s = e :: rest)
    (hf : fileAt s e.path = none) : cleanup c (fuel + 1) s = some (.noSuchFile, left s rest) := by
  simp only [cleanup, if_pos h, get_cons hl, fileAt_left, hf]

theorem cleanup_changed (h : c.threshold ≤ s.currentUsedSpace) (hl : filled c s = e :: rest)
    (hf : fileAt s e.path = some f) (hne : f.lastModified ≠ e.lastAccessTime) :
    cleanup c (fuel + 1) s = cleanup c fuel (left s rest) := by
  simp only [cleanup, if_pos h, get_cons hl, fileAt_left, hf, if_neg hne]

theorem cleanup_unchanged (h : c.threshold ≤ s.currentUsedSpace) (hl : filled c s = e :: rest)
    (hf : fileAt s e.path = some f) (heq : f.lastModified = e.lastAccessTime) :
    cleanup c (fuel + 1) s = cleanup c fuel (doDelete e.path (left s rest)) := by
  simp only [cleanup, if_pos h, get_cons hl, fileAt_left, hf, if_pos heq]

/-- What holds when a clean-up ends and is carried back over every turn holds of the whole. -/
theorem cleanup_induct {P : Repository Path → Outcome × Repository Path → Prop}
    (below : ∀ s, s.currentUsedSpace < c.threshold → P s (.belowThreshold, s))
    (nil : ∀ s, filled c s = [] → P s (.noMoreSnapshots, left s []))
    (gone : ∀ s e rest, c.threshold ≤ s.currentUsedSpace → filled c s = e :: rest →
      fileAt s e.path = none → P s (.noSuchFile, left s rest))
    (changed : ∀ s e rest r, filled c s = e :: rest → P (left s rest) r → P s r)
    (unchanged : ∀ s e rest f r, filled c s = e :: rest → fileAt s e.path = some f →
      P (doDelete e.path (left s rest)) r → P s r)
    (h : cleanup c fuel s = some r) : P s r := by
  induction fuel generalizing s with
  | zero => cases h
  | succ fuel ih =>
    by_cases hfull : c.threshold ≤ s.currentUsedSpace
    · cases hl : filled c s with
      | nil =>
        rw [cleanup_nil hfull hl] at h
        cases h
        exact nil s hl
      | cons e rest =>
        cases hf : fileAt s e.path with
        | none =>
          rw [cleanup_gone hfull hl hf] at h
          cases h
          exact gone s e rest hfull hl hf
        | some f =>
          by_cases heq : f.lastModified = e.lastAccessTime
          · rw [cleanup_unchanged hfull hl hf heq] at h
            exact unchanged s e rest f r hl hf (ih h)
          · rw [cleanup_changed hfull hl hf heq] at h
            exact changed s e rest r hl (ih h)
    · rw [cleanup_below (by omega)] at h
      cases h
      exact below s (by omega)

/-! ### What deleting keeps -/

theorem inv_doDelete (h : Inv s) : Inv (doDelete path s) := by
  unfold doDelete
  split
  · rename_i f hf
    refine ⟨h.keyed.deleteAt, h.distinct, ?_⟩
    have htotal := total_deleteAt File.size h.keyed hf
    have hused := h.used
    simp only [usedSpace] at hused ⊢
    omega
  · exact h

theorem inv_cleanup (h : Inv s) (hc : cleanup c fuel s = some r) : Inv r.2 := by
  refine cleanup_induct (P := fun s r => Inv s → Inv r.2) ?_ ?_ ?_ ?_ ?_ hc h
  · exact fun s _ h => h
  · exact fun s _ h => ⟨h.keyed, List.nodup_nil, h.used⟩
  · exact fun s e rest _ hl _ h => inv_left h hl
  · exact fun s e rest r hl ih h => ih (inv_left h hl)
  · exact fun s e rest f r hl _ ih h => ih (inv_doDelete (inv_left h hl))

/-! ### How a clean-up ends -/

theorem below_of_belowThreshold (hc : cleanup c fuel s = some (.belowThreshold, s')) :
    s'.currentUsedSpace < c.threshold := by
  refine cleanup_induct (P := fun _ r => r.1 = .belowThreshold → r.2.currentUsedSpace < c.threshold)
    ?_ ?_ ?_ ?_ ?_ hc rfl
  · exact fun s h _ => h
  · exact fun s _ h => nomatch h
  · exact fun s e rest _ _ _ h => nomatch h
  · exact fun s e rest r _ ih => ih
  · exact fun s e rest f r _ _ ih => ih

theorem nil_of_noMoreSnapshots (hc : cleanup c fuel s = some (.noMoreSnapshots, s')) : s'.files = [] := by
  refine cleanup_induct (P := fun _ r => r.1 = .noMoreSnapshots → r.2.files = []) ?_ ?_ ?_ ?_ ?_ hc rfl
  · exact fun s _ h => nomatch h
  · exact fun s hl _ => filled_eq_nil (s := s) hl
  · exact fun s e rest _ _ _ h => nomatch h
  · exact fun s e rest r _ ih => ih
  · exact fun s e rest f r _ _ ih => ih

/-- A clean-up that fails does so over the threshold. -/
theorem full_of_noSuchFile (hc : cleanup c fuel s = some (.noSuchFile, s')) :
    c.threshold ≤ s'.currentUsedSpace := by
  refine cleanup_induct (P := fun _ r => r.1 = .noSuchFile → c.threshold ≤ r.2.currentUsedSpace)
    ?_ ?_ ?_ ?_ ?_ hc rfl
  · exact fun s _ h => nomatch h
  · exact fun s _ h => nomatch h
  · exact fun s e rest h _ _ _ => h
  · exact fun s e rest r _ ih => ih
  · exact fun s e rest f r _ _ ih => ih

/-- The file is there as it was when the list was made. -/
def Unchanged (s : Repository Path) (e : PathWithLastModifiedDate Path) : Prop :=
  ∃ f, fileAt s e.path = some f ∧ f.lastModified = e.lastAccessTime

theorem fileAt_doDelete {other : Path} (h : path ≠ other) :
    fileAt (doDelete other s) path = fileAt s path := by
  unfold doDelete
  split
  · exact row_deleteAt.trans (if_neg h)
  · rfl

@[simp] theorem doDelete_lastModifiedPaths : (doDelete path s).lastModifiedPaths = s.lastModifiedPaths := by
  unfold doDelete
  split <;> rfl

theorem files_doDelete_lt (hf : fileAt s path = some f) :
    (doDelete path s).files.length < s.files.length := by
  have hmem := mem_of_row hf
  simp only [doDelete, hf]
  refine List.length_filter_lt_length_iff_exists.mpr ⟨f, hmem.1, ?_⟩
  simp [hmem.2]

/-- A list that is made anew is up to date. -/
theorem unchanged_filled (h : Inv s) (hl : ∀ e ∈ s.lastModifiedPaths, Unchanged s e) :
    ∀ e ∈ filled c s, Unchanged s e := by
  intro e he
  unfold filled at he
  split at he
  · obtain ⟨f, hf, hpath, htime⟩ := mem_getTheLastModifiedFiles he
    exact ⟨f, (row_eq_some_iff h.keyed).mpr ⟨(c.walk_perm s.files).mem_iff.mp hf, hpath⟩, htime⟩
  · exact hl e he

theorem unchanged_rest (h : Inv s) (hl : filled c s = e :: rest)
    (hall : ∀ e ∈ filled c s, Unchanged s e) :
    ∀ e' ∈ rest, Unchanged (doDelete e.path (left s rest)) e' := by
  intro e' he'
  have hd := distinct_filled (c := c) h
  rw [hl] at hd hall
  obtain ⟨f, hf, htime⟩ := hall e' (.tail _ he')
  have hne : e'.path ≠ e.path := fun heq =>
    (List.nodup_cons.mp hd).1 (List.mem_map.mpr ⟨e', he', heq⟩)
  exact ⟨f, (fileAt_doDelete hne).trans hf, htime⟩

theorem ne_noSuchFile (h : Inv s) (hl : ∀ e ∈ s.lastModifiedPaths, Unchanged s e)
    (hc : cleanup c fuel s = some r) : r.1 ≠ .noSuchFile := by
  refine cleanup_induct (P := fun s r => Inv s → (∀ e ∈ s.lastModifiedPaths, Unchanged s e) →
    r.1 ≠ .noSuchFile) ?_ ?_ ?_ ?_ ?_ hc h hl
  · exact fun s _ _ _ h => nomatch h
  · exact fun s _ _ _ h => nomatch h
  · intro s e rest _ hlist hf h hl
    obtain ⟨f, hsome, -⟩ := unchanged_filled (c := c) h hl e (hlist ▸ .head _)
    rw [hf] at hsome
    cases hsome
  · intro s e rest r hlist ih h hl
    have hall := unchanged_filled (c := c) h hl
    exact ih (inv_left h hlist) fun e' he' => hall e' (hlist ▸ .tail _ he')
  · intro s e rest f r hlist _ ih h hl
    refine ih (inv_doDelete (inv_left h hlist)) ?_
    rw [doDelete_lastModifiedPaths]
    exact unchanged_rest h hlist (unchanged_filled h hl)

/-- With a list that is up to date every turn deletes a file. -/
theorem cleanup_of_unchanged (h : Inv s) (hl : ∀ e ∈ s.lastModifiedPaths, Unchanged s e)
    (hfuel : s.files.length < fuel) : (cleanup c fuel s).isSome = true := by
  induction fuel generalizing s with
  | zero => omega
  | succ fuel ih =>
    by_cases hfull : c.threshold ≤ s.currentUsedSpace
    · have hall := unchanged_filled (c := c) h hl
      cases hlist : filled c s with
      | nil =>
        rw [cleanup_nil hfull hlist]
        rfl
      | cons e rest =>
        obtain ⟨f, hf, htime⟩ := hall e (hlist ▸ .head _)
        rw [cleanup_unchanged hfull hlist hf htime]
        have hfewer : (doDelete e.path (left s rest)).files.length < s.files.length :=
          files_doDelete_lt (s := left s rest) hf
        refine ih (inv_doDelete (inv_left h hlist)) ?_ (by omega)
        rw [doDelete_lastModifiedPaths]
        exact unchanged_rest h hlist hall
    · rw [cleanup_below (by omega)]
      rfl

/-- A clean-up comes to an end. -/
theorem cleanup_isSome (h : Inv s) (hfuel : s.lastModifiedPaths.length + s.files.length < fuel) :
    (cleanup c fuel s).isSome = true := by
  induction hlist : s.lastModifiedPaths generalizing s fuel with
  | nil => exact cleanup_of_unchanged h (by simp [hlist]) (by omega)
  | cons e rest ih =>
    match fuel with
    | 0 => omega
    | fuel + 1 =>
      have hfilled := filled_cons (c := c) hlist
      have hlength : s.lastModifiedPaths.length = rest.length + 1 := by rw [hlist, List.length_cons]
      by_cases hfull : c.threshold ≤ s.currentUsedSpace
      · cases hf : fileAt s e.path with
        | none =>
          rw [cleanup_gone hfull hfilled hf]
          rfl
        | some f =>
          have hleft := inv_left h hfilled
          by_cases htime : f.lastModified = e.lastAccessTime
          · rw [cleanup_unchanged hfull hfilled hf htime]
            have hfewer : (doDelete e.path (left s rest)).files.length < s.files.length :=
              files_doDelete_lt (s := left s rest) hf
            have hrest : (doDelete e.path (left s rest)).lastModifiedPaths = rest :=
              doDelete_lastModifiedPaths
            exact ih (inv_doDelete hleft) (by rw [hrest]; omega) hrest
          · rw [cleanup_changed hfull hfilled hf htime]
            exact ih hleft (by show rest.length + s.files.length < fuel; omega) rfl
      · rw [cleanup_below (by omega)]
        rfl

/-! ### When it does not -/

/-- What the turn of an entry frees. -/
def freed (s : Repository Path) (e : PathWithLastModifiedDate Path) : Nat :=
  match fileAt s e.path with
  | some f => if f.lastModified = e.lastAccessTime then f.size else 0
  | none => 0

/-- An entry that is left over has its turn though its file is gone: what the entries before
it free is not enough. -/
def ComesToGone (c : Config Path) (s : Repository Path) : Prop :=
  ∃ before e after, s.lastModifiedPaths = before ++ e :: after ∧ fileAt s e.path = none ∧
    c.threshold ≤ s.currentUsedSpace - ((before.map (freed s)).sum : Nat)

theorem not_comesToGone_of_below (h : s.currentUsedSpace < c.threshold) : ¬ ComesToGone c s := by
  rintro ⟨before, e, after, -, -, hfull⟩
  omega

theorem comesToGone_cons (hl : s.lastModifiedPaths = e :: rest) (hf : fileAt s e.path = some f) :
    ComesToGone c s ↔ ∃ before e' after, rest = before ++ e' :: after ∧ fileAt s e'.path = none ∧
      c.threshold ≤ s.currentUsedSpace - freed s e - ((before.map (freed s)).sum : Nat) := by
  constructor
  · rintro ⟨before, e', after, hsplit, hnone, hfull⟩
    rw [hl] at hsplit
    cases before with
    | nil =>
      obtain rfl : e = e' := (List.cons.inj hsplit).1
      rw [hf] at hnone
      cases hnone
    | cons b before =>
      obtain ⟨rfl, hrest⟩ := List.cons.inj hsplit
      refine ⟨before, e', after, hrest, hnone, ?_⟩
      rw [List.map_cons, List.sum_cons] at hfull
      omega
  · rintro ⟨before, e', after, rfl, hnone, hfull⟩
    refine ⟨e :: before, e', after, hl, hnone, ?_⟩
    rw [List.map_cons, List.sum_cons]
    omega

theorem comesToGone_changed (hl : s.lastModifiedPaths = e :: rest) (hf : fileAt s e.path = some f)
    (hne : f.lastModified ≠ e.lastAccessTime) : ComesToGone c s ↔ ComesToGone c (left s rest) := by
  have hfreed : freed s e = 0 := by simp only [freed, hf, if_neg hne]
  rw [comesToGone_cons hl hf, hfreed, Int.natCast_zero, Int.sub_zero]
  rfl

theorem comesToGone_unchanged (h : Inv s) (hl : s.lastModifiedPaths = e :: rest)
    (hf : fileAt s e.path = some f) (heq : f.lastModified = e.lastAccessTime) :
    ComesToGone c s ↔ ComesToGone c (doDelete e.path (left s rest)) := by
  have hd : e.path ∉ rest.map (·.path) := by
    have := h.distinct
    rw [hl] at this
    exact (List.nodup_cons.mp this).1
  have hother : ∀ e' ∈ rest, fileAt (doDelete e.path (left s rest)) e'.path = fileAt s e'.path :=
    fun e' he' => fileAt_doDelete fun hpath => hd (List.mem_map.mpr ⟨e', he', hpath⟩)
  have hused : (doDelete e.path (left s rest)).currentUsedSpace = s.currentUsedSpace - freed s e := by
    have hf' : fileAt (left s rest) e.path = some f := hf
    simp only [doDelete, hf', freed, hf, if_pos heq]
    rfl
  have hsame : ∀ before e' after, rest = before ++ e' :: after →
      before.map (freed (doDelete e.path (left s rest))) = before.map (freed s) := by
    intro before e' after hsplit
    refine List.map_congr_left fun b hb => ?_
    simp only [freed, hother b (hsplit ▸ List.mem_append_left _ hb)]
  rw [comesToGone_cons hl hf]
  unfold ComesToGone
  rw [doDelete_lastModifiedPaths]
  show _ ↔ ∃ before e' after, rest = before ++ e' :: after ∧ _
  refine exists_congr fun before => exists_congr fun e' => exists_congr fun after => ?_
  refine and_congr_right fun hsplit => ?_
  rw [hother e' (hsplit ▸ List.mem_append_right _ (.head _)), hused, hsame before e' after hsplit]

theorem noSuchFile_iff (h : Inv s) (hc : cleanup c fuel s = some r) :
    r.1 = .noSuchFile ↔ ComesToGone c s := by
  induction hlist : s.lastModifiedPaths generalizing s fuel with
  | nil =>
    have hnever : ¬ ComesToGone c s := by
      rintro ⟨before, e, after, hsplit, -⟩
      rw [hlist] at hsplit
      simp at hsplit
    exact iff_of_false (ne_noSuchFile h (by simp [hlist]) hc) hnever
  | cons e rest ih =>
    match fuel with
    | 0 => cases hc
    | fuel + 1 =>
      have hfilled := OldestModifiedFileProvider.filled_cons (c := c) hlist
      by_cases hfull : c.threshold ≤ s.currentUsedSpace
      · cases hf : fileAt s e.path with
        | none =>
          rw [cleanup_gone hfull hfilled hf] at hc
          cases hc
          exact iff_of_true rfl ⟨[], e, rest, hlist, hf, by simpa using hfull⟩
        | some f =>
          have hleft := inv_left h hfilled
          by_cases htime : f.lastModified = e.lastAccessTime
          · rw [cleanup_unchanged hfull hfilled hf htime] at hc
            rw [comesToGone_unchanged h hlist hf htime]
            exact ih (inv_doDelete hleft) hc doDelete_lastModifiedPaths
          · rw [cleanup_changed hfull hfilled hf htime] at hc
            rw [comesToGone_changed hlist hf htime]
            exact ih hleft hc rfl
      · rw [cleanup_below (by omega)] at hc
        cases hc
        exact iff_of_false (fun h => nomatch h) (not_comesToGone_of_below (by omega))

/-! ### The whole run -/

/-- Nothing but an empty file is overwritten, and no clean-up comes to a file that is gone. -/
def Meets (c : Config Path) (s : Repository Path) : Action Path → Prop
  | .save path _ _ => ∀ f, fileAt s path = some f → f.size = 0
  | .delete _ => True
  | .findById _ _ => True
  | .cleanup => ¬ ComesToGone c s

/-- What is claimed of a step: the counter is what the files take up, and a clean-up frees
enough or everything. -/
def Accounted (c : Config Path) (a : Action Path) (s' : Repository Path) : Prop :=
  s'.currentUsedSpace = usedSpace s' ∧
    match a with
    | .cleanup => s'.currentUsedSpace < c.threshold ∨ s'.files = []
    | _ => True

variable {size : Nat} {now : Int} {a : Action Path}

/-- A save is accounted for exactly if what it overwrites was empty. -/
theorem used_doSave_iff (h : Inv s) :
    (doSave c path size now s).currentUsedSpace = usedSpace (doSave c path size now s) ↔
      ∀ f, fileAt s path = some f → f.size = 0 := by
  have htotal : total File.size (put File.path ⟨path, size, now⟩ s.files) +
      (row File.path s.files path).elim 0 File.size = usedSpace s + size := total_put File.size _
  have hused := h.used
  simp only [doSave, triggerCleanup_used, usedSpace, triggerCleanup_files] at hused htotal ⊢
  show _ ↔ ∀ f, row File.path s.files path = some f → f.size = 0
  cases hf : row File.path s.files path with
  | none =>
    simp only [hf, Option.elim_none] at htotal
    refine iff_of_true (by omega) fun f h => ?_
    cases h
  | some f =>
    simp only [hf, Option.elim_some] at htotal
    constructor
    · intro h f' hf'
      cases hf'
      omega
    · intro h
      have := h f rfl
      omega

theorem inv_doSave (h : Inv s) (hempty : ∀ f, fileAt s path = some f → f.size = 0) :
    Inv (doSave c path size now s) := by
  refine ⟨?_, ?_, (used_doSave_iff h).mpr hempty⟩
  · simp only [doSave, triggerCleanup_files]
    exact h.keyed.put
  · simp only [doSave, triggerCleanup_paths]
    exact h.distinct

theorem inv_findById (h : Inv s) : Inv (findById path now s) := by
  refine ⟨h.keyed.map fun f => ?_, h.distinct, ?_⟩
  · split <;> rfl
  · have hsize : (File.size ∘ fun f : File Path => if f.path = path then { f with lastModified := now } else f) =
        File.size := by
      funext f
      simp only [Function.comp_apply]
      split <;> rfl
    simp only [findById, usedSpace, total, List.map_map, hsize]
    exact h.used

theorem step_cleanup (hs : step c s .cleanup = some s') :
    ∃ n o, cleanup c (turns s) { s with triggered := n } = some (o, s') := by
  simp only [step] at hs
  split at hs
  · cases hs
  · rename_i n _
    obtain ⟨⟨o, t⟩, hc, rfl⟩ := Option.map_eq_some_iff.mp hs
    exact ⟨n, o, hc⟩

theorem inv_step (h : Inv s) (hm : Meets c s a) (hs : step c s a = some s') : Inv s' := by
  cases a with
  | save path size now =>
    cases hs
    exact inv_doSave h hm
  | delete path =>
    cases hs
    exact inv_doDelete h
  | findById path now =>
    cases hs
    exact inv_findById h
  | cleanup =>
    obtain ⟨n, o, hc⟩ := step_cleanup hs
    have hn : Inv { s with triggered := n } := ⟨h.keyed, h.distinct, h.used⟩
    exact inv_cleanup hn hc

theorem inv_of_reachable (h : (machine c).ReachableUnder (Meets c) s) : Inv s := by
  refine h.invariant (fun s hstart => ?_) fun s a s' hinv hm hs => inv_step hinv hm hs
  obtain ⟨hkeyed, hused, hpaths, -⟩ := hstart
  exact ⟨hkeyed, by rw [hpaths]; exact List.nodup_nil, hused⟩

/-- A clean-up of the state frees enough or everything, unless it comes to a file that is gone. -/
theorem cleanup_frees (h : Inv s) (hs : step c s .cleanup = some s') (hm : ¬ ComesToGone c s) :
    s'.currentUsedSpace < c.threshold ∨ s'.files = [] := by
  obtain ⟨n, o, hc⟩ := step_cleanup hs
  have hn : Inv { s with triggered := n } := ⟨h.keyed, h.distinct, h.used⟩
  cases o with
  | belowThreshold => exact .inl (below_of_belowThreshold hc)
  | noMoreSnapshots => exact .inr (nil_of_noMoreSnapshots hc)
  | noSuchFile => exact absurd ((noSuchFile_iff hn hc).mp rfl) hm

/-- One that does fails over the threshold, with files left. -/
theorem cleanup_fails (h : Inv s) (hthreshold : 0 < c.threshold) (hs : step c s .cleanup = some s')
    (hm : ComesToGone c s) : ¬ (s'.currentUsedSpace < c.threshold ∨ s'.files = []) := by
  obtain ⟨n, o, hc⟩ := step_cleanup hs
  have hn : Inv { s with triggered := n } := ⟨h.keyed, h.distinct, h.used⟩
  obtain rfl : o = .noSuchFile := (noSuchFile_iff hn hc).mpr hm
  have hfull := full_of_noSuchFile hc
  rintro (hbelow | hnil)
  · omega
  · have hused : s'.currentUsedSpace = usedSpace s' := (inv_cleanup hn hc).used
    have hzero : usedSpace s' = 0 := by simp [usedSpace, total, hnil]
    omega

/-- What the condition rules out goes wrong. -/
theorem accounted_iff (h : Inv s) (hthreshold : 0 < c.threshold) (hs : step c s a = some s') :
    Accounted c a s' ↔ Meets c s a := by
  cases a with
  | save path size now =>
    cases hs
    exact (and_iff_left trivial).trans (used_doSave_iff h)
  | delete path =>
    have hinv := inv_step (a := .delete path) h trivial hs
    exact iff_of_true ⟨hinv.used, trivial⟩ trivial
  | findById path now =>
    have hinv := inv_step (a := .findById path now) h trivial hs
    exact iff_of_true ⟨hinv.used, trivial⟩ trivial
  | cleanup =>
    constructor
    · exact fun hacc hgone => cleanup_fails h hthreshold hs hgone hacc.2
    · exact fun hm => ⟨(inv_step (a := .cleanup) h hm hs).used, cleanup_frees h hs hm⟩

/-- In every run that overwrites nothing but empty files and whose clean-ups come to no file
that is gone, the counter is exact, and a clean-up that was triggered ends, with enough or
everything deleted. -/
theorem accounting (h : (machine c).ReachableUnder (Meets c) s) :
    s.currentUsedSpace = usedSpace s ∧
    (0 < s.triggered → ∃ s', step c s .cleanup = some s') ∧
    ∀ a s', Meets c s a → step c s a = some s' → Accounted c a s' := by
  have hinv := inv_of_reachable h
  refine ⟨hinv.used, fun htriggered => ?_, fun a s' hm hs => ?_⟩
  · obtain ⟨n, hn⟩ := Nat.exists_eq_add_of_lt htriggered
    have hsome := cleanup_isSome (c := c) (s := { s with triggered := n })
      ⟨hinv.keyed, hinv.distinct, hinv.used⟩ (Nat.lt_succ_self _)
    obtain ⟨r, hr⟩ := Option.isSome_iff_exists.mp hsome
    refine ⟨r.2, ?_⟩
    have hn' : s.triggered = n + 1 := by omega
    simp only [step, hn']
    exact congrArg (Option.map Prod.snd) hr
  · refine ⟨(inv_step hinv hm hs).used, ?_⟩
    cases a with
    | cleanup => exact cleanup_frees hinv hs hm
    | _ => trivial

end Turns

/-! ### Two ways to lose count -/

def ofTen : Config Nat where
  threshold := 10
  walk := id
  walk_perm _ := .refl _

def empty : Repository Nat := { files := [], currentUsedSpace := 0 }

theorem start_empty : (machine ofTen).Start empty := ⟨List.nodup_nil, rfl, rfl, rfl⟩

/-- Two files, of which the clean-up deletes the one that was written first. -/
theorem accounting_two : ∃ s, (machine ofTen).run empty [.save 0 6 1, .save 1 6 2, .cleanup] = some s ∧
    s.currentUsedSpace = usedSpace s ∧
    (0 < s.triggered → ∃ s', step ofTen s .cleanup = some s') ∧
    ∀ a s', Meets ofTen s a → step ofTen s a = some s' → Accounted ofTen a s' := by
  have hfirst : (machine ofTen).ReachableUnder (Meets ofTen)
      (doSave ofTen 0 6 1 empty) :=
    .step (.start start_empty) (a := .save 0 6 1) (fun f h => nomatch h) rfl
  have hsecond : (machine ofTen).ReachableUnder (Meets ofTen)
      (doSave ofTen 1 6 2 (doSave ofTen 0 6 1 empty)) :=
    .step hfirst (a := .save 1 6 2) (fun f h => nomatch h) rfl
  refine ⟨_, rfl, accounting (.step hsecond (a := .cleanup) ?_ rfl)⟩
  rintro ⟨before, e, after, hsplit, -⟩
  exact List.append_ne_nil_of_right_ne_nil before (List.cons_ne_nil e after) hsplit.symm

/-- A file that is overwritten is counted twice; and a clean-up that remembers a deleted file
fails before it deletes anything. -/
theorem overwritten_and_forgotten :
    (∃ s, (machine ofTen).Reachable s ∧ (s.currentUsedSpace, usedSpace s) = (9, 3)) ∧
    ∃ s s', (machine ofTen).Reachable s ∧ step ofTen s .cleanup = some s' ∧
      s'.currentUsedSpace = 12 ∧ s'.files = [⟨2, 12, 3⟩] := by
  have htwice := Machine.exists_reachable start_empty [.save 0 6 1, .save 0 3 2]
    (fun s => (s.currentUsedSpace, usedSpace s)) rfl
  have hgone := Machine.exists_reachable start_empty
    [.save 0 6 1, .save 1 6 2, .cleanup, .delete 1, .save 2 12 3] (fun s => step ofTen s .cleanup) rfl
  obtain ⟨s, hs, hstep⟩ := hgone
  exact ⟨htwice, s, _, hs, hstep, rfl, rfl⟩

end FactCast.SnapshotDiskRepository
