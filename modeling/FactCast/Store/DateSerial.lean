import FactCast.Machine.Log
import FactCast.Machine.Run
import Mathlib.Data.List.Induction
import Mathlib.Data.List.Pairwise
import Mathlib.Order.Monotone.Basic

/-! The last serial before a date.

A trigger keeps the first and the last serial of every date, the date being that of
the transaction's start; a fact records that time, rounded to milliseconds. Serials
follow the order in which transactions obtain the write lock, and a transaction may
have begun long before.

No serial recorded before a date is missed. But a transaction that began before
the date and got the lock after a fact of that date raises the last serial beyond
that fact (`straddling_hidden`), and the half millisecond before midnight is
recorded as the next day and kept under the old one. `clean_cut_iff` says that these
are the only ways. -/
namespace FactCast.DateSerial

/-- The session's time zone: the date of an instant, in microseconds. -/
structure Zone where
  dateOf : Nat → Nat
  monotone : Monotone dateOf
  /-- A day begins with a whole millisecond. -/
  whole : ∀ t, dateOf (t / 1000 * 1000) = dateOf t

/-- `now()::timestamptz(3)`, in milliseconds. -/
def timestamp (now : Nat) : Nat := (now + 500) / 1000

structure Row where
  ser : Nat
  /-- When its transaction began. -/
  started : Nat
deriving DecidableEq

/-- What its header records. -/
def Row.recorded (row : Row) : Nat := timestamp row.started

/-- An entry of the table `date2serial`. -/
structure DateEntry where
  factDate : Nat
  firstSer : Nat
  lastSer : Nat
deriving DecidableEq

/-- An open transaction's start, its rows and the dates as it sees them, if it holds the lock. -/
structure Writer where
  tx : Nat
  rows : List Row
  dates : List DateEntry

structure State where
  now : Nat
  nextSer : Nat
  log : List Row
  dates : List DateEntry
  /-- The start of every open transaction. -/
  started : Nat → Option Nat
  writer : Option Writer

inductive Action where
  | elapse (micros : Nat)
  | begin_ (tx : Nat)
  | aquireExclusiveTXLock (tx : Nat)
  /-- The writer inserts its next fact. -/
  | insert
  | commit
  | rollback

section Steps
variable (zone : Zone) (s : State)

def Row.factDate (row : Row) : Nat := zone.dateOf row.started

/-- The date of what is recorded. -/
def Row.date (row : Row) : Nat := zone.dateOf (row.recorded * 1000)

/-- The trigger: an insert, or an update of the last serial. -/
def maintainFactDate (dates : List DateEntry) (row : Row) : List DateEntry :=
  if (dates.map DateEntry.factDate).contains (row.factDate zone) then
    dates.map fun e => if e.factDate = row.factDate zone then { e with lastSer := row.ser } else e
  else dates ++ [⟨row.factDate zone, row.ser, row.ser⟩]

/-- The highest last serial of an earlier date, zero if there is none. -/
def lastSerialBefore (date : Nat) : Nat :=
  Log.last DateEntry.lastSer (s.dates.filter fun e => decide (e.factDate < date))

def begin_ (tx : Nat) : Option State :=
  match s.started tx with
  | none => some { s with started := Function.update s.started tx (some s.now) }
  | some _ => none

/-- The lock is free, and the writer sees what is committed. -/
def aquireExclusiveTXLock (tx : Nat) : Option State :=
  match s.started tx, s.writer with
  | some _, none => some { s with writer := some ⟨tx, [], s.dates⟩ }
  | _, _ => none

def insert : Option State :=
  s.writer.bind fun w => (s.started w.tx).map fun started =>
    let row : Row := ⟨s.nextSer, started⟩
    { s with
      nextSer := s.nextSer + 1
      writer := some
        { w with rows := w.rows ++ [row], dates := maintainFactDate zone w.dates row } }

def commit : Option State :=
  s.writer.map fun w =>
    { s with
      log := s.log ++ w.rows, dates := w.dates, writer := none
      started := Function.update s.started w.tx none }

/-- The serials of the rows are not given again. -/
def rollback : Option State :=
  s.writer.map fun w =>
    { s with writer := none, started := Function.update s.started w.tx none }

end Steps

def step (zone : Zone) (s : State) : Action → Option State
  | .elapse micros => some { s with now := s.now + micros }
  | .begin_ tx => begin_ s tx
  | .aquireExclusiveTXLock tx => aquireExclusiveTXLock s tx
  | .insert => insert zone s
  | .commit => commit s
  | .rollback => rollback s

structure Start (s : State) : Prop where
  nextSer : 0 < s.nextSer
  log : s.log = []
  dates : s.dates = []
  started : ∀ tx, s.started tx = none
  writer : s.writer = none

def publishing (zone : Zone) : Machine State Action where
  Start := Start
  step := step zone

/-- The rows of the log and, behind them, those of the writer. -/
def State.rows (s : State) : List Row := s.log ++ (s.writer.elim [] Writer.rows)

/-- A transaction's facts come after every date that is recorded already, and it did
not begin in the half millisecond that is recorded as the next day. -/
def keeps (zone : Zone) (s : State) : Action → Bool
  | .insert =>
    match s.writer.bind fun w => s.started w.tx with
    | some started =>
      let row : Row := ⟨s.nextSer, started⟩
      decide (row.date zone = row.factDate zone) &&
        s.rows.all fun r => decide (r.date zone ≤ row.factDate zone)
    | none => true
  | _ => true

/-! ### The table of dates -/

section Table
variable {zone : Zone} {rows : List Row} {row : Row} {dates : List DateEntry}

/-- The table holds what the rows, in this order, make of an empty one. -/
def tableOf (zone : Zone) (rows : List Row) : List DateEntry :=
  rows.foldl (maintainFactDate zone) []

theorem tableOf_concat : tableOf zone (rows ++ [row]) = maintainFactDate zone (tableOf zone rows) row := by
  simp [tableOf, List.foldl_append]

/-- Every entry is that of a row, which has its date and its last serial. -/
theorem exists_row_of_mem {e : DateEntry} (he : e ∈ tableOf zone rows) :
    ∃ row ∈ rows, row.factDate zone = e.factDate ∧ row.ser = e.lastSer := by
  induction rows using List.reverseRecOn generalizing e with
  | nil => cases he
  | append_singleton rows row ih =>
    have hold : ∀ e' ∈ tableOf zone rows, ∃ r ∈ rows ++ [row],
        r.factDate zone = e'.factDate ∧ r.ser = e'.lastSer := by
      intro e' he'
      obtain ⟨r, hr, heq⟩ := ih he'
      exact ⟨r, List.mem_append_left _ hr, heq⟩
    rw [tableOf_concat] at he
    unfold maintainFactDate at he
    split at he
    · obtain ⟨e', he', rfl⟩ := List.mem_map.mp he
      split
      · rename_i hdate
        exact ⟨row, by simp, hdate.symm, rfl⟩
      · exact hold e' he'
    · rcases List.mem_append.mp he with he | he
      · exact hold e he
      · obtain rfl := List.mem_singleton.mp he
        exact ⟨row, by simp, rfl, rfl⟩

/-- Every row's date has an entry, whose last serial is not below the row's. -/
theorem exists_entry_of_mem (hasc : Log.Ascending Row.ser rows) (hrow : row ∈ rows) :
    ∃ e ∈ tableOf zone rows, e.factDate = row.factDate zone ∧ row.ser ≤ e.lastSer := by
  induction rows using List.reverseRecOn generalizing row with
  | nil => cases hrow
  | append_singleton rows new ih =>
    rw [tableOf_concat]
    unfold maintainFactDate
    rcases List.mem_append.mp hrow with hrow | hrow
    · obtain ⟨e, he, hdate, hser⟩ := ih hasc.of_append_left hrow
      have hlt : row.ser < new.ser := hasc.lt_of_append hrow (List.mem_singleton_self new)
      split
      · refine ⟨_, List.mem_map_of_mem he, ?_⟩
        split
        · exact ⟨hdate, Nat.le_of_lt hlt⟩
        · exact ⟨hdate, hser⟩
      · exact ⟨e, List.mem_append_left _ he, hdate, hser⟩
    · obtain rfl := List.mem_singleton.mp hrow
      split
      · rename_i hmem
        obtain ⟨e, he, hdate⟩ := List.mem_map.mp (List.contains_iff_mem.mp hmem)
        refine ⟨_, List.mem_map_of_mem he, ?_⟩
        rw [if_pos hdate]
        exact ⟨hdate, Nat.le_refl _⟩
      · exact ⟨_, List.mem_append_right _ (List.mem_singleton_self _), rfl, Nat.le_refl _⟩

/-- The time recorded is not before the day the transaction began on. -/
theorem Row.factDate_le_date : row.factDate zone ≤ row.date zone := by
  have hms : row.started / 1000 * 1000 ≤ row.recorded * 1000 := by
    have : row.started / 1000 ≤ (row.started + 500) / 1000 := Nat.div_le_div_right (by omega)
    unfold Row.recorded timestamp
    omega
  calc
    row.factDate zone = zone.dateOf (row.started / 1000 * 1000) := (zone.whole row.started).symm
    _ ≤ row.date zone := zone.monotone hms

end Table

/-! ### What holds in every run -/

structure Inv (zone : Zone) (s : State) : Prop where
  ascending : Log.Ascending Row.ser s.rows
  below : ∀ row ∈ s.rows, 0 < row.ser ∧ row.ser < s.nextSer
  positive : 0 < s.nextSer
  dates : s.dates = tableOf zone s.log
  writer : ∀ w, s.writer = some w → w.dates = tableOf zone s.rows

section Steps
variable {zone : Zone} {s s' : State}

theorem rows_of_writer {w : Writer} (hw : s.writer = some w) : s.rows = s.log ++ w.rows := by
  simp [State.rows, hw]

theorem Inv.log (h : Inv zone s) : Log.Ascending Row.ser s.log := h.ascending.of_append_left

/-- The writer leaves without its rows. -/
theorem Inv.leave (h : Inv zone s) (started : Nat → Option Nat) :
    Inv zone { s with writer := none, started } where
  ascending := by
    show Log.Ascending Row.ser (s.log ++ [])
    rw [List.append_nil]
    exact h.log
  below := by
    intro row hrow
    have hrow : row ∈ s.log ++ [] := hrow
    rw [List.append_nil] at hrow
    exact h.below row (List.mem_append_left _ hrow)
  positive := h.positive
  dates := h.dates
  writer := by
    intro w hw
    cases hw

theorem inv_aquire {tx : Nat} (h : Inv zone s) (hs : aquireExclusiveTXLock s tx = some s') :
    Inv zone s' := by
  unfold aquireExclusiveTXLock at hs
  split at hs
  · rename_i hnone
    cases hs
    have hidle := h.leave s.started
    refine
      { ascending := hidle.ascending, below := hidle.below, positive := h.positive
        dates := h.dates, writer := fun w hw => ?_ }
    cases hw
    show s.dates = tableOf zone (s.log ++ [])
    rw [List.append_nil]
    exact h.dates
  · cases hs

theorem inv_insert (h : Inv zone s) (hs : insert zone s = some s') : Inv zone s' := by
  obtain ⟨w, hw, hs⟩ := Option.bind_eq_some_iff.mp hs
  obtain ⟨started, hstarted, rfl⟩ := Option.map_eq_some_iff.mp hs
  have hrows := rows_of_writer hw
  have hnew : s.log ++ (w.rows ++ [⟨s.nextSer, started⟩]) = s.rows ++ [⟨s.nextSer, started⟩] := by
    rw [hrows, List.append_assoc]
  refine
    { ascending := ?_, below := fun row hrow => ?_, positive := Nat.succ_pos _, dates := h.dates
      writer := fun w' hw' => ?_ }
  · show Log.Ascending Row.ser (s.log ++ (w.rows ++ [_]))
    rw [hnew]
    apply h.ascending.append (List.pairwise_singleton ..)
    intro x hx y hy
    rw [List.mem_singleton.mp hy]
    exact (h.below x hx).2
  · have hrow : row ∈ s.log ++ (w.rows ++ [_]) := hrow
    rw [hnew] at hrow
    show 0 < row.ser ∧ row.ser < s.nextSer + 1
    rcases List.mem_append.mp hrow with hrow | hrow
    · have := h.below row hrow
      omega
    · rw [List.mem_singleton.mp hrow]
      exact ⟨h.positive, Nat.lt_succ_self _⟩
  · cases hw'
    show maintainFactDate zone w.dates _ = tableOf zone (s.log ++ (w.rows ++ [_]))
    rw [hnew, tableOf_concat, h.writer w hw]

theorem inv_commit (h : Inv zone s) (hs : commit s = some s') : Inv zone s' := by
  obtain ⟨w, hw, rfl⟩ := Option.map_eq_some_iff.mp hs
  have hrows := rows_of_writer hw
  have hnew : s.log ++ w.rows ++ [] = s.rows := by rw [List.append_nil, hrows]
  refine
    { ascending := ?_, below := fun row hrow => ?_, positive := h.positive, dates := ?_
      writer := fun w' hw' => by cases hw' }
  · show Log.Ascending Row.ser (s.log ++ w.rows ++ [])
    rw [hnew]
    exact h.ascending
  · have hrow : row ∈ s.log ++ w.rows ++ [] := hrow
    rw [hnew] at hrow
    exact h.below row hrow
  · show w.dates = tableOf zone (s.log ++ w.rows)
    rw [h.writer w hw, hrows]

theorem inv_step {a : Action} (h : Inv zone s) (hs : step zone s a = some s') : Inv zone s' := by
  cases a with
  | elapse micros =>
    cases hs
    exact ⟨h.ascending, h.below, h.positive, h.dates, h.writer⟩
  | begin_ tx =>
    simp only [step, begin_] at hs
    split at hs
    · cases hs
      exact ⟨h.ascending, h.below, h.positive, h.dates, h.writer⟩
    · cases hs
  | aquireExclusiveTXLock tx => exact inv_aquire h hs
  | insert => exact inv_insert h hs
  | commit => exact inv_commit h hs
  | rollback =>
    obtain ⟨w, _, rfl⟩ := Option.map_eq_some_iff.mp hs
    exact h.leave _

theorem inv_start (h : Start s) : Inv zone s := by
  have hrows : s.rows = [] := by simp [State.rows, h.log, h.writer]
  refine ⟨?_, by simp [hrows], h.nextSer, ?_, fun w hw => ?_⟩
  · rw [hrows]
    exact List.Pairwise.nil
  · rw [h.log, h.dates]
    rfl
  · cases h.writer.symm.trans hw

end Steps

theorem inv {zone : Zone} {s : State} (h : (publishing zone).Reachable s) : Inv zone s :=
  h.invariant (fun _ => inv_start) fun s a _ hi _ hs =>
    inv_step (s := s) (a := a) hi hs

/-! ### The cut -/

/-- The serial before the date parts the facts recorded before it from the others. -/
def CleanCut (zone : Zone) (s : State) (date : Nat) : Prop :=
  (∀ row ∈ s.log, row.date zone < date → row.ser ≤ lastSerialBefore s date) ∧
    ∀ row ∈ s.log, date ≤ row.date zone → lastSerialBefore s date < row.ser

/-- What began before the date comes before what is recorded on it or later. -/
def InOrder (zone : Zone) (s : State) (date : Nat) : Prop :=
  ∀ row ∈ s.log, date ≤ row.date zone →
    ∀ other ∈ s.log, other.factDate zone < date → other.ser < row.ser

section Cut
variable {zone : Zone} {s s' : State} {date : Nat}

/-- A fact that began before the date is not above the serial. -/
theorem Inv.le_lastSerialBefore (h : Inv zone s) {row : Row} (hrow : row ∈ s.log)
    (hdate : row.factDate zone < date) : row.ser ≤ lastSerialBefore s date := by
  have hentry : ∃ e ∈ tableOf zone s.log, e.factDate = row.factDate zone ∧ row.ser ≤ e.lastSer :=
    exists_entry_of_mem h.log hrow
  obtain ⟨e, he, hed, hser⟩ := hentry
  apply Nat.le_trans hser
  apply Log.le_last
  rw [h.dates]
  exact List.mem_filter.mpr ⟨he, by simpa [hed] using hdate⟩

/-- The serial is below a fact if all that began before the date are. -/
theorem Inv.lastSerialBefore_lt (h : Inv zone s) {row : Row} (hrow : row ∈ s.log)
    (hbelow : ∀ other ∈ s.log, other.factDate zone < date → other.ser < row.ser) :
    lastSerialBefore s date < row.ser := by
  have hpos := (h.below row (List.mem_append_left _ hrow)).1
  have hle : lastSerialBefore s date ≤ row.ser - 1 := by
    apply Log.last_le
    intro e he
    obtain ⟨he, hdate⟩ := List.mem_filter.mp he
    rw [h.dates] at he
    obtain ⟨other, hother, hod, hser⟩ := exists_row_of_mem he
    have hlt := hbelow other hother (by simpa [hod] using hdate)
    omega
  omega

theorem Inv.cleanCut_iff (h : Inv zone s) : CleanCut zone s date ↔ InOrder zone s date := by
  constructor
  · intro hcut row hrow hdate other hother hod
    exact Nat.lt_of_le_of_lt (h.le_lastSerialBefore hother hod) (hcut.2 row hrow hdate)
  · intro horder
    refine ⟨fun row hrow hdate => ?_, fun row hrow hdate => ?_⟩
    · exact h.le_lastSerialBefore hrow (Nat.lt_of_le_of_lt Row.factDate_le_date hdate)
    · exact h.lastSerialBefore_lt hrow (horder row hrow hdate)

/-- Dates and serials run in the same direction. -/
structure Chronological (zone : Zone) (rows : List Row) : Prop where
  pairwise : rows.Pairwise fun a b => a.date zone ≤ b.factDate zone
  recorded : ∀ row ∈ rows, row.date zone = row.factDate zone

theorem Chronological.of_append_left {rows more : List Row}
    (h : Chronological zone (rows ++ more)) : Chronological zone rows :=
  ⟨(List.pairwise_append.mp h.pairwise).1, fun row hrow => h.recorded row (List.mem_append_left _ hrow)⟩

theorem chronological_step {a : Action} (hc : Chronological zone s.rows)
    (hk : keeps zone s a = true) (hs : step zone s a = some s') : Chronological zone s'.rows := by
  cases a with
  | elapse micros =>
    cases hs
    exact hc
  | begin_ tx =>
    simp only [step, begin_] at hs
    split at hs
    · cases hs
      exact hc
    · cases hs
  | aquireExclusiveTXLock tx =>
    simp only [step, aquireExclusiveTXLock] at hs
    split at hs
    · cases hs
      show Chronological zone (s.log ++ [])
      rw [List.append_nil]
      exact hc.of_append_left
    · cases hs
  | insert =>
    obtain ⟨w, hw, hs⟩ := Option.bind_eq_some_iff.mp hs
    obtain ⟨started, hstarted, rfl⟩ := Option.map_eq_some_iff.mp hs
    have hrows := rows_of_writer hw
    show Chronological zone (s.log ++ (w.rows ++ [⟨s.nextSer, started⟩]))
    rw [← List.append_assoc, ← hrows]
    simp only [keeps, hw, Option.bind_some, hstarted, Bool.and_eq_true, decide_eq_true_eq,
      List.all_eq_true] at hk
    refine ⟨List.pairwise_append.mpr ⟨hc.pairwise, List.pairwise_singleton .., ?_⟩, ?_⟩
    · intro x hx y hy
      rw [List.mem_singleton.mp hy]
      exact hk.2 x hx
    · intro row hrow
      rcases List.mem_append.mp hrow with hrow | hrow
      · exact hc.recorded row hrow
      · rw [List.mem_singleton.mp hrow]
        exact hk.1
  | commit =>
    obtain ⟨w, hw, rfl⟩ := Option.map_eq_some_iff.mp hs
    show Chronological zone (s.log ++ w.rows ++ [])
    rw [List.append_nil, ← rows_of_writer hw]
    exact hc
  | rollback =>
    obtain ⟨w, hw, rfl⟩ := Option.map_eq_some_iff.mp hs
    show Chronological zone (s.log ++ [])
    rw [List.append_nil]
    exact hc.of_append_left

theorem chronological
    (h : (publishing zone).ReachableUnder (fun s a => keeps zone s a = true) s) :
    Chronological zone s.rows := by
  apply h.invariant
  · intro s hs
    have hrows : s.rows = [] := by simp [State.rows, hs.log, hs.writer]
    rw [hrows]
    exact ⟨List.Pairwise.nil, by simp⟩
  · exact fun s a s' hc hk hs => chronological_step hc hk hs

/-- One of the two comes first, with both the lower serial and the earlier date. -/
def Apart (zone : Zone) (a b : Row) : Prop :=
  (a.ser < b.ser ∧ a.date zone ≤ b.factDate zone) ∨
    (b.ser < a.ser ∧ b.date zone ≤ a.factDate zone)

instance : Std.Symm (Apart zone) := ⟨fun _ _ h => Or.symm h⟩

theorem Chronological.inOrder (hc : Chronological zone s.rows) (hinv : Inv zone s) :
    InOrder zone s date := by
  intro row hrow hdate other hother hod
  have hlog : Chronological zone s.log := hc.of_append_left
  have hne : row ≠ other := by
    rintro rfl
    have := hlog.recorded row hrow
    omega
  have hapart : s.log.Pairwise (Apart zone) := (hinv.log.and hlog.pairwise).imp .inl
  rcases hapart.forall hrow hother hne with ⟨_, hle⟩ | ⟨hlt, _⟩
  · omega
  · exact hlt

end Cut

/-- In every run the serial before a date is a clean cut if and only if whatever
began before the date has a lower serial than what is recorded on it or later; and
it is one for every date in every run in which no transaction inserts after a fact
of a later date than its own, or in the half millisecond before midnight. -/
theorem clean_cut_iff (zone : Zone) :
    (∀ s, (publishing zone).Reachable s → ∀ date, CleanCut zone s date ↔ InOrder zone s date) ∧
    ∀ s, (publishing zone).ReachableUnder (fun s a => keeps zone s a = true) s →
      ∀ date, CleanCut zone s date := by
  refine ⟨fun s h date => (inv h).cleanCut_iff, fun s h date => ?_⟩
  have hinv := inv h.reachable
  exact hinv.cleanCut_iff.mpr ((chronological h).inOrder hinv)

/-! ### Midnight -/

def day : Nat := 24 * 60 * 60 * 1000000

def utc : Zone where
  dateOf t := t / day
  monotone := fun _ _ h => Nat.div_le_div_right h
  whole := by
    intro t
    unfold day
    omega

/-- A minute before midnight. -/
def evening : State :=
  { now := day - 60000000, nextSer := 1, log := [], dates := [], started := fun _ => none
    writer := none }

theorem evening_start : (publishing utc).Start evening :=
  ⟨by decide, rfl, rfl, fun _ => rfl, rfl⟩

def publish (tx : Nat) : List Action := [.aquireExclusiveTXLock tx, .insert, .commit]

/-- One transaction in the evening, and one in the morning. -/
def eveningAndMorning : List Action :=
  [.begin_ 1] ++ publish 1 ++ [.elapse 120000000, .begin_ 2] ++ publish 2

theorem clean_cut_iff_eveningAndMorning : ∃ s, CleanCut utc s 1 ∧ lastSerialBefore s 1 = 1 ∧
    s.log.map Row.ser = [1, 2] := by
  obtain ⟨s, hs, hstate⟩ := Machine.exists_reachableUnder evening_start eveningAndMorning
    (fun s => (lastSerialBefore s 1, s.log.map Row.ser)) (c := keeps utc) (b := (1, [1, 2]))
    (by decide +kernel)
  obtain ⟨hlast, hlog⟩ := Prod.mk.injEq .. ▸ hstate
  exact ⟨s, (clean_cut_iff utc).2 s hs 1, hlast, hlog⟩

/-- A transaction that began in the evening gets the lock after one of the morning. -/
def straddling : List Action :=
  [.begin_ 1, .elapse 120000000, .begin_ 2] ++ publish 2 ++ publish 1

theorem straddling_hidden :
    ¬ ∀ s, (publishing utc).Reachable s → ∀ date, CleanCut utc s date := by
  obtain ⟨s, hs, hstate⟩ := Machine.exists_reachable evening_start straddling
    (fun s => (lastSerialBefore s 1, s.log.any fun row => row.date utc == 1 && row.ser == 1))
    (b := (2, true)) (by decide +kernel)
  obtain ⟨hlast, hlog⟩ := Prod.mk.injEq .. ▸ hstate
  obtain ⟨row, hrow, hbits⟩ := List.any_eq_true.mp hlog
  simp only [Bool.and_eq_true, beq_iff_eq] at hbits
  intro hall
  have hlt := (hall s hs 1).2 row hrow (by omega)
  omega

end FactCast.DateSerial
