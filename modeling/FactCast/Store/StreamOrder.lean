import FactCast.Store.Stream

/-! The order of a stream.

As long as a stream is connected, what it has handed over are the matching facts
from where it started up to its serial, when it is between two queries
(`Caught`), and all that the query saw but the rows still to come, when it is in
one (`Covered`). Each step keeps this (`inv_step`): a query begins where the last
one ended, a row moves the serial to itself, and the shift to the latest serial
passes nothing, since that serial was read before the query saw the log.

Once the stream is closed rows are passed over, and what was handed over remains
ascending and without repetition. -/
namespace FactCast.PgFactStream

/-- The row satisfies the statement's condition, its serial apart. -/
def matching (db : Database) (request : SubscriptionRequest) (row : FactRow) : Bool :=
  request.specs.any fun spec =>
    (PgQueryBuilder.criteria spec).all fun c => c.holds db.path row.fact.header.json

theorem select_eq {db : Database} {request : SubscriptionRequest} {serial : Nat}
    {log rows : List FactRow} (h : select db request serial log = some rows) :
    rows = Log.after FactRow.ser (matching db request) serial log := by
  obtain ⟨selects, hsel, rfl⟩ := Option.map_eq_some_iff.mp h
  rw [PgQueryBuilder.selected_eq] at hsel
  split at hsel
  · cases hsel
    simp [Log.after, matching]
  · cases hsel

/-- Between two queries: everything up to the serial was handed over. -/
structure Caught (db : Database) (request : SubscriptionRequest) (facts log : List FactRow)
    (started serial : Nat) : Prop where
  handed : facts = Log.between FactRow.ser (matching db request) started serial log
  moved : started ≤ serial
  below : serial ≤ Log.last FactRow.ser log

/-- During a query: what was handed over and what is left are all it saw. -/
structure Covered (db : Database) (request : SubscriptionRequest) (facts todo snapshot : List FactRow)
    (started serial : Nat) : Prop where
  handed : facts ++ todo = Log.after FactRow.ser (matching db request) started snapshot
  moved : started ≤ serial
  below : serial ≤ Log.last FactRow.ser snapshot
  passed : ∀ row ∈ facts, row.ser ≤ serial
  left : ∀ row ∈ todo, serial < row.ser

/-- As long as the stream is connected, everything up to the serial was handed over. -/
def Settled (db : Database) (request : SubscriptionRequest) (s : State) : Prop :=
  s.disconnected = false → Caught db request s.facts s.log s.started s.serial

/-- What holds before the stream's next step. As long as the stream is connected
nothing is missing; a catchup query may hand over rows a little longer. -/
def Ready (db : Database) (request : SubscriptionRequest) (s : State) : Prop :=
  match s.phase with
  | .connecting => s.facts = [] ∧ s.finished = []
  | .jumping => s.facts = [] ∧ s.finished = [] ∧ request.ephemeral = true
  | .fetching _ todo =>
      (s.disconnected = false → Covered db request s.facts todo s.snapshot s.started s.serial) ∧
        Log.Ascending FactRow.ser (s.facts ++ todo) ∧
        ∀ row ∈ todo, row ∈ s.log ∧ matching db request row = true ∧ s.started < row.ser
  | .running latest todo => s.disconnected = false →
      Covered db request s.facts todo s.snapshot s.started s.serial ∧
        latest ≤ Log.last FactRow.ser s.snapshot
  | .latest latest => s.disconnected = false →
      Caught db request s.facts s.log s.started s.serial ∧ latest ≤ Log.last FactRow.ser s.log
  | .ended => True
  | _ => Settled db request s

structure Inv (db : Database) (request : SubscriptionRequest) (s : State) : Prop where
  ascending : Log.Ascending FactRow.ser s.log
  positive : ∀ row ∈ s.log, 0 < row.ser
  snapshot : s.snapshot <+: s.log
  handed : Log.Ascending FactRow.ser s.facts
  matched : ∀ row ∈ s.facts, row ∈ s.log ∧ matching db request row = true ∧ s.started < row.ser
  complete : ∀ row ∈ s.finished, matching db request row = true → s.started < row.ser → row ∈ s.facts
  opened : request.ephemeral = true ∨ s.started = retrieve s.opened request.startingAfter
  ready : Ready db request s

section Steps
variable {db : Database} {request : SubscriptionRequest} {s s' : State}

@[simp] theorem facts_send (s : State) (signal : Signal) :
    (s.send signal).facts = s.facts ++ signal.fact?.toList := by
  cases signal <;> simp [State.facts, State.send, Signal.fact?]

/-- What is appended to a log lies above its last serial. -/
theorem last_lt {log rows : List FactRow} (hasc : Log.Ascending FactRow.ser (log ++ rows))
    (hpos : ∀ row ∈ rows, 0 < row.ser) {row : FactRow} (h : row ∈ rows) :
    Log.last FactRow.ser log < row.ser := by
  have hle : Log.last FactRow.ser log ≤ row.ser - 1 := by
    refine Log.last_le fun x hx => ?_
    have := hasc.lt_of_append hx h
    omega
  have := hpos row h
  omega

theorem last_mono {log rows : List FactRow} :
    Log.last FactRow.ser log ≤ Log.last FactRow.ser (log ++ rows) :=
  Log.last_le fun _ hx => Log.le_last (List.mem_append_left _ hx)

theorem Caught.publish {facts log rows : List FactRow} {started serial : Nat}
    (h : Caught db request facts log started serial)
    (hasc : Log.Ascending FactRow.ser (log ++ rows)) (hpos : ∀ row ∈ rows, 0 < row.ser) :
    Caught db request facts (log ++ rows) started serial where
  handed := by
    have habove : ∀ x ∈ rows, serial < x.ser := fun x hx =>
      Nat.lt_of_le_of_lt h.below (last_lt hasc hpos hx)
    exact h.handed.trans (Log.between_append_above habove).symm
  moved := h.moved
  below := Nat.le_trans h.below last_mono

/-- A query starts. -/
theorem Caught.query {facts log : List FactRow} {started serial : Nat}
    (h : Caught db request facts log started serial) (hasc : Log.Ascending FactRow.ser log) :
    Covered db request facts (Log.after FactRow.ser (matching db request) serial log) log
      started serial where
  handed := by
    rw [h.handed]
    exact Log.between_append_after hasc h.moved
  moved := h.moved
  below := h.below
  passed := by
    intro row hrow
    rw [h.handed] at hrow
    exact (Log.mem_between.mp hrow).2.2.2
  left := fun row hrow => (Log.mem_after.mp hrow).2.2

theorem Covered.mem {facts todo snapshot : List FactRow} {started serial : Nat}
    (h : Covered db request facts todo snapshot started serial) {row : FactRow} (hrow : row ∈ todo) :
    row ∈ snapshot ∧ matching db request row = true ∧ started < row.ser := by
  have hmem : row ∈ Log.after FactRow.ser (matching db request) started snapshot := by
    rw [← h.handed]
    exact List.mem_append_right _ hrow
  exact Log.mem_after.mp hmem

theorem Covered.ascending {facts todo snapshot : List FactRow} {started serial : Nat}
    (h : Covered db request facts todo snapshot started serial)
    (hasc : Log.Ascending FactRow.ser snapshot) : Log.Ascending FactRow.ser (facts ++ todo) := by
  rw [h.handed]
  exact hasc.after

/-- A row is handed over. -/
theorem Covered.row {facts todo snapshot : List FactRow} {started serial : Nat} {r : FactRow}
    (h : Covered db request facts (r :: todo) snapshot started serial)
    (hasc : Log.Ascending FactRow.ser snapshot) :
    Covered db request (facts ++ [r]) todo snapshot started r.ser := by
  have hr := h.mem (List.mem_cons_self ..)
  have hall := h.ascending hasc
  refine ⟨?_, Nat.le_of_lt hr.2.2, Log.le_last hr.1, fun row hrow => ?_, fun row hrow => ?_⟩
  · rw [List.append_assoc, ← h.handed]
    rfl
  · rcases List.mem_append.mp hrow with hrow | hrow
    · exact Nat.le_of_lt (hall.lt_of_append hrow (List.mem_cons_self ..))
    · rw [List.mem_singleton.mp hrow]
  · exact (List.pairwise_cons.mp (List.pairwise_append.mp hall).2.1).1 row hrow

/-- A query ends, with nothing left up to the serial that is set. -/
theorem Covered.caught {facts todo snapshot log : List FactRow} {started serial n : Nat}
    (h : Covered db request facts todo snapshot started serial) (hsnap : snapshot <+: log)
    (hasc : Log.Ascending FactRow.ser log) (hpos : ∀ row ∈ log, 0 < row.ser) (hserial : serial ≤ n)
    (hn : n ≤ Log.last FactRow.ser snapshot) (hleft : ∀ row ∈ todo, n < row.ser) :
    Caught db request facts log started n := by
  obtain ⟨rest, rfl⟩ := hsnap
  have habove : ∀ row ∈ rest, n < row.ser := fun row hrow =>
    Nat.lt_of_le_of_lt hn (last_lt hasc (fun x hx => hpos x (List.mem_append_right _ hx)) hrow)
  refine ⟨?_, Nat.le_trans h.moved hserial, Nat.le_trans hn last_mono⟩
  rw [Log.between_append_above habove, Log.between_eq_filter, ← h.handed, List.filter_append]
  have hfacts : facts.filter (fun row => decide (row.ser ≤ n)) = facts := by
    refine List.filter_eq_self.mpr fun row hrow => ?_
    exact decide_eq_true (Nat.le_trans (h.passed row hrow) hserial)
  have htodo : todo.filter (fun row => decide (row.ser ≤ n)) = [] := by
    refine List.filter_eq_nil_iff.mpr fun row hrow => ?_
    have := hleft row hrow
    simp only [decide_eq_true_eq]
    omega
  rw [hfacts, htodo, List.append_nil]

theorem Inv.publish {rows : List FactRow} (h : Inv db request s)
    (hasc : Log.Ascending FactRow.ser (s.log ++ rows)) (hpos : ∀ row ∈ rows, 0 < row.ser) :
    Inv db request { s with log := s.log ++ rows } := by
  refine
    { ascending := hasc, positive := ?_, snapshot := ?_, handed := h.handed, matched := ?_
      complete := h.complete, opened := h.opened, ready := ?_ }
  · intro row hrow
    rcases List.mem_append.mp hrow with hrow | hrow
    · exact h.positive row hrow
    · exact hpos row hrow
  · exact h.snapshot.trans (List.prefix_append ..)
  · intro row hrow
    exact ⟨List.mem_append_left _ (h.matched row hrow).1, (h.matched row hrow).2⟩
  · have hready := h.ready
    unfold Ready at hready ⊢
    cases hphase : s.phase with
    | connecting =>
      rw [hphase] at hready
      exact hready
    | jumping =>
      rw [hphase] at hready
      exact hready
    | fetching second todo =>
      rw [hphase] at hready
      refine ⟨hready.1, hready.2.1, fun row hrow => ?_⟩
      exact ⟨List.mem_append_left _ (hready.2.2 row hrow).1, (hready.2.2 row hrow).2⟩
    | running latest todo =>
      rw [hphase] at hready
      exact hready
    | latest n =>
      rw [hphase] at hready
      exact fun hc => ⟨(hready hc).1.publish hasc hpos, Nat.le_trans (hready hc).2 last_mono⟩
    | ended => trivial
    | _ =>
      rw [hphase] at hready
      exact fun hc => (hready hc).publish hasc hpos

theorem Inv.close (h : Inv db request s) : Inv db request { s with disconnected := true } := by
  refine { h with ready := ?_ }
  have hready := h.ready
  unfold Ready at hready ⊢
  cases hphase : s.phase with
  | connecting =>
    rw [hphase] at hready
    exact hready
  | jumping =>
    rw [hphase] at hready
    exact hready
  | fetching second todo =>
    rw [hphase] at hready
    refine ⟨fun hc => ?_, hready.2⟩
    cases hc
  | ended => trivial
  | _ => exact fun hc => by cases hc

theorem retrieve_le {log : List FactRow} {id : Option UUID} :
    retrieve log id ≤ Log.last FactRow.ser log := by
  cases id with
  | none => exact Nat.zero_le _
  | some id =>
    show ((log.find? fun row => row.fact.id == id).map FactRow.ser).getD 0 ≤ _
    cases hfind : log.find? (fun row => row.fact.id == id) with
    | none => exact Nat.zero_le _
    | some row =>
      show row.ser ≤ _
      exact Log.le_last (List.mem_of_find?_eq_some hfind)

theorem caught_start {log : List FactRow} {n : Nat} (h : n ≤ Log.last FactRow.ser log) :
    Caught db request [] log n n :=
  ⟨Log.between_self.symm, Nat.le_refl n, h⟩

theorem Inv.connect (h : Inv db request s) (hphase : s.phase = .connecting) :
    Inv db request { s with
      serial := retrieve s.log request.startingAfter
      started := retrieve s.log request.startingAfter
      opened := s.log
      phase := if request.ephemeral then .jumping else .catchup false } := by
  have hready := h.ready
  unfold Ready at hready
  rw [hphase] at hready
  obtain ⟨hfacts, hfinished⟩ := hready
  have hnil : ∀ row ∈ s.facts, False := by simp [hfacts]
  refine
    { ascending := h.ascending, positive := h.positive, snapshot := h.snapshot, handed := h.handed
      matched := fun row hrow => (hnil row hrow).elim, complete := ?_
      opened := .inr rfl, ready := ?_ }
  · intro row hrow
    rw [show s.finished = [] from hfinished] at hrow
    cases hrow
  · cases heph : request.ephemeral with
    | true => exact ⟨hfacts, hfinished, heph⟩
    | false =>
      intro _
      show Caught db request s.facts s.log _ _
      rw [hfacts]
      exact caught_start retrieve_le

theorem Inv.jump (h : Inv db request s) (hphase : s.phase = .jumping) :
    Inv db request { s with
      serial := Log.last FactRow.ser s.log
      started := Log.last FactRow.ser s.log
      snapshot := s.log
      phase := .fastForward } := by
  have hready := h.ready
  unfold Ready at hready
  rw [hphase] at hready
  obtain ⟨hfacts, hfinished, heph⟩ := hready
  have hnil : ∀ row ∈ s.facts, False := by simp [hfacts]
  refine
    { ascending := h.ascending, positive := h.positive, snapshot := List.prefix_rfl
      handed := h.handed, matched := fun row hrow => (hnil row hrow).elim, complete := ?_
      opened := .inl heph, ready := ?_ }
  · intro row hrow
    rw [show s.finished = [] from hfinished] at hrow
    cases hrow
  · intro _
    show Caught db request s.facts s.log _ _
    rw [hfacts]
    exact caught_start (Nat.le_refl _)

theorem ready_afterCatchup {second : Bool} (hphase : s.phase = afterCatchup second)
    (hcaught : Settled db request s) : Ready db request s := by
  unfold Ready
  rw [hphase]
  cases second with
  | true => exact hcaught
  | false => exact hcaught

theorem Inv.catchup {second : Bool} {rows : List FactRow} (h : Inv db request s) (hphase : s.phase = .catchup second)
    (hc : s.disconnected = false) (hrows : select db request s.serial s.log = some rows) :
    Inv db request { s with snapshot := s.log, phase := .fetching second rows } := by
  have hready := h.ready
  unfold Ready at hready
  rw [hphase] at hready
  have hcov := (hready hc).query h.ascending
  rw [← select_eq hrows] at hcov
  refine { h with snapshot := List.prefix_rfl, ready := ?_ }
  exact ⟨fun _ => hcov, hcov.ascending h.ascending, fun row hrow => hcov.mem hrow⟩

theorem Inv.covered {latest : Nat} {todo : List FactRow} (h : Inv db request s)
    (hphase : s.phase = .running latest todo) (hc : s.disconnected = false) :
    Covered db request s.facts todo s.snapshot s.started s.serial ∧
      latest ≤ Log.last FactRow.ser s.snapshot := by
  have hready := h.ready
  unfold Ready at hready
  rw [hphase] at hready
  exact hready hc

theorem Inv.fetching {second : Bool} {todo : List FactRow} (h : Inv db request s)
    (hphase : s.phase = .fetching second todo) :
    (s.disconnected = false → Covered db request s.facts todo s.snapshot s.started s.serial) ∧
      Log.Ascending FactRow.ser (s.facts ++ todo) ∧
      ∀ row ∈ todo, row ∈ s.log ∧ matching db request row = true ∧ s.started < row.ser := by
  have hready := h.ready
  unfold Ready at hready
  rw [hphase] at hready
  exact hready

theorem Inv.snapshot_ascending (h : Inv db request s) : Log.Ascending FactRow.ser s.snapshot :=
  h.ascending.of_isPrefix h.snapshot

/-- The next row of the query at hand. -/
theorem Inv.next (h : Inv db request s) {r : FactRow} {todo : List FactRow}
    (hphase : (∃ second, s.phase = .fetching second (r :: todo)) ∨
      s.disconnected = false ∧ ∃ latest, s.phase = .running latest (r :: todo)) :
    Log.Ascending FactRow.ser (s.facts ++ [r]) ∧
      r ∈ s.log ∧ matching db request r = true ∧ s.started < r.ser := by
  have key : Log.Ascending FactRow.ser (s.facts ++ r :: todo) ∧
      r ∈ s.log ∧ matching db request r = true ∧ s.started < r.ser := by
    rcases hphase with ⟨second, hphase⟩ | ⟨hc, latest, hphase⟩
    · obtain ⟨_, hasc, hmem⟩ := h.fetching hphase
      exact ⟨hasc, hmem r (List.mem_cons_self ..)⟩
    · have hcov := (h.covered hphase hc).1
      have hr := hcov.mem (List.mem_cons_self ..)
      exact ⟨hcov.ascending h.snapshot_ascending, h.snapshot.subset hr.1, hr.2⟩
  refine ⟨?_, key.2⟩
  have hsplit : s.facts ++ r :: todo = (s.facts ++ [r]) ++ todo := by simp
  exact (hsplit ▸ key.1).of_append_left

/-- The steps of the stream that move neither its start nor what its queries saw. -/
structure Same (s s' : State) : Prop where
  log : s'.log = s.log
  snapshot : s'.snapshot = s.snapshot
  started : s'.started = s.started
  opened : s'.opened = s.opened
  finished : s'.finished = s.finished

/-- Nothing is handed over. -/
theorem Inv.quiet (h : Inv db request s) (hsame : Same s s') (hfacts : s'.facts = s.facts)
    (hready : Ready db request s') : Inv db request s' := by
  refine ⟨?_, ?_, ?_, ?_, ?_, ?_, ?_, hready⟩
  · rw [hsame.log]
    exact h.ascending
  · rw [hsame.log]
    exact h.positive
  · rw [hsame.snapshot, hsame.log]
    exact h.snapshot
  · rw [hfacts]
    exact h.handed
  · rw [hfacts, hsame.log, hsame.started]
    exact h.matched
  · rw [hfacts, hsame.finished, hsame.started]
    exact h.complete
  · rw [hsame.started, hsame.opened]
    exact h.opened

/-- A row is handed over, whatever comes of it. -/
theorem Inv.hand {r : FactRow} (h : Inv db request s) (hasc : Log.Ascending FactRow.ser (s.facts ++ [r]))
    (hr : r ∈ s.log ∧ matching db request r = true ∧ s.started < r.ser)
    (hsame : Same s s') (hfacts : s'.facts = s.facts ++ [r]) (hready : Ready db request s') :
    Inv db request s' where
  ascending := by
    rw [hsame.log]
    exact h.ascending
  positive := by
    rw [hsame.log]
    exact h.positive
  snapshot := by
    rw [hsame.snapshot, hsame.log]
    exact h.snapshot
  handed := by
    rw [hfacts]
    exact hasc
  matched := by
    intro row hrow
    rw [hfacts] at hrow
    rw [hsame.log, hsame.started]
    rcases List.mem_append.mp hrow with hrow | hrow
    · exact h.matched row hrow
    · rw [List.mem_singleton.mp hrow]
      exact hr
  complete := by
    intro row hrow hm hlt
    rw [hfacts]
    rw [hsame.finished] at hrow
    rw [hsame.started] at hlt
    exact List.mem_append_left _ (h.complete row hrow hm hlt)
  opened := by
    rw [hsame.started, hsame.opened]
    exact h.opened
  ready := hready

theorem facts_handed (s : State) (r : FactRow) : (s.send (.fact r)).facts = s.facts ++ [r] := by
  simp [Signal.fact?]

theorem Inv.fetchRow {second : Bool} {r : FactRow} {todo : List FactRow} (h : Inv db request s)
    (hphase : s.phase = .fetching second (r :: todo)) :
    Inv db request { s.send (.fact r) with serial := r.ser, phase := .fetching second todo } := by
  obtain ⟨hasc, hr⟩ := h.next (.inl ⟨second, hphase⟩)
  obtain ⟨hcov, hall, hmem⟩ := h.fetching hphase
  refine h.hand hasc hr ⟨rfl, rfl, rfl, rfl, rfl⟩ (facts_handed s r) ⟨fun hc => ?_, ?_, fun row hrow => ?_⟩
  · show Covered db request (s.send (.fact r)).facts todo s.snapshot s.started r.ser
    rw [facts_handed]
    exact (hcov hc).row h.snapshot_ascending
  · show Log.Ascending FactRow.ser ((s.send (.fact r)).facts ++ todo)
    rw [facts_handed, List.append_assoc]
    exact hall
  · exact hmem row (List.mem_cons_of_mem _ hrow)

theorem Inv.followRow {latest : Nat} {r : FactRow} {todo : List FactRow} (h : Inv db request s)
    (hphase : s.phase = .running latest (r :: todo)) (hc : s.disconnected = false) :
    Inv db request { s.send (.fact r) with serial := r.ser, phase := .running latest todo } := by
  obtain ⟨hasc, hr⟩ := h.next (.inr ⟨hc, latest, hphase⟩)
  obtain ⟨hcov, hlatest⟩ := h.covered hphase hc
  refine h.hand hasc hr ⟨rfl, rfl, rfl, rfl, rfl⟩ (facts_handed s r) fun _ => ⟨?_, hlatest⟩
  show Covered db request (s.send (.fact r)).facts todo s.snapshot s.started r.ser
  rw [facts_handed]
  exact hcov.row h.snapshot_ascending

/-- A row that fails was handed over, or not. -/
theorem Inv.failRow {handed : Bool} {r : FactRow} {signals : List Signal} (h : Inv db request s)
    (hasc : Log.Ascending FactRow.ser (s.facts ++ [r]))
    (hr : r ∈ s.log ∧ matching db request r = true ∧ s.started < r.ser)
    (hsignals : signals.filterMap Signal.fact? = []) (hsame : Same s s')
    (hsent : s'.sent = (if handed then s.send (.fact r) else s).sent ++ signals) (hready : Ready db request s') :
    Inv db request s' := by
  cases handed with
  | true =>
    refine h.hand hasc hr hsame ?_ hready
    simp [State.facts, hsent, State.send, Signal.fact?, hsignals]
  | false =>
    refine h.quiet hsame ?_ hready
    simp [State.facts, hsent, hsignals]

/-- What a query saw was handed over when it is through. -/
theorem Inv.through (h : Inv db request s)
    (hcov : s.disconnected = false → Covered db request s.facts [] s.snapshot s.started s.serial) :
    ∀ row ∈ s.through, matching db request row = true → s.started < row.ser → row ∈ s.facts := by
  intro row hrow hm hlt
  unfold State.through at hrow
  split at hrow
  · exact h.complete row hrow hm hlt
  · rename_i hconnected
    have hhanded := (hcov (by simpa using hconnected)).handed
    rw [List.append_nil] at hhanded
    rw [hhanded]
    exact Log.mem_after.mpr ⟨hrow, hm, hlt⟩

theorem facts_flush (s : State) : (s.send .flush).facts = s.facts := by simp [Signal.fact?]

theorem Inv.finishCatchup {second : Bool} (h : Inv db request s) (hphase : s.phase = .fetching second []) :
    Inv db request { s.send .flush with finished := s.through, phase := afterCatchup second } := by
  have hcov := (h.fetching hphase).1
  have hready : Ready db request { s.send .flush with phase := afterCatchup second } := by
    refine ready_afterCatchup rfl fun hc => ?_
    show Caught db request (s.send .flush).facts s.log s.started s.serial
    rw [facts_flush]
    exact (hcov hc).caught h.snapshot h.ascending h.positive (Nat.le_refl _) (hcov hc).below (hcov hc).left
  have hquiet : Inv db request { s.send .flush with phase := afterCatchup second } :=
    h.quiet ⟨rfl, rfl, rfl, rfl, rfl⟩ (facts_flush s) hready
  refine { hquiet with complete := fun row hrow hm hlt => ?_, ready := ?_ }
  · exact (facts_flush s).symm ▸ h.through hcov row hrow hm hlt
  · cases second with
    | true => exact hready
    | false => exact hready

theorem Inv.finishRun {latest : Nat} (h : Inv db request s) (hphase : s.phase = .running latest []) :
    Inv db request
      { s.send .flush with finished := s.through, serial := max latest s.serial, phase := .idle } := by
  have hcov := h.covered hphase
  have hquiet : Inv db request { s.send .flush with serial := max latest s.serial, phase := .idle } := by
    refine h.quiet ⟨rfl, rfl, rfl, rfl, rfl⟩ (facts_flush s) fun hc => ?_
    show Caught db request (s.send .flush).facts s.log s.started (max latest s.serial)
    obtain ⟨hcov, hlatest⟩ := hcov hc
    rw [facts_flush]
    refine hcov.caught h.snapshot h.ascending h.positive (Nat.le_max_right ..) ?_ fun row hrow => ?_
    · exact Nat.max_le.mpr ⟨hlatest, hcov.below⟩
    · cases hrow
  refine { hquiet with complete := fun row hrow hm hlt => ?_ }
  exact (facts_flush s).symm ▸ h.through (fun hc => (hcov hc).1) row hrow hm hlt

theorem Settled.send {signal : Signal} (h : Settled db request s) (hsignal : signal.fact? = none) :
    Settled db request (s.send signal) := by
  intro hc
  show Caught db request (s.send signal).facts s.log s.started s.serial
  rw [facts_send, hsignal, Option.toList_none, List.append_nil]
  exact h hc

theorem Inv.settled {phase : Phase} (h : Inv db request s) (hphase : s.phase = phase)
    (hready : Ready db request { s with phase := phase } → Settled db request s) :
    Settled db request s := by
  subst hphase
  exact hready h.ready

/-- A signal that is no fact is sent. -/
theorem Inv.signal {signal : Signal} (h : Inv db request s) (hsame : Same s s') (hsignal : signal.fact? = none)
    (hsent : s'.sent = s.sent ++ [signal]) (hready : Ready db request s') : Inv db request s' :=
  h.quiet hsame (by simp [State.facts, hsent, hsignal]) hready

theorem inv_step {a : Action} (h : Inv db request s) (hs : step db request s a = some s') :
    Inv db request s' := by
  cases step_cases hs with
  | publish hasc hpos => exact h.publish hasc hpos
  | queryTarget => exact { h with ready := h.ready }
  | setTarget => exact { h with ready := h.ready }
  | close => exact h.close
  | connect hphase => exact h.connect hphase
  | jump hphase => exact h.jump hphase
  | @passCatchup second hphase hclosed =>
    have hsettled : Settled db request s := fun hc => nomatch hclosed.symm.trans hc
    have hnext : Ready db request { s with phase := afterCatchup second } := ready_afterCatchup rfl hsettled
    exact { h with ready := hnext }
  | catchup hphase hc hrows => exact h.catchup hphase hc hrows
  | fetchRow hphase => exact h.fetchRow hphase
  | followRow hphase hc => exact h.followRow hphase hc
  | skipFetched hclosed hphase =>
    obtain ⟨_, hall, hmem⟩ := h.fetching hphase
    refine { h with ready := ⟨fun hc => absurd (hclosed.symm.trans hc) nofun, ?_, fun row hrow => ?_⟩ }
    · exact List.Pairwise.sublist ((List.sublist_cons_self ..).append_left _) hall
    · exact hmem row (List.mem_cons_of_mem _ hrow)
  | skipFollowed hclosed hphase => exact { h with ready := fun hc => nomatch hclosed.symm.trans hc }
  | @failFetched _ second _ _ hphase =>
    obtain ⟨hasc, hr⟩ := h.next (.inl ⟨second, hphase⟩)
    exact h.failRow hasc hr rfl (by split <;> exact ⟨rfl, rfl, rfl, rfl, rfl⟩) (List.append_assoc ..) trivial
  | @failFollowed _ latest _ _ hphase hc =>
    obtain ⟨hasc, hr⟩ := h.next (.inr ⟨hc, latest, hphase⟩)
    exact h.failRow hasc hr rfl (by split <;> exact ⟨rfl, rfl, rfl, rfl, rfl⟩) rfl fun hcl => nomatch hcl
  | finishCatchup hphase => exact h.finishCatchup hphase
  | finishRun hphase => exact h.finishRun hphase
  | passFastForward hphase => exact h.quiet ⟨rfl, rfl, rfl, rfl, rfl⟩ rfl (h.settled hphase id)
  | fastForward hphase => exact h.quiet ⟨rfl, rfl, rfl, rfl, rfl⟩ rfl (h.settled hphase id)
  | noTarget hphase => exact h.quiet ⟨rfl, rfl, rfl, rfl, rfl⟩ rfl (h.settled hphase id)
  | passTarget hphase => exact h.quiet ⟨rfl, rfl, rfl, rfl, rfl⟩ rfl (h.settled hphase id)
  | readTarget hphase => exact h.signal ⟨rfl, rfl, rfl, rfl, rfl⟩ rfl rfl ((h.settled hphase id).send rfl)
  | passSignal hphase => exact h.quiet ⟨rfl, rfl, rfl, rfl, rfl⟩ rfl (h.settled hphase id)
  | signalCatchup hphase => exact h.signal ⟨rfl, rfl, rfl, rfl, rfl⟩ rfl rfl ((h.settled hphase id).send rfl)
  | passRegister hphase => exact h.quiet ⟨rfl, rfl, rfl, rfl, rfl⟩ rfl trivial
  | register hphase => exact h.quiet ⟨rfl, rfl, rfl, rfl, rfl⟩ rfl (h.settled hphase id)
  | complete hphase => exact h.signal ⟨rfl, rfl, rfl, rfl, rfl⟩ rfl rfl trivial
  | trigger hphase =>
    exact h.quiet ⟨rfl, rfl, rfl, rfl, rfl⟩ rfl fun hc => ⟨h.settled hphase id hc, Nat.le_refl _⟩
  | query hphase hrows =>
    have hready := h.ready
    unfold Ready at hready
    rw [hphase] at hready
    refine { h with snapshot := List.prefix_rfl, ready := fun hc => ?_ }
    obtain ⟨hcaught, hlatest⟩ := hready hc
    have hcov := hcaught.query h.ascending
    rw [← select_eq hrows] at hcov
    exact ⟨hcov, hlatest⟩
  | failLatest hphase =>
    have hready := h.ready
    unfold Ready at hready
    rw [hphase] at hready
    exact h.quiet ⟨rfl, rfl, rfl, rfl, rfl⟩ rfl fun hc => (hready hc).1
  | failRun hphase =>
    refine h.quiet ⟨rfl, rfl, rfl, rfl, rfl⟩ rfl fun hc => ?_
    have hcov := (h.covered hphase hc).1
    exact hcov.caught h.snapshot h.ascending h.positive (Nat.le_refl _) hcov.below hcov.left
  | failConnect => exact h.signal ⟨rfl, rfl, rfl, rfl, rfl⟩ rfl rfl trivial

theorem inv_start (h : Start s) : Inv db request s := by
  have hfacts : s.facts = [] := by simp [State.facts, h.sent]
  refine ⟨h.ascending, h.positive, ?_, ?_, ?_, ?_, .inr ?_, ?_⟩
  · rw [h.snapshot]
    exact List.nil_prefix
  · rw [hfacts]
    exact List.Pairwise.nil
  · simp [hfacts]
  · simp [h.finished]
  · rw [h.started, h.opened]
    cases request.startingAfter <;> rfl
  · unfold Ready
    rw [h.phase]
    exact ⟨hfacts, h.finished⟩

end Steps

theorem inv {db : Database} {request : SubscriptionRequest} {s : State}
    (h : (streaming db request).Reachable s) : Inv db request s :=
  h.invariant (fun _ => inv_start) fun s a _ hi _ hs =>
    inv_step (s := s) (a := a) hi hs

/-- The facts a stream hands over, in every run: ascending and so none twice,
committed, matching, above where the request starts; all that a finished query
saw; and between two follow runs of a connected stream none is missing up to its
serial, so that the next query begins where the last one ended. -/
theorem stream_in_order (db : Database) (request : SubscriptionRequest)
    (hcatchup : request.ephemeral = false) (s : State) (h : (streaming db request).Reachable s) :
    Log.Ascending FactRow.ser s.facts ∧ s.facts.Nodup ∧
    (∀ row ∈ s.facts, row ∈ s.log ∧ matching db request row = true ∧
      retrieve s.opened request.startingAfter < row.ser) ∧
    (∀ row ∈ s.finished, matching db request row = true →
      retrieve s.opened request.startingAfter < row.ser → row ∈ s.facts) ∧
    (s.disconnected = false → s.phase = .idle → ∀ row ∈ s.log, matching db request row = true →
      retrieve s.opened request.startingAfter < row.ser → row.ser ≤ s.serial → row ∈ s.facts) := by
  have hinv := inv h
  have hstarted : s.started = retrieve s.opened request.startingAfter := by
    rcases hinv.opened with heph | hstarted
    · cases hcatchup.symm.trans heph
    · exact hstarted
  rw [← hstarted]
  refine ⟨hinv.handed, hinv.handed.nodup, hinv.matched, hinv.complete, fun hc hphase => ?_⟩
  intro row hrow hm hlt hle
  have hcaught := (hinv.settled hphase id) hc
  rw [hcaught.handed]
  exact Log.mem_between.mpr ⟨hrow, hm, hlt, hle⟩

/-- A stream of the orders, over one of them. -/
def orders : SubscriptionRequest := { specs := [ofOrders] }

def unconnected : State :=
  { log := [⟨1, placed 1⟩], target := {}, refreshed := none, serial := 0, disconnected := false
    phase := .connecting, sent := [], started := 0, opened := [], snapshot := [], finished := [] }

/-- Facts are committed between the catchup queries and between the two halves of a run. -/
def meanwhile : List Action :=
  [.connect, .catchup, .row, .finish, .publish [⟨3, placed 3⟩], .catchup, .row, .finish,
    .fastForward, .readTarget, .signalCatchup, .register, .trigger, .publish [⟨4, placed 4⟩],
    .query, .row, .finish]

theorem stream_in_order_meanwhile : ∃ s, (streaming .quoted orders).Reachable s ∧
    s.facts.map FactRow.ser = [1, 3, 4] ∧ s.facts.Nodup := by
  have hstart : (streaming .quoted orders).Start unconnected :=
    ⟨by decide, by decide, rfl, rfl, rfl, rfl, rfl, rfl, rfl, rfl⟩
  obtain ⟨s, hs, hsers⟩ := Machine.exists_reachable hstart meanwhile
    (fun s => s.facts.map FactRow.ser) (b := [1, 3, 4]) (by decide +kernel)
  exact ⟨s, hs, hsers, (stream_in_order .quoted orders rfl s hs).2.1⟩

end FactCast.PgFactStream
