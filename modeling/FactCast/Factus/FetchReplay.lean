import FactCast.Factus.Fetch
import FactCast.Factus.Journal
import FactCast.Machine.Replay

/-! A fetch and a replay lead to the same state.

What a fetch has applied is what matches among some first facts of the log; what has
come since is in its buffer (`Come`). Its position is that of the last of these facts,
or it has none and stands where it started. So a snapshot names the last of the facts
that it is the state of, whether the position is that of a batch or was
fast-forwarded (`Faithful`), and it does not matter which snapshot a fetch starts
from (`fetch_eq_replay`). -/
namespace FactCast.FactusImpl
open ProjectorImpl (Applied Idle callHandlerFor effect dispatch doApply
  setFactStreamPositionIfAwareButNotTransactional)
variable {σ β : Type}

/-! ### Batches -/

/-- What a fact makes of a state, unless one before it has thrown. -/
def advance (c : SnapshotClass σ β) (reached : Except Throwable σ) (f : DeliveredFact) :
    Except Throwable σ :=
  reached.bind fun state => effect (projector c) c.handling state f

@[simp] theorem foldl_advance_error (c : SnapshotClass σ β) (e : Throwable) (facts : List DeliveredFact) :
    facts.foldl (advance c) (.error e) = .error e := by
  induction facts with
  | nil => rfl
  | cons f rest ih => exact ih

section Batch
variable (c : SnapshotClass σ β) {f : DeliveredFact} {s : Target (Catchup σ β) Unit}

theorem projector_direct : ∀ adapter set direct,
    (projector c).awareness ≠ .transactionAware adapter set direct := by
  intro adapter set direct
  unfold projector
  dsimp only
  split
  · exact nofun
  · exact nofun

/-- Dispatching does to the instance what the handler does to its state, and stores nothing. -/
theorem leaves_dispatchFact (f : DeliveredFact) (s : Target (Catchup σ β) Unit) :
    (dispatch (projector c) f s).Leaves
      (fun s' => s'.runningTransaction = s.runningTransaction ∧
        effect (projector c) c.handling s.world.projection.state f = .ok s'.world.projection.state ∧
        s'.world.stored = s.world.stored)
      fun _ s' => s'.world.stored = s.world.stored ∧
        ∃ e, effect (projector c) c.handling s.world.projection.state f = .error e := by
  unfold dispatch effect
  cases callHandlerFor (projector c).dispatchInfo f.toPgFact with
  | error e => exact ⟨rfl, _, rfl⟩
  | ok h =>
    dsimp only
    unfold ProjectorImpl.Target.within projector
    dsimp only
    cases c.handling h f s.world.projection.state with
    | ok state => exact ⟨rfl, rfl, rfl⟩
    | error e => exact ⟨rfl, _, rfl⟩

/-- A position that is set leaves the state alone. -/
theorem leaves_setPositionOf (position : FactStreamPosition) (s : Target (Catchup σ β) Unit) :
    ∃ p, setFactStreamPositionIfAwareButNotTransactional (projector c) position s =
      .normally { s with world := { s.world with projection :=
        { s.world.projection with factStreamPosition := p } } } := by
  cases haware : c.aware with
  | true =>
    have hp : (projector c).awareness = .factStreamPositionAware fun position w => .normally
        { w with projection := { w.projection with factStreamPosition := some position } } := by
      unfold projector
      rw [haware]
      rfl
    refine ⟨some position, ?_⟩
    rw [setFactStreamPositionIfAwareButNotTransactional, hp,
      ProjectorImpl.setFactStreamPositionIfAware, hp]
    rfl
  | false =>
    have hp : (projector c).awareness = .unaware := by
      unfold projector
      rw [haware]
      rfl
    refine ⟨s.world.projection.factStreamPosition, ?_⟩
    rw [setFactStreamPositionIfAwareButNotTransactional, hp,
      ProjectorImpl.setFactStreamPositionIfAware, hp]

/-- A batch that completes is in the state. One that does not stores nothing, either. -/
theorem leaves_batch (facts : List DeliveredFact) (hs : Idle s) :
    (doApply (projector c) facts s).Leaves
      (fun s' => Idle s' ∧ facts.foldl (advance c) (.ok s.world.projection.state) =
          .ok s'.world.projection.state ∧ s'.world.stored = s.world.stored)
      fun _ s' => s'.world.stored = s.world.stored ∧
        ∃ e, facts.foldl (advance c) (.ok s.world.projection.state) = .error e := by
  apply ProjectorImpl.leaves_doApply_direct
    (P := fun done s' => Idle s' ∧ done.foldl (advance c) (.ok s.world.projection.state) =
      .ok s'.world.projection.state ∧ s'.world.stored = s.world.stored)
    (Q := fun done s' => s'.world.stored = s.world.stored ∧
      ∃ e, done.foldl (advance c) (.ok s.world.projection.state) = .error e) (projector_direct c)
  · rintro done f s' ⟨hidle, hstate, hstored⟩
    have hfact : (dispatch (projector c) f s').Leaves
        (fun s'' => s''.runningTransaction = s'.runningTransaction ∧
          effect (projector c) c.handling s'.world.projection.state f = .ok s''.world.projection.state ∧
          s''.world.stored = s'.world.stored)
        fun _ s'' => s''.world.stored = s.world.stored ∧
          ∃ e, (done ++ [f]).foldl (advance c) (.ok s.world.projection.state) = .error e := by
      refine (leaves_dispatchFact c f s').mono (fun _ h => h) fun _ s'' ⟨hkept, e, he⟩ => ?_
      refine ⟨hkept.trans hstored, e, ?_⟩
      rw [List.foldl_append, hstate]
      exact he
    apply hfact.andThen
    rintro s'' ⟨hrunning, heffect, hkept⟩
    obtain ⟨p, hset⟩ := leaves_setPositionOf c (.from_ f) s''
    rw [hset]
    refine ⟨hrunning.trans hidle, ?_, hkept.trans hstored⟩
    rw [List.foldl_append, hstate]
    exact heffect
  · rintro done _ s' ⟨more, rfl⟩ ⟨hstored, e, he⟩
    refine ⟨hstored, e, ?_⟩
    rw [List.foldl_append, he]
    exact foldl_advance_error c e more
  · intro _ _ _ h
    exact h
  · exact ⟨hs, rfl, rfl⟩

end Batch

/-! ### What is applied, stored and remembered -/

section Replay
variable (app : Application σ β) (id : SnapshotIdentifier) (log : List DeliveredFact)

/-- All facts of a log that match are applied, from the beginning. -/
def replayed : Except Throwable σ :=
  Log.replay (app.matching id) (advance (classOf app id)) (.ok ((classOf app id).initial id.aggregateId)) log

/-- Something was there to be applied among the first `n` facts. -/
def Matched (n : Nat) : Prop := ∃ f ∈ log.take n, app.matching id f = true

/-- The snapshot restores the state of some first facts, and names the last of them. -/
def Faithful (data : SnapshotData β) : Prop :=
  ∃ p i g, AbstractSnapshotRepository.deserialize (classOf app id).snapshots data.serializedProjection = .ok p ∧
    log[i]? = some g ∧ data.lastFactId = g.id ∧ replayed app id (log.take (i + 1)) = .ok p.state ∧
    Matched app id log (i + 1)

end Replay

/-- Where the position of a fetch is, if `n` facts are behind it. -/
def Standing (app : Application σ β) (log : List DeliveredFact) (r : Running σ β) (n : Nat) :
    Option FactStreamPosition → Prop
  | some position => (∃ i g, n = i + 1 ∧ log[i]? = some g ∧ position = .from_ g) ∧ Matched app r.id log n
  | none => n = r.started ∧
      (r.lastFactIdApplied = none ∧ n = 0 ∨ r.lastFactIdApplied.isSome = true ∧ Matched app r.id log n)

/-- The first `n` facts are behind a fetch, and what came since is in its buffer. -/
structure Come (app : Application σ β) (log : List DeliveredFact) (r : Running σ β)
    (x : FactObserver (Catchup σ β) Unit) (n : Nat) : Prop where
  idle : Idle x.target
  started : r.started ≤ n
  reached : n ≤ r.cursor
  cursor : r.cursor ≤ log.length
  wanted : r.wanted ≤ log.length
  state : replayed app r.id (log.take n) = .ok x.target.world.projection.state
  buffer : x.buffer = ((log.take r.cursor).drop n).filter (app.matching r.id)
  standing : Standing app log r n x.position
  stored : ∀ data ∈ x.target.world.stored, Faithful app r.id log data

/-- A callback has thrown, as a replay does. -/
structure Thrown (app : Application σ β) (id : SnapshotIdentifier) (log : List DeliveredFact)
    (x : FactObserver (Catchup σ β) Unit) : Prop where
  stored : ∀ data ∈ x.target.world.stored, Faithful app id log data
  failed : ∃ e, replayed app id log = .error e

/-- Serials ascend, and no two facts have the same identifier. -/
def Ordered (log : List DeliveredFact) : Prop :=
  log.Pairwise fun g f => (FactStreamPosition.from_ g).serial < (FactStreamPosition.from_ f).serial ∧ g.id ≠ f.id

section Come
variable {app : Application σ β} {id : SnapshotIdentifier} {log more : List DeliveredFact}
  {r : Running σ β} {x : FactObserver (Catchup σ β) Unit} {w : Catchup σ β} {n k i j : Nat} {f g : DeliveredFact}

theorem Matched.mono (h : Matched app id log n) (hk : n ≤ k) : Matched app id log k := by
  obtain ⟨f, hf, hmatch⟩ := h
  refine ⟨f, ?_, hmatch⟩
  have hsub : log.take n <+: log.take k := by
    rw [← Nat.min_eq_left hk, ← List.take_take]
    exact List.take_prefix _ _
  exact hsub.subset hf

/-- What is published later does not matter. -/
theorem Matched.append (h : Matched app id log n) (hn : n ≤ log.length) : Matched app id (log ++ more) n := by
  unfold Matched
  rw [List.take_append_of_le_length hn]
  exact h

theorem Faithful.append {data : SnapshotData β} (h : Faithful app id log data) :
    Faithful app id (log ++ more) data := by
  obtain ⟨p, i, g, hp, hg, hlast, hstate, hmatched⟩ := h
  obtain ⟨hi, -⟩ := List.getElem?_eq_some_iff.mp hg
  refine ⟨p, i, g, hp, ?_, hlast, ?_, hmatched.append hi⟩
  · rw [List.getElem?_append_left hi]
    exact hg
  · rw [List.take_append_of_le_length hi]
    exact hstate

theorem Standing.append {position : Option FactStreamPosition} (h : Standing app log r n position)
    (hn : n ≤ log.length) : Standing app (log ++ more) r n position := by
  cases position with
  | none => exact ⟨h.1, h.2.imp_right fun ⟨hsome, hmatched⟩ => ⟨hsome, hmatched.append hn⟩⟩
  | some position =>
    obtain ⟨⟨i, g, rfl, hg, hposition⟩, hmatched⟩ := h
    refine ⟨⟨i, g, rfl, ?_, hposition⟩, hmatched.append hn⟩
    rw [List.getElem?_append_left hn]
    exact hg

theorem Come.append (h : Come app log r x n) : Come app (log ++ more) r x n := by
  have hn : n ≤ log.length := Nat.le_trans h.reached h.cursor
  have hlen : log.length ≤ (log ++ more).length := by
    rw [List.length_append]
    exact Nat.le_add_right _ _
  refine ⟨h.idle, h.started, h.reached, Nat.le_trans h.cursor hlen, Nat.le_trans h.wanted hlen, ?_, ?_,
    h.standing.append hn, fun data hdata => (h.stored data hdata).append⟩
  · rw [List.take_append_of_le_length hn]
    exact h.state
  · rw [List.take_append_of_le_length h.cursor]
    exact h.buffer

/-- Of two facts, the one of the higher serial is the later one. -/
theorem Ordered.lt (h : Ordered log) (hi : log[i]? = some g) (hj : log[j]? = some f)
    (hserial : (FactStreamPosition.from_ g).serial < (FactStreamPosition.from_ f).serial) : i < j := by
  obtain ⟨hilen, rfl⟩ := List.getElem?_eq_some_iff.mp hi
  obtain ⟨hjlen, rfl⟩ := List.getElem?_eq_some_iff.mp hj
  by_contra hle
  rcases Nat.lt_or_eq_of_le (Nat.le_of_not_lt hle) with hlt | rfl
  · have := (List.pairwise_iff_getElem.mp h j i hjlen hilen hlt).1
    omega
  · omega

/-- A stream that starts after a fact starts behind it. -/
theorem Ordered.startingAfter (h : Ordered log) (hi : log[i]? = some g) :
    startingAfter log (some g.id) = i + 1 := by
  obtain ⟨hilen, rfl⟩ := List.getElem?_eq_some_iff.mp hi
  have hfind : (log.findIdx? fun f => f.id == log[i].id) = some i := by
    rw [List.findIdx?_eq_some_iff_getElem]
    refine ⟨hilen, beq_self_eq_true _, fun j hj hsame => ?_⟩
    have hne := (List.pairwise_iff_getElem.mp h j i (by omega) hilen hj).2
    exact hne (by simpa using hsame)
  unfold FactusImpl.startingAfter
  dsimp only
  rw [hfind]
  rfl

/-- The world may change, as long as the state does not. -/
theorem Come.world (h : Come app log r x n) (hstate : w.projection.state = x.target.world.projection.state)
    (hstored : ∀ data ∈ w.stored, Faithful app r.id log data) :
    Come app log r { x with target := { x.target with world := w } } n where
  idle := h.idle
  started := h.started
  reached := h.reached
  cursor := h.cursor
  wanted := h.wanted
  state := h.state.trans (congrArg Except.ok hstate.symm)
  buffer := h.buffer
  standing := h.standing
  stored := hstored

theorem Come.observer (h : Come app log r x n) (y : FactObserver (Catchup σ β) Unit) :
    Come app log { r with observer := y } x n :=
  ⟨h.idle, h.started, h.reached, h.cursor, h.wanted, h.state, h.buffer, h.standing, h.stored⟩

/-- What throws at some place throws. -/
theorem replayed_error {e : Throwable} (h : replayed app id (log.take n) = .error e) :
    replayed app id log = .error e := by
  unfold replayed at h ⊢
  rw [← List.take_append_drop n log, Log.replay_append, h]
  exact foldl_advance_error _ _ _

/-- The state once the buffer is applied. -/
theorem Come.replayed_cursor (h : Come app log r x n) :
    replayed app r.id (log.take r.cursor) =
      x.buffer.foldl (advance (classOf app r.id)) (.ok x.target.world.projection.state) := by
  unfold replayed
  rw [← Log.replay_take h.reached, h.buffer, ← h.state]
  rfl

/-- A snapshot that is taken where the position is. -/
theorem Come.leaves_snapshot (h : Come app log r x n) (hrestores : (classOf app r.id).snapshots.Restores)
    {q : FactStreamPosition} (hq : x.position = some q) :
    ∃ state, q.factId = some state ∧ ∀ w : Catchup σ β, w.projection = x.target.world.projection →
      w.stored = x.target.world.stored →
      (createSnapshot (classOf app r.id) state w).projection = x.target.world.projection ∧
        ∀ data ∈ (createSnapshot (classOf app r.id) state w).stored, Faithful app r.id log data := by
  have hstanding := h.standing
  rw [hq] at hstanding
  obtain ⟨⟨i, g, rfl, hg, rfl⟩, hmatched⟩ := hstanding
  refine ⟨g.id, rfl, fun w hprojection hstored => ?_⟩
  refine ⟨(hrestores.serialize w.projection g.id).trans hprojection, fun data hdata => ?_⟩
  unfold createSnapshot at hdata
  rw [List.mem_append, hstored] at hdata
  rcases hdata with hdata | hdata
  · exact h.stored data hdata
  · obtain rfl := List.mem_singleton.mp hdata
    refine ⟨w.projection, i, g, hrestores.deserialize w.projection g.id, hg, rfl, ?_, hmatched⟩
    rw [hprojection]
    exact h.state

theorem Come.leaves_intervalSnapshotter (h : Come app log r x n)
    (hrestores : (classOf app r.id).snapshots.Restores) {q : FactStreamPosition} (hq : x.position = some q) :
    (x.within (intervalSnapshotter (classOf app r.id) q.factId)).Leaves
      (fun x' => Come app log r x' n ∧ x'.buffer = x.buffer)
      fun _ => Thrown app r.id log := by
  obtain ⟨state, hstate, hsnapshot⟩ := h.leaves_snapshot hrestores hq
  rw [hstate]
  unfold FactObserver.within ProjectorImpl.Target.within intervalSnapshotter
  split
  · obtain ⟨hprojection, hstored⟩ := hsnapshot
      { x.target.world with nextSnapshot := x.target.world.now + duration } rfl rfl
    exact ⟨h.world (congrArg Applied.state hprojection) hstored, rfl⟩
  · exact ⟨h.world rfl h.stored, rfl⟩

/-- Emptying the buffer. -/
theorem Come.leaves_flush (h : Come app log r x n) (hrestores : (classOf app r.id).snapshots.Restores) :
    (flush (observation app r) x).Leaves (fun x' => ∃ n', Come app log r x' n' ∧ x'.buffer = [])
      fun _ => Thrown app r.id log := by
  unfold flush
  cases hbuffer : x.buffer with
  | nil => exact ⟨n, h, hbuffer⟩
  | cons first rest =>
    have hlast : ((log.take r.cursor).drop n).filter (app.matching r.id) =
        (first :: rest).dropLast ++ [(first :: rest).getLast (List.cons_ne_nil _ _)] := by
      rw [List.dropLast_append_getLast, ← hbuffer, h.buffer]
    obtain ⟨i, hni, hik, hget, hmatch, hclear⟩ := Log.exists_last hlast
    have hbatch := leaves_batch (classOf app r.id) (first :: rest) h.idle
    have happly : (apply (observation app r) (first :: rest) { x with buffer := [] }).Leaves
        (fun x' => x'.buffer = [] ∧ Idle x'.target ∧ replayed app r.id (log.take r.cursor) =
          .ok x'.target.world.projection.state ∧ x'.target.world.stored = x.target.world.stored)
        fun _ => Thrown app r.id log := by
      apply Completion.leaves_map
      refine hbatch.mono (fun s' hs' => ⟨rfl, hs'.1, ?_, hs'.2.2⟩) fun _ s' ⟨hstored, e, he⟩ => ⟨?_, e, ?_⟩
      · rw [h.replayed_cursor, hbuffer]
        exact hs'.2.1
      · dsimp only
        rw [hstored]
        exact h.stored
      · apply replayed_error (n := r.cursor)
        rw [h.replayed_cursor, hbuffer]
        exact he
    apply happly.andThen
    rintro x' ⟨hempty, hidle, hstate, hstored⟩
    have hcome : Come app log r
        ⟨x'.buffer, some (.from_ ((first :: rest).getLast (List.cons_ne_nil _ _))), x'.target⟩ (i + 1) := by
      have hstarted := h.started
      refine ⟨hidle, by omega, hik, h.cursor, h.wanted, ?_, ?_, ⟨⟨i, _, rfl, hget, rfl⟩, ?_⟩, ?_⟩
      · rw [← hstate]
        exact (Log.replay_take_of_clear hik hclear).symm
      · rw [hclear]
        exact hempty
      · exact ⟨_, List.mem_of_getElem? (by rw [List.getElem?_take_of_lt (Nat.lt_succ_self i)]; exact hget), hmatch⟩
      · rw [hstored]
        exact h.stored
    refine (hcome.leaves_intervalSnapshotter hrestores rfl).mono (fun x'' hx'' => ?_) fun _ _ h => h
    exact ⟨i + 1, hx''.1, hx''.2.trans hempty⟩

/-- A call that empties the buffer and does nothing else to the projection. -/
theorem Come.leaves_flushIfCatchup (h : Come app log r x n)
    (hrestores : (classOf app r.id).snapshots.Restores) : ((flushIfCatchup (observation app r) x).andThen fun x =>
      x.within Completion.normally).Leaves (fun x' => ∃ n', Come app log r x' n' ∧ x'.buffer = [])
      fun _ => Thrown app r.id log := by
  apply (h.leaves_flush hrestores).andThen
  intro x' hx'
  exact hx'

/-- The next fact that matches. -/
theorem Come.leaves_onNext (h : Come app log r x n) (hrestores : (classOf app r.id).snapshots.Restores)
    (hnext : (log.drop r.cursor).findIdx? (app.matching r.id) = some k) (hf : log[r.cursor + k]? = some f) :
    (onNext (observation app r) f x).Leaves
      (fun x' => ∃ n', Come app log { r with cursor := r.cursor + k + 1 } x' n')
      fun _ => Thrown app r.id log := by
  obtain ⟨hlen, -⟩ := List.getElem?_eq_some_iff.mp hf
  have hreached := h.reached
  have hcome : Come app log { r with cursor := r.cursor + k + 1 } { x with buffer := x.buffer ++ [f] } n := by
    refine ⟨h.idle, h.started, ?_, hlen, h.wanted, h.state, ?_, h.standing, h.stored⟩
    · dsimp only
      omega
    · dsimp only
      rw [h.buffer, Log.filter_next h.reached hnext hf]
  unfold onNext
  dsimp only
  split
  · have hflush := hcome.leaves_flush hrestores
    exact hflush.mono (fun x' ⟨n', hx', _⟩ => ⟨n', hx'⟩) fun _ _ h => h
  · exact ⟨n, hcome⟩

/-- The stream has moved past what does not match. -/
theorem Come.moved (h : Come app log r x n) (hk : k ≤ log.length)
    (hclear : ((log.take k).drop r.cursor).filter (app.matching r.id) = []) :
    Come app log { r with cursor := max r.cursor k } x n := by
  refine ⟨h.idle, h.started, Nat.le_trans h.reached (Nat.le_max_left _ _), Nat.max_le.mpr ⟨h.cursor, hk⟩,
    h.wanted, h.state, ?_, h.standing, h.stored⟩
  rw [h.buffer]
  exact (Log.filter_clear h.reached h.cursor hclear).symm

/-- Nothing is applied between where the fetch is and where the stream is. -/
theorem Come.replayed_of_empty (h : Come app log r x n) (hempty : x.buffer = []) (hn : n ≤ k)
    (hk : k ≤ r.cursor) :
    ((log.take r.cursor).drop k).filter (app.matching r.id) = [] ∧
      replayed app r.id (log.take k) = .ok x.target.world.projection.state := by
  have hnone := h.buffer.symm.trans hempty
  rw [Log.range_append hn hk (Nat.le_trans hk h.cursor), List.filter_append, List.append_eq_nil_iff] at hnone
  refine ⟨hnone.2, ?_⟩
  rw [← h.state]
  exact Log.replay_take_of_clear hn hnone.1

theorem setFactStreamPosition_eq (app : Application σ β) (r : Running σ β) (q : FactStreamPosition)
    (x : FactObserver (Catchup σ β) Unit) :
    ∃ p, setFactStreamPosition (observation app r) q x = .normally { x with target := { x.target with
      world := { x.target.world with projection :=
        { x.target.world.projection with factStreamPosition := p } } } } := by
  cases haware : (classOf app r.id).aware with
  | true =>
    have hp : (observation app r).projection.awareness.factStreamPosition? = some fun position w =>
        .normally { w with projection := { w.projection with factStreamPosition := some position } } := by
      unfold observation catchupProjection projector
      dsimp only
      rw [haware]
      rfl
    refine ⟨some q, ?_⟩
    unfold setFactStreamPosition
    rw [hp]
    rfl
  | false =>
    have hp : (observation app r).projection.awareness.factStreamPosition? = none := by
      unfold observation catchupProjection projector
      dsimp only
      rw [haware]
      rfl
    refine ⟨x.target.world.projection.factStreamPosition, ?_⟩
    unfold setFactStreamPosition
    rw [hp]

/-- The position moves to where nothing is left behind that matches, if it moves at all. -/
theorem Come.leaves_onFastForward (h : Come app log r x n) (hlog : Ordered log)
    (hrestores : (classOf app r.id).snapshots.Restores) (hf : log[k]? = some f) (hstarted : r.started < k + 1)
    (hk : k + 1 ≤ r.cursor) :
    (onFastForward (observation app r) (.from_ f) x).Leaves (fun x' => ∃ n', Come app log r x' n')
      fun _ => Thrown app r.id log := by
  apply (h.leaves_flush hrestores).andThen
  rintro x' ⟨n', hcome, hempty⟩
  split
  · rename_i hafter
    obtain ⟨p, hset⟩ := setFactStreamPosition_eq app r (.from_ f) x'
    rw [hset]
    have hset := hcome.world (w := { x'.target.world with projection :=
      { x'.target.world.projection with factStreamPosition := p } }) rfl hcome.stored
    dsimp only [Completion.normally_andThen]
    split
    · rename_i hpersist
      have hstanding := hcome.standing
      have hle : n' ≤ k + 1 ∧ Matched app r.id log n' := by
        cases hposition : x'.position with
        | none =>
          rw [hposition] at hpersist hstanding
          obtain ⟨rfl, ⟨hnone, _⟩ | ⟨_, hmatched⟩⟩ := hstanding
          · rw [hnone] at hpersist
            simp at hpersist
          · exact ⟨Nat.le_of_lt hstarted, hmatched⟩
        | some q =>
          rw [hposition] at hafter hstanding
          obtain ⟨⟨i, g, rfl, hg, rfl⟩, hmatched⟩ := hstanding
          have hlt := hlog.lt hg hf (of_decide_eq_true hafter)
          exact ⟨by omega, hmatched⟩
      obtain ⟨hclear, hstate⟩ := hset.replayed_of_empty hempty hle.1 hk
      refine ⟨k + 1, hset.idle, Nat.le_of_lt hstarted, hk, hset.cursor, hset.wanted, hstate, ?_,
        ⟨⟨k, f, rfl, hf, rfl⟩, hle.2.mono hle.1⟩, hset.stored⟩
      exact hempty.trans hclear.symm
    · exact ⟨n', hset⟩
  · exact ⟨n', hcome⟩

end Come

/-! ### Fetches, one move after another -/

def fetching (app : Application σ β) : Machine (Fetching σ β) Move where
  Start s := s.log = [] ∧ (∀ id, s.snapshots id = []) ∧ ∀ t, s.fetch t = .idle
  step := fetchStep app

/-- What was returned is what a replay of the first `upTo` facts leads to, and nothing
was returned only if nothing matches among them. -/
def Settled (app : Application σ β) (log : List DeliveredFact) (id : SnapshotIdentifier)
    (result : Option (Applied σ)) (wanted upTo : Nat) : Prop :=
  wanted ≤ upTo ∧ upTo ≤ log.length ∧
    (∃ state, replayed app id (log.take upTo) = .ok state ∧ ∀ p, result = some p → p.state = state) ∧
    (result = none ↔ id.aggregateId.isSome = true ∧ ¬Matched app id log upTo)

structure Consistent (app : Application σ β) (s : Fetching σ β) : Prop where
  ordered : Ordered s.log
  snapshots : ∀ id, ∀ data ∈ s.snapshots id, Faithful app id s.log data
  running : ∀ t r, s.fetch t = .running r → ∃ n, Come app s.log r r.observer n
  returned : ∀ t id result wanted upTo, s.fetch t = .returned id result wanted upTo →
    Settled app s.log id result wanted upTo

section Moves
variable {app : Application σ β} {s s' : Fetching σ β} {t : Nat} {r : Running σ β}
  {x : FactObserver (Catchup σ β) Unit} {n : Nat}

theorem consistent_publish {f : DeliveredFact} (h : Consistent app s) (hs : publish s f = some s') :
    Consistent app s' := by
  unfold publish at hs
  split at hs
  · rename_i hguard
    cases hs
    simp only [Bool.and_eq_true, List.all_eq_true, decide_eq_true_eq, bne_iff_ne] at hguard
    refine ⟨?_, fun id data hdata => (h.snapshots id data hdata).append,
      fun t r hr => (h.running t r hr).imp fun _ hn => hn.append, fun t id result wanted upTo hr => ?_⟩
    · exact List.pairwise_append.mpr ⟨h.ordered, List.pairwise_singleton _ _, fun g hg f' hf' => by
        rw [List.mem_singleton.mp hf']
        exact hguard.2 g hg⟩
    · obtain ⟨hwanted, hlen, hstate, hnone⟩ := h.returned t id result wanted upTo hr
      unfold Settled Matched
      dsimp only
      rw [List.take_append_of_le_length hlen]
      refine ⟨hwanted, ?_, hstate, hnone⟩
      rw [List.length_append]
      exact Nat.le_add_right_of_le hlen
  · cases hs

/-- A fetch has something new in its place. -/
theorem Consistent.replace (h : Consistent app s) {fetch : Fetch σ β}
    (hrunning : ∀ r, fetch = .running r → ∃ n, Come app s.log r r.observer n)
    (hreturned : ∀ id result wanted upTo, fetch = .returned id result wanted upTo →
      Settled app s.log id result wanted upTo) :
    Consistent app { s with fetch := Function.update s.fetch t fetch } where
  ordered := h.ordered
  snapshots := h.snapshots
  running t' r hr := by
    dsimp only at hr
    rcases eq_or_ne t' t with rfl | hne
    · rw [Function.update_self] at hr
      exact hrunning r hr
    · rw [Function.update_of_ne hne] at hr
      exact h.running t' r hr
  returned t' id result wanted upTo hr := by
    dsimp only at hr
    rcases eq_or_ne t' t with rfl | hne
    · rw [Function.update_self] at hr
      exact hreturned id result wanted upTo hr
    · rw [Function.update_of_ne hne] at hr
      exact h.returned t' id result wanted upTo hr

/-- Snapshots were stored, too. -/
theorem Consistent.update (h : Consistent app s) (id : SnapshotIdentifier) {stored : List (SnapshotData β)}
    (hstored : ∀ data ∈ stored, Faithful app id s.log data) {fetch : Fetch σ β}
    (hrunning : ∀ r, fetch = .running r → ∃ n, Come app s.log r r.observer n)
    (hreturned : ∀ id result wanted upTo, fetch = .returned id result wanted upTo →
      Settled app s.log id result wanted upTo) :
    Consistent app { s with
      snapshots := Function.update s.snapshots id (s.snapshots id ++ stored)
      fetch := Function.update s.fetch t fetch } where
  ordered := h.ordered
  snapshots id' data hdata := by
    dsimp only at hdata
    rcases eq_or_ne id' id with rfl | hne
    · rw [Function.update_self, List.mem_append] at hdata
      exact hdata.elim (h.snapshots _ data) (hstored data)
    · rw [Function.update_of_ne hne] at hdata
      exact h.snapshots id' data hdata
  running := (h.replace hrunning hreturned).running
  returned := (h.replace hrunning hreturned).returned

/-- Goes on, or has thrown. -/
theorem Consistent.after (h : Consistent app s)
    {called : Completion Throwable (FactObserver (Catchup σ β) Unit)}
    (hcalled : called.Leaves (fun x => ∃ n, Come app s.log r x n)
      fun _ => Thrown app r.id s.log) :
    Consistent app (after s t r called) := by
  cases called with
  | normally x =>
    obtain ⟨n, hcome⟩ := hcalled
    apply h.update r.id hcome.stored
    · rintro r' hr'
      cases hr'
      have hempty := hcome.world (w := { x.target.world with stored := [] }) rfl
        fun _ hdata => absurd hdata List.not_mem_nil
      exact ⟨n, hempty.observer _⟩
    · exact fun _ _ _ _ hr' => nomatch hr'
  | abruptly e x =>
    apply h.update r.id hcalled.stored
    · exact fun _ hr' => nomatch hr'
    · exact fun _ _ _ _ hr' => nomatch hr'

/-- Whatever a fetch starts with, it is what is replayed up to where its stream starts. -/
theorem Consistent.start (h : Consistent app s) (id : SnapshotIdentifier) {n : Option Nat} {p : Applied σ}
    {last : Option UUID} (hfound : findLatest app s id n = some (.ok (p, last))) :
    startingAfter s.log last ≤ s.log.length ∧
      replayed app id (s.log.take (startingAfter s.log last)) = .ok p.state ∧
      (last = none ∧ startingAfter s.log last = 0 ∨
        last.isSome = true ∧ Matched app id s.log (startingAfter s.log last)) := by
  cases n with
  | none =>
    cases hfound
    exact ⟨Nat.zero_le _, rfl, .inl ⟨rfl, rfl⟩⟩
  | some n =>
    unfold findLatest at hfound
    obtain ⟨data, hdata, hrestored⟩ := Option.map_eq_some_iff.mp hfound
    obtain ⟨q, i, g, hq, hg, hlast, hstate, hmatched⟩ := h.snapshots id data (List.mem_of_getElem? hdata)
    rw [hq] at hrestored
    cases hrestored
    rw [hlast, h.ordered.startingAfter hg]
    obtain ⟨hi, -⟩ := List.getElem?_eq_some_iff.mp hg
    exact ⟨hi, hstate, .inr ⟨rfl, hmatched⟩⟩

theorem consistent_begin {id : SnapshotIdentifier} {m : Option Nat} {now : Nat} (h : Consistent app s)
    (hs : begin_ app s t id m now = some s') :
    Consistent app s' := by
  unfold begin_ at hs
  split at hs
  · cases hs
  · obtain ⟨found, hfound, rfl⟩ := Option.map_eq_some_iff.mp hs
    rcases found with e | ⟨p, last⟩
    · exact h.replace nofun nofun
    · obtain ⟨hlen, hstate, hlast⟩ := h.start id hfound
      have hcome : Come app s.log
          ⟨id, last, { target := ⟨none, ⟨p, [], now + duration, now⟩⟩ }, startingAfter s.log last,
            startingAfter s.log last, s.log.length⟩
          { target := ⟨none, ⟨p, [], now + duration, now⟩⟩ } (startingAfter s.log last) := by
        refine ⟨rfl, le_refl _, le_refl _, hlen, le_refl _, hstate, ?_, ⟨rfl, hlast⟩,
          fun _ hdata => absurd hdata List.not_mem_nil⟩
        rw [List.drop_eq_nil_of_le (List.length_take_le _ _)]
        rfl
      apply h.replace
      · intro r hr
        cases hr
        exact ⟨_, hcome⟩
      · exact nofun

theorem clear_iff {id : SnapshotIdentifier} {start stop : Nat} :
    clear app s id start stop = true ↔ ((s.log.take stop).drop start).filter (app.matching id) = [] := by
  unfold clear
  rw [List.filter_eq_nil_iff, List.all_eq_true]
  simp

/-- What is returned, where nothing is left to be applied. -/
theorem Come.settled {result : Option (Applied σ)} (h : Come app s.log r x n) (hempty : x.buffer = [])
    (hclear : clear app s r.id r.cursor r.wanted = true)
    (hresult : ∀ p, result = some p → p = x.target.world.projection)
    (hnone : result = none ↔ r.id.aggregateId.isSome = true ∧ x.position = none ∧ r.lastFactIdApplied = none) :
    Settled app s.log r.id result r.wanted (max r.cursor r.wanted) := by
  have hmoved := h.moved h.wanted (clear_iff.mp hclear)
  have hn : n ≤ max r.cursor r.wanted := Nat.le_trans h.reached (Nat.le_max_left _ _)
  refine ⟨Nat.le_max_right _ _, hmoved.cursor, ⟨x.target.world.projection.state, ?_, fun p hp => ?_⟩, ?_⟩
  · exact (hmoved.replayed_of_empty hempty hn (le_refl _)).2
  · rw [hresult p hp]
  · rw [hnone]
    refine and_congr_right fun _ => ⟨fun ⟨hposition, hlast⟩ => ?_, fun hunmatched => ?_⟩
    · -- nothing was applied, and nothing is to be applied
      rintro ⟨f, hf, hmatch⟩
      have hstanding := h.standing
      rw [hposition] at hstanding
      obtain ⟨_, ⟨_, rfl⟩ | ⟨hsome, _⟩⟩ := hstanding
      · have hnothing := hmoved.buffer.symm.trans hempty
        exact List.filter_eq_nil_iff.mp hnothing f hf hmatch
      · rw [hlast] at hsome
        cases hsome
    · have hstanding := h.standing
      cases hposition : x.position with
      | some q =>
        rw [hposition] at hstanding
        exact absurd (hstanding.2.mono hn) hunmatched
      | none =>
        rw [hposition] at hstanding
        obtain ⟨_, ⟨hlast, _⟩ | ⟨_, hmatched⟩⟩ := hstanding
        · exact ⟨rfl, hlast⟩
        · exact absurd (hmatched.mono hn) hunmatched

theorem Consistent.dofetch (h : Consistent app s) (hrestores : (classOf app r.id).snapshots.Restores)
    (hcome : Come app s.log r x n) (hempty : x.buffer = [])
    (hclear : clear app s r.id r.cursor r.wanted = true) : Consistent app (dofetch app s t r x) := by
  unfold FactusImpl.dofetch
  cases hposition : x.position with
  | some q =>
    obtain ⟨state, hstate, hsnapshot⟩ := hcome.leaves_snapshot hrestores hposition
    obtain ⟨hprojection, hstored⟩ := hsnapshot x.target.world rfl rfl
    rw [Option.bind_some, hstate]
    apply h.update r.id hstored fun r hr => by cases hr
    intro id result wanted upTo hresult
    cases hresult
    apply hcome.settled hempty hclear
    · intro p hp
      cases hp
      exact hprojection
    · rw [hposition]
      simp
  | none =>
    rw [Option.bind_none]
    apply h.update r.id hcome.stored fun r hr => by cases hr
    intro id result wanted upTo hresult
    cases hresult
    apply hcome.settled hempty hclear
    · intro p hp
      split at hp
      · cases hp
      · cases hp
        rfl
    · rw [hposition]
      simp

theorem Consistent.running_at (h : Consistent app s) (hr : s.fetch t = .running r) (now : Nat) :
    ∃ n, Come app s.log r (r.at_ now) n := by
  obtain ⟨n, hcome⟩ := h.running t r hr
  exact ⟨n, hcome.world rfl hcome.stored⟩

/-- A callback is made while the fetch is going on. -/
theorem callback_some {step : Running σ β → Option (Fetching σ β)} (hs : callback s t step = some s') :
    ∃ r, s.fetch t = .running r ∧ step r = some s' := by
  unfold callback at hs
  split at hs
  · exact ⟨_, ‹_›, hs⟩
  · cases hs

theorem consistent_step {a : Move} (hrestores : ∀ name, (app.classes name).snapshots.Restores)
    (h : Consistent app s) (hs : fetchStep app s a = some s') : Consistent app s' := by
  cases a with
  | publish f => exact consistent_publish h hs
  | begin_ t id m now => exact consistent_begin h hs
  | onNext t now =>
    obtain ⟨r, hr, hs⟩ := callback_some hs
    obtain ⟨k, hk, hs⟩ := Option.bind_eq_some_iff.mp hs
    obtain ⟨f, hf, rfl⟩ := Option.map_eq_some_iff.mp hs
    obtain ⟨n, hcome⟩ := h.running_at hr now
    exact h.after (hcome.leaves_onNext (hrestores _) hk hf)
  | flush t now =>
    obtain ⟨r, hr, hs⟩ := callback_some hs
    obtain ⟨n, hcome⟩ := h.running_at hr now
    cases hs
    exact h.after ((hcome.leaves_flush (hrestores _)).mono (fun _ ⟨n', hx, _⟩ => ⟨n', hx⟩) fun _ _ hx => hx)
  | onFastForward t n now =>
    obtain ⟨r, hr, hs⟩ := callback_some hs
    obtain ⟨m, hcome⟩ := h.running_at hr now
    split at hs
    · rename_i hguard
      obtain ⟨hstarted, hclear⟩ := (Bool.and_eq_true _ _).mp hguard
      have hstarted := of_decide_eq_true hstarted
      obtain ⟨f, hf, rfl⟩ := Option.map_eq_some_iff.mp hs
      obtain ⟨hlen, -⟩ := List.getElem?_eq_some_iff.mp hf
      have hn : n - 1 + 1 = n := by omega
      have hmoved := hcome.moved (k := n) (by omega) (clear_iff.mp hclear)
      apply h.after
      apply hmoved.leaves_onFastForward h.ordered (hrestores _) hf
      · rwa [hn]
      · rw [hn]
        exact Nat.le_max_right _ _
    · cases hs
  | onCatchup t now =>
    obtain ⟨r, hr, hs⟩ := callback_some hs
    obtain ⟨n, hcome⟩ := h.running_at hr now
    cases hs
    exact h.after ((hcome.leaves_flushIfCatchup (hrestores _)).mono (fun _ ⟨n', hx, _⟩ => ⟨n', hx⟩)
      fun _ _ hx => hx)
  | onError t now exception =>
    obtain ⟨r, hr, hs⟩ := callback_some hs
    obtain ⟨n, hcome⟩ := h.running_at hr now
    cases hs
    have hcalled := (hcome.leaves_flushIfCatchup (hrestores _)).mono
      (fun _ ⟨_, hx, _⟩ => hx.stored) fun _ _ hx => hx.stored
    exact h.update r.id hcalled.state nofun nofun
  | onComplete t now =>
    obtain ⟨r, hr, hs⟩ := callback_some hs
    obtain ⟨n, hcome⟩ := h.running_at hr now
    split at hs
    · rename_i hclear
      have hcalled := hcome.leaves_flushIfCatchup (hrestores _)
      cases hdone : onComplete (observation app r) (r.at_ now) with
      | normally x =>
        obtain ⟨n', hx, hempty⟩ : ∃ n', Come app s.log r x n' ∧ x.buffer = [] := by
          have hleaves : (onComplete (observation app r) (r.at_ now)).Leaves _ _ := hcalled
          rwa [hdone] at hleaves
        rw [hdone] at hs
        cases hs
        exact h.dofetch (hrestores _) hx hempty hclear
      | abruptly e x =>
        have hleaves : (onComplete (observation app r) (r.at_ now)).Leaves _ _ := hcalled
        rw [hdone] at hs hleaves
        cases hs
        exact h.after hleaves
    · cases hs

/-! ### A fetch can be completed -/

/-- A fetch that begins is going on then: whatever was stored can be restored. -/
theorem Consistent.begins {id : SnapshotIdentifier} {m : Option Nat} {now : Nat} (h : Consistent app s)
    (hs : begin_ app s t id m now = some s') :
    ∃ r, s'.fetch t = .running r ∧ r.id = id ∧ r.wanted = s.log.length ∧ s'.log = s.log := by
  unfold begin_ at hs
  split at hs
  · cases hs
  · obtain ⟨found, hfound, rfl⟩ := Option.map_eq_some_iff.mp hs
    rcases found with e | ⟨p, last⟩
    · -- a stored snapshot that cannot be restored
      cases m with
      | none => cases hfound
      | some m =>
        unfold findLatest at hfound
        obtain ⟨data, hdata, hrestored⟩ := Option.map_eq_some_iff.mp hfound
        obtain ⟨q, _, _, hq, _⟩ := h.snapshots id data (List.mem_of_getElem? hdata)
        rw [hq] at hrestored
        cases hrestored
    · exact ⟨_, Function.update_self .., rfl, rfl, rfl⟩

theorem callback_running {step : Running σ β → Option (Fetching σ β)} (hr : s.fetch t = .running r) :
    callback s t step = step r := by
  unfold callback
  rw [hr]

/-- A callback throws only if the replay does. -/
theorem normally_of_leaves {id : SnapshotIdentifier} {state : σ} {N : FactObserver (Catchup σ β) Unit → Prop}
    {called : Completion Throwable (FactObserver (Catchup σ β) Unit)}
    (hok : replayed app id s.log = .ok state) (hcalled : called.Leaves N fun _ => Thrown app id s.log) :
    ∃ x, called = .normally x ∧ N x := by
  cases called with
  | normally x => exact ⟨x, rfl, hcalled⟩
  | abruptly e x =>
    obtain ⟨e', he'⟩ := hcalled.failed
    rw [hok] at he'
    cases he'

/-- Where the stream has nothing left to deliver, the fetch returns. -/
theorem Consistent.completes {state : σ} (h : Consistent app s)
    (hrestores : ∀ name, (app.classes name).snapshots.Restores) (hr : s.fetch t = .running r)
    (hok : replayed app r.id s.log = .ok state)
    (hnone : (s.log.drop r.cursor).findIdx? (app.matching r.id) = none) :
    ∃ s' result upTo, fetchStep app s (.onComplete t 0) = some s' ∧ s'.log = s.log ∧
      s'.fetch t = .returned r.id result r.wanted upTo := by
  obtain ⟨n, hcome⟩ := h.running_at hr 0
  obtain ⟨x, hx, _⟩ : ∃ x, onComplete (observation app r) (r.at_ 0) = .normally x ∧ _ :=
    normally_of_leaves hok (hcome.leaves_flushIfCatchup (hrestores _))
  have hclear : clear app s r.id r.cursor r.wanted = true := by
    rw [clear_iff, List.filter_eq_nil_iff]
    intro f hf
    rw [List.drop_take] at hf
    rw [List.findIdx?_eq_none_iff.mp hnone f (List.mem_of_mem_take hf)]
    exact Bool.false_ne_true
  have hstep : fetchStep app s (.onComplete t 0) = some (FactusImpl.dofetch app s t r x) := by
    unfold fetchStep
    dsimp only
    rw [callback_running hr, if_pos hclear, hx]
  have hdone : (FactusImpl.dofetch app s t r x).log = s.log ∧ ∃ result upTo,
      (FactusImpl.dofetch app s t r x).fetch t = .returned r.id result r.wanted upTo := by
    unfold FactusImpl.dofetch
    split
    · exact ⟨rfl, _, _, Function.update_self ..⟩
    · exact ⟨rfl, _, _, Function.update_self ..⟩
  obtain ⟨hlog, result, upTo, hreturned⟩ := hdone
  exact ⟨_, result, upTo, hstep, hlog, hreturned⟩

/-- The next fact is taken. -/
theorem Consistent.delivers {state : σ} {k : Nat} (h : Consistent app s)
    (hrestores : ∀ name, (app.classes name).snapshots.Restores) (hr : s.fetch t = .running r)
    (hok : replayed app r.id s.log = .ok state)
    (hnext : (s.log.drop r.cursor).findIdx? (app.matching r.id) = some k) :
    ∃ s' r', fetchStep app s (.onNext t 0) = some s' ∧ s'.log = s.log ∧ s'.fetch t = .running r' ∧
      r'.id = r.id ∧ r'.wanted = r.wanted ∧ r'.cursor = r.cursor + k + 1 ∧ r.cursor < s.log.length := by
  obtain ⟨n, hcome⟩ := h.running_at hr 0
  obtain ⟨hlen, -, -⟩ := List.findIdx?_eq_some_iff_getElem.mp hnext
  rw [List.length_drop] at hlen
  have hf : s.log[r.cursor + k]? = some s.log[r.cursor + k] := List.getElem?_eq_getElem _
  obtain ⟨x, hx, _⟩ := normally_of_leaves hok (hcome.leaves_onNext (hrestores _) hnext hf)
  have hstep : fetchStep app s (.onNext t 0) =
      some (FactusImpl.after s t { r with cursor := r.cursor + k + 1 } (.normally x)) := by
    unfold fetchStep
    dsimp only
    rw [callback_running hr, hnext, Option.bind_some, hf, Option.map_some, hx]
  exact ⟨_, _, hstep, rfl, Function.update_self .., rfl, rfl, rfl, by omega⟩

/-- The stream delivers what is left, one fact after another. -/
theorem Consistent.exists_run {state : σ} (hrestores : ∀ name, (app.classes name).snapshots.Restores)
    (h : Consistent app s) (hr : s.fetch t = .running r) (hok : replayed app r.id s.log = .ok state) :
    ∃ moves s' result upTo, (fetching app).run s moves = some s' ∧ s'.log = s.log ∧
      s'.fetch t = .returned r.id result r.wanted upTo := by
  induction hleft : s.log.length - r.cursor using Nat.strong_induction_on generalizing s r with
  | _ left ih =>
    cases hnext : (s.log.drop r.cursor).findIdx? (app.matching r.id) with
    | none =>
      obtain ⟨s', result, upTo, hstep, hlog, hreturned⟩ := h.completes hrestores hr hok hnext
      refine ⟨[.onComplete t 0], s', result, upTo, ?_, hlog, hreturned⟩
      exact Option.bind_eq_some_iff.mpr ⟨s', hstep, rfl⟩
    | some k =>
      obtain ⟨s', r', hstep, hlog, hr', hid, hwanted, hcursor, _⟩ := h.delivers hrestores hr hok hnext
      have hless : s'.log.length - r'.cursor < left := by
        rw [hlog, hcursor]
        omega
      rw [← hid, ← hlog] at hok
      obtain ⟨moves, s'', result, upTo, hrun, hlog', hreturned⟩ :=
        ih _ hless (consistent_step hrestores h hstep) hr' hok rfl
      refine ⟨.onNext t 0 :: moves, s'', result, upTo, ?_, hlog'.trans hlog, ?_⟩
      · exact Option.bind_eq_some_iff.mpr ⟨s', hstep, hrun⟩
      · rw [hreturned, hid, hwanted]

end Moves

theorem consistent_reachable {app : Application σ β} {s : Fetching σ β}
    (hrestores : ∀ name, (app.classes name).snapshots.Restores) (h : (fetching app).Reachable s) :
    Consistent app s := by
  apply h.invariant
  · rintro s ⟨hlog, hsnapshots, hidle⟩
    refine ⟨?_, fun id data hdata => ?_, fun t r hr => ?_, fun t id result wanted upTo hr => ?_⟩
    · rw [hlog]
      exact .nil
    · rw [hsnapshots] at hdata
      cases hdata
    · rw [hidle] at hr
      cases hr
    · rw [hidle] at hr
      cases hr
  · intro s a s' hs _ hstep
    exact consistent_step hrestores hs hstep

/-- **Fetching from a snapshot is replaying from the beginning.** Whatever a fetch
returns is what the replay leads to; and from whatever snapshot a fetch begins, it
returns once the stream has delivered what is there, unless the replay throws. -/
theorem fetch_eq_replay (app : Application σ β) (hrestores : ∀ name, (app.classes name).snapshots.Restores)
    (s : Fetching σ β) (h : (fetching app).Reachable s) :
    (∀ t id result wanted upTo, s.fetch t = .returned id result wanted upTo →
      Settled app s.log id result wanted upTo) ∧
    ∀ t id m now s', fetchStep app s (.begin_ t id m now) = some s' →
      ∀ state, replayed app id s.log = .ok state →
        ∃ moves s'' result, (fetching app).run s' moves = some s'' ∧ s''.log = s.log ∧
          s''.fetch t = .returned id result s.log.length s.log.length := by
  have hconsistent := consistent_reachable hrestores h
  refine ⟨hconsistent.returned, fun t id m now s' hs state hok => ?_⟩
  obtain ⟨r, hr, rfl, hwanted, hlog⟩ := hconsistent.begins hs
  have hbegun := consistent_step hrestores hconsistent hs
  rw [← hlog] at hok
  obtain ⟨moves, s'', result, upTo, hrun, hlog', hreturned⟩ :=
    hbegun.exists_run hrestores hr hok
  have hbegins : (fetching app).Reachable s' := .step (a := .begin_ t r.id m now) h trivial hs
  have hreached := Machine.Reachable.run hbegins moves hrun
  have hsettled := (consistent_reachable hrestores hreached).returned t _ _ _ _ hreturned
  obtain rfl : upTo = s.log.length := by
    have hle := hsettled.1
    have hge := hsettled.2.1
    rw [hlog', hlog] at hge
    omega
  rw [hwanted] at hreturned
  exact ⟨moves, s'', result, hrun, hlog'.trans hlog, hreturned⟩

/-! ### A count of orders -/

def orderCounts : Application Nat (Applied Nat) where
  classes _ := {
    dispatchInfo := ProjectorImpl.orderCount.dispatchInfo
    handling := ProjectorImpl.counting
    interrupted := fun _ _ n => n
    aware := true
    initial := fun _ => 0
    snapshots := { serializer := ⟨"counts", id, .ok⟩ } }
  matching _ _ := true

theorem orderCount_binary : ';' ∉ "OrderCount".toList := by decide

def counts : SnapshotIdentifier := ⟨⟨"OrderCount", orderCount_binary⟩, none⟩

def noFacts : Fetching Nat (Applied Nat) := ⟨[], fun _ => [], fun _ => .idle⟩

/-- Counted by a fetch that wanted so many facts and saw so many. -/
def counted (s : Fetching Nat (Applied Nat)) : Option (Nat × Nat × Nat) :=
  match s.fetch 0 with
  | .returned id (some p) wanted upTo => if id = counts then some (p.state, wanted, upTo) else none
  | _ => none

/-- One order is counted, then another, from the snapshot. -/
theorem fetch_eq_replay_orders : ∃ s p, (fetching orderCounts).Reachable s ∧
    s.fetch 0 = .returned counts (some p) 2 2 ∧ p.state = 2 ∧
    Settled orderCounts s.log counts (some p) 2 2 := by
  obtain ⟨s, hs, hcounted⟩ := Machine.exists_reachable (M := fetching orderCounts) (s := noFacts)
    ⟨rfl, fun _ => rfl, fun _ => rfl⟩
    [.publish (ProjectorImpl.orderAt 1), .begin_ 0 counts none 0, .onNext 0 1, .onComplete 0 2,
      .publish (ProjectorImpl.orderAt 2), .begin_ 0 counts (some 0) 3, .onNext 0 4, .onComplete 0 5]
    counted (b := some (2, 2, 2)) (by decide +kernel)
  unfold counted at hcounted
  split at hcounted
  · rename_i id p wanted upTo hfetch
    split at hcounted
    · rename_i hid
      rw [hid] at hfetch
      obtain ⟨hp, rfl, rfl⟩ : p.state = 2 ∧ wanted = 2 ∧ upTo = 2 := by simpa using hcounted
      have hrestores : ∀ name, (orderCounts.classes name).snapshots.Restores :=
        fun _ => ⟨fun _ _ => rfl, fun _ _ => rfl⟩
      exact ⟨s, p, hs, hfetch, hp, (fetch_eq_replay orderCounts hrestores s hs).1 0 _ _ _ _ hfetch⟩
    · cases hcounted
  · cases hcounted

end FactCast.FactusImpl
