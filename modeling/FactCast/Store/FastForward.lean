import FactCast.Store.StreamOrder

/-! Fast-forwards.

A stream that is through with its catchup tells its client to take a later
position, the latest fact the refresher knows of. The refresher is a timer of its
own. Two things can go wrong. It may put a new target in place after the last
catchup query saw the log: then the target may lie beyond a matching fact that
this query did not see, and the client, which keeps the position, never gets
that fact. And it may do so between the reading of the target's id and that of
its serial, which then belong to different facts.

`keeps` is the condition that neither happens. Under it every fast-forward names
a committed fact, and whatever matches up to there was sent before
(`fastForward_never_overtakes`). Without it that is not so (`refreshed_overtakes`). -/
namespace FactCast.PgFactStream

/-- Nothing that matches and was committed after the snapshot lies at or below the mark. -/
def Clear (db : Database) (request : SubscriptionRequest) (log snapshot : List FactRow)
    (mark : HighWaterMark) : Prop :=
  ∀ row ∈ log, matching db request row = true → Log.last FactRow.ser snapshot < row.ser →
    mark.targetSer < row.ser

instance (db : Database) (request : SubscriptionRequest) (log snapshot : List FactRow)
    (mark : HighWaterMark) : Decidable (Clear db request log snapshot mark) :=
  inferInstanceAs (Decidable (∀ row ∈ log, matching db request row = true →
    Log.last FactRow.ser snapshot < row.ser → mark.targetSer < row.ser))

/-- A refresh of the target does no harm. From the last catchup query on it must
not reach beyond a matching fact that this query did not see; once the id is
read, the target must stay, or be too low for a signal. -/
def keeps (db : Database) (request : SubscriptionRequest) (s : State) : Action → Bool
  | .setTarget => s.refreshed.all fun mark =>
      match s.phase with
      | .fetching true _ => s.disconnected || decide (Clear db request s.log s.snapshot mark)
      | .fastForward => s.disconnected || decide (Clear db request s.log s.snapshot mark)
      | .readTarget startedSer (some _) =>
        mark == s.target || decide (mark.targetSer ≤ max startedSer s.serial)
      | _ => true
  | _ => true

/-- Every fast-forward that was sent names a committed fact, and what matches
from the start up to there was sent before it. -/
def Signalled (db : Database) (request : SubscriptionRequest) (s : State) : Prop :=
  ∀ before id ser rest, s.sent = before ++ .fastForward id ser :: rest →
    (∃ row ∈ s.log, row.fact.id = id ∧ row.ser = ser) ∧
    ∀ row ∈ s.log, matching db request row = true → s.started < row.ser → row.ser ≤ ser →
      .fact row ∈ before

/-- The mark is no mark, or it is a fact of the log. -/
structure Refers (log : List FactRow) (mark : HighWaterMark) : Prop where
  below : mark.targetSer ≤ Log.last FactRow.ser log
  fact : ∀ id, mark.targetId = some id → ∃ row ∈ log, row.fact.id = id ∧ row.ser = mark.targetSer

/-- Everything that matches in what the latest query saw was handed over. -/
def Delivered (db : Database) (request : SubscriptionRequest) (s : State) : Prop :=
  ∀ row ∈ s.snapshot, matching db request row = true → s.started < row.ser → row ∈ s.facts

/-- What holds of the target before the stream's next step. -/
def Aimed (db : Database) (request : SubscriptionRequest) (s : State) : Prop :=
  match s.phase with
  | .connecting => s.sent = []
  | .jumping => s.sent = []
  | .fetching true _ => s.disconnected = false → Clear db request s.log s.snapshot s.target
  | .fastForward => s.disconnected = false →
      Clear db request s.log s.snapshot s.target ∧ Delivered db request s
  | .readTarget startedSer (some id) =>
      s.target.targetSer ≤ max startedSer s.serial ∨
        Clear db request s.log s.snapshot s.target ∧ Delivered db request s ∧
          ∃ row ∈ s.log, row.fact.id = id ∧ row.ser = s.target.targetSer
  | _ => True

structure Forwarding (db : Database) (request : SubscriptionRequest) (s : State) : Prop where
  target : Refers s.log s.target
  refreshed : ∀ mark, s.refreshed = some mark → Refers s.log mark
  aimed : Aimed db request s
  signalled : Signalled db request s

section Steps
variable {db : Database} {request : SubscriptionRequest} {s s' : State}

theorem refers_highWaterMark (log : List FactRow) : Refers log (highWaterMark log) := by
  unfold highWaterMark
  split
  · rename_i row hlast
    have hrow : row ∈ log := List.mem_of_getLast? hlast
    have hle : row.ser ≤ Log.last FactRow.ser log := Log.le_last hrow
    refine ⟨hle, fun id hid => ⟨row, hrow, ?_, rfl⟩⟩
    simpa using hid
  · refine ⟨Nat.zero_le _, fun id hid => ?_⟩
    cases hid

theorem Refers.append {log rows : List FactRow} {mark : HighWaterMark} (h : Refers log mark) :
    Refers (log ++ rows) mark := by
  refine ⟨Nat.le_trans h.below last_mono, fun id hid => ?_⟩
  obtain ⟨row, hrow, hrest⟩ := h.fact id hid
  exact ⟨row, List.mem_append_left _ hrow, hrest⟩

/-- A query that sees the log as it is leaves nothing behind it. -/
theorem clear_now {log : List FactRow} {mark : HighWaterMark} : Clear db request log log mark := by
  intro row hrow _ hlt
  have hle : row.ser ≤ Log.last FactRow.ser log := Log.le_last hrow
  omega

theorem Clear.append {log rows snapshot : List FactRow} {mark : HighWaterMark}
    (h : Clear db request log snapshot mark) (hmark : mark.targetSer ≤ Log.last FactRow.ser log)
    (hasc : Log.Ascending FactRow.ser (log ++ rows)) (hpos : ∀ row ∈ rows, 0 < row.ser) :
    Clear db request (log ++ rows) snapshot mark := by
  intro row hrow hm hlt
  rcases List.mem_append.mp hrow with hrow | hrow
  · exact h row hrow hm hlt
  · exact Nat.lt_of_le_of_lt hmark (last_lt hasc hpos hrow)

/-- New facts lie above every fast-forward that was sent. -/
theorem Signalled.publish {rows : List FactRow} (h : Signalled db request s)
    (hasc : Log.Ascending FactRow.ser (s.log ++ rows)) (hpos : ∀ row ∈ rows, 0 < row.ser) :
    Signalled db request { s with log := s.log ++ rows } := by
  intro before id ser rest hsent
  obtain ⟨⟨mark, hmark, hid, hser⟩, hall⟩ := h before id ser rest hsent
  refine ⟨⟨mark, List.mem_append_left _ hmark, hid, hser⟩, fun row hrow hm hlt hle => ?_⟩
  rcases List.mem_append.mp hrow with hrow | hrow
  · exact hall row hrow hm hlt hle
  · have := last_lt hasc hpos hrow
    have hbelow : mark.ser ≤ Log.last FactRow.ser s.log := Log.le_last hmark
    omega

/-- What is sent besides fast-forwards changes nothing for those that were. -/
theorem Signalled.extend {more : List Signal} (h : Signalled db request s) (hlog : s'.log = s.log)
    (hstarted : s'.started = s.started) (hsent : s'.sent = s.sent ++ more)
    (hmore : ∀ id ser, .fastForward id ser ∉ more) : Signalled db request s' := by
  intro before id ser rest heq
  rw [hlog, hstarted]
  rw [hsent] at heq
  rcases List.append_eq_append_iff.mp heq with ⟨front, hbefore, hmid⟩ | ⟨back, hsent', hmid⟩
  · exfalso
    apply hmore id ser
    rw [hmid]
    exact List.mem_append_right _ (List.mem_cons_self ..)
  · cases back with
    | nil =>
      exfalso
      apply hmore id ser
      rw [List.nil_append] at hmid
      rw [← hmid]
      exact List.mem_cons_self ..
    | cons signal back =>
      obtain ⟨rfl, rfl⟩ := List.cons.inj hmid
      exact h before id ser back hsent'

theorem signalled_nil (hsent : s.sent = []) : Signalled db request s := by
  intro before id ser rest heq
  rw [hsent] at heq
  simp at heq

/-- A step that leaves log, target and start alone and sends no fast-forward. -/
theorem Forwarding.move (h : Forwarding db request s) (more : List Signal) (hlog : s'.log = s.log)
    (htarget : s'.target = s.target) (hrefreshed : s'.refreshed = s.refreshed)
    (hstarted : s'.started = s.started) (hsent : s'.sent = s.sent ++ more)
    (hmore : ∀ id ser, .fastForward id ser ∉ more) (haimed : Aimed db request s') :
    Forwarding db request s' := by
  refine ⟨?_, ?_, haimed, h.signalled.extend hlog hstarted hsent hmore⟩
  · rw [hlog, htarget]
    exact h.target
  · rw [hlog, hrefreshed]
    exact h.refreshed

/-- The same, sending nothing. -/
theorem Forwarding.silent (h : Forwarding db request s) (hlog : s'.log = s.log)
    (htarget : s'.target = s.target) (hrefreshed : s'.refreshed = s.refreshed)
    (hstarted : s'.started = s.started) (hsent : s'.sent = s.sent) (haimed : Aimed db request s') :
    Forwarding db request s' := by
  apply h.move [] hlog htarget hrefreshed hstarted _ _ haimed
  · rw [hsent, List.append_nil]
  · simp

theorem Forwarding.publish {rows : List FactRow} (h : Forwarding db request s)
    (hasc : Log.Ascending FactRow.ser (s.log ++ rows)) (hpos : ∀ row ∈ rows, 0 < row.ser) :
    Forwarding db request { s with log := s.log ++ rows } := by
  refine ⟨h.target.append, fun mark hmark => (h.refreshed mark hmark).append, ?_,
    h.signalled.publish hasc hpos⟩
  have haimed := h.aimed
  have hclear := fun hc : Clear db request s.log s.snapshot s.target =>
    hc.append h.target.below hasc hpos
  unfold Aimed at haimed ⊢
  cases hphase : s.phase with
  | connecting =>
    rw [hphase] at haimed
    exact haimed
  | jumping =>
    rw [hphase] at haimed
    exact haimed
  | fetching second todo =>
    rw [hphase] at haimed
    cases second with
    | true => exact fun hc => hclear (haimed hc)
    | false => trivial
  | fastForward =>
    rw [hphase] at haimed
    exact fun hc => ⟨hclear (haimed hc).1, (haimed hc).2⟩
  | readTarget startedSer targetId =>
    rw [hphase] at haimed
    cases targetId with
    | none => trivial
    | some id =>
      rcases haimed with hlow | ⟨hc, hdelivered, row, hrow, hrest⟩
      · exact .inl hlow
      · exact .inr ⟨hclear hc, hdelivered, row, List.mem_append_left _ hrow, hrest⟩
  | _ => trivial

theorem Forwarding.setTarget {mark : HighWaterMark} (h : Forwarding db request s)
    (hk : keeps db request s .setTarget = true) (hmark : s.refreshed = some mark) :
    Forwarding db request { s with target := mark, refreshed := none } := by
  refine ⟨h.refreshed mark hmark, fun _ hnone => (by cases hnone), ?_, h.signalled⟩
  have haimed := h.aimed
  simp only [keeps, hmark, Option.all_some] at hk
  unfold Aimed at haimed ⊢
  cases hphase : s.phase with
  | connecting =>
    rw [hphase] at haimed
    exact haimed
  | jumping =>
    rw [hphase] at haimed
    exact haimed
  | fetching second todo =>
    rw [hphase] at hk
    cases second with
    | true => exact fun hc => by simpa [show s.disconnected = false from hc] using hk
    | false => trivial
  | fastForward =>
    rw [hphase] at hk haimed
    exact fun hc => ⟨by simpa [show s.disconnected = false from hc] using hk, (haimed hc).2⟩
  | readTarget startedSer targetId =>
    rw [hphase] at hk haimed
    cases targetId with
    | none => trivial
    | some id =>
      simp only [Bool.or_eq_true, beq_iff_eq, decide_eq_true_eq] at hk
      rcases hk with hstay | hlow
      · show mark.targetSer ≤ _ ∨ Clear db request s.log s.snapshot mark ∧ _ ∧
          ∃ row ∈ s.log, row.fact.id = id ∧ row.ser = mark.targetSer
        rw [hstay]
        exact haimed
      · exact .inl hlow
  | _ => trivial

theorem Forwarding.close (h : Forwarding db request s) :
    Forwarding db request { s with disconnected := true } := by
  refine ⟨h.target, h.refreshed, ?_, h.signalled⟩
  have haimed := h.aimed
  unfold Aimed at haimed ⊢
  cases hphase : s.phase with
  | connecting =>
    rw [hphase] at haimed
    exact haimed
  | jumping =>
    rw [hphase] at haimed
    exact haimed
  | fetching second todo =>
    rw [hphase] at haimed
    cases second with
    | true =>
      intro hc
      cases hc
    | false => trivial
  | fastForward =>
    intro hc
    cases hc
  | readTarget startedSer targetId =>
    rw [hphase] at haimed
    cases targetId with
    | none => trivial
    | some id => exact haimed
  | _ => trivial

theorem Forwarding.unsent (h : Forwarding db request s) (hphase : s.phase = .connecting ∨ s.phase = .jumping) :
    s.sent = [] := by
  have hsent := h.aimed
  unfold Aimed at hsent
  rcases hphase with hphase | hphase <;> rw [hphase] at hsent <;> exact hsent

theorem Forwarding.clear {todo : List FactRow} (h : Forwarding db request s)
    (hphase : s.phase = .fetching true todo) (hc : s.disconnected = false) :
    Clear db request s.log s.snapshot s.target := by
  have haimed := h.aimed
  unfold Aimed at haimed
  rw [hphase] at haimed
  exact haimed hc

/-- The second query is through. -/
theorem Forwarding.finish {second : Bool} (hi : Inv db request s) (h : Forwarding db request s)
    (hphase : s.phase = .fetching second []) :
    Forwarding db request { s.send .flush with finished := s.through, phase := afterCatchup second } := by
  refine h.move _ rfl rfl rfl rfl rfl (by simp) ?_
  cases second with
  | false => trivial
  | true =>
    intro hc
    refine ⟨h.clear hphase hc, fun row hrow hm hlt => ?_⟩
    have hthrough : s.through = s.snapshot := by
      unfold State.through
      rw [show s.disconnected = false from hc]
      rfl
    have hmem := hi.through (hi.fetching hphase).1 row (hthrough ▸ hrow) hm hlt
    show row ∈ (s.send .flush).facts
    rw [facts_send]
    exact List.mem_append_left _ hmem

theorem Forwarding.fastForward (h : Forwarding db request s) (hphase : s.phase = .fastForward)
    (hc : s.disconnected = false) :
    Forwarding db request
      { s with phase := .readTarget (retrieve s.log request.startingAfter) s.target.targetId } := by
  have haimed := h.aimed
  unfold Aimed at haimed
  rw [hphase] at haimed
  refine h.silent rfl rfl rfl rfl rfl ?_
  obtain ⟨hclear, hdelivered⟩ := haimed hc
  unfold Aimed
  cases hid : s.target.targetId with
  | none => trivial
  | some id => exact .inr ⟨hclear, hdelivered, h.target.fact id hid⟩

/-- A matching fact at or below a clear mark was in the snapshot, and is sent. -/
theorem sent_of_clear {row : FactRow} (hi : Inv db request s)
    (hclear : Clear db request s.log s.snapshot s.target) (hdelivered : Delivered db request s)
    (hrow : row ∈ s.log) (hm : matching db request row = true) (hlt : s.started < row.ser)
    (hle : row.ser ≤ s.target.targetSer) : .fact row ∈ s.sent := by
  have hsnapshot : row ∈ s.snapshot := by
    obtain ⟨rest, hlog⟩ := hi.snapshot
    rw [← hlog] at hrow
    rcases List.mem_append.mp hrow with hrow | hrow
    · exact hrow
    · have hasc := hi.ascending
      have hpos : ∀ x ∈ rest, 0 < x.ser := fun x hx =>
        hi.positive x (hlog ▸ List.mem_append_right _ hx)
      rw [← hlog] at hasc
      have hlast := last_lt hasc hpos hrow
      have := hclear row (hlog ▸ List.mem_append_right _ hrow) hm hlast
      omega
  obtain ⟨signal, hsignal, hfact⟩ := List.mem_filterMap.mp (hdelivered row hsnapshot hm hlt)
  cases signal with
  | fact row' =>
    cases hfact
    exact hsignal
  | _ => cases hfact

theorem Forwarding.readTarget {startedSer : Nat} {id : UUID} (hi : Inv db request s) (h : Forwarding db request s)
    (hphase : s.phase = .readTarget startedSer (some id))
    (hahead : s.target.targetSer > startedSer ∧ s.serial < s.target.targetSer) :
    Forwarding db request { s.send (.fastForward id s.target.targetSer) with phase := .signalCatchup } := by
  have haimed := h.aimed
  unfold Aimed at haimed
  rw [hphase] at haimed
  refine ⟨h.target, h.refreshed, trivial, ?_⟩
  rcases haimed with hlow | ⟨hclear, hdelivered, hfact⟩
  · omega
  · intro before id' ser rest heq
    -- the signal is this one, or one sent before
    rcases List.eq_nil_or_concat rest with rfl | ⟨front, last, rfl⟩
    · obtain ⟨hbefore, hlast⟩ := List.append_inj' heq rfl
      cases hlast
      refine ⟨hfact, fun row hrow hm hlt hle => ?_⟩
      exact hbefore ▸ sent_of_clear hi hclear hdelivered hrow hm hlt hle
    · have hcons : before ++ .fastForward id' ser :: front.concat last =
          (before ++ .fastForward id' ser :: front) ++ [last] := by simp
      rw [hcons] at heq
      exact h.signalled before id' ser front (List.append_inj' heq rfl).1

theorem forwarding_step {a : Action} (hi : Inv db request s) (h : Forwarding db request s)
    (hk : keeps db request s a = true) (hs : step db request s a = some s') :
    Forwarding db request s' := by
  cases step_cases hs with
  | publish hasc hpos => exact h.publish hasc hpos
  | queryTarget =>
    refine ⟨h.target, fun mark hmark => ?_, h.aimed, h.signalled⟩
    cases hmark
    exact refers_highWaterMark s.log
  | setTarget hmark => exact h.setTarget hk hmark
  | close => exact h.close
  | connect hphase =>
    have hsent := h.unsent (.inl hphase)
    refine ⟨h.target, h.refreshed, ?_, signalled_nil hsent⟩
    cases request.ephemeral with
    | true => exact hsent
    | false => trivial
  | jump hphase =>
    refine ⟨h.target, h.refreshed, fun _ => ⟨clear_now, fun row hrow _ hlt => ?_⟩,
      signalled_nil (h.unsent (.inr hphase))⟩
    have hle : row.ser ≤ Log.last FactRow.ser s.log := Log.le_last hrow
    exact absurd hle (Nat.not_le.mpr hlt)
  | @passCatchup second _ hclosed =>
    refine h.silent rfl rfl rfl rfl rfl ?_
    cases second with
    | true => exact fun hc => nomatch hclosed.symm.trans hc
    | false => trivial
  | @catchup second =>
    refine h.silent rfl rfl rfl rfl rfl ?_
    cases second with
    | true => exact fun _ => clear_now
    | false => trivial
  | @fetchRow second _ _ hphase =>
    refine h.move _ rfl rfl rfl rfl rfl (by simp) ?_
    cases second with
    | true => exact h.clear hphase
    | false => trivial
  | followRow => exact h.move _ rfl rfl rfl rfl rfl (by simp) trivial
  | @skipFetched second _ _ _ hphase =>
    refine h.silent rfl rfl rfl rfl rfl ?_
    cases second with
    | true => exact h.clear hphase
    | false => trivial
  | skipFollowed => exact h.silent rfl rfl rfl rfl rfl trivial
  | @failFetched handed _ r =>
    cases handed with
    | true => exact h.move [.fact r, .flush, .error] rfl rfl rfl rfl (by simp [State.send]) (by simp) trivial
    | false => exact h.move [.flush, .error] rfl rfl rfl rfl (by simp [State.send]) (by simp) trivial
  | @failFollowed handed _ r =>
    cases handed with
    | true => exact h.move [.fact r, .error] rfl rfl rfl rfl (by simp [State.send]) (by simp) trivial
    | false => exact h.move _ rfl rfl rfl rfl rfl (by simp) trivial
  | finishCatchup hphase => exact h.finish hi hphase
  | finishRun => exact h.move _ rfl rfl rfl rfl rfl (by simp) trivial
  | fastForward hphase hc => exact h.fastForward hphase hc
  | readTarget hphase hahead => exact h.readTarget hi hphase hahead
  | signalCatchup => exact h.move _ rfl rfl rfl rfl rfl (by simp) trivial
  | complete => exact h.move _ rfl rfl rfl rfl rfl (by simp) trivial
  | failConnect => exact h.move _ rfl rfl rfl rfl rfl (by simp) trivial
  -- the rest sends nothing, and the target is of no account afterwards
  | _ => exact h.silent rfl rfl rfl rfl rfl trivial

theorem forwarding_start (h : Start s) : Forwarding db request s := by
  refine ⟨?_, fun mark hmark => ?_, ?_, signalled_nil h.sent⟩
  · rw [h.target]
    refine ⟨Nat.zero_le _, fun id hid => ?_⟩
    cases hid
  · rw [h.refreshed] at hmark
    cases hmark
  · unfold Aimed
    rw [h.phase]
    exact h.sent

end Steps

/-- In every run in which no refresh of the target does harm, a fast-forward never
overtakes a matching fact, and its id and serial are those of one fact. -/
theorem fastForward_never_overtakes (db : Database) (request : SubscriptionRequest) (s : State)
    (h : (streaming db request).ReachableUnder (fun s a => keeps db request s a = true) s) :
    Signalled db request s := by
  have hforwarding : Forwarding db request s :=
    h.invariant_from (fun _ => forwarding_start) fun s a s' hr hf hk hs => by
      have hs : step db request s a = some s' := hs
      exact forwarding_step (inv hr.reachable) hf hk hs
  exact hforwarding.signalled

/-- The serial a fast-forward leads to. -/
def Signal.position? : Signal → Option Nat
  | .fastForward _ ser => some ser
  | _ => none

/-- A fact of another namespace comes last, and its position is where the stream sends its client. -/
def refreshedBefore : List Action :=
  [.connect, .catchup, .row, .finish, .publish [⟨2, paid 2⟩], .queryTarget, .setTarget, .catchup,
    .finish, .fastForward, .readTarget, .publish [⟨3, placed 3⟩]]

theorem fastForward_never_overtakes_refreshedBefore : ∃ s, Signalled .quoted orders s ∧
    s.sent.filterMap Signal.position? = [2] := by
  have hstart : (streaming .quoted orders).Start unconnected :=
    ⟨by decide, by decide, rfl, rfl, rfl, rfl, rfl, rfl, rfl, rfl⟩
  obtain ⟨s, hs, hsent⟩ := Machine.exists_reachableUnder hstart refreshedBefore
    (fun s => s.sent.filterMap Signal.position?) (c := keeps .quoted orders) (b := [2])
    (by decide +kernel)
  exact ⟨s, fastForward_never_overtakes .quoted orders s hs, hsent⟩

/-- An order is placed, and the target refreshed, when the last catchup query is through. -/
def refreshedAfter : List Action :=
  [.connect, .catchup, .row, .finish, .catchup, .finish, .publish [⟨2, placed 2⟩], .queryTarget,
    .setTarget, .fastForward, .readTarget]

theorem refreshed_overtakes :
    ¬ ∀ s, (streaming .quoted orders).Reachable s → Signalled .quoted orders s := by
  have hstart : (streaming .quoted orders).Start unconnected :=
    ⟨by decide, by decide, rfl, rfl, rfl, rfl, rfl, rfl, rfl, rfl⟩
  -- the signal of serial 2 is sent, the matching row of serial 2 is not
  obtain ⟨s, hs, hstate⟩ := Machine.exists_reachable hstart refreshedAfter
    (fun s => (s.sent.any (fun signal => signal.position? == some 2),
      s.log.any (fun row => matching .quoted orders row && row.ser == 2),
      s.facts.map FactRow.ser, s.started)) (b := (true, true, [1], 0)) (by decide +kernel)
  intro hall
  simp only [Prod.mk.injEq] at hstate
  obtain ⟨hsignal, hlog, hfacts, hstarted⟩ := hstate
  obtain ⟨signal, hsignal, hser⟩ := List.any_eq_true.mp hsignal
  obtain ⟨row, hrow, hrowser⟩ := List.any_eq_true.mp hlog
  simp only [Bool.and_eq_true, beq_iff_eq] at hrowser
  cases signal with
  | fastForward id ser =>
    obtain ⟨before, rest, hsent⟩ := List.append_of_mem hsignal
    have hser : ser = 2 := by simpa [Signal.position?] using hser
    have hmem := (hall s hs before id ser rest hsent).2 row hrow hrowser.1 (by omega) (by omega)
    have hfact : row ∈ s.facts := by
      refine List.mem_filterMap.mpr ⟨.fact row, ?_, rfl⟩
      rw [hsent]
      exact List.mem_append_left _ hmem
    have hin := List.mem_map_of_mem (f := FactRow.ser) hfact
    rw [hfacts, hrowser.2] at hin
    simp at hin
  | _ => simp [Signal.position?] at hser

end FactCast.PgFactStream
