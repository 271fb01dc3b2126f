import FactCast.Store.StreamOrder

/-! What a connected stream has signalled, flushes apart.

First facts, then at most one fast-forward, the catchup, and the completion unless the
stream goes on to follow. The last of the facts is flushed before anything else is
signalled, and when the catchup is due the facts are all that its queries saw, which is
at least what was there when the stream connected (`announced`). -/
namespace FactCast.PgFactStream

def Signal.isFlush : Signal → Bool
  | .flush => true
  | _ => false

/-- What was handed over, flushes apart. -/
def State.signals (s : State) : List Signal := s.sent.filter fun x => !x.isFlush

/-- The facts, and what was signalled after them. -/
def State.Says (s : State) (tail : List Signal) : Prop := s.signals = s.facts.map .fact ++ tail

/-- No fact was handed over since the last flush. -/
def State.Flushed (s : State) : Prop := s.sent = [] ∨ ∃ earlier, s.sent = earlier ++ [.flush]

/-- A fast-forward, or none. -/
def forwarded : Option (UUID × Nat) → List Signal
  | some target => [.fastForward target.1 target.2]
  | none => []

/-- Both queries are through, and have seen what was there when the stream connected. -/
def Through (db : Database) (request : SubscriptionRequest) (s : State) : Prop :=
  request.ephemeral = false →
    s.facts = Log.after FactRow.ser (matching db request) s.started s.finished ∧ s.opened <+: s.finished

/-- What a connected stream has signalled before its next step. -/
def Announced (db : Database) (request : SubscriptionRequest) (s : State) : Prop :=
  s.disconnected = false →
    match s.phase with
    | .connecting => s.sent = []
    | .jumping => s.sent = []
    | .catchup _ => s.Says [] ∧ s.Flushed ∧ s.opened <+: s.log
    | .fetching _ _ => s.Says [] ∧ s.opened <+: s.snapshot
    | .fastForward => s.Says [] ∧ s.Flushed ∧ Through db request s
    | .readTarget _ _ => s.Says [] ∧ s.Flushed ∧ Through db request s
    | .signalCatchup => (∃ target, s.Says (forwarded target)) ∧ Through db request s
    | .register => (∃ target, s.Says (forwarded target ++ [.catchup])) ∧ Through db request s
    | .ended => (∃ target, s.Says (forwarded target ++ [.catchup, .complete])) ∧ Through db request s
    | _ => True

section Steps
variable {db : Database} {request : SubscriptionRequest} {s s' : State}

theorem signals_send (signal : Signal) :
    (s.send signal).signals = s.signals ++ if signal.isFlush then [] else [signal] := by
  unfold State.signals State.send
  rw [List.filter_append]
  cases signal <;> rfl

theorem Says.fact {r : FactRow} (h : s.Says []) : (s.send (.fact r)).Says [] := by
  unfold State.Says at h ⊢
  rw [signals_send, facts_send, h, List.map_append, List.append_nil, List.append_nil]
  rfl

theorem Says.flush {tail : List Signal} (h : s.Says tail) : (s.send .flush).Says tail := by
  unfold State.Says at h ⊢
  rw [signals_send, facts_send, h]
  simp [Signal.isFlush, Signal.fact?]

/-- Anything but a fact or a flush is signalled behind what there is. -/
theorem Says.send {tail : List Signal} {signal : Signal} (h : s.Says tail) (hfact : signal.fact? = none)
    (hflush : signal.isFlush = false) : (s.send signal).Says (tail ++ [signal]) := by
  unfold State.Says at h ⊢
  rw [signals_send, facts_send, h, hfact, hflush]
  simp

theorem flushed_send : (s.send .flush).Flushed := .inr ⟨s.sent, rfl⟩

theorem Through.send {signal : Signal} (h : Through db request s) (hfact : signal.fact? = none) :
    Through db request (s.send signal) := by
  intro hcatchup
  rw [facts_send, hfact, Option.toList_none, List.append_nil]
  exact h hcatchup

theorem says_nil (h : s.sent = []) : s.Says [] := by
  simp [State.Says, State.signals, State.facts, h]

/-- The second query is through. -/
theorem through_flush {todo : List FactRow} (hi : Inv db request s) (hphase : s.phase = .fetching true todo)
    (htodo : todo = []) (hc : s.disconnected = false) :
    (s.send .flush).facts = Log.after FactRow.ser (matching db request) s.started s.through := by
  have hseen := ((hi.fetching hphase).1 hc).handed
  rw [htodo, List.append_nil] at hseen
  rw [facts_send]
  simpa [Signal.fact?, State.through, hc] using hseen

/-- The steps that close the stream, pass rows over or belong to a follow run say nothing
that matters here. -/
theorem announced_step {a : Action} (hi : Inv db request s) (h : Announced db request s)
    (hs : step db request s a = some s') : Announced db request s' := by
  cases step_cases hs with
  | publish hasc hpos =>
    intro hc
    have hsaid := h hc
    revert hsaid
    cases hphase : s.phase with
    | catchup second => exact fun hsaid => ⟨hsaid.1, hsaid.2.1, hsaid.2.2.trans (List.prefix_append ..)⟩
    | _ => exact id
  | queryTarget => exact h
  | setTarget hmark => exact h
  | close => exact fun hc => nomatch hc
  | connect hphase =>
    intro hc
    have hsent := h hc
    rw [hphase] at hsent
    cases request.ephemeral with
    | true => exact hsent
    | false => exact ⟨says_nil hsent, .inl hsent, List.prefix_rfl⟩
  | jump hphase =>
    intro hc
    have hsent := h hc
    rw [hphase] at hsent
    have hready := hi.ready
    unfold Ready at hready
    rw [hphase] at hready
    exact ⟨says_nil hsent, .inl hsent, fun hcatchup => nomatch hready.2.2.symm.trans hcatchup⟩
  | passCatchup hphase hclosed => exact fun hc => nomatch hclosed.symm.trans hc
  | catchup hphase hc hselect =>
    intro _
    have hsaid := h hc
    rw [hphase] at hsaid
    exact ⟨hsaid.1, hsaid.2.2⟩
  | fetchRow hphase =>
    intro hc
    have hsaid := h hc
    rw [hphase] at hsaid
    exact ⟨Says.fact hsaid.1, hsaid.2⟩
  | followRow hphase hc => exact fun _ => trivial
  | skipFetched hclosed hphase => exact fun hc => nomatch hclosed.symm.trans hc
  | skipFollowed hclosed hphase => exact fun hc => nomatch hclosed.symm.trans hc
  | failFetched hphase => exact fun hc => nomatch hc
  | failFollowed hphase hc => exact fun hc => nomatch hc
  | @finishCatchup second hphase =>
    intro hc
    have hsaid := h hc
    rw [hphase] at hsaid
    have hwords : (s.send .flush).Says [] := Says.flush hsaid.1
    cases second with
    | false => exact ⟨hwords, flushed_send, hsaid.2.trans hi.snapshot⟩
    | true =>
      refine ⟨hwords, flushed_send, fun _ => ⟨through_flush hi hphase rfl hc, ?_⟩⟩
      show s.opened <+: s.through
      simpa [State.through, show s.disconnected = false from hc] using hsaid.2
  | finishRun hphase => exact fun _ => trivial
  | passFastForward hphase hclosed => exact fun hc => nomatch hclosed.symm.trans hc
  | fastForward hphase hc =>
    intro _
    have hsaid := h hc
    rw [hphase] at hsaid
    exact hsaid
  | noTarget hphase =>
    intro hc
    have hsaid := h hc
    rw [hphase] at hsaid
    exact ⟨⟨none, hsaid.1⟩, hsaid.2.2⟩
  | passTarget hphase hbehind =>
    intro hc
    have hsaid := h hc
    rw [hphase] at hsaid
    exact ⟨⟨none, hsaid.1⟩, hsaid.2.2⟩
  | @readTarget startedSer id hphase hahead =>
    intro hc
    have hsaid := h hc
    rw [hphase] at hsaid
    exact ⟨⟨some (id, s.target.targetSer), Says.send hsaid.1 rfl rfl⟩, Through.send hsaid.2.2 rfl⟩
  | passSignal hphase hclosed => exact fun hc => nomatch hclosed.symm.trans hc
  | signalCatchup hphase hc =>
    intro _
    have hsaid := h hc
    rw [hphase] at hsaid
    obtain ⟨⟨target, hwords⟩, hthrough⟩ := hsaid
    exact ⟨⟨target, Says.send hwords rfl rfl⟩, Through.send hthrough rfl⟩
  | passRegister hphase hclosed => exact fun hc => nomatch hclosed.symm.trans hc
  | register hphase hc hcontinuous => exact fun _ => trivial
  | complete hphase hc hends =>
    intro _
    have hsaid := h hc
    rw [hphase] at hsaid
    obtain ⟨⟨target, hwords⟩, hthrough⟩ := hsaid
    refine ⟨⟨target, ?_⟩, Through.send hthrough rfl⟩
    have hlast := Says.send hwords (rfl : Signal.complete.fact? = none) rfl
    rw [List.append_assoc] at hlast
    exact hlast
  | trigger hphase => exact fun _ => trivial
  | query hphase hselect => exact fun _ => trivial
  | failLatest hphase => exact fun _ => trivial
  | failRun hphase => exact fun _ => trivial
  | failConnect hlatest hrunning hidle hended => exact fun hc => nomatch hc

end Steps

theorem announced {db : Database} {request : SubscriptionRequest} {s : State}
    (h : (streaming db request).Reachable s) : Announced db request s := by
  refine h.invariant_from (fun s hstart _ => ?_) fun s a s' hr hi _ hs => announced_step (inv hr) hi hs
  rw [hstart.phase]
  exact hstart.sent

/-! ### What one step changes -/

/-- The stream does not know yet where it starts. -/
def Phase.early : Phase → Bool
  | .connecting => true
  | .jumping => true
  | _ => false

/-- The log and what was handed over grow, the start is settled once, and an end is an end. -/
structure Moves (s s' : State) : Prop where
  log : s.log <+: s'.log
  sent : s.sent <+: s'.sent
  start : s.phase.early = true ∨ s'.phase.early = false ∧ s'.started = s.started ∧ s'.opened = s.opened
  ended : s.phase = .ended → s'.phase = .ended ∧ s'.finished = s.finished

section Moves
variable {db : Database} {request : SubscriptionRequest} {s s' : State}

theorem sent_send (signal : Signal) : s.sent <+: (s.send signal).sent := List.prefix_append ..

theorem early_afterCatchup (second : Bool) : (afterCatchup second).early = false := by
  cases second <;> rfl

/-- The stream stays where it is. -/
theorem Moves.stay (hlog : s.log <+: s'.log) (hsent : s'.sent = s.sent) (hphase : s'.phase = s.phase)
    (hsame : s'.started = s.started ∧ s'.opened = s.opened ∧ s'.finished = s.finished) : Moves s s' := by
  refine ⟨hlog, hsent ▸ List.prefix_rfl, ?_, fun hended => ⟨hphase.trans hended, hsame.2.2⟩⟩
  cases hearly : s.phase.early with
  | true => exact .inl rfl
  | false => exact .inr ⟨by rw [hphase, hearly], hsame.1, hsame.2.1⟩

/-- The stream goes on from a phase that is not its last. -/
theorem Moves.proceed {phase : Phase} (hphase : s.phase = phase) (hlast : phase ≠ .ended)
    (hlog : s'.log = s.log) (hsent : s.sent <+: s'.sent) (hnext : s'.phase.early = false)
    (hsame : s'.started = s.started ∧ s'.opened = s.opened) : Moves s s' :=
  ⟨hlog ▸ List.prefix_rfl, hsent, .inr ⟨hnext, hsame⟩, fun hended => absurd (hphase.symm.trans hended) hlast⟩

theorem prefix_handed (s : State) (handed : Bool) (r : FactRow) :
    s.sent <+: (if handed then s.send (.fact r) else s).sent := by
  cases handed with
  | true => exact sent_send _
  | false => exact List.prefix_rfl

theorem moves_step {a : Action} (hs : step db request s a = some s') : Moves s s' := by
  cases step_cases hs with
  | publish hasc hpos => exact .stay (List.prefix_append ..) rfl rfl ⟨rfl, rfl, rfl⟩
  | queryTarget => exact .stay List.prefix_rfl rfl rfl ⟨rfl, rfl, rfl⟩
  | setTarget hmark => exact .stay List.prefix_rfl rfl rfl ⟨rfl, rfl, rfl⟩
  | close => exact .stay List.prefix_rfl rfl rfl ⟨rfl, rfl, rfl⟩
  | connect hphase =>
    exact ⟨List.prefix_rfl, List.prefix_rfl, .inl (by rw [hphase]; rfl), fun hended => nomatch hphase.symm.trans hended⟩
  | jump hphase =>
    exact ⟨List.prefix_rfl, List.prefix_rfl, .inl (by rw [hphase]; rfl), fun hended => nomatch hphase.symm.trans hended⟩
  | passCatchup hphase hc => exact .proceed hphase nofun rfl List.prefix_rfl (early_afterCatchup _) ⟨rfl, rfl⟩
  | catchup hphase hc hselect => exact .proceed hphase nofun rfl List.prefix_rfl rfl ⟨rfl, rfl⟩
  | fetchRow hphase => exact .proceed hphase nofun rfl (sent_send _) rfl ⟨rfl, rfl⟩
  | followRow hphase hc => exact .proceed hphase nofun rfl (sent_send _) rfl ⟨rfl, rfl⟩
  | skipFetched hc hphase => exact .proceed hphase nofun rfl List.prefix_rfl rfl ⟨rfl, rfl⟩
  | skipFollowed hc hphase => exact .proceed hphase nofun rfl List.prefix_rfl rfl ⟨rfl, rfl⟩
  | @failFetched handed _ r _ hphase =>
    have hsent := ((prefix_handed s handed r).trans (sent_send .flush)).trans (sent_send .error)
    refine .proceed hphase nofun ?_ hsent rfl ?_
    · cases handed <;> rfl
    · cases handed <;> exact ⟨rfl, rfl⟩
  | @failFollowed handed _ r _ hphase hc =>
    refine .proceed hphase nofun ?_ ((prefix_handed s handed r).trans (sent_send .error)) rfl ?_
    · cases handed <;> rfl
    · cases handed <;> exact ⟨rfl, rfl⟩
  | finishCatchup hphase => exact .proceed hphase nofun rfl (sent_send _) (early_afterCatchup _) ⟨rfl, rfl⟩
  | finishRun hphase => exact .proceed hphase nofun rfl (sent_send _) rfl ⟨rfl, rfl⟩
  | passFastForward hphase hc => exact .proceed hphase nofun rfl List.prefix_rfl rfl ⟨rfl, rfl⟩
  | fastForward hphase hc => exact .proceed hphase nofun rfl List.prefix_rfl rfl ⟨rfl, rfl⟩
  | noTarget hphase => exact .proceed hphase nofun rfl List.prefix_rfl rfl ⟨rfl, rfl⟩
  | passTarget hphase hbehind => exact .proceed hphase nofun rfl List.prefix_rfl rfl ⟨rfl, rfl⟩
  | readTarget hphase hahead => exact .proceed hphase nofun rfl (sent_send _) rfl ⟨rfl, rfl⟩
  | passSignal hphase hc => exact .proceed hphase nofun rfl List.prefix_rfl rfl ⟨rfl, rfl⟩
  | signalCatchup hphase hc => exact .proceed hphase nofun rfl (sent_send _) rfl ⟨rfl, rfl⟩
  | passRegister hphase hc => exact .proceed hphase nofun rfl List.prefix_rfl rfl ⟨rfl, rfl⟩
  | register hphase hc hcontinuous => exact .proceed hphase nofun rfl List.prefix_rfl rfl ⟨rfl, rfl⟩
  | complete hphase hc hends => exact .proceed hphase nofun rfl (sent_send _) rfl ⟨rfl, rfl⟩
  | trigger hphase => exact .proceed hphase nofun rfl List.prefix_rfl rfl ⟨rfl, rfl⟩
  | query hphase hselect => exact .proceed hphase nofun rfl List.prefix_rfl rfl ⟨rfl, rfl⟩
  | failLatest hphase => exact .proceed hphase nofun rfl List.prefix_rfl rfl ⟨rfl, rfl⟩
  | failRun hphase => exact .proceed hphase nofun rfl List.prefix_rfl rfl ⟨rfl, rfl⟩
  | failConnect hlatest hrunning hidle hended =>
    exact .proceed rfl hended rfl (sent_send _) rfl ⟨rfl, rfl⟩

end Moves

/-! ### What one step signals -/

def Signal.plain : Signal → Bool
  | .fact _ => true
  | .flush => true
  | .error => true
  | _ => false

/-- Facts, flushes and errors, or one of the signals that come once, in its phase. -/
def Sends (s s' : State) (more : List Signal) : Prop :=
  (∀ x ∈ more, x.plain = true) ∨
  (∃ id ser startedSer targetId, more = [.fastForward id ser] ∧ s.phase = .readTarget startedSer targetId) ∨
  (more = [.catchup] ∧ s.disconnected = false ∧ s'.disconnected = false ∧ s'.phase = .register) ∨
  (more = [.complete] ∧ s.disconnected = false ∧ s'.disconnected = false ∧ s'.phase = .ended)

section Sends
variable {db : Database} {request : SubscriptionRequest} {s s' : State}

/-- A stream is closed from outside, or says why. -/
theorem step_sends {a : Action} (hs : step db request s a = some s') : ∃ more, s'.sent = s.sent ++ more ∧
    Sends s s' more ∧ (s'.disconnected = true → s.disconnected = true ∨ a = .close ∨ .error ∈ more) := by
  have hquiet : s'.sent = s.sent → s'.disconnected = s.disconnected → ∃ more, s'.sent = s.sent ++ more ∧
      Sends s s' more ∧ (s'.disconnected = true → s.disconnected = true ∨ a = .close ∨ .error ∈ more) :=
    fun hsent hdisconnected => ⟨[], by rw [hsent, List.append_nil], .inl nofun, fun hc => .inl (hdisconnected ▸ hc)⟩
  have hplain : ∀ more : List Signal, s'.sent = s.sent ++ more → (more.all Signal.plain) = true →
      (s'.disconnected = s.disconnected ∨ .error ∈ more) → ∃ more, s'.sent = s.sent ++ more ∧
      Sends s s' more ∧ (s'.disconnected = true → s.disconnected = true ∨ a = .close ∨ .error ∈ more) :=
    fun more hsent hall hclosed => ⟨more, hsent, .inl (List.all_eq_true.mp hall),
      fun hc => hclosed.elim (fun hsame => .inl (hsame ▸ hc)) fun herror => .inr (.inr herror)⟩
  cases step_cases hs with
  | close => exact ⟨[], (List.append_nil _).symm, .inl nofun, fun _ => .inr (.inl rfl)⟩
  | fetchRow hphase => exact hplain [.fact _] rfl rfl (.inl rfl)
  | followRow hphase hc => exact hplain [.fact _] rfl rfl (.inl rfl)
  | @failFetched handed _ r _ hphase =>
    cases handed with
    | true => exact hplain [.fact r, .flush, .error] (by simp [State.send]) rfl (.inr (by simp))
    | false => exact hplain [.flush, .error] (by simp [State.send]) rfl (.inr (by simp))
  | @failFollowed handed _ r _ hphase hc =>
    cases handed with
    | true => exact hplain [.fact r, .error] (by simp [State.send]) rfl (.inr (by simp))
    | false => exact hplain [.error] (by simp [State.send]) rfl (.inr (by simp))
  | finishCatchup hphase => exact hplain [.flush] rfl rfl (.inl rfl)
  | finishRun hphase => exact hplain [.flush] rfl rfl (.inl rfl)
  | readTarget hphase hahead => exact ⟨_, rfl, .inr (.inl ⟨_, _, _, _, rfl, hphase⟩), fun hc => .inl hc⟩
  | signalCatchup hphase hc => exact ⟨_, rfl, .inr (.inr (.inl ⟨rfl, hc, hc, rfl⟩)), fun hclosed => .inl hclosed⟩
  | complete hphase hc hends => exact ⟨_, rfl, .inr (.inr (.inr ⟨rfl, hc, hc, rfl⟩)), fun hclosed => .inl hclosed⟩
  | failConnect hlatest hrunning hidle hended => exact hplain [.error] rfl rfl (.inr (by simp))
  -- the other steps hand nothing over and close nothing
  | _ => exact hquiet rfl rfl

end Sends

/-! ### What was handed over is a beginning -/

section Prefix
variable {db : Database} {request : SubscriptionRequest} {s s' : State} {facts todo snapshot log : List FactRow}
  {started serial : Nat}

theorem Covered.isPrefix (h : Covered db request facts todo snapshot started serial) (hsnap : snapshot <+: log) :
    facts ++ todo <+: Log.after FactRow.ser (matching db request) started log := by
  obtain ⟨rest, rfl⟩ := hsnap
  rw [h.handed, Log.after_append]
  exact List.prefix_append ..

theorem Caught.isPrefix (h : Caught db request facts log started serial) (hasc : Log.Ascending FactRow.ser log) :
    facts <+: Log.after FactRow.ser (matching db request) started log := by
  rw [h.handed, ← Log.between_append_after hasc h.moved]
  exact List.prefix_append ..

/-- Of the matching facts from its start on, a connected stream has handed over the first ones. -/
theorem Inv.isPrefix (h : Inv db request s) (hc : s.disconnected = false) (hphase : s.phase ≠ .ended) :
    s.facts <+: Log.after FactRow.ser (matching db request) s.started s.log := by
  have hready := h.ready
  unfold Ready at hready
  cases hp : s.phase with
  | connecting =>
    rw [hp] at hready
    rw [hready.1]
    exact List.nil_prefix
  | jumping =>
    rw [hp] at hready
    rw [hready.1]
    exact List.nil_prefix
  | fetching second todo =>
    rw [hp] at hready
    exact (List.prefix_append ..).trans ((hready.1 hc).isPrefix h.snapshot)
  | running latest todo =>
    rw [hp] at hready
    exact (List.prefix_append ..).trans ((hready hc).1.isPrefix h.snapshot)
  | latest latest =>
    rw [hp] at hready
    exact (hready hc).1.isPrefix h.ascending
  | ended => exact absurd hp hphase
  | _ =>
    rw [hp] at hready
    exact (hready hc).isPrefix h.ascending

/-- That includes a row that fails. -/
theorem Inv.isPrefix_failed (h : Inv db request s) (hc : s.disconnected = false) {r : FactRow} {todo : List FactRow}
    (hphase : (∃ second, s.phase = .fetching second (r :: todo)) ∨ ∃ latest, s.phase = .running latest (r :: todo)) :
    s.facts ++ [r] <+: Log.after FactRow.ser (matching db request) s.started s.log := by
  have hrow : s.facts ++ [r] <+: s.facts ++ r :: todo := ⟨todo, by simp⟩
  rcases hphase with ⟨second, hphase⟩ | ⟨latest, hphase⟩
  · exact hrow.trans (((h.fetching hphase).1 hc).isPrefix h.snapshot)
  · exact hrow.trans ((h.covered hphase hc).1.isPrefix h.snapshot)

/-- It is so after every step of a connected stream, one that closes it included. -/
theorem isPrefix_step {a : Action} (h : Inv db request s) (hc : s.disconnected = false) (hphase : s.phase ≠ .ended)
    (hs : step db request s a = some s') :
    s'.facts <+: Log.after FactRow.ser (matching db request) s'.started s'.log := by
  have hstays : s'.disconnected = false → s'.phase ≠ .ended →
      s'.facts <+: Log.after FactRow.ser (matching db request) s'.started s'.log := (inv_step h hs).isPrefix
  cases step_cases hs with
  | publish hasc hpos => exact hstays hc hphase
  | queryTarget => exact hstays hc hphase
  | setTarget hmark => exact hstays hc hphase
  | close => exact h.isPrefix hc hphase
  | connect hp =>
    refine hstays hc ?_
    cases request.ephemeral <;> simp
  | passCatchup hp hclosed => cases hclosed.symm.trans hc
  | skipFetched hclosed hp => cases hclosed.symm.trans hc
  | skipFollowed hclosed hp => cases hclosed.symm.trans hc
  | passFastForward hp hclosed => cases hclosed.symm.trans hc
  | passSignal hp hclosed => cases hclosed.symm.trans hc
  | passRegister hp hclosed => cases hclosed.symm.trans hc
  | @failFetched handed second r todo hp =>
    cases handed with
    | true =>
      show (((s.send (.fact r)).send .flush).send .error).facts <+: Log.after FactRow.ser (matching db request) s.started s.log
      simpa [Signal.fact?] using h.isPrefix_failed hc (.inl ⟨second, hp⟩)
    | false =>
      show ((s.send .flush).send .error).facts <+: Log.after FactRow.ser (matching db request) s.started s.log
      simpa [Signal.fact?] using h.isPrefix hc hphase
  | @failFollowed handed latest r todo hp _ =>
    cases handed with
    | true =>
      show ((s.send (.fact r)).send .error).facts <+: Log.after FactRow.ser (matching db request) s.started s.log
      simpa [Signal.fact?] using h.isPrefix_failed hc (.inr ⟨latest, hp⟩)
    | false =>
      show (s.send .error).facts <+: Log.after FactRow.ser (matching db request) s.started s.log
      simpa [Signal.fact?] using h.isPrefix hc hphase
  | @finishCatchup second hp =>
    refine hstays hc ?_
    cases second <;> simp [afterCatchup]
  | complete hp _ hends =>
    show (s.send .complete).facts <+: Log.after FactRow.ser (matching db request) s.started s.log
    simpa [Signal.fact?] using h.isPrefix hc hphase
  | failConnect hlatest hrunning hidle hended =>
    show (s.send .error).facts <+: Log.after FactRow.ser (matching db request) s.started s.log
    simpa [Signal.fact?] using h.isPrefix hc hphase
  -- the stream stays connected and goes on
  | _ => exact hstays hc (by simp)

end Prefix

end FactCast.PgFactStream
