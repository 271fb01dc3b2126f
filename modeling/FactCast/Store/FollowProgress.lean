import FactCast.Machine.LeadsTo
import FactCast.Store.FollowMode

/-! Every fact arrives.

From anywhere a subscription has got to, if from then on the connection of the listener is
kept, nothing fails and nobody closes the stream, and if everybody goes on with what there
is to do: the stream gets to where it waits for a trigger (`leadsTo_idle`), if there is
something for it then a run begins (`leadsTo_begun`), and the run hands it over
(`leadsTo_handed`).

What a step can do is said once (`turn`). -/
namespace FactCast.FollowMode
open PgListener (PGNotification processNotifications)

/-- Nothing is lost, closed or failed any more. -/
structure Steady (d : Setting) (s : State) (a : Action) : Prop extends Regular d s a where
  kept : a ≠ .lose
  going : a ≠ .stream .close ∧ a ≠ .stream .fail ∧ ∀ handed, a ≠ .stream (.failRow handed)

/-- What is done by others, or to a target. -/
def Action.outside : Action → Bool
  | .publish _ _ => true
  | .notify _ => true
  | .stream _ => true
  | _ => false

/-- What that leaves of the stream. -/
structure Kept (s s' : PgFactStream.State) : Prop where
  phase : s'.phase = s.phase
  disconnected : s'.disconnected = s.disconnected
  snapshot : s'.snapshot = s.snapshot
  log : s.log <+: s'.log

/-- A steady step with a connected stream. -/
inductive Turn (d : Setting) (s : State) : Action → State → Prop where
  | others {b : Action} {stream : PgFactStream.State} {ns : List PGNotification} (hb : b.outside = true)
      (hkept : Kept s.stream stream) : Turn d s b { s with stream := stream, wire := s.wire ++ ns }
  | listen (h : s.listener = .down) : Turn d s .listen { s with listener := .fresh }
  | inform {n : Nat} (h : s.listener = .fresh) (hn : s.stream.phase.follows = true → 0 < n) :
      Turn d s .inform { s with listener := .informed, executor := CondensedQuery.trigger^[n] s.executor }
  | arrive {n : PGNotification} {rest : List PGNotification} (h : s.wire = n :: rest) :
      Turn d s .arrive { s with arrived := s.arrived ++ [n], wire := rest }
  | receive {n : Nat} (hn : s.stream.phase.follows = true → Rouse d s.arrived → 0 < n) :
      Turn d s .receive { s with arrived := [], executor := CondensedQuery.trigger^[n] s.executor }
  | trigger : Turn d s .trigger { s with registered := false, executor := CondensedQuery.trigger s.executor }
  /-- The stream goes on by itself. -/
  | next {b : Action} {a : PgFactStream.Action} {stream : PgFactStream.State} {registered : Bool}
      (hb : b = ofStream a) (hnext : s.stream.phase.next = some a)
      (hstep : PgFactStream.step d.db d.request s.stream a = some stream) :
      Turn d s b { s with stream := stream, registered := registered }
  | executor {a : CondensedQuery.Action} {ex : CondensedQuery.State}
      (hex : CondensedQuery.step d.maxDelayInMillis s.executor a = some ex)
      (hf : CondensedQuery.Follows s.executor a) (hstarts : ¬ CondensedQuery.Starts a) :
      Turn d s (.executor a) { s with executor := ex }
  /-- A run begins. -/
  | enter {r : CondensedQuery.Runner} {ex : CondensedQuery.State} (hphase : s.stream.phase = .idle) :
      Turn d s (.executor (.enter r))
        { s with executor := ex,
                 stream := { s.stream with phase := .latest (Log.last FactRow.ser s.stream.log) } }

section Steps
variable {d : Setting} {s s' : State} {b : Action}

theorem turn (h : Inv d s) (hc : s.stream.disconnected = false) (hb : Steady d s b) (hs : step d s b = some s') :
    Turn d s b s' := by
  cases b with
  | publish txId rows =>
    obtain ⟨stream, hstream, rfl⟩ := Option.map_eq_some_iff.mp hs
    obtain rfl := publish_eq hstream
    rw [send_eq]
    exact .others rfl ⟨rfl, rfl, rfl, List.prefix_append ..⟩
  | notify n =>
    cases hs
    rw [send_eq]
    exact .others rfl ⟨rfl, rfl, rfl, List.prefix_rfl⟩
  | lose => exact absurd rfl hb.kept
  | listen =>
    simp only [step, listen] at hs
    split at hs
    · rename_i hlistener
      cases hs
      exact .listen hlistener
    · cases hs
  | inform =>
    simp only [step, inform] at hs
    split at hs
    · rename_i hlistener
      cases hs
      rw [foldl_post]
      refine .inform hlistener fun hfollows => ?_
      rw [if_pos hfollows]
      exact Nat.one_pos
    · cases hs
  | arrive =>
    simp only [step, arrive] at hs
    split at hs
    · rename_i n rest hwire
      cases hs
      exact .arrive hwire
    · cases hs
  | receive =>
    simp only [step, receive] at hs
    split at hs
    · cases hs
      rw [foldl_post]
      refine .receive fun hfollows hrouse => ?_
      obtain ⟨signal, hmem, hrouses⟩ := hrouse
      rw [if_pos hfollows]
      exact List.countP_pos_iff.mpr ⟨signal, hmem, hrouses⟩
    · cases hs
  | trigger =>
    simp only [step, trigger] at hs
    split at hs <;> cases hs
    exact .trigger
  | register =>
    obtain ⟨stream, hstream, rfl⟩ := Option.map_eq_some_iff.mp hs
    have hnext : s.stream.phase.next = some .register := by
      rcases @PgFactStream.next_of_step d.db _ _ stream .register hc hstream with hnext | ⟨_, h⟩ | h | h | h | h | h |
        ⟨_, h⟩
      · exact hnext
      all_goals cases h
    rw [h.move_eq (@PgFactStream.leads_of_next d.db _ _ _ .register hc hnext hstream).1 hc]
    exact .next rfl hnext hstream
  | stream a =>
    obtain ⟨hpublish, hregister, htrigger, stream, hstream, rfl⟩ := stream_eq hs
    have hmove : stream.disconnected = false → move s stream = { s with stream := stream } :=
      fun hnew => h.move_eq hnew hc
    rcases PgFactStream.next_of_step hc hstream with hnext | ⟨rows, rfl⟩ | rfl | rfl | rfl | rfl | rfl | ⟨handed, rfl⟩
    · rw [hmove (PgFactStream.leads_of_next hc hnext hstream).1]
      refine .next ?_ hnext hstream
      cases a with
      | register => exact absurd rfl hregister
      | _ => rfl
    · exact absurd rfl (hpublish rows)
    · cases hstream
      rw [hmove hc, ← List.append_nil s.wire]
      exact .others rfl ⟨rfl, rfl, rfl, List.prefix_rfl⟩
    · obtain ⟨mark, _, rfl⟩ := Option.map_eq_some_iff.mp hstream
      rw [hmove hc, ← List.append_nil s.wire]
      exact .others rfl ⟨rfl, rfl, rfl, List.prefix_rfl⟩
    · exact absurd rfl htrigger
    · exact absurd rfl hb.going.1
    · exact absurd rfl hb.going.2.1
    · exact absurd rfl (hb.going.2.2 handed)
  | executor a =>
    obtain ⟨ex, hex, hfollows, ⟨hstarts, rfl⟩ | ⟨⟨r, rfl⟩, stream, hstream, rfl⟩⟩ := executor_eq hs
    · exact .executor hex (hfollows hc) hstarts
    · unfold PgFactStream.trigger at hstream
      split at hstream
      · rename_i hphase
        cases hstream
        exact .enter hphase
      · cases hstream

theorem stream_of_ofStream {a : PgFactStream.Action} (hs : step d s (ofStream a) = some s') :
    PgFactStream.step d.db d.request s.stream a = some s'.stream := by
  have hplain : FollowMode.stream d s a = some s' → PgFactStream.step d.db d.request s.stream a = some s'.stream := by
    intro hs
    obtain ⟨_, _, _, stream, hstream, rfl⟩ := stream_eq hs
    exact hstream
  cases a with
  | register =>
    obtain ⟨stream, hstream, rfl⟩ := Option.map_eq_some_iff.mp hs
    exact hstream
  | _ => exact hplain hs

end Steps

/-! ### The stream by itself -/

section Progress
variable {d : Setting} {e : ((following d).resumed (Regular d)).Execution} {row : FactRow}

theorem reachable_of_resumed {s : State} (h : ((following d).resumed (Regular d)).ReachableUnder (Steady d) s) :
    (following d).ReachableUnder (Regular d) s :=
  Machine.resumed_reachable (fun _ _ hb => hb.toRegular) h

/-- One action helps a connected stream on, and the others leave it the way it is. -/
theorem leadsTo_of_turn (help : Action) (hunder : e.Under (Steady d)) (hfair : e.Fair Due) {p q : State → Prop}
    (hdue : Due help) (hp : ∀ s, p s → s.stream.disconnected = false)
    (hpossible : ∀ s, Inv d s → p s → (step d s help).isSome)
    (hhelps : ∀ s s', (following d).ReachableUnder (Regular d) s → p s → Turn d s help s' →
      step d s help = some s' → q s')
    (hlasts : ∀ s b s', Inv d s → p s → Turn d s b s' → b ≠ help → p s' ∨ q s') : e.LeadsTo p q := by
  refine Machine.Execution.leadsTo_of_help hunder hfair hdue ?_ ?_ ?_
  · exact fun s hr hps => hpossible s (inv (reachable_of_resumed hr)) hps
  · intro s s' hr hps hb hs
    have hreach := reachable_of_resumed hr
    exact hhelps s s' hreach hps (turn (inv hreach) (hp s hps) hb hs) hs
  · intro s b s' hr hps hb hs hne
    have hinv := inv (reachable_of_resumed hr)
    exact hlasts s b s' hinv hps (turn hinv (hp s hps) hb hs) hne

/-- A connected stream in a phase. -/
structure At (phase : PgFactStream.Phase) (X : PgFactStream.State → Prop) (s : State) : Prop where
  connected : s.stream.disconnected = false
  phase : s.stream.phase = phase
  also : X s.stream

/-- What holds still holds when others have done something. -/
def Stable (X : PgFactStream.State → Prop) : Prop := ∀ s s', X s → Kept s s' → X s'

/-- It has taken its next step. -/
structure Taken (d : Setting) (phase : PgFactStream.Phase) (X : PgFactStream.State → Prop)
    (s s' : PgFactStream.State) : Prop where
  inv : PgFactStream.Inv d.db d.request s
  connected : s.disconnected = false
  before : s.phase = phase
  also : X s
  connected' : s'.disconnected = false
  log : s'.log = s.log
  leads : phase.Leads d.request s s'
  started : s.phase.early = true ∨ s'.started = s.started

theorem leadsTo_next (hexec : PgFactStream.Executes d.db d.request) (hunder : e.Under (Steady d)) (hfair : e.Fair Due)
    {phase : PgFactStream.Phase} {a : PgFactStream.Action} (hnext : phase.next = some a)
    {X : PgFactStream.State → Prop} (hX : Stable X) :
    e.LeadsTo (At phase X) fun s' => ∃ s, Taken d phase X s s'.stream := by
  have hown := PgFactStream.own_of_next hnext
  refine leadsTo_of_turn _ hunder hfair (due_ofStream hown) (fun s h => h.connected) ?_ ?_ ?_
  · intro s _ h
    exact isSome_ofStream hown (PgFactStream.isSome_next hexec h.connected (h.phase ▸ hnext))
  · intro s s' hr h _ hs
    have hstep := stream_of_ofStream hs
    obtain ⟨hconnected, hlog, hleads⟩ := PgFactStream.leads_of_next h.connected (h.phase ▸ hnext) hstep
    exact ⟨s.stream, PgFactStream.inv (reachable_stream hr), h.connected, h.phase, h.also, hconnected, hlog,
      h.phase ▸ hleads, (PgFactStream.moves_step hstep).start.imp id fun h => h.2.1⟩
  · intro s b s' _ h hturn hne
    left
    cases hturn with
    | others _ hkept =>
      exact ⟨hkept.disconnected.trans h.connected, hkept.phase.trans h.phase, hX _ _ h.also hkept⟩
    | next hb hnext' _ =>
      rw [h.phase, hnext] at hnext'
      cases hnext'
      exact absurd hb hne
    | enter hphase =>
      rw [h.phase] at hphase
      subst hphase
      cases hnext
    | _ => exact ⟨h.connected, h.phase, h.also⟩

theorem stable_log : Stable fun s => row ∈ s.log := fun _ _ h hkept => hkept.log.subset h

theorem stable_snapshot : Stable fun s => row ∈ s.snapshot := by
  intro s s' h hkept
  rw [hkept.snapshot]
  exact h

/-- However far it is, a subscription comes to wait for a trigger. -/
theorem leadsTo_idle (hexec : PgFactStream.Executes d.db d.request) (hcontinuous : d.request.continuous = true)
    (hunder : e.Under (Steady d)) (hfair : e.Fair Due) (phase : PgFactStream.Phase) :
    e.LeadsTo (At phase fun s => row ∈ s.log) (At .idle fun s => row ∈ s.log) := by
  refine Machine.Execution.LeadsTo.falls (p := fun phase => At phase fun s => row ∈ s.log)
    (InvImage.wf PgFactStream.Phase.rank (Prod.lex Nat.lt_wfRel Nat.lt_wfRel).wf) (fun phase => ?_) phase
  cases hnext : phase.next with
  | some a =>
    refine (leadsTo_next hexec hunder hfair hnext stable_log).imp fun s' ⟨s, h⟩ => .inr ⟨s'.stream.phase, ?_, ?_⟩
    · exact PgFactStream.rank_of_leads hcontinuous h.leads
    · exact ⟨h.connected', rfl, h.log ▸ h.also⟩
  | none =>
    refine .of_imp fun n h => .inl ?_
    have hr := reachable_stream (reachable_of_resumed (Machine.Execution.reachableUnder hunder n))
    have hunended := PgFactStream.unended hcontinuous hr h.connected
    cases phase with
    | idle => exact h
    | ended => exact absurd h.phase hunended
    | fetching second todo => cases todo <;> cases hnext
    | running m todo => cases todo <;> cases hnext
    | _ => cases hnext

/-- A run hands over what its query has seen. -/
theorem leadsTo_handed (hexec : PgFactStream.Executes d.db d.request) (hunder : e.Under (Steady d)) (hfair : e.Fair Due)
    (hm : PgFactStream.matching d.db d.request row = true) (n : Nat) (todo : List FactRow) :
    e.LeadsTo (At (.running n todo) fun s => row ∈ s.snapshot)
      (At .idle fun s => s.started < row.ser → row ∈ s.facts) := by
  induction todo with
  | cons r todo ih =>
    refine .trans ((leadsTo_next hexec hunder hfair rfl stable_snapshot).imp fun s' ⟨s, h⟩ => ?_) ih
    obtain ⟨hsnapshot, hphase⟩ := h.leads
    exact ⟨h.connected', hphase, hsnapshot ▸ h.also⟩
  | nil =>
    refine (leadsTo_next hexec hunder hfair rfl stable_snapshot).imp fun s' ⟨s, h⟩ => ?_
    obtain ⟨_, hphase, _, hfacts⟩ := h.leads
    refine ⟨h.connected', hphase, fun hlt => ?_⟩
    have hhanded := (h.inv.covered h.before h.connected).1.handed
    rw [List.append_nil] at hhanded
    have hstarted : s'.stream.started = s.started := by
      rcases h.started with hearly | hstarted
      · rw [h.before] at hearly
        cases hearly
      · exact hstarted
    rw [hfacts, hhanded]
    exact Log.mem_after.mpr ⟨h.also, hm, hstarted ▸ hlt⟩

/-! ### The way of a trigger -/

/-- The stream waits for a trigger. -/
def Idle (row : FactRow) : State → Prop := At .idle fun s => row ∈ s.log

/-- A run has begun that is still to query. -/
def Begun (row : FactRow) (s : State) : Prop := ∃ n, At (.latest n) (fun s => row ∈ s.log) s

/-- A stream that waits goes on waiting, or a run begins. -/
theorem Idle.turn {s s' : State} {b : Action} (h : Idle row s) (hturn : Turn d s b s') :
    Begun row s' ∨ Idle row s' ∧ ¬ ∃ r, b = .executor (.enter r) := by
  cases hturn with
  | others hb hkept =>
    refine .inr ⟨⟨hkept.disconnected.trans h.connected, hkept.phase.trans h.phase, hkept.log.subset h.also⟩, ?_⟩
    rintro ⟨r, rfl⟩
    cases hb
  | next hb hnext _ =>
    rw [h.phase] at hnext
    cases hnext
  | enter _ => exact .inl ⟨_, h.connected, rfl, h.also⟩
  | executor hex hf hstarts =>
    exact .inr ⟨⟨h.connected, h.phase, h.also⟩, fun ⟨r, hr⟩ => hstarts ⟨r, Action.executor.inj hr⟩⟩
  | _ => exact .inr ⟨⟨h.connected, h.phase, h.also⟩, by simp⟩

theorem at_triggers {executor : CondensedQuery.State} (h : CondensedQuery.Following executor)
    {j : CondensedQuery.Stage} (hat : j.At executor) (n : Nat) : j.At (CondensedQuery.trigger^[n] executor) := by
  induction n with
  | zero => exact hat
  | succ n ih =>
    rw [Function.iterate_succ_apply']
    refine CondensedQuery.Stage.lasts (d := 0) (a := .trigger) (following_triggers h n) ⟨by simp, by simp⟩ j ih rfl ?_ ?_
    · cases j <;> simp [CondensedQuery.Stage.help]
    · rintro ⟨r, hr⟩
      cases hr

/-- A call that has begun, or a task, leads to a run. -/
theorem leadsTo_begun (hunder : e.Under (Steady d)) (hfair : e.Fair Due) (j : CondensedQuery.Stage) :
    e.LeadsTo (fun s => Idle row s ∧ j.At s.executor) (Begun row) := by
  refine Machine.Execution.LeadsTo.falls (p := fun j s => Idle row s ∧ CondensedQuery.Stage.At j s.executor)
    (InvImage.wf CondensedQuery.Stage.rank Nat.lt_wfRel.wf) (fun j => ?_) j
  have hdue : CondensedQuery.Due j.help := (CondensedQuery.stages d.maxDelayInMillis).due j
  refine leadsTo_of_turn (.executor j.help) hunder hfair hdue (fun s h => h.1.connected) ?_ ?_ ?_
  · intro s hinv ⟨hidle, hat⟩
    exact isSome_executor hidle.phase hdue (CondensedQuery.Stage.possible (hinv.executor hidle.connected) j hat)
  · intro s s' hr ⟨hidle, hat⟩ hturn hs
    have hfollowing := (inv hr).executor hidle.connected
    rcases hidle.turn hturn with hbegun | ⟨hidle', hstarts⟩
    · exact .inl hbegun
    · right
      obtain ⟨ex, hex, _, ⟨_, rfl⟩ | ⟨⟨r, hr⟩, _⟩⟩ := executor_eq hs
      · obtain ⟨r, hr⟩ | ⟨i, hi, hati⟩ := CondensedQuery.Stage.helps hfollowing j hat hex
        · exact absurd ⟨r, by rw [hr]⟩ hstarts
        · exact ⟨i, hi, hidle', hati⟩
      · exact absurd ⟨r, by rw [hr]⟩ hstarts
  · intro s b s' hinv ⟨hidle, hat⟩ hturn hne
    have hfollowing := hinv.executor hidle.connected
    rcases hidle.turn hturn with hbegun | ⟨hidle', _⟩
    · exact .inr (.inl hbegun)
    · refine .inl ⟨hidle', ?_⟩
      cases hturn with
      | others _ _ => exact hat
      | listen _ => exact hat
      | inform _ _ => exact at_triggers hfollowing hat _
      | arrive _ => exact hat
      | receive _ => exact at_triggers hfollowing hat _
      | trigger => exact at_triggers hfollowing hat 1
      | next _ _ _ => exact hat
      | executor hex hf hstarts =>
        exact CondensedQuery.Stage.lasts hfollowing hf j hat hex (fun ha => hne (by rw [ha])) hstarts
      | enter _ => cases hidle'.phase

theorem leadsTo_begun_of_within (hunder : e.Under (Steady d)) (hfair : e.Fair Due) :
    e.LeadsTo (fun s => Idle row s ∧ CondensedQuery.Within 9 s.executor) (Begun row) := by
  intro n ⟨hidle, j, _, hat⟩
  exact leadsTo_begun hunder hfair j n ⟨hidle, hat⟩

/-- Either there is a run, or there is one on its way. -/
theorem leadsTo_begun_of_either (hunder : e.Under (Steady d)) (hfair : e.Fair Due) :
    e.LeadsTo (fun s => Begun row s ∨ Idle row s ∧ CondensedQuery.Within 9 s.executor) (Begun row) :=
  .or (.of_imp fun _ h => h) (leadsTo_begun_of_within hunder hfair)

theorem leadsTo_begun_of_registered (hunder : e.Under (Steady d)) (hfair : e.Fair Due) :
    e.LeadsTo (fun s => Idle row s ∧ s.registered = true) (Begun row) := by
  refine .trans (leadsTo_of_turn .trigger hunder hfair trivial (fun s h => h.1.connected) ?_ ?_ ?_)
    (leadsTo_begun_of_either hunder hfair)
  · intro s _ ⟨_, hregistered⟩
    simp [step, trigger, hregistered]
  · intro s s' _ ⟨hidle, hregistered⟩ hturn hs
    rcases hidle.turn hturn with hbegun | ⟨hidle', _⟩
    · exact .inl hbegun
    · simp only [step, trigger, hregistered, if_true, Option.some.injEq] at hs
      subst hs
      exact .inr ⟨hidle', within_trigger _⟩
  · intro s b s' _ ⟨hidle, hregistered⟩ hturn hne
    rcases hidle.turn hturn with hbegun | ⟨hidle', _⟩
    · exact .inr (.inl hbegun)
    · refine .inl ⟨hidle', ?_⟩
      cases hturn with
      | trigger => exact absurd rfl hne
      | next _ hnext _ =>
        rw [hidle.phase] at hnext
        cases hnext
      | _ => exact hregistered

theorem leadsTo_begun_of_fresh (hunder : e.Under (Steady d)) (hfair : e.Fair Due) :
    e.LeadsTo (fun s => Idle row s ∧ s.listener = .fresh) (Begun row) := by
  refine .trans (leadsTo_of_turn .inform hunder hfair trivial (fun s h => h.1.connected) ?_ ?_ ?_)
    (leadsTo_begun_of_either hunder hfair)
  · intro s _ ⟨_, hfresh⟩
    simp [step, inform, hfresh]
  · intro s s' _ ⟨hidle, _⟩ hturn _
    rcases hidle.turn hturn with hbegun | ⟨hidle', _⟩
    · exact .inl hbegun
    · cases hturn with
      | others hb _ => cases hb
      | next _ hnext _ =>
        rw [hidle.phase] at hnext
        cases hnext
      | inform _ hn => exact .inr ⟨hidle', within_triggers (.inr (hn (by rw [hidle.phase]; rfl)))⟩
  · intro s b s' _ ⟨hidle, hfresh⟩ hturn hne
    rcases hidle.turn hturn with hbegun | ⟨hidle', _⟩
    · exact .inr (.inl hbegun)
    · refine .inl ⟨hidle', ?_⟩
      cases hturn with
      | inform _ _ => exact absurd rfl hne
      | listen _ => rfl
      | _ => exact hfresh

theorem leadsTo_begun_of_down (hunder : e.Under (Steady d)) (hfair : e.Fair Due) :
    e.LeadsTo (fun s => Idle row s ∧ s.listener = .down) (Begun row) := by
  refine .trans (leadsTo_of_turn (q := fun s => Begun row s ∨ Idle row s ∧ s.listener = .fresh) .listen
    hunder hfair trivial (fun s h => h.1.connected) ?_ ?_ ?_)
    (.or (.of_imp fun _ h => h) (leadsTo_begun_of_fresh hunder hfair))
  · intro s _ ⟨_, hdown⟩
    simp [step, listen, hdown]
  · intro s s' _ ⟨hidle, hdown⟩ hturn hs
    rcases hidle.turn hturn with hbegun | ⟨hidle', _⟩
    · exact .inl hbegun
    · simp only [step, listen, hdown, if_true, Option.some.injEq] at hs
      subst hs
      exact .inr ⟨hidle', rfl⟩
  · intro s b s' _ ⟨hidle, hdown⟩ hturn hne
    rcases hidle.turn hturn with hbegun | ⟨hidle', _⟩
    · exact .inr (.inl hbegun)
    · refine .inl ⟨hidle', ?_⟩
      cases hturn with
      | listen _ => exact absurd rfl hne
      | inform hfresh _ => cases hdown.symm.trans hfresh
      | _ => exact hdown

/-- As many notifications are still to arrive until those that have arrived rouse. -/
structure Queued (d : Setting) (row : FactRow) (k : Nat) (s : State) : Prop where
  idle : Idle row s
  informed : s.listener = .informed
  rouses : ∃ before rest, s.wire = before ++ rest ∧ before.length = k ∧ Rouse d (s.arrived ++ before)

theorem Queued.kept {s s' : State} {b : Action} {k : Nat} (h : Queued d row k s) (hidle : Idle row s')
    (hturn : Turn d s b s') (harrive : b ≠ .arrive) (hreceive : b ≠ .receive) : Queued d row k s' := by
  obtain ⟨before, rest, hwire, hlength, hrouse⟩ := h.rouses
  have hrouses : ∃ before rest, s.wire = before ++ rest ∧ before.length = k ∧ Rouse d (s.arrived ++ before) := h.rouses
  cases hturn with
  | @others b stream ns _ _ =>
    refine ⟨hidle, h.informed, before, rest ++ ns, ?_, hlength, hrouse⟩
    rw [hwire, List.append_assoc]
  | listen hdown => cases h.informed.symm.trans hdown
  | inform hfresh _ => cases h.informed.symm.trans hfresh
  | arrive _ => exact absurd rfl harrive
  | receive _ => exact absurd rfl hreceive
  | _ => exact ⟨hidle, h.informed, hrouses⟩

/-- What is received rouses, or what is still to arrive does. -/
theorem Queued.received {s : State} {k n : Nat} (h : Queued d row k s)
    (hidle : Idle row { s with arrived := [], executor := CondensedQuery.trigger^[n] s.executor })
    (hn : s.stream.phase.follows = true → Rouse d s.arrived → 0 < n) :
    CondensedQuery.Within 9 (CondensedQuery.trigger^[n] s.executor) ∨
      Queued d row k { s with arrived := [], executor := CondensedQuery.trigger^[n] s.executor } := by
  obtain ⟨before, rest, hwire, hlength, hrouse⟩ := h.rouses
  rcases hrouse.split with harrived | hbefore
  · exact .inl (within_triggers (.inr (hn (by rw [h.idle.phase]; rfl) harrived)))
  · exact .inr ⟨hidle, h.informed, before, rest, hwire, hlength, hbefore⟩

theorem not_rouse_nil : ¬ Rouse d [] := fun ⟨_, hmem, _⟩ => by cases hmem

theorem leadsTo_begun_of_queued (hunder : e.Under (Steady d)) (hfair : e.Fair Due) (k : Nat) :
    e.LeadsTo (Queued d row k) (Begun row) := by
  induction k with
  | zero =>
    refine .trans (leadsTo_of_turn .receive hunder hfair trivial (fun s h => h.idle.connected) ?_ ?_ ?_)
      (leadsTo_begun_of_either hunder hfair)
    · intro s _ h
      obtain ⟨before, rest, _, hlength, hrouse⟩ := h.rouses
      rw [List.length_eq_zero_iff.mp hlength, List.append_nil] at hrouse
      have harrived : s.arrived ≠ [] := fun hnil => not_rouse_nil (hnil ▸ hrouse)
      simp [step, receive, h.informed, harrived]
    · intro s s' _ h hturn _
      rcases h.idle.turn hturn with hbegun | ⟨hidle', _⟩
      · exact .inl hbegun
      · cases hturn with
        | others hb _ => cases hb
        | next _ hnext _ =>
          rw [h.idle.phase] at hnext
          cases hnext
        | receive hn =>
          obtain ⟨before, rest, _, hlength, hrouse⟩ := h.rouses
          rw [List.length_eq_zero_iff.mp hlength, List.append_nil] at hrouse
          exact .inr ⟨hidle', within_triggers (.inr (hn (by rw [h.idle.phase]; rfl) hrouse))⟩
    · intro s b s' _ h hturn hne
      rcases h.idle.turn hturn with hbegun | ⟨hidle', _⟩
      · exact .inr (.inl hbegun)
      · left
        by_cases harrive : b = .arrive
        · subst harrive
          cases hturn with
          | others hb _ => cases hb
          | next _ hnext _ =>
            rw [h.idle.phase] at hnext
            cases hnext
          | arrive hwire =>
            obtain ⟨before, rest, _, hlength, hrouse⟩ := h.rouses
            rw [List.length_eq_zero_iff.mp hlength, List.append_nil] at hrouse
            refine ⟨hidle', h.informed, [], _, rfl, rfl, ?_⟩
            rw [List.append_nil]
            exact hrouse.append
        · exact h.kept hidle' hturn harrive hne
  | succ k ih =>
    refine .trans (leadsTo_of_turn (q := fun s => (Begun row s ∨ Idle row s ∧ CondensedQuery.Within 9 s.executor) ∨
      Queued d row k s) .arrive hunder hfair trivial (fun s h => h.idle.connected) ?_ ?_ ?_)
      (.or (leadsTo_begun_of_either hunder hfair) ih)
    · intro s _ h
      obtain ⟨before, rest, hwire, hlength, _⟩ := h.rouses
      cases before with
      | nil => cases hlength
      | cons n before => simp [step, arrive, hwire]
    · intro s s' _ h hturn _
      rcases h.idle.turn hturn with hbegun | ⟨hidle', _⟩
      · exact .inl (.inl hbegun)
      · cases hturn with
        | others hb _ => cases hb
        | next _ hnext _ =>
          rw [h.idle.phase] at hnext
          cases hnext
        | arrive hwire' =>
          obtain ⟨before, rest, hwire, hlength, hrouse⟩ := h.rouses
          cases before with
          | nil => cases hlength
          | cons n before =>
            rw [hwire] at hwire'
            obtain ⟨rfl, rfl⟩ := List.cons_eq_cons.mp hwire'
            refine .inr ⟨hidle', h.informed, before, rest, rfl, Nat.succ.inj hlength, ?_⟩
            rwa [List.append_assoc]
    · intro s b s' _ h hturn hne
      rcases h.idle.turn hturn with hbegun | ⟨hidle', _⟩
      · exact .inr (.inl (.inl hbegun))
      · by_cases hreceive : b = .receive
        · subst hreceive
          cases hturn with
          | others hb _ => cases hb
          | next _ hnext _ =>
            rw [h.idle.phase] at hnext
            cases hnext
          | receive hn =>
            rcases h.received hidle' hn with hwithin | hqueued
            · exact .inr (.inl (.inr ⟨hidle', hwithin⟩))
            · exact .inl hqueued
        · exact .inl (h.kept hidle' hturn hne hreceive)

/-- What is to come comes. -/
theorem leadsTo_begun_of_awaited (hunder : e.Under (Steady d)) (hfair : e.Fair Due) :
    e.LeadsTo (fun s => Idle row s ∧ Awaited d s) (Begun row) := by
  intro n ⟨hidle, hawaited⟩
  cases hlistener : (e.state n).listener with
  | down => exact leadsTo_begun_of_down hunder hfair n ⟨hidle, hlistener⟩
  | fresh => exact leadsTo_begun_of_fresh hunder hfair n ⟨hidle, hlistener⟩
  | informed =>
    rcases hawaited with hno | hrouse | hregistered | hwithin
    · exact absurd hlistener hno
    · exact leadsTo_begun_of_queued hunder hfair _ n
        ⟨hidle, hlistener, (e.state n).wire, [], (List.append_nil _).symm, rfl, hrouse⟩
    · exact leadsTo_begun_of_registered hunder hfair n ⟨hidle, hregistered⟩
    · exact leadsTo_begun_of_within hunder hfair n ⟨hidle, hwithin⟩

theorem leadsTo_handed_of_begun (hexec : PgFactStream.Executes d.db d.request) (hunder : e.Under (Steady d))
    (hfair : e.Fair Due) (hm : PgFactStream.matching d.db d.request row = true) :
    e.LeadsTo (Begun row) (At .idle fun s => s.started < row.ser → row ∈ s.facts) := by
  intro n ⟨latest, hbegun⟩
  obtain ⟨m, hm', s, h⟩ := leadsTo_next hexec hunder hfair rfl stable_log n hbegun
  obtain ⟨hsnapshot, rows, hphase⟩ := h.leads
  have hrunning : At (.running latest rows) (fun s => row ∈ s.snapshot) (e.state m) :=
    ⟨h.connected', hphase, by rw [hsnapshot]; exact h.also⟩
  obtain ⟨k, hk, hhanded⟩ := leadsTo_handed hexec hunder hfair hm latest rows m hrunning
  exact ⟨k, Nat.le_trans hm' hk, hhanded⟩

end Progress

/-- From any state that a subscription reaches, however often facts were committed, the
connection of the listener lost, and calls and tasks interleaved before: if nothing is lost,
closed or failed from then on, and whatever is due is done once it stays possible, then a
fact that matches and lies above the start is handed over at some time, and the subscription
follows. -/
theorem every_fact_arrives (d : Setting) (hexec : PgFactStream.Executes d.db d.request)
    (hcontinuous : d.request.continuous = true) (e : ((following d).resumed (Regular d)).Execution)
    (hunder : e.Under (Steady d)) (hfair : e.Fair Due) (n : Nat) (row : FactRow)
    (hrow : row ∈ (e.state n).stream.log) (hm : PgFactStream.matching d.db d.request row = true)
    (hc : (e.state n).stream.disconnected = false) :
    ∃ m, n ≤ m ∧ (e.state m).stream.disconnected = false ∧ (e.state m).stream.phase = .idle ∧
      ((e.state m).stream.started < row.ser → row ∈ (e.state m).stream.facts) := by
  obtain ⟨m, hnm, hidle⟩ := leadsTo_idle hexec hcontinuous hunder hfair _ n ⟨hc, rfl, hrow⟩
  have hreach := reachable_of_resumed (Machine.Execution.reachableUnder hunder m)
  have hcaught := (PgFactStream.inv (reachable_stream hreach)).settled hidle.phase id hidle.connected
  by_cases hbehind : (e.state m).stream.serial < row.ser
  · have hwaiting : Waiting d (e.state m).stream := by
      unfold Waiting
      rw [hidle.phase]
      exact ⟨row, hidle.also, hm, hbehind⟩
    have hawaited := (inv hreach).awaited hidle.connected hwaiting
    obtain ⟨k, hmk, hbegun⟩ := leadsTo_begun_of_awaited hunder hfair m ⟨hidle, hawaited⟩
    obtain ⟨l, hkl, hhanded⟩ := leadsTo_handed_of_begun hexec hunder hfair hm k hbegun
    exact ⟨l, by omega, hhanded.connected, hhanded.phase, hhanded.also⟩
  · refine ⟨m, hnm, hidle.connected, hidle.phase, fun hlt => ?_⟩
    rw [hcaught.handed]
    exact Log.mem_between.mpr ⟨hidle.also, hm, hlt, Nat.le_of_not_lt hbehind⟩

theorem steady_reconnected (a : Action) (ha : a ∈ reconnected) (s : State) : Steady followed s a where
  toRegular := regular_placed a (List.mem_append_right _ ha) s
  kept := by
    rintro rfl
    simp [reconnected] at ha
  going := by
    refine ⟨?_, ?_, fun handed => ?_⟩ <;>
    · rintro rfl
      simp [reconnected] at ha

/-- From where an order was committed while there was no connection. -/
theorem every_fact_arrives_reconnected : ∃ e : ((following followed).resumed (Regular followed)).Execution,
    ∃ row ∈ (e.state 0).stream.log, row.ser = 2 ∧ ∃ m, (e.state m).stream.phase = .idle ∧
      ((e.state m).stream.started < row.ser → row ∈ (e.state m).stream.facts) := by
  obtain ⟨s, hrun, hc, row, hrow, hser, hm⟩ := exists_interrupted
  obtain ⟨t, hwhole, hrests, _⟩ := exists_reconnected
  rw [Machine.run_append, hrun, Option.bind_some] at hwhole
  have hstart : ((following followed).resumed (Regular followed)).Start s :=
    reachable_of_run hrun fun a ha => regular_placed a (List.mem_append_left _ ha)
  have hresumed : ((following followed).resumed (Regular followed)).run s reconnected = some t := by
    rw [Machine.resumed_run, hwhole]
  have hunder := Machine.Execution.ofRun_under (C := Steady followed) hstart hresumed steady_reconnected
  have hfair : (Machine.Execution.ofRun hstart hresumed).Fair Due :=
    Machine.Execution.ofRun_fair hstart hresumed fun a ha => none_of_rests hrests ha
  obtain ⟨m, _, _, hphase, harrives⟩ :=
    every_fact_arrives followed followed_executes rfl _ hunder hfair 0 row hrow hm hc
  exact ⟨_, row, hrow, hser, m, hphase, harrives⟩

end FactCast.FollowMode
