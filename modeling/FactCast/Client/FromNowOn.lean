import FactCast.Client.ReconnectOrder

/-! A subscription to what comes from now on.

The request of an ephemeral subscription keeps that flag when the client reconnects,
and a stream that has it begins at the end of the log, wherever the request says to
start after. So what was committed between the last fact and the new stream is passed
over (`passes_over`), and only then: `keeps_its_place` says what is handed over if
nothing was. -/
namespace FactCast.ResilientGrpcSubscription
open PgFactStream (matching)

section Steps
variable {cfg : Config} {s s' : State} {m : Nat} {first : FactRow} {rest : List FactRow}

theorem inv_of_keeps (h : (subscribing cfg).ReachableUnder (Keeps cfg) s) : Inv True cfg s :=
  h.invariant (fun _ => inv_start) fun s a _ hi hk hs => inv_step (s := s) (a := a) hi (fun _ => hk) hs

/-- From the first fact on, what there is to hand over is what lies above it. -/
theorem cons_after (h : Inv True cfg s) (hhanded : s.handed = first :: rest) :
    first :: Log.after FactRow.ser (matching cfg.db cfg.originalRequest) first.ser s.log =
      Log.after FactRow.ser (matching cfg.db cfg.originalRequest) (beginning cfg s.opened) s.log := by
  have hprefix := h.fits.isPrefix trivial
  rw [hhanded] at hprefix
  have hfirst : [] ++ [first] <+: first :: rest := ⟨rest, rfl⟩
  exact Log.append_after_of_isPrefix h.ascending (hfirst.trans hprefix)

instance : Decidable (KeepsPlace cfg s) :=
  inferInstanceAs (Decidable (_ → ∀ row ∈ s.handed.getLast?, Log.after _ _ row.ser s.log = []))

/-- A stream that begins without keeping its place passes over a fact for good: the observer
is past the one before it, and the stream past the fact. -/
theorem passes_over (hs : accept cfg s m = some s') (hbroken : ¬ KeepsPlace cfg s) :
    ∃ last row, s'.handed.getLast? = some last ∧ row ∈ s'.log ∧
      matching cfg.db cfg.originalRequest row = true ∧ last.ser < row.ser ∧
      row.ser ≤ (s'.conns m).sent := by
  simp only [KeepsPlace, not_forall] at hbroken
  obtain ⟨heph, last, hlast, hsome⟩ := hbroken
  obtain ⟨row, hrow⟩ := List.exists_mem_of_ne_nil _ hsome
  obtain ⟨hlog, hmatching, hlt⟩ := Log.mem_after.mp hrow
  have hle : row.ser ≤ Log.last FactRow.ser s.log := Log.le_last hlog
  unfold accept at hs
  dsimp only at hs
  split at hs
  · cases hs
    refine ⟨last, row, hlast, hlog, hmatching, hlt, ?_⟩
    show row.ser ≤ (Function.update s.conns m _ m).sent
    rw [Function.update_self]
    simpa [heph] using hle
  · cases hs

end Steps

/-- As long as every stream that begins finds no fact after the last one handed over, the facts
that follow the first one are, in every run, the first of those committed after it, in their
order and none twice; and once the stream at hand is drained, all of them. -/
theorem keeps_its_place (cfg : Config) (s : State) (h : (subscribing cfg).ReachableUnder (Keeps cfg) s)
    (first : FactRow) (rest : List FactRow) (hhanded : s.handed = first :: rest) :
    let facts := Log.after FactRow.ser (matching cfg.db cfg.originalRequest) first.ser s.log
    rest <+: facts ∧ s.handed.Nodup ∧ ∀ m, Drained cfg s m → rest = facts := by
  have hinv := inv_of_keeps h
  have hcons := cons_after hinv hhanded
  refine ⟨?_, hinv.fits.ascending.nodup, fun m hm => ?_⟩
  · have hprefix := hinv.fits.isPrefix trivial
    rw [hhanded, ← hcons] at hprefix
    exact (List.cons_prefix_cons.mp hprefix).2
  · have hall := hinv.drained trivial hm
    rw [hhanded, ← hcons] at hall
    exact (List.cons.inj hall).2

/-! ### What is committed while the client is away -/

/-- Orders from now on. -/
def fromNowOn : Config :=
  { resilient with originalRequest := { PgFactStream.orders with ephemeral := true } }

theorem subscribed_fromNowOn : (subscribing fromNowOn).Start subscribed :=
  { subscribed_start with }

/-- The first fact is handed over. -/
def firstFact : List Action :=
  [.connect .main, .setCurrent .main, .accept 0, .publish [⟨2, placed 2⟩], .sendFacts 0 9, .receive 0,
    .next 0, .enter 0, .leave 0, .next 0, .enter 0, .leave 0]

/-- The stream breaks, and the client asks for another one. -/
def brokenStream : List Action :=
  [.cut 0 0 (.status { code := .unavailable }), .receiveError 0, .notifyError (.delivery 0),
    .detach (.delivery 0), .close (.delivery 0) false, .connect (.delivery 0),
    .setCurrent (.delivery 0)]

/-- What there is arrives over the second stream. -/
def drained : List Action :=
  [.sendFacts 1 9, .receive 1, .next 1, .enter 1, .leave 1, .next 1, .enter 1, .leave 1]

/-- One fact is committed before the second stream begins, and one after: only that arrives. -/
def committedWhileAway : List Action :=
  firstFact ++ brokenStream ++ [.publish [⟨3, placed 3⟩], .accept 1, .publish [⟨4, placed 4⟩]] ++ drained

/-- Nothing is committed before the second stream begins. -/
def committedAfterwards : List Action :=
  firstFact ++ brokenStream ++ [.accept 1, .publish [⟨3, placed 3⟩]] ++ drained

/-- The same condition, computed. -/
def keptPlace (cfg : Config) (s : State) : Action → Bool
  | .accept m => decide (m + 1 = s.count → KeepsPlace cfg s)
  | _ => true

theorem keeps_of_eq_true {cfg : Config} {s : State} {a : Action} (h : keptPlace cfg s a = true) :
    Keeps cfg s a := by
  cases a with
  | accept m =>
    have hkeeps : m + 1 = s.count → KeepsPlace cfg s := of_decide_eq_true h
    exact hkeeps
  | _ => trivial

/-- Over the second stream comes what was committed after it began. -/
theorem keeps_its_place_afterwards : ∃ (s : State) (first : FactRow) (rest : List FactRow),
    s.handed = first :: rest ∧ s.handed.map FactRow.ser = [2, 3] ∧ s.count = 2 ∧
    rest <+: Log.after FactRow.ser (matching fromNowOn.db fromNowOn.originalRequest) first.ser s.log := by
  obtain ⟨s, hs, hstate⟩ := Machine.exists_reachableUnder (c := keptPlace fromNowOn) subscribed_fromNowOn
    committedAfterwards (fun s => (s.handed.map FactRow.ser, s.count)) (b := ([2, 3], 2))
    (by decide +kernel)
  obtain ⟨hhanded, hcount⟩ := Prod.mk.injEq .. ▸ hstate
  obtain ⟨first, rest, hcons, _, _⟩ := List.map_eq_cons_iff.mp hhanded
  have hkeeps := hs.mono fun _ _ => keeps_of_eq_true
  exact ⟨s, first, rest, hcons, hhanded, hcount, (keeps_its_place fromNowOn s hkeeps first rest hcons).1⟩

/-- What there is to send above a serial. -/
def above (serial : Nat) (s : State) : List FactRow :=
  Log.after FactRow.ser (matching fromNowOn.db fromNowOn.originalRequest) serial s.log

/-- A fact committed after the first one is not handed over, though a later one is and there
is nothing left to send. -/
theorem committed_while_away_lost : ∃ s first rest, (subscribing fromNowOn).Reachable s ∧
    s.handed = first :: rest ∧ rest.map FactRow.ser = [4] ∧
    (Log.after FactRow.ser (matching fromNowOn.db fromNowOn.originalRequest) first.ser
      s.log).map FactRow.ser = [3, 4] ∧
    Log.after FactRow.ser (matching fromNowOn.db fromNowOn.originalRequest) (s.conns 1).sent s.log =
      [] := by
  obtain ⟨s, hs, hstate⟩ := Machine.exists_reachable subscribed_fromNowOn committedWhileAway
    (fun s => (s.handed.map FactRow.ser, (above 2 s).map FactRow.ser, (above (s.conns 1).sent s).isEmpty))
    (b := ([2, 4], [3, 4], true)) (by decide +kernel)
  obtain ⟨hhanded, hfacts⟩ := Prod.mk.injEq .. ▸ hstate
  obtain ⟨hfacts, hnone⟩ := Prod.mk.injEq .. ▸ hfacts
  obtain ⟨first, rest, hcons, hfirst, hrest⟩ := List.map_eq_cons_iff.mp hhanded
  exact ⟨s, first, rest, hs, hcons, hrest, hfirst ▸ hfacts, List.isEmpty_iff.mp hnone⟩

end FactCast.ResilientGrpcSubscription
