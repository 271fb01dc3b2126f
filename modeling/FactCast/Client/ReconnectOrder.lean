import FactCast.Client.Reconnect

/-! The order of a resilient subscription.

Only the latest connection delivers: a thread that has opened the next one is
through, and the timers, whose error is not retryable, open none (`Allowed`). As
long as neither the connection nor the subscription is closed, what was handed
over, what the delivering thread still has before it, and what is in flight are
together a prefix of what there is, and all of it up to what the server has sent
(`Unbroken`). Closing may pass facts over, but for the one whose flags were
tested; from then on nothing is handed over on this connection, and the position
is that of the last fact. So the next request asks for what comes right after. An
ephemeral stream begins at the end of the log instead, and misses nothing only if
that is the same (`KeepsPlace`). -/
namespace FactCast.ResilientGrpcSubscription
open PgFactStream (matching retrieve)

/-! ### What threads may still do -/

def Reason.spent : Reason → Bool
  | .retry e => !ClientExceptionHelper.isRetryable e
  | _ => true

/-- A thread that is in its error handling, or waits for it, and will not connect. -/
def Phase.spent : Phase → Bool
  | .idle => true
  | .notifyError e => !ClientExceptionHelper.isRetryable e
  | .detach reason => reason.spent
  | .closing _ reason => reason.spent
  | .opened _ => true
  | .failing _ => true
  | .reporting _ => true
  | .over => true
  | _ => false

/-- A thread that closes the subscription for the user. -/
def Phase.leaving : Phase → Bool
  | .idle => true
  | .detach .closed => true
  | .closing _ .closed => true
  | .over => true
  | _ => false

/-- A thread that has opened a connection, or is through. -/
def Phase.past : Phase → Bool
  | .opened _ => true
  | .over => true
  | _ => false

/-- A thread that is not in a notification. -/
def Phase.quiet : Phase → Bool
  | .processing _ => false
  | .checked _ _ => false
  | .calling _ _ => false
  | _ => true

/-- The facts a thread has before it. -/
def Phase.ahead : Phase → List FactRow
  | .processing todo => todo.filterMap Callback.row?
  | .checked c todo => (c :: todo).filterMap Callback.row?
  | .calling _ todo => todo.filterMap Callback.row?
  | _ => []

/-- Where a thread may be. -/
def Allowed (count : Nat) : Thread → Phase → Prop
  | .main, phase => phase.spent = true ∨ phase = .reConnect ∧ count = 0
  | .user, phase => phase.leaving = true
  | .delivery k, phase => (k + 1 < count → phase.past = true) ∧ (count ≤ k → phase = .idle)
  | .timer _, phase => phase.spent = true

theorem Phase.ahead_quiet {phase : Phase} (h : phase.quiet = true) : phase.ahead = [] := by
  cases phase with
  | processing => cases h
  | checked => cases h
  | calling => cases h
  | _ => rfl

@[simp] theorem ahead_resume (todo : List Callback) :
    (resume todo).ahead = todo.filterMap Callback.row? := by
  cases todo <;> rfl

theorem ahead_checked (c : Callback) (todo : List Callback) :
    (Phase.checked c todo).ahead = c.row?.toList ++ todo.filterMap Callback.row? := by
  cases c <;> rfl

@[simp] theorem rows_process (n : Notification) : n.process.filterMap Callback.row? = n.rows := by
  cases n with
  | facts rows =>
    have hrows : (rows.map Callback.onNext).filterMap Callback.row? = rows := by
      rw [List.filterMap_map]
      exact List.filterMap_some
    simp only [Notification.process, Notification.rows, List.filterMap_append, hrows]
    exact List.append_nil rows
  | _ => rfl

/-! ### What a list of facts is to the log -/

section Lists
variable {g : Prop} {cfg : Config} {log rows opened l m : List FactRow} {sent : Nat}

/-- Where the facts begin, given the log as the stream found it: at the requested position, or
at the end of the log. -/
def beginning (cfg : Config) (opened : List FactRow) : Nat :=
  if cfg.originalRequest.ephemeral then Log.last FactRow.ser opened
  else retrieve opened cfg.originalRequest.startingAfter

theorem beginning_le : beginning cfg log ≤ Log.last FactRow.ser log := by
  unfold beginning
  split
  · exact Nat.le_refl _
  · exact PgFactStream.retrieve_le

/-- The facts are in order and belong to the subscription; and none is missing, if `g` is what
keeps a stream from passing over any. -/
structure Fits (g : Prop) (cfg : Config) (log opened l : List FactRow) : Prop where
  ascending : Log.Ascending FactRow.ser l
  matched : ∀ row ∈ l, row ∈ log ∧ matching cfg.db cfg.originalRequest row = true
  isPrefix : g → l <+: Log.after FactRow.ser (matching cfg.db cfg.originalRequest)
      (beginning cfg opened) log

/-- The facts up to what an open stream has sent. -/
structure Unbroken (g : Prop) (cfg : Config) (log opened l : List FactRow) (c : Conn) : Prop where
  fits : Fits g cfg log opened l
  passed : ∀ row ∈ l, row.ser ≤ c.sent
  below : c.sent ≤ Log.last FactRow.ser log
  complete : g → c.cut = none →
    l ++ Log.after FactRow.ser (matching cfg.db cfg.originalRequest) c.sent log =
      Log.after FactRow.ser (matching cfg.db cfg.originalRequest)
        (beginning cfg opened) log

theorem Fits.nil : Fits g cfg log opened [] :=
  ⟨List.Pairwise.nil, by simp, fun _ => List.nil_prefix⟩

theorem Fits.of_isPrefix (h : Fits g cfg log opened m) (hp : l <+: m) : Fits g cfg log opened l where
  ascending := h.ascending.of_isPrefix hp
  matched := fun row hrow => h.matched row (hp.subset hrow)
  isPrefix := fun heph => hp.trans (h.isPrefix heph)

theorem Fits.publish (h : Fits g cfg log opened l) : Fits g cfg (log ++ rows) opened l where
  ascending := h.ascending
  matched := fun row hrow => ⟨List.mem_append_left _ (h.matched row hrow).1, (h.matched row hrow).2⟩
  isPrefix := by
    intro hg
    rw [Log.after_append]
    exact (h.isPrefix hg).trans (List.prefix_append ..)

/-- The first fact of what comes is the next to be handed over. -/
theorem Unbroken.fits_cons {c : Conn} {row : FactRow} {rest : List FactRow}
    (h : Unbroken g cfg log opened (l ++ row :: rest) c) : Fits g cfg log opened (l ++ [row]) := by
  apply h.fits.of_isPrefix
  exact ⟨rest, by simp⟩

theorem Unbroken.publish {c : Conn} (h : Unbroken g cfg log opened l c)
    (hopened : opened <+: log) (hasc : Log.Ascending FactRow.ser (log ++ rows))
    (hpos : ∀ row ∈ rows, 0 < row.ser) : Unbroken g cfg (log ++ rows) opened l c where
  fits := h.fits.publish
  passed := h.passed
  below := Nat.le_trans h.below PgFactStream.last_mono
  complete := by
    intro hg hcut
    -- the new rows lie above the log, and so above both serials
    have habove : ∀ a, a ≤ Log.last FactRow.ser log →
        Log.after FactRow.ser (matching cfg.db cfg.originalRequest) a rows =
          rows.filter fun row => matching cfg.db cfg.originalRequest row := by
      intro a ha
      apply List.filter_congr
      intro row hrow
      have hlt : a < row.ser := Nat.lt_of_le_of_lt ha (PgFactStream.last_lt hasc hpos hrow)
      simp [hlt]
    have hstart : beginning cfg opened ≤ Log.last FactRow.ser log := by
      obtain ⟨rest, rfl⟩ := hopened
      exact Nat.le_trans beginning_le PgFactStream.last_mono
    rw [Log.after_append, Log.after_append, habove _ h.below, habove _ hstart, ← h.complete hg hcut,
      List.append_assoc]

/-- The server sends the next rows it has. -/
theorem Unbroken.sendFacts {c c' : Conn} {n : Nat} {row : FactRow}
    (h : Unbroken g cfg log opened l c) (hasc : Log.Ascending FactRow.ser log) (hcut : c.cut = none)
    (hrows : ((Log.after FactRow.ser (matching cfg.db cfg.originalRequest) c.sent log).take n) = rows)
    (hlast : rows.getLast? = some row) (hsent : c'.sent = row.ser) :
    Unbroken g cfg log opened (l ++ rows) c' := by
  have hp : rows <+: Log.after FactRow.ser (matching cfg.db cfg.originalRequest) c.sent log :=
    hrows ▸ List.take_prefix n _
  obtain ⟨before, rfl⟩ := List.getLast?_eq_some_iff.mp hlast
  have hafter := Log.append_after_of_isPrefix hasc hp
  have hmem : ∀ x ∈ before ++ [row], x ∈ log ∧ matching cfg.db cfg.originalRequest x = true ∧
      c.sent < x.ser := fun x hx => Log.mem_after.mp (hp.subset hx)
  have hbefore : Log.Ascending FactRow.ser (before ++ [row]) := hasc.after.of_isPrefix hp
  have hmax : ∀ x ∈ before ++ [row], x.ser ≤ row.ser := by
    intro x hx
    rcases List.mem_append.mp hx with hx | hx
    · exact Nat.le_of_lt (hbefore.lt_of_append hx (List.mem_singleton_self row))
    · rw [List.mem_singleton.mp hx]
  have hrow := hmem row (by simp)
  have hcomplete : g →
      l ++ (before ++ [row]) ++ Log.after FactRow.ser (matching cfg.db cfg.originalRequest) row.ser log =
        Log.after FactRow.ser (matching cfg.db cfg.originalRequest)
          (beginning cfg opened) log := by
    intro hg
    rw [List.append_assoc, hafter, h.complete hg hcut]
  refine
    { fits := { ascending := ?_, matched := ?_, isPrefix := ?_ }, passed := ?_
      below := ?_, complete := fun hg _ => hsent ▸ hcomplete hg }
  · apply h.fits.ascending.append hbefore
    intro x hx y hy
    exact Nat.lt_of_le_of_lt (h.passed x hx) (hmem y hy).2.2
  · intro x hx
    rcases List.mem_append.mp hx with hx | hx
    · exact h.fits.matched x hx
    · exact ⟨(hmem x hx).1, (hmem x hx).2.1⟩
  · intro hg
    exact ⟨_, hcomplete hg⟩
  · intro x hx
    rw [hsent]
    rcases List.mem_append.mp hx with hx | hx
    · exact Nat.le_of_lt (Nat.lt_of_le_of_lt (h.passed x hx) hrow.2.2)
    · exact hmax x hx
  · rw [hsent]
    exact Log.le_last hrow.1

/-- A stream breaks, and less arrives. -/
theorem Unbroken.cut {c : Conn} {inflight : List Notification} {e : Throwable}
    (h : Unbroken g cfg log opened m c) (hp : l <+: m) :
    Unbroken g cfg log opened l { c with inflight, cut := some e } where
  fits := h.fits.of_isPrefix hp
  passed := fun row hrow => h.passed row (hp.subset hrow)
  below := h.below
  complete := by
    intro _ hcut
    cases hcut

/-- The id of a fact leads back to its serial. -/
theorem retrieve_id {row : FactRow} (hids : (log.map fun r => r.fact.id).Nodup) (hrow : row ∈ log) :
    retrieve log (some row.fact.id) = row.ser := by
  induction log with
  | nil => cases hrow
  | cons x rest ih =>
    simp only [List.map_cons, List.nodup_cons, List.mem_map, not_exists, not_and] at hids
    rcases List.mem_cons.mp hrow with rfl | hrest
    · simp [retrieve]
    · have hne : (x.fact.id == row.fact.id) = false := by
        simpa using fun heq => hids.1 row hrest heq.symm
      have hih := ih hids.2 hrest
      simp only [retrieve, List.find?_cons, hne] at hih ⊢
      exact hih

end Lists

/-! ### What holds in every run -/

/-- The position is that of the last fact, but for the one the observer is given. -/
def Positioned (s : State) : Phase → Prop
  | .calling (.onNext row) _ => s.handed.getLast? = some row
  | _ => s.lastPosition = s.handed.getLast?.map FactStreamPosition.from_

/-- What holds of the latest connection. -/
structure Current (g : Prop) (cfg : Config) (s : State) (m : Nat) : Prop where
  positioned : Positioned s (s.phase (.delivery m))
  held : ∀ c todo, s.phase (.delivery m) = .checked c todo →
    Fits g cfg s.log s.opened (s.handed ++ c.row?.toList)
  waiting : (s.conns m).position = none → (s.conns m).inflight = [] ∧
    (s.phase (.delivery m)).quiet = true ∧ (s.conns m).startingAfter = startingAfter cfg s
  begun : (s.conns m).position ≠ none → (s.conns m).closed = false → s.isClosed = false →
    Unbroken g cfg s.log s.opened
      (s.handed ++ (s.phase (.delivery m)).ahead ++ (s.conns m).inflight.flatMap Notification.rows)
      (s.conns m)

/-- The same, where the thread's phase and the connection are known. -/
theorem Current.of {cfg : Config} {s : State} {m : Nat} {phase : Phase} {c : Conn}
    (hphase : s.phase (.delivery m) = phase) (hconn : s.conns m = c) (hpos : c.position ≠ none)
    (hpositioned : Positioned s phase)
    (hheld : ∀ call todo, phase = .checked call todo →
      Fits g cfg s.log s.opened (s.handed ++ call.row?.toList))
    (hbegun : c.closed = false → s.isClosed = false →
      Unbroken g cfg s.log s.opened
        (s.handed ++ phase.ahead ++ c.inflight.flatMap Notification.rows) c) : Current g cfg s m := by
  subst hphase hconn
  exact ⟨hpositioned, hheld, fun hnone => absurd hnone hpos, fun _ => hbegun⟩

/-- Nothing is known of a connection that is not open yet. -/
structure Fresh (c : Conn) : Prop where
  position : c.position = none
  inflight : c.inflight = []
  cut : c.cut = none
  due : c.due = none

structure Inv (g : Prop) (cfg : Config) (s : State) : Prop where
  ascending : Log.Ascending FactRow.ser s.log
  positive : ∀ row ∈ s.log, 0 < row.ser
  ids : (s.log.map fun r => r.fact.id).Nodup
  opened : s.opened <+: s.log
  fits : Fits g cfg s.log s.opened s.handed
  allowed : ∀ t, Allowed s.count t (s.phase t)
  fresh : ∀ k, s.count ≤ k → Fresh (s.conns k)
  unconnected : s.count = 0 → s.handed = [] ∧ s.lastPosition = none
  current : ∀ m, s.count = m + 1 → Current g cfg s m

section Steps
variable {g : Prop} {cfg : Config} {s s' : State} {m n : Nat} {t : Thread}

@[simp] theorem setPhase_self (phase : Phase) : (s.setPhase t phase).phase t = phase :=
  Function.update_self ..

theorem setPhase_of_ne {u : Thread} {phase : Phase} (h : u ≠ t) :
    (s.setPhase t phase).phase u = s.phase u :=
  Function.update_of_ne h ..

@[simp] theorem setConn_self (c : Conn) : (s.setConn m c).conns m = c := Function.update_self ..

theorem setConn_of_ne {c : Conn} (h : n ≠ m) : (s.setConn m c).conns n = s.conns n :=
  Function.update_of_ne h ..

/-- Whose notifications are delivered, or may be, is the latest connection. -/
theorem Inv.latest (h : Inv g cfg s) (hpast : (s.phase (.delivery m)).past = false) (hm : m < s.count) :
    s.count = m + 1 := by
  by_contra hne
  have := (h.allowed (.delivery m)).1 (by omega)
  rw [hpast] at this
  cases this

theorem Inv.lt_count (h : Inv g cfg s) (hidle : s.phase (.delivery m) ≠ .idle) : m < s.count := by
  by_contra hge
  exact hidle ((h.allowed (.delivery m)).2 (by omega))

/-- What changes only the latest connection and its thread. -/
theorem Inv.of_current (h : Inv g cfg s) (hm : s.count = m + 1) (hlog : s'.log = s.log)
    (hcount : s'.count = s.count) (hphase : ∀ u, u ≠ .delivery m → s'.phase u = s.phase u)
    (hconns : ∀ k, k ≠ m → s'.conns k = s.conns k) (hopened : s'.opened <+: s'.log)
    (hfits : Fits g cfg s'.log s'.opened s'.handed) (hcur : Current g cfg s' m) : Inv g cfg s' where
  ascending := hlog ▸ h.ascending
  positive := hlog ▸ h.positive
  ids := hlog ▸ h.ids
  opened := hopened
  fits := hfits
  allowed := by
    intro u
    rw [hcount]
    by_cases hu : u = .delivery m
    · subst hu
      constructor
      · intro hlt
        omega
      · intro hle
        omega
    · rw [hphase u hu]
      exact h.allowed u
  fresh := by
    intro k hk
    rw [hcount] at hk
    rw [hconns k (by omega)]
    exact h.fresh k hk
  unconnected := by
    intro h0
    omega
  current := by
    intro k hk
    obtain rfl : k = m := by omega
    exact hcur

/-- A connection changes in nothing but its flag and its times. -/
structure Same (c c' : Conn) : Prop where
  startingAfter : c'.startingAfter = c.startingAfter
  position : c'.position = c.position
  sent : c'.sent = c.sent
  inflight : c'.inflight = c.inflight
  cut : c'.cut = c.cut
  closed : c.closed = true → c'.closed = true
  due : c.due = none → c'.due = none

theorem Unbroken.same {log opened l : List FactRow} {c c' : Conn} (h : Unbroken g cfg log opened l c)
    (hc : Same c c') : Unbroken g cfg log opened l c' where
  fits := h.fits
  passed := hc.sent ▸ h.passed
  below := hc.sent ▸ h.below
  complete := by
    rw [hc.sent, hc.cut]
    exact h.complete

theorem Inv.same {c : Conn} (h : Inv g cfg s) (hc : Same (s.conns m) c) : Inv g cfg (s.setConn m c) := by
  have hconns : ∀ k, Same (s.conns k) ((s.setConn m c).conns k) := by
    intro k
    by_cases hk : k = m
    · subst hk
      rw [setConn_self]
      exact hc
    · rw [setConn_of_ne hk]
      exact ⟨rfl, rfl, rfl, rfl, rfl, id, id⟩
  refine { h with fresh := fun k hk => ?_, current := fun k hk => ?_ }
  · have hs := hconns k
    have hf := h.fresh k hk
    exact ⟨hs.position.trans hf.position, hs.inflight.trans hf.inflight, hs.cut.trans hf.cut,
      hs.due hf.due⟩
  · have hs := hconns k
    have hcur := h.current k hk
    refine { positioned := hcur.positioned, held := hcur.held, waiting := ?_, begun := ?_ }
    · intro hpos
      rw [hs.position] at hpos
      rw [hs.inflight, hs.startingAfter]
      exact hcur.waiting hpos
    · intro hpos hclosed hopen
      rw [hs.position] at hpos
      have hclosed : (s.conns k).closed = false := by
        cases hk : (s.conns k).closed with
        | false => rfl
        | true => cases (hs.closed hk).symm.trans hclosed
      rw [hs.inflight]
      exact (hcur.begun hpos hclosed hopen).same hs

theorem Inv.shut (h : Inv g cfg s) (m : Nat) : Inv g cfg (s.shut m) :=
  h.same ⟨rfl, rfl, rfl, rfl, rfl, fun _ => rfl, fun _ => rfl⟩

theorem Inv.shutAll (h : Inv g cfg s) (current : Option Nat) : Inv g cfg (s.shutAll current) := by
  cases current with
  | none => exact h
  | some m => exact h.shut m

theorem positioned_quiet {phase : Phase} (hq : phase.quiet = true) :
    Positioned s phase ↔ s.lastPosition = s.handed.getLast?.map FactStreamPosition.from_ := by
  cases phase with
  | calling => cases hq
  | _ => rfl

/-- A thread that is not in a notification goes on without beginning one. -/
theorem Inv.pass {phase : Phase} (h : Inv g cfg s) (hq : (s.phase t).quiet = true)
    (hq' : phase.quiet = true)
    (ha : Allowed s.count t (s.phase t) → Allowed s.count t phase) : Inv g cfg (s.setPhase t phase) := by
  have hphase : ∀ u, (s.setPhase t phase).phase u = s.phase u ∨
      u = t ∧ (s.setPhase t phase).phase u = phase := by
    intro u
    by_cases hu : u = t
    · subst hu
      exact .inr ⟨rfl, setPhase_self _⟩
    · exact .inl (setPhase_of_ne hu)
  refine { h with allowed := fun u => ?_, current := fun m hm => ?_ }
  · rcases hphase u with hu | ⟨rfl, hu⟩
    · rw [hu]
      exact h.allowed u
    · rw [hu]
      exact ha (h.allowed u)
  · have hcur := h.current m hm
    rcases hphase (.delivery m) with hu | ⟨rfl, hu⟩
    · exact
        { positioned := hu ▸ hcur.positioned, held := hu ▸ hcur.held, waiting := hu ▸ hcur.waiting
          begun := hu ▸ hcur.begun }
    · refine { positioned := ?_, held := ?_, waiting := ?_, begun := ?_ }
      · rw [hu]
        exact (positioned_quiet hq').mpr ((positioned_quiet hq).mp hcur.positioned)
      · intro c todo hc
        rw [hu] at hc
        subst hc
        cases hq'
      · intro hpos
        rw [hu]
        exact ⟨(hcur.waiting hpos).1, hq', (hcur.waiting hpos).2.2⟩
      · rw [hu, Phase.ahead_quiet hq', ← Phase.ahead_quiet hq]
        exact hcur.begun

/-- What threads tell one another, and the clock, is of no account. -/
theorem Inv.elsewhere (h : Inv g cfg s) (now : Nat) (currentSubscription : Option Nat)
    (monitor : Option Thread) (reported : List Throwable) :
    Inv g cfg { s with now, currentSubscription, monitor, reported } := by
  refine { h with current := fun m hm => ?_ }
  have hcur := h.current m hm
  exact ⟨hcur.positioned, hcur.held, hcur.waiting, hcur.begun⟩

theorem Inv.close_flag (h : Inv g cfg s) : Inv g cfg { s with isClosed := true } := by
  refine { h with current := fun m hm => ?_ }
  have hcur := h.current m hm
  refine { positioned := hcur.positioned, held := hcur.held, waiting := hcur.waiting, begun := ?_ }
  intro _ _ hopen
  cases hopen

theorem Inv.lt_of_fresh (h : Inv g cfg s) (hnot : ¬ Fresh (s.conns m)) : m < s.count := by
  by_contra hge
  exact hnot (h.fresh m (by omega))

/-- What happens on an earlier connection's stream is of no account. -/
theorem Inv.old (h : Inv g cfg s) (hm : m + 1 < s.count) (c : Conn) : Inv g cfg (s.setConn m c) := by
  refine { h with fresh := fun k hk => ?_, current := fun k hk => ?_ }
  · have hne : k ≠ m := by
      have : s.count ≤ k := hk
      omega
    rw [setConn_of_ne hne]
    exact h.fresh k hk
  · have hne : k ≠ m := by
      have : s.count = k + 1 := hk
      omega
    have hcur := h.current k hk
    have hconn : (s.setConn m c).conns k = s.conns k := setConn_of_ne hne
    exact
      { positioned := hcur.positioned, held := hcur.held, waiting := hconn ▸ hcur.waiting
        begun := hconn ▸ hcur.begun }

/-- What the server does to a stream. -/
theorem Inv.stream {c : Conn} (h : Inv g cfg s) (hm : m < s.count)
    (hstart : c.startingAfter = (s.conns m).startingAfter)
    (hposition : c.position = (s.conns m).position) (hclosed : c.closed = (s.conns m).closed)
    (hwaiting : (s.conns m).position = none → (s.conns m).inflight = [] → c.inflight = [])
    (hbegun : ∀ l, Unbroken g cfg s.log s.opened
        (l ++ (s.conns m).inflight.flatMap Notification.rows) (s.conns m) →
      Unbroken g cfg s.log s.opened (l ++ c.inflight.flatMap Notification.rows) c) :
    Inv g cfg (s.setConn m c) := by
  by_cases hlatest : m + 1 < s.count
  · exact h.old hlatest c
  · have hcount : s.count = m + 1 := by omega
    have hcur := h.current m hcount
    have hconns : ∀ k, k ≠ m → (s.setConn m c).conns k = s.conns k := fun _ hk => setConn_of_ne hk
    refine h.of_current hcount rfl rfl (fun _ _ => rfl) hconns h.opened h.fits ?_
    refine { positioned := hcur.positioned, held := hcur.held, waiting := ?_, begun := ?_ }
    · rw [setConn_self, hposition, hstart]
      intro hpos
      obtain ⟨hinflight, hquiet, hasked⟩ := hcur.waiting hpos
      exact ⟨hwaiting hpos hinflight, hquiet, hasked⟩
    · rw [setConn_self, hposition, hclosed]
      intro hpos hc ho
      exact hbegun _ (hcur.begun hpos hc ho)

theorem inv_publish {rows : List FactRow} (h : Inv g cfg s) (hs : step cfg s (.publish rows) = some s') :
    Inv g cfg s' := by
  cases step_cases hs with
  | publish hasc hpos hids =>
    refine
      { h with
        ascending := hasc, positive := ?_, ids := hids, opened := ?_, fits := h.fits.publish
        current := fun m hm => ?_ }
    · intro row hrow
      rcases List.mem_append.mp hrow with hrow | hrow
      · exact h.positive row hrow
      · exact hpos row hrow
    · exact h.opened.trans (List.prefix_append ..)
    · have hcur := h.current m hm
      exact
        { positioned := hcur.positioned, waiting := hcur.waiting
          held := fun c todo hc => (hcur.held c todo hc).publish
          begun := fun hp hc ho => (hcur.begun hp hc ho).publish h.opened hasc hpos }

/-- An ephemeral stream that reconnects begins at the end of the log, and so passes over what
was committed since the last fact. It keeps its place if there is no such fact. -/
def KeepsPlace (cfg : Config) (s : State) : Prop :=
  cfg.originalRequest.ephemeral = true → ∀ row, s.handed.getLast? = some row →
    Log.after FactRow.ser (matching cfg.db cfg.originalRequest) row.ser s.log = []

/-- Where a stream begins: after everything that was handed over. -/
theorem Inv.unbroken_accept (h : Inv g cfg s) (hkeeps : g → KeepsPlace cfg s) (hlast : s.lastPosition =
      s.handed.getLast?.map FactStreamPosition.from_) {c : Conn} {serial : Nat}
    (hserial : serial = if cfg.originalRequest.ephemeral then Log.last FactRow.ser s.log
      else retrieve s.log (startingAfter cfg s)) :
    Unbroken g cfg s.log (if s.handed = [] then s.log else s.opened) s.handed
      { c with position := some serial, sent := serial } := by
  have hbelow : serial ≤ Log.last FactRow.ser s.log := by
    rw [hserial]
    split
    · exact Nat.le_refl _
    · exact PgFactStream.retrieve_le
  rcases List.eq_nil_or_concat s.handed with hnil | ⟨before, row, hconcat⟩
  · rw [hnil, if_pos rfl]
    refine { fits := .nil, passed := by simp, below := hbelow, complete := fun _ _ => ?_ }
    -- nothing was handed over, and the request is the original one
    have hstart : startingAfter cfg s = cfg.originalRequest.startingAfter := by
      rw [hnil] at hlast
      simp [startingAfter, hlast]
    rw [hstart] at hserial
    rw [List.nil_append, hserial]
    rfl
  · rw [List.concat_eq_append] at hconcat
    have hne : s.handed ≠ [] := by simp [hconcat]
    rw [if_neg hne]
    have hrow : row ∈ s.log := (h.fits.matched row (by simp [hconcat])).1
    have hpassed : ∀ x ∈ s.handed, x.ser ≤ row.ser := by
      intro x hx
      have hasc := h.fits.ascending
      rw [hconcat] at hx hasc
      rcases List.mem_append.mp hx with hx | hx
      · exact Nat.le_of_lt (hasc.lt_of_append hx (List.mem_singleton_self row))
      · rw [List.mem_singleton.mp hx]
    have hid : cfg.originalRequest.ephemeral = false → serial = row.ser := by
      intro heph
      have hstart : startingAfter cfg s = some row.fact.id := by
        rw [hconcat, List.getLast?_concat] at hlast
        simp [startingAfter, hlast, FactStreamPosition.from_]
      rw [heph, hstart] at hserial
      exact hserial.trans (retrieve_id h.ids hrow)
    refine { fits := h.fits, passed := fun x hx => ?_, below := hbelow, complete := fun hg _ => ?_ }
    · show x.ser ≤ serial
      cases heph : cfg.originalRequest.ephemeral with
      | true =>
        rw [heph] at hserial
        rw [hserial]
        exact Log.le_last (h.fits.matched x hx).1
      | false =>
        rw [hid heph]
        exact hpassed x hx
    · have hnext : Log.after FactRow.ser (matching cfg.db cfg.originalRequest) serial s.log =
          Log.after FactRow.ser (matching cfg.db cfg.originalRequest) row.ser s.log := by
        cases heph : cfg.originalRequest.ephemeral with
        | true =>
          rw [heph] at hserial
          have hnone := hkeeps hg heph row (by rw [hconcat, List.getLast?_concat])
          rw [hnone, hserial, List.eq_nil_iff_forall_not_mem]
          intro x hx
          have hx := Log.mem_after.mp hx
          exact absurd (Log.le_last hx.1) (Nat.not_le.mpr hx.2.2)
        | false => rw [hid heph]
      show s.handed ++ Log.after _ _ serial _ = _
      rw [hnext, hconcat]
      apply Log.append_after_of_isPrefix h.ascending
      exact hconcat ▸ h.fits.isPrefix hg

theorem inv_accept (h : Inv g cfg s) (hkeeps : g → m + 1 = s.count → KeepsPlace cfg s)
    (hs : step cfg s (.accept m) = some s') : Inv g cfg s' := by
  cases step_cases hs with
  | accept hm hpos hserial =>
    by_cases hlatest : m + 1 < s.count
    · have hfirst : ¬ (m + 1 = s.count ∧ s.handed = []) := by omega
      simp only [if_neg hfirst]
      exact h.old hlatest _
    · have hcount : s.count = m + 1 := by omega
      have hcur := h.current m hcount
      obtain ⟨hinflight, hquiet, hasked⟩ := hcur.waiting hpos
      have hlast := (positioned_quiet hquiet).mp hcur.positioned
      rw [hasked] at hserial
      have hunbroken := h.unbroken_accept (fun hg => hkeeps hg hcount.symm) hlast (c := s.conns m) hserial
      have hfirst : (m + 1 = s.count ∧ s.handed = []) = (s.handed = []) := by simp [hcount]
      simp only [hfirst]
      refine h.of_current hcount rfl rfl (fun _ _ => rfl) (fun _ hk => setConn_of_ne hk) ?_ ?_ ?_
      · show (if s.handed = [] then s.log else s.opened) <+: s.log
        split
        · exact List.prefix_rfl
        · exact h.opened
      · exact hunbroken.fits
      · refine { positioned := hcur.positioned, held := ?_, waiting := ?_, begun := ?_ }
        · intro c todo hc
          rw [show s.phase (.delivery m) = .checked c todo from hc] at hquiet
          cases hquiet
        · rw [setConn_self]
          intro hnone
          cases hnone
        · rw [setConn_self]
          intro _ _ _
          have hlist : s.handed ++ (s.phase (.delivery m)).ahead ++
              (s.conns m).inflight.flatMap Notification.rows = s.handed := by
            rw [Phase.ahead_quiet hquiet, hinflight]
            simp
          show Unbroken g cfg s.log _ (s.handed ++ (s.phase (.delivery m)).ahead ++
              (s.conns m).inflight.flatMap Notification.rows) _
          rw [hlist]
          exact hunbroken

theorem inv_sendFacts (h : Inv g cfg s) (hs : step cfg s (.sendFacts m n) = some s') : Inv g cfg s' := by
  cases step_cases hs with
  | sendFacts hrows hpos hcut hlast =>
    have hm : m < s.count := h.lt_of_fresh fun hf => by cases hf.position.symm.trans hpos
    refine h.stream hm rfl rfl rfl (fun hnone => ?_) fun l hl => ?_
    · cases hnone.symm.trans hpos
    · simp only [List.flatMap_append, List.flatMap_singleton, Notification.rows]
      rw [← List.append_assoc]
      exact hl.sendFacts h.ascending hcut hrows.symm hlast rfl

theorem Inv.send {position : Nat} {notification : Notification} (hrows : notification.rows = []) (h : Inv g cfg s)
    (hpos : (s.conns m).position = some position) :
    Inv g cfg (s.setConn m { s.conns m with inflight := (s.conns m).inflight ++ [notification] }) := by
  have hm : m < s.count := h.lt_of_fresh fun hf => by cases hf.position.symm.trans hpos
  refine h.stream hm rfl rfl rfl (fun hnone => ?_) fun l hl => ?_
  · cases hnone.symm.trans hpos
  · simp only [List.flatMap_append, List.flatMap_singleton, hrows, List.append_nil]
    exact ⟨hl.fits, hl.passed, hl.below, hl.complete⟩

theorem inv_cut {arrive : Nat} {e : Throwable} (h : Inv g cfg s) (hs : step cfg s (.cut m arrive e) = some s') :
    Inv g cfg s' := by
  cases step_cases hs with
  | cut hm =>
    refine h.stream hm rfl rfl rfl (fun _ hnil => by simp [hnil]) fun l hl => hl.cut ?_
    have hsplit := List.take_append_drop arrive (s.conns m).inflight
    refine ⟨((s.conns m).inflight.drop arrive).flatMap Notification.rows, ?_⟩
    rw [List.append_assoc, ← List.flatMap_append, hsplit]

/-! #### Notifications -/

theorem positioned_resume {todo : List Callback} : Positioned s (resume todo) ↔
    s.lastPosition = s.handed.getLast?.map FactStreamPosition.from_ := by
  cases todo <;> rfl

theorem resume_ne_checked {todo rest : List Callback} {c : Callback} :
    resume todo ≠ .checked c rest := by
  cases todo <;> simp [resume]

/-- The latest delivering thread goes through. -/
theorem Inv.over (h : Inv g cfg s) (hq : (s.phase (.delivery m)).quiet = true) (hm : m < s.count) :
    Inv g cfg (s.setPhase (.delivery m) .over) :=
  h.pass hq rfl fun _ => ⟨fun _ => rfl, fun hle => by omega⟩

theorem inv_receive (h : Inv g cfg s) (hs : step cfg s (.receive m) = some s') : Inv g cfg s' := by
  cases step_cases hs with
  | receiveLate hphase hinflight =>
    have hm : m < s.count := h.lt_of_fresh fun hf => by cases hf.inflight.symm.trans hinflight
    exact h.over (by rw [hphase]; rfl) hm
  | receive hphase hinflight =>
    have hm : m < s.count := h.lt_of_fresh fun hf => by cases hf.inflight.symm.trans hinflight
    have hcount := h.latest (by rw [hphase]; rfl) hm
    have hcur := h.current m hcount
    have hpos : (s.conns m).position ≠ none := fun hnone => by
      cases (hcur.waiting hnone).1.symm.trans hinflight
    have hpositioned := hcur.positioned
    rw [hphase] at hpositioned
    have hbegun := hcur.begun hpos
    rw [hphase, hinflight] at hbegun
    refine h.of_current hcount rfl rfl (fun _ hu => setPhase_of_ne hu)
      (fun _ hk => setConn_of_ne hk) h.opened h.fits ?_
    refine Current.of (setPhase_self _) (setConn_self _) hpos (positioned_resume.mpr hpositioned)
      (fun _ _ hc => absurd hc resume_ne_checked) fun hc ho => ?_
    have hunbroken := hbegun hc ho
    rw [List.flatMap_cons, ← List.append_assoc] at hunbroken
    rw [ahead_resume, rows_process]
    simp only [Phase.ahead, List.append_nil] at hunbroken
    exact ⟨hunbroken.fits, hunbroken.passed, hunbroken.below, hunbroken.complete⟩

theorem inv_receiveError (h : Inv g cfg s) (hs : step cfg s (.receiveError m) = some s') : Inv g cfg s' := by
  cases step_cases hs with
  | receiveError hphase _ hcut =>
    have hm : m < s.count := h.lt_of_fresh fun hf => by cases hf.cut.symm.trans hcut
    have hcount := h.latest (by rw [hphase]; rfl) hm
    have hsame : Inv g cfg (s.setConn m { s.conns m with due := none }) :=
      h.same ⟨rfl, rfl, rfl, rfl, rfl, id, fun _ => rfl⟩
    apply hsame.pass
    · show (s.phase (.delivery m)).quiet = true
      rw [hphase]
      rfl
    · split
      · rfl
      · rfl
    · intro _
      constructor
      · intro hlt
        have hlt : m + 1 < s.count := hlt
        omega
      · intro hle
        have hle : s.count ≤ m := hle
        omega

/-- A delivering thread in a notification is that of the latest connection, which has begun. -/
theorem Inv.delivering (h : Inv g cfg s) (hquiet : (s.phase (.delivery m)).quiet = false) :
    s.count = m + 1 ∧ Current g cfg s m ∧ (s.conns m).position ≠ none := by
  have hidle : s.phase (.delivery m) ≠ .idle := fun hidle => by
    rw [hidle] at hquiet
    cases hquiet
  have hpast : (s.phase (.delivery m)).past = false := by
    cases hphase : s.phase (.delivery m) with
    | opened =>
      rw [hphase] at hquiet
      cases hquiet
    | «over» =>
      rw [hphase] at hquiet
      cases hquiet
    | _ => rfl
  have hcount := h.latest hpast (h.lt_count hidle)
  have hcur := h.current m hcount
  refine ⟨hcount, hcur, fun hnone => ?_⟩
  cases (hcur.waiting hnone).2.1.symm.trans hquiet

theorem inv_next (h : Inv g cfg s) (hs : step cfg s (.next m) = some s') : Inv g cfg s' := by
  cases step_cases hs with
  | @skip _ c todo hphase hskipped =>
    obtain ⟨hcount, hcur, hpos⟩ := h.delivering (m := m) (by rw [hphase]; rfl)
    have hpositioned := hcur.positioned
    rw [hphase] at hpositioned
    have hbegun := hcur.begun hpos
    rw [hphase] at hbegun
    refine h.of_current hcount rfl rfl (fun _ hu => setPhase_of_ne hu) (fun _ _ => rfl) h.opened
      h.fits ?_
    refine Current.of (setPhase_self _) rfl hpos (positioned_resume.mpr hpositioned)
      (fun _ _ hc => absurd hc resume_ne_checked) fun hc ho => ?_
    -- what is passed over while nothing is closed is no fact
    have hnone : c.row? = none := by
      cases c with
      | onNext row =>
        have hc : (s.conns m).closed = false := hc
        have ho : s.isClosed = false := ho
        simp [skipped, hc, ho] at hskipped
      | _ => rfl
    have hunbroken := hbegun hc ho
    rw [ahead_resume]
    simp only [Phase.ahead, List.filterMap_cons, hnone] at hunbroken
    exact hunbroken
  | @next _ c todo hphase hskipped =>
    obtain ⟨hcount, hcur, hpos⟩ := h.delivering (m := m) (by rw [hphase]; rfl)
    have hpositioned := hcur.positioned
    rw [hphase] at hpositioned
    have hbegun := hcur.begun hpos
    rw [hphase] at hbegun
    refine h.of_current hcount rfl rfl (fun _ hu => setPhase_of_ne hu) (fun _ _ => rfl) h.opened
      h.fits ?_
    refine Current.of (setPhase_self _) rfl hpos hpositioned (fun call rest hcall => ?_) hbegun
    obtain ⟨rfl, rfl⟩ : c = call ∧ todo = rest := by simpa using hcall
    cases hrow : c.row? with
    | none =>
      show Fits g cfg s.log s.opened (s.handed ++ [])
      rw [List.append_nil]
      exact h.fits
    | some row =>
      have hopen : (s.conns m).closed = false ∧ s.isClosed = false := by
        cases c with
        | onNext => simpa [skipped] using hskipped
        | _ => cases hrow
      have hunbroken := hbegun hopen.1 hopen.2
      simp only [Phase.ahead, List.filterMap_cons, hrow, List.append_assoc, List.cons_append]
        at hunbroken
      exact hunbroken.fits_cons

theorem inv_enter (h : Inv g cfg s) (hs : step cfg s (.enter m) = some s') : Inv g cfg s' := by
  cases step_cases hs with
  | @enter _ c todo hphase =>
    obtain ⟨hcount, hcur, hpos⟩ := h.delivering (m := m) (by rw [hphase]; rfl)
    have hpositioned := hcur.positioned
    rw [hphase] at hpositioned
    have hbegun := hcur.begun hpos
    rw [hphase] at hbegun
    refine h.of_current hcount rfl rfl (fun _ hu => setPhase_of_ne hu) (fun _ _ => rfl) h.opened
      (hcur.held c todo hphase) ?_
    refine Current.of (setPhase_self _) rfl hpos ?_ (fun _ _ hc => by cases hc) fun hc ho => ?_
    · cases c with
      | onNext row => exact List.getLast?_concat ..
      | _ =>
        show s.lastPosition = (s.handed ++ []).getLast?.map FactStreamPosition.from_
        rw [List.append_nil]
        exact hpositioned
    · have hunbroken := hbegun hc ho
      rw [ahead_checked, ← List.append_assoc] at hunbroken
      exact hunbroken

/-- Whatever the call was, its position and what is left fit. -/
theorem Inv.left {c : Callback} {todo : List Callback} {last : Option FactStreamPosition} (h : Inv g cfg s)
    (hphase : s.phase (.delivery m) = .calling c todo)
    (hlast : last = s.handed.getLast?.map FactStreamPosition.from_) :
    Inv g cfg { s.setPhase (.delivery m) (resume todo) with lastPosition := last } := by
  obtain ⟨hcount, hcur, hpos⟩ := h.delivering (m := m) (by rw [hphase]; rfl)
  have hbegun := hcur.begun hpos
  rw [hphase] at hbegun
  refine h.of_current hcount rfl rfl (fun _ hu => setPhase_of_ne hu) (fun _ _ => rfl) h.opened
    h.fits ?_
  refine Current.of (setPhase_self _) rfl hpos (positioned_resume.mpr hlast)
    (fun _ _ hc => absurd hc resume_ne_checked) fun hc ho => ?_
  rw [ahead_resume]
  exact hbegun hc ho

/-- In a call the position of what was handed over is known. -/
theorem Inv.calling {c : Callback} {todo : List Callback} (h : Inv g cfg s)
    (hphase : s.phase (.delivery m) = .calling c todo) : Positioned s (.calling c todo) := by
  obtain ⟨_, hcur, _⟩ := h.delivering (m := m) (by rw [hphase]; rfl)
  exact hphase ▸ hcur.positioned

theorem inv_leave (h : Inv g cfg s) (hs : step cfg s (.leave m) = some s') : Inv g cfg s' := by
  cases step_cases hs with
  | @leaveFact _ row todo hphase =>
    refine h.left hphase ?_
    rw [show s.handed.getLast? = some row from h.calling hphase]
    rfl
  | leaveComplete hphase => exact (h.left hphase (h.calling hphase)).shut m
  | leave hphase hc =>
    have hcalling := h.calling hphase
    rcases hc with rfl | rfl <;> exact h.left hphase hcalling

/-! #### Errors -/

theorem Allowed.over {count : Nat} {phase : Phase} (h : Allowed count t phase)
    (hidle : phase ≠ .idle) : Allowed count t .over := by
  cases t with
  | main => exact .inl rfl
  | user => rfl
  | timer k => rfl
  | delivery k => exact ⟨fun _ => rfl, fun hle => absurd (h.2 hle) hidle⟩

/-- A thread goes on from a phase in which it is neither idle nor through. -/
theorem Allowed.pass {count : Nat} {phase phase' : Phase} (h : Allowed count t phase)
    (hpast : phase.past = false) (hidle : phase ≠ .idle)
    (hspent : phase.spent = true → phase'.spent = true)
    (hleaving : phase.leaving = true → phase'.leaving = true)
    (hmain : phase = .reConnect → phase'.spent = true) : Allowed count t phase' := by
  cases t with
  | main =>
    rcases h with h | ⟨h, _⟩
    · exact .inl (hspent h)
    · exact .inl (hmain h)
  | user => exact hleaving h
  | timer k => exact hspent h
  | delivery k =>
    refine ⟨fun hlt => ?_, fun hle => absurd (h.2 hle) hidle⟩
    cases hpast.symm.trans (h.1 hlt)

/-- A thread is through, from wherever it was in its error handling. -/
theorem Inv.through (h : Inv g cfg s) (hq : (s.phase t).quiet = true) (hidle : s.phase t ≠ .idle) :
    Inv g cfg (s.setPhase t .over) :=
  h.pass hq rfl fun ha => ha.over hidle

theorem Inv.done (h : Inv g cfg s) (hq : (s.phase t).quiet = true) (hidle : s.phase t ≠ .idle) :
    Inv g cfg (s.done t) := by
  have hphase : (s.shutAll t.conn?).phase = s.phase := by cases t <;> rfl
  apply (h.shutAll t.conn?).through
  · rw [hphase]
    exact hq
  · rw [hphase]
    exact hidle

theorem inv_check (h : Inv g cfg s) (hs : step cfg s (.check m) = some s') : Inv g cfg s' := by
  cases step_cases hs with
  | checkStale hphase =>
    have hsame : Inv g cfg (s.setConn m { s.conns m with due := none }) :=
      h.same ⟨rfl, rfl, rfl, rfl, rfl, id, fun _ => rfl⟩
    apply hsame.pass
    · show (s.phase (.timer m)).quiet = true
      rw [hphase]
      rfl
    · rfl
    · intro _
      rfl
  | check _ hdue =>
    have hknown : ¬ (s.conns m).due = none := by simp [hdue]
    exact h.same ⟨rfl, rfl, rfl, rfl, rfl, id, fun hnone => absurd hnone hknown⟩

theorem inv_notifyError (h : Inv g cfg s) (hs : step cfg s (.notifyError t) = some s') : Inv g cfg s' := by
  cases step_cases hs with
  | notifyError hphase =>
    split
    · exact h.through (by rw [hphase]; rfl) (by simp [hphase])
    · apply h.pass
      · rw [hphase]
        rfl
      · rfl
      · rw [hphase]
        exact fun ha => ha.pass rfl (by simp) id (fun hl => by cases hl) fun hr => by cases hr

theorem inv_detach (h : Inv g cfg s) (hs : step cfg s (.detach t) = some s') : Inv g cfg s' := by
  cases step_cases hs with
  | @detach _ reason hphase =>
    have hpass : Inv g cfg (s.setPhase t (.closing s.currentSubscription reason)) := by
      apply h.pass
      · rw [hphase]
        rfl
      · rfl
      · rw [hphase]
        refine fun ha => ha.pass rfl (by simp) id (fun hl => ?_) fun hr => by cases hr
        cases reason with
        | closed => rfl
        | _ => cases hl
    exact hpass.elsewhere _ _ _ _

theorem phase_shutAll (current : Option Nat) {phase : Phase} (hphase : s.phase t = phase) :
    (s.shutAll current).phase t = phase := by
  cases current with
  | none => exact hphase
  | some m => exact hphase

theorem inv_close {exhausted : Bool} (h : Inv g cfg s) (hs : step cfg s (.close t exhausted) = some s') :
    Inv g cfg s' := by
  cases step_cases hs with
  | @closeRetry _ _ current e hphase =>
    have hphase' := phase_shutAll current hphase
    apply (h.shutAll current).pass
    · rw [hphase']
      rfl
    · split <;> rfl
    · rw [hphase']
      refine fun ha => ha.pass rfl (by simp) (fun hspent => ?_) (fun hl => by cases hl)
        fun hr => by cases hr
      have hno : ClientExceptionHelper.isRetryable e = false := by
        simpa [Phase.spent, Reason.spent] using hspent
      simp [shouldRetry, hno, Phase.spent]
  | @closeReport _ _ current e hphase =>
    have hphase' := phase_shutAll current hphase
    have hpass : Inv g cfg ((s.shutAll current).setPhase t (.reporting e)) := by
      apply (h.shutAll current).pass
      · rw [hphase']
        rfl
      · rfl
      · rw [hphase']
        exact fun ha => ha.pass rfl (by simp) (fun _ => rfl) (fun hl => by cases hl)
          fun hr => by cases hr
    exact hpass.elsewhere _ _ _ _
  | @close _ _ current hphase =>
    have hphase' := phase_shutAll current hphase
    exact (h.shutAll current).through (by rw [hphase']; rfl) (by simp [hphase'])

/-- Who connects is the thread of the latest connection, or the one that subscribes. -/
theorem Inv.connecting (h : Inv g cfg s) (hphase : s.phase t = .reConnect) :
    (t = .main ∧ s.count = 0) ∨ ∃ k, t = .delivery k ∧ s.count = k + 1 := by
  have hallowed := h.allowed t
  rw [hphase] at hallowed
  cases t with
  | main =>
    rcases hallowed with hspent | ⟨_, hcount⟩
    · cases hspent
    · exact .inl ⟨rfl, hcount⟩
  | user => cases hallowed
  | timer k => cases hallowed
  | delivery k =>
    have hpast : (s.phase (.delivery k)).past = false := by rw [hphase]; rfl
    exact .inr ⟨k, rfl, h.latest hpast (h.lt_count (by simp [hphase]))⟩

/-- Whoever connects finds the position of the last fact. -/
theorem Inv.positioned (h : Inv g cfg s) (hphase : s.phase t = .reConnect) :
    s.lastPosition = s.handed.getLast?.map FactStreamPosition.from_ := by
  rcases h.connecting hphase with ⟨_, hcount⟩ | ⟨k, rfl, hcount⟩
  · obtain ⟨hhanded, hlast⟩ := h.unconnected hcount
    rw [hhanded, hlast]
    rfl
  · have hpositioned := (h.current k hcount).positioned
    rw [hphase] at hpositioned
    exact hpositioned

theorem allowed_connect {u : Thread} (h : Inv g cfg s) (hphase : s.phase t = .reConnect)
    (hu : u ≠ t) : Allowed (s.count + 1) u (s.phase u) := by
  have hallowed := h.allowed u
  cases u with
  | main =>
    rcases hallowed with hspent | ⟨_, hcount⟩
    · exact .inl hspent
    · -- the subscribing thread is the one that connects
      rcases h.connecting hphase with ⟨rfl, _⟩ | ⟨k, rfl, hk⟩
      · exact absurd rfl hu
      · omega
  | user => exact hallowed
  | timer k => exact hallowed
  | delivery k =>
    refine ⟨fun hlt => ?_, fun hle => hallowed.2 (by omega)⟩
    rcases h.connecting hphase with ⟨rfl, hcount⟩ | ⟨j, rfl, hj⟩
    · omega
    · have hne : k ≠ j := fun heq => hu (by rw [heq])
      exact hallowed.1 (by omega)

theorem inv_connect (h : Inv g cfg s) (hs : step cfg s (.connect t) = some s') : Inv g cfg s' := by
  cases step_cases hs with
  | connected hphase => exact h.done (by rw [hphase]; rfl) (by simp [hphase])
  | connect hphase =>
    have hnew : s.phase (.delivery s.count) = .idle :=
      (h.allowed (.delivery s.count)).2 (Nat.le_refl _)
    have hne : Thread.delivery s.count ≠ t := by
      rintro rfl
      cases hnew.symm.trans hphase
    have hphase' : ∀ u, u ≠ t →
        ((s.setConn s.count (nextConn cfg s)).setPhase t (.opened s.count)).phase u = s.phase u :=
      fun u hu => setPhase_of_ne hu
    refine
      { h with
        allowed := fun u => ?_, fresh := fun k hk => ?_, unconnected := ?_, current := fun k hk => ?_ }
    · by_cases hu : u = t
      · subst hu
        show Allowed (s.count + 1) u
          (((s.setConn s.count (nextConn cfg s)).setPhase u (.opened s.count)).phase u)
        rw [setPhase_self]
        rcases h.connecting hphase with ⟨rfl, _⟩ | ⟨k, rfl, hk⟩
        · exact .inl rfl
        · exact ⟨fun _ => rfl, fun hle => by omega⟩
      · show Allowed (s.count + 1) u
          (((s.setConn s.count (nextConn cfg s)).setPhase t (.opened s.count)).phase u)
        rw [hphase' u hu]
        exact allowed_connect h hphase hu
    · have hk : s.count + 1 ≤ k := hk
      show Fresh ((s.setConn s.count (nextConn cfg s)).conns k)
      rw [setConn_of_ne (by omega)]
      exact h.fresh k (by omega)
    · intro h0
      cases h0
    · obtain rfl : s.count = k := by
        have : s.count + 1 = k + 1 := hk
        omega
      have hconn : (s.setConn s.count (nextConn cfg s)).conns s.count = nextConn cfg s :=
        setConn_self _
      refine { positioned := ?_, held := ?_, waiting := ?_, begun := ?_ }
      · show Positioned _ (((s.setConn s.count (nextConn cfg s)).setPhase t _).phase _)
        rw [hphase' _ hne, hnew]
        exact h.positioned hphase
      · intro c todo hc
        have hc : ((s.setConn s.count (nextConn cfg s)).setPhase t (.opened s.count)).phase
          (.delivery s.count) = .checked c todo := hc
        rw [hphase' _ hne, hnew] at hc
        cases hc
      · intro _
        show ((s.setConn s.count (nextConn cfg s)).conns s.count).inflight = [] ∧
          (((s.setConn s.count (nextConn cfg s)).setPhase t _).phase _).quiet = true ∧
          ((s.setConn s.count (nextConn cfg s)).conns s.count).startingAfter = _
        rw [hphase' _ hne, hnew, hconn]
        exact ⟨rfl, rfl, rfl⟩
      · intro hpos
        have hpos : ((s.setConn s.count (nextConn cfg s)).conns s.count).position ≠ none := hpos
        rw [hconn] at hpos
        exact absurd rfl hpos

theorem inv_setCurrent (h : Inv g cfg s) (hs : step cfg s (.setCurrent t) = some s') : Inv g cfg s' := by
  cases step_cases hs with
  | setCurrent hphase =>
    have hdone := h.done (t := t) (by rw [hphase]; rfl) (by simp [hphase])
    exact hdone.elsewhere _ _ _ _

theorem inv_abort (h : Inv g cfg s) (hs : step cfg s (.abort t) = some s') : Inv g cfg s' := by
  cases step_cases hs with
  | abort hphase => exact h.through (by rw [hphase]; rfl) (by simp [hphase])

theorem inv_refuse {e : Throwable} (h : Inv g cfg s) (hs : step cfg s (.refuse t e) = some s') : Inv g cfg s' := by
  cases step_cases hs with
  | refuse hphase =>
    have hpass : Inv g cfg (s.setPhase t (.failing e)) := by
      apply h.pass
      · rw [hphase]
        rfl
      · rfl
      · rw [hphase]
        exact fun ha => ha.pass rfl (by simp) (fun _ => rfl) (fun hl => by cases hl) fun _ => rfl
    exact hpass.elsewhere _ _ _ _

theorem Inv.failed {e : Throwable} {phase : Phase} (h : Inv g cfg s) (hphase : s.phase t = .failing e)
    (hq : phase.quiet = true) (hspent : phase.spent = true) : Inv g cfg (s.setPhase t phase) := by
  apply h.pass
  · rw [hphase]
    rfl
  · exact hq
  · rw [hphase]
    exact fun ha => ha.pass rfl (by simp) (fun _ => hspent) (fun hl => by cases hl)
      fun hr => by cases hr

theorem inv_fail (h : Inv g cfg s) (hs : step cfg s (.fail t) = some s') : Inv g cfg s' := by
  cases step_cases hs with
  | @failClosed _ e hphase =>
    have hreporting : Inv g cfg (s.setPhase t (.reporting e)) := h.failed hphase rfl rfl
    exact hreporting.elsewhere _ _ _ _
  | @fail _ e hphase =>
    have hdetaching : Inv g cfg (s.setPhase t (.detach (.report e))) := h.failed hphase rfl rfl
    exact hdetaching.close_flag

theorem inv_reported (h : Inv g cfg s) (hs : step cfg s (.reported t) = some s') : Inv g cfg s' := by
  cases step_cases hs with
  | reported hphase =>
    have hover := h.through (t := t) (by rw [hphase]; rfl) (by simp [hphase])
    exact hover.elsewhere _ _ _ _

theorem inv_closeSubscription (h : Inv g cfg s) (hs : step cfg s .closeSubscription = some s') : Inv g cfg s' := by
  cases step_cases hs with
  | closeSubscription =>
    have hpass : Inv g cfg (s.setPhase .user (.detach .closed)) := by
      apply h.pass
      · have hallowed := h.allowed .user
        cases hphase : s.phase .user with
        | processing =>
          rw [hphase] at hallowed
          cases hallowed
        | checked =>
          rw [hphase] at hallowed
          cases hallowed
        | calling =>
          rw [hphase] at hallowed
          cases hallowed
        | _ => rfl
      · rfl
      · intro _
        rfl
    exact hpass.close_flag

/-- Accepting the latest connection keeps the place. -/
def Keeps (cfg : Config) (s : State) : Action → Prop
  | .accept m => m + 1 = s.count → KeepsPlace cfg s
  | _ => True

theorem inv_step {a : Action} (h : Inv g cfg s) (hkeeps : g → Keeps cfg s a)
    (hs : step cfg s a = some s') : Inv g cfg s' := by
  cases a with
  | publish rows => exact inv_publish h hs
  | elapse ms =>
    cases hs
    exact h.elsewhere _ _ _ _
  | accept m => exact inv_accept h hkeeps hs
  | sendFacts m n => exact inv_sendFacts h hs
  | sendSignal m =>
    cases step_cases hs with
    | sendSignal hpos => exact h.send rfl hpos
  | sendKeepAlive m =>
    cases step_cases hs with
    | sendKeepAlive hpos => exact h.send rfl hpos
  | sendComplete m =>
    cases step_cases hs with
    | sendComplete hpos => exact h.send rfl hpos
  | cut m arrive e => exact inv_cut h hs
  | receive m => exact inv_receive h hs
  | receiveError m => exact inv_receiveError h hs
  | next m => exact inv_next h hs
  | enter m => exact inv_enter h hs
  | leave m => exact inv_leave h hs
  | check m => exact inv_check h hs
  | notifyError t => exact inv_notifyError h hs
  | detach t => exact inv_detach h hs
  | close t exhausted => exact inv_close h hs
  | connect t => exact inv_connect h hs
  | setCurrent t => exact inv_setCurrent h hs
  | abort t => exact inv_abort h hs
  | refuse t e => exact inv_refuse h hs
  | fail t => exact inv_fail h hs
  | reported t => exact inv_reported h hs
  | closeSubscription => exact inv_closeSubscription h hs

theorem inv_start (h : Start s) : Inv g cfg s where
  ascending := h.ascending
  positive := h.positive
  ids := h.ids
  opened := by
    rw [h.opened]
    exact List.nil_prefix
  fits := by
    rw [h.handed]
    exact .nil
  allowed := by
    intro t
    cases t with
    | main => exact .inr ⟨h.main, h.count⟩
    | user =>
      show (s.phase .user).leaving = true
      rw [h.idle .user (by simp)]
      rfl
    | timer k =>
      show (s.phase (.timer k)).spent = true
      rw [h.idle (.timer k) (by simp)]
      rfl
    | delivery k =>
      have hcount := h.count
      exact ⟨fun hlt => by omega, fun _ => h.idle (.delivery k) (by simp)⟩
  fresh := by
    intro k _
    rw [h.conns k]
    exact ⟨rfl, rfl, rfl, rfl⟩
  unconnected := fun _ => ⟨h.handed, h.lastPosition⟩
  current := by
    intro m hm
    cases h.count.symm.trans hm

end Steps

/-- A stream that is not ephemeral keeps its place by itself. -/
theorem keeps_of_catchup {cfg : Config} {s : State} {a : Action}
    (h : cfg.originalRequest.ephemeral = false) : Keeps cfg s a := by
  cases a with
  | accept m =>
    intro _ heph
    cases h.symm.trans heph
  | _ => trivial

theorem inv {cfg : Config} {s : State} (h : (subscribing cfg).Reachable s) :
    Inv (cfg.originalRequest.ephemeral = false) cfg s :=
  h.invariant (fun _ => inv_start) fun s a _ hi _ hs =>
    inv_step (s := s) (a := a) hi keeps_of_catchup hs

/-- The stream at hand has sent all there is, all of it was received and worked off,
and nothing is closed. -/
structure Drained (cfg : Config) (s : State) (m : Nat) : Prop where
  latest : s.count = m + 1
  begun : (s.conns m).position ≠ none
  connected : (s.conns m).cut = none
  subscribed : (s.conns m).closed = false ∧ s.isClosed = false
  received : (s.conns m).inflight = []
  processed : s.phase (.delivery m) = .idle
  sent : Log.after FactRow.ser (matching cfg.db cfg.originalRequest) (s.conns m).sent s.log = []

/-- What was handed over is then all there is. -/
theorem Inv.drained {g : Prop} {cfg : Config} {s : State} {m : Nat} (h : Inv g cfg s) (hg : g)
    (hm : Drained cfg s m) : s.handed =
      Log.after FactRow.ser (matching cfg.db cfg.originalRequest) (beginning cfg s.opened) s.log := by
  have hunbroken := (h.current m hm.latest).begun hm.begun hm.subscribed.1 hm.subscribed.2
  have hcomplete := hunbroken.complete hg hm.connected
  rw [hm.processed, hm.received, hm.sent] at hcomplete
  simpa [Phase.ahead] using hcomplete

/-- The facts handed to the observer over all connections are, in every run, the
first of the committed matching facts after the starting position, in the order of
their serials and none twice; and once the stream at hand is drained, all of them. -/
theorem reconnects_in_order (cfg : Config) (hcatchup : cfg.originalRequest.ephemeral = false)
    (s : State) (h : (subscribing cfg).Reachable s) :
    let facts := Log.after FactRow.ser (matching cfg.db cfg.originalRequest)
      (retrieve s.opened cfg.originalRequest.startingAfter) s.log
    s.handed <+: facts ∧ Log.Ascending FactRow.ser s.handed ∧ s.handed.Nodup ∧
      ∀ m, Drained cfg s m → s.handed = facts := by
  have hbeginning : beginning cfg s.opened = retrieve s.opened cfg.originalRequest.startingAfter := by
    rw [beginning, hcatchup]
    rfl
  rw [← hbeginning]
  have hinv := inv h
  exact ⟨hinv.fits.isPrefix hcatchup, hinv.fits.ascending, hinv.fits.ascending.nodup,
    fun m hm => hinv.drained hcatchup hm⟩

/-! ### A stream that breaks -/

/-- Orders, with a keep-alive every second. -/
def resilient : Config where
  db := .quoted
  originalRequest := PgFactStream.orders
  keepaliveIntervalInMs := 1000
  enabled := true

def subscribed : State :=
  { log := [⟨1, placed 1⟩], now := 0, conns := fun _ => {}, count := 0
    phase := Function.update (fun _ => .idle) .main .reConnect, lastPosition := none
    currentSubscription := none, isClosed := false, monitor := none, handed := [], reported := []
    opened := [] }

theorem subscribed_start : (subscribing resilient).Start subscribed where
  ascending := by decide
  positive := by decide
  ids := by decide
  conns := fun _ => rfl
  count := rfl
  main := rfl
  idle := by
    intro t ht
    cases t with
    | main => exact absurd rfl ht
    | _ => rfl
  lastPosition := rfl
  currentSubscription := rfl
  isClosed := rfl
  monitor := rfl
  handed := rfl
  reported := rfl
  opened := rfl

/-- The first connection is open, and the one order there is has been handed over. -/
def firstOrder : List Action :=
  [.connect .main, .setCurrent .main, .accept 0, .sendFacts 0 9, .receive 0, .next 0, .enter 0,
    .leave 0, .next 0, .enter 0, .leave 0]

/-- Two more orders are lost with the first stream, and come over the second. -/
def cutOff : List Action :=
  firstOrder ++ [.publish [⟨2, placed 2⟩, ⟨3, placed 3⟩], .sendFacts 0 9,
    .cut 0 0 (.status { code := .unavailable }), .receiveError 0, .notifyError (.delivery 0),
    .detach (.delivery 0), .close (.delivery 0) false, .connect (.delivery 0),
    .setCurrent (.delivery 0), .accept 1, .sendFacts 1 9, .receive 1, .next 1, .enter 1, .leave 1,
    .next 1, .enter 1, .leave 1]

theorem reconnects_in_order_cutOff : ∃ s, (subscribing resilient).Reachable s ∧ s.count = 2 ∧
    s.handed.map FactRow.ser = [1, 2, 3] ∧ s.handed.Nodup := by
  obtain ⟨s, hs, hstate⟩ := Machine.exists_reachable subscribed_start cutOff
    (fun s => (s.count, s.handed.map FactRow.ser)) (b := (2, [1, 2, 3])) (by decide +kernel)
  obtain ⟨hcount, hhanded⟩ := Prod.mk.injEq .. ▸ hstate
  exact ⟨s, hs, hcount, hhanded, (reconnects_in_order resilient rfl s hs).2.2.1⟩

end FactCast.ResilientGrpcSubscription
