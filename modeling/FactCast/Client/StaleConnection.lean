import FactCast.Client.ReconnectOrder

/-! The keep-alive timer and the observer.

No fact is handed over twice, whatever the timer does: its error is not retryable,
so it opens no connection. But it reports the error itself, on its own thread, and
nothing keeps it from doing so while the delivering thread is in the observer
(`slow_overlap`).

`keeps` excludes the two ways this comes about: the timer finds the connection stale
in the middle of a notification, or something more than a keep-alive is taken up
after it has. Under it the observer has one caller at a time
(`stale_detection_sound`): a thread in its error handling or in a notification is
the only one of its kind (`Alone`). -/
namespace FactCast.ResilientGrpcSubscription

/-- A thread that is in the observer, or on its way there. -/
def Phase.engaged : Phase → Bool
  | .idle => false
  | .opened _ => false
  | .over => false
  | _ => true

/-- A thread that is in the observer. -/
def Phase.inside : Phase → Bool
  | .calling _ _ => true
  | .reporting _ => true
  | _ => false

/-- A delivering thread that has met no error. -/
def Phase.receiving : Phase → Bool
  | .idle => true
  | .processing _ => true
  | .checked _ _ => true
  | .calling _ _ => true
  | _ => false

/-- Nothing has arrived for longer than the grace period. -/
def stale (cfg : Config) (s : State) (m : Nat) : Bool :=
  decide (s.now - (s.conns m).lastNotification > cfg.gracePeriod)

/-- No notification takes longer than the timer waits, and once the timer has found
a connection stale, nothing but keep-alives is taken up before it is closed. -/
def keeps (cfg : Config) (s : State) : Action → Bool
  | .check m => !stale cfg s m || !(s.phase (.delivery m)).engaged
  | .receive m =>
    match (s.conns m).inflight with
    | .keepAlive :: _ => true
    | _ => !(s.phase (.timer m)).engaged || (s.conns m).closed
  | .receiveError m => !(s.phase (.timer m)).engaged || (s.conns m).closed
  | _ => true

theorem Phase.engaged_of_inside {phase : Phase} (h : phase.inside = true) :
    phase.engaged = true := by
  cases phase with
  | calling => rfl
  | reporting => rfl
  | _ => cases h

theorem Phase.idle_of_receiving {phase : Phase} (h : phase.receiving = true)
    (he : phase.engaged = false) : phase = .idle := by
  cases phase with
  | idle => rfl
  | processing => cases he
  | checked => cases he
  | calling => cases he
  | _ => cases h

theorem receiving_resume (todo : List Callback) : (resume todo).receiving = true := by
  cases todo <;> rfl

/-- The subscribing thread is through before anything is delivered, a timer is
engaged only where the delivering thread is not, and none is after an error. -/
structure Alone (s : State) : Prop where
  main : (s.phase .main).engaged = true → s.count = 0
  timers : ∀ k, (s.phase (.timer k)).engaged = true →
    s.count = k + 1 ∧ (s.phase (.delivery k)).engaged = false
  due : ∀ k, (s.conns k).due ≠ none → (s.phase (.delivery k)).receiving = true
  closed : ∀ k, (s.conns k).closed = true → (s.conns k).due = none

section Steps
variable {g : Prop} {cfg : Config} {s s' : State} {m : Nat} {t : Thread}

theorem Inv.engaged (h : Inv g cfg s) (he : (s.phase (.delivery m)).engaged = true) :
    s.count = m + 1 := by
  apply h.latest
  · cases hphase : s.phase (.delivery m) with
    | opened =>
      rw [hphase] at he
      cases he
    | «over» =>
      rw [hphase] at he
      cases he
    | _ => rfl
  · apply h.lt_count
    intro hidle
    rw [hidle] at he
    cases he

/-- One thread is in the observer. -/
theorem Alone.inside (h : Alone s) (hinv : Inv g cfg s) {u : Thread}
    (ht : (s.phase t).inside = true) (hu : (s.phase u).inside = true) : t = u := by
  -- each of them is engaged, which says how many connections there are
  have hwhere : ∀ v, (s.phase v).inside = true → v = .main ∧ s.count = 0 ∨
      (∃ k, v = .delivery k ∧ s.count = k + 1 ∧ (s.phase (.delivery k)).engaged = true) ∨
      ∃ k, v = .timer k ∧ s.count = k + 1 ∧ (s.phase (.delivery k)).engaged = false := by
    intro v hv
    have he := Phase.engaged_of_inside hv
    cases v with
    | main => exact .inl ⟨rfl, h.main he⟩
    | user =>
      have hallowed : (s.phase .user).leaving = true := hinv.allowed .user
      cases hphase : s.phase .user with
      | calling =>
        rw [hphase] at hallowed
        cases hallowed
      | reporting =>
        rw [hphase] at hallowed
        cases hallowed
      | _ =>
        rw [hphase] at hv
        cases hv
    | delivery k => exact .inr (.inl ⟨k, rfl, hinv.engaged he, he⟩)
    | timer k => exact .inr (.inr ⟨k, rfl, h.timers k he⟩)
  rcases hwhere t ht with ⟨rfl, h0⟩ | ⟨j, rfl, hj, hej⟩ | ⟨j, rfl, hj, hej⟩
  · rcases hwhere u hu with ⟨rfl, _⟩ | ⟨k, _, hk, _⟩ | ⟨k, _, hk, _⟩
    · rfl
    · omega
    · omega
  · rcases hwhere u hu with ⟨_, h0⟩ | ⟨k, rfl, hk, _⟩ | ⟨k, rfl, hk, hek⟩
    · omega
    · obtain rfl : j = k := by omega
      rfl
    · obtain rfl : j = k := by omega
      cases hej.symm.trans hek
  · rcases hwhere u hu with ⟨_, h0⟩ | ⟨k, rfl, hk, hek⟩ | ⟨k, rfl, hk, _⟩
    · omega
    · obtain rfl : j = k := by omega
      cases hej.symm.trans hek
    · obtain rfl : j = k := by omega
      rfl

/-- A thread goes on, without becoming engaged. -/
theorem Alone.setPhase {phase : Phase} (h : Alone s)
    (hengaged : phase.engaged = true → t = .user ∨ (s.phase t).engaged = true)
    (hdue : ∀ k, t = .delivery k → (s.conns k).due ≠ none → phase.receiving = true) :
    Alone (s.setPhase t phase) := by
  have hphase : ∀ u, u ≠ .user → ((s.setPhase t phase).phase u).engaged = true →
      (s.phase u).engaged = true := by
    intro u hu he
    by_cases hut : u = t
    · subst hut
      rw [setPhase_self] at he
      exact (hengaged he).resolve_left hu
    · rw [setPhase_of_ne hut] at he
      exact he
  refine { main := fun he => ?_, timers := fun k he => ?_, due := fun k hk => ?_, closed := h.closed }
  · exact h.main (hphase .main (by simp) he)
  · obtain ⟨hcount, hfree⟩ := h.timers k (hphase (.timer k) (by simp) he)
    refine ⟨hcount, ?_⟩
    cases hd : ((s.setPhase t phase).phase (.delivery k)).engaged with
    | false => rfl
    | true => exact (hphase (.delivery k) (by simp) hd).symm.trans hfree
  · by_cases hut : Thread.delivery k = t
    · subst hut
      rw [setPhase_self]
      exact hdue k rfl hk
    · rw [setPhase_of_ne hut]
      exact h.due k hk

/-- The same where the thread is in its error handling. -/
theorem Alone.pass {phase : Phase} (h : Alone s) (he : (s.phase t).engaged = true)
    (hr : (s.phase t).receiving = false) : Alone (s.setPhase t phase) := by
  apply h.setPhase fun _ => .inr he
  rintro k rfl hk
  cases hr.symm.trans (h.due k hk)

theorem Alone.over (h : Alone s) (hr : (s.phase t).receiving = false) :
    Alone (s.setPhase t .over) := by
  apply h.setPhase fun he => by cases he
  rintro k rfl hk
  cases hr.symm.trans (h.due k hk)

/-- A connection changes, and its timer is not set anew. -/
theorem Alone.setConn {c : Conn} (h : Alone s)
    (hdue : c.due ≠ none → (s.phase (.delivery m)).receiving = true)
    (hclosed : c.closed = true → c.due = none) : Alone (s.setConn m c) := by
  refine { main := h.main, timers := h.timers, due := fun k hk => ?_, closed := fun k hk => ?_ }
  · by_cases hkm : k = m
    · subst hkm
      rw [setConn_self] at hk
      exact hdue hk
    · rw [setConn_of_ne hkm] at hk
      exact h.due k hk
  · by_cases hkm : k = m
    · subst hkm
      rw [setConn_self] at hk ⊢
      exact hclosed hk
    · rw [setConn_of_ne hkm] at hk ⊢
      exact h.closed k hk

theorem Alone.shutAll (h : Alone s) (current : Option Nat) : Alone (s.shutAll current) := by
  cases current with
  | none => exact h
  | some m => exact h.setConn (fun hdue => absurd rfl hdue) fun _ => rfl

theorem Alone.done (h : Alone s) (hr : (s.phase t).receiving = false) : Alone (s.done t) := by
  apply (h.shutAll t.conn?).over
  cases t <;> exact hr

/-- What the server does leaves the timer alone. -/
theorem Alone.stream {c : Conn} (h : Alone s) (hdue : c.due = (s.conns m).due)
    (hclosed : c.closed = (s.conns m).closed) : Alone (s.setConn m c) := by
  apply h.setConn
  · rw [hdue]
    exact h.due m
  · rw [hdue, hclosed]
    exact h.closed m

/-- The delivering thread takes something up while the timer is not engaged. -/
theorem Alone.deliver {phase : Phase} (h : Alone s) (hcount : s.count = m + 1)
    (htimer : (s.phase (.timer m)).engaged = false)
    (hdue : (s.conns m).due ≠ none → phase.receiving = true) :
    Alone (s.setPhase (.delivery m) phase) := by
  have hphase : ∀ u, u ≠ .delivery m → (s.setPhase (.delivery m) phase).phase u = s.phase u :=
    fun u hu => setPhase_of_ne hu
  refine { main := fun he => ?_, timers := fun k he => ?_, due := fun k hk => ?_, closed := h.closed }
  · rw [hphase _ (by simp)] at he
    exact h.main he
  · rw [hphase _ (by simp)] at he
    obtain ⟨hk, _⟩ := h.timers k he
    obtain rfl : m = k := by omega
    cases htimer.symm.trans he
  · by_cases hkm : k = m
    · subst hkm
      rw [setPhase_self]
      exact hdue hk
    · rw [hphase _ (by simpa using hkm)]
      exact h.due k hk

/-- What is neither a connection nor a phase is of no account. -/
theorem Alone.elsewhere (h : Alone s) (hconns : s'.conns = s.conns) (hcount : s'.count = s.count)
    (hphase : s'.phase = s.phase) : Alone s' where
  main := by
    rw [hphase, hcount]
    exact h.main
  timers := by
    rw [hphase, hcount]
    exact h.timers
  due := by
    rw [hphase, hconns]
    exact h.due
  closed := by
    rw [hconns]
    exact h.closed

/-- The thread of the latest connection takes a notification up. -/
theorem Alone.receive {conn : Conn} {todo : List Callback} (h : Alone s) (hcount : s.count = m + 1)
    (hphase : s.phase (.delivery m) = .idle) (hdue : conn.closed = true → conn.due = none)
    (htimer : (s.phase (.timer m)).engaged = false) :
    Alone ((s.setConn m conn).setPhase (.delivery m) (resume todo)) := by
  refine Alone.deliver (h.setConn (fun _ => ?_) hdue) hcount htimer fun _ => receiving_resume todo
  rw [hphase]
  rfl

/-- The timer's task finds the delivering thread waiting for the next notification. -/
theorem Alone.stale {e : Throwable} (h : Alone s) (hcount : s.count = m + 1)
    (hidle : s.phase (.delivery m) = .idle) :
    Alone ((s.setConn m { s.conns m with due := none }).setPhase (.timer m) (.notifyError e)) := by
  have hcancelled : Alone (s.setConn m { s.conns m with due := none }) :=
    h.setConn (fun hdue => absurd rfl hdue) fun _ => rfl
  have hother : ∀ u, u ≠ .timer m → ((s.setConn m { s.conns m with due := none }).setPhase
      (.timer m) (.notifyError e)).phase u = s.phase u :=
    fun u hu => setPhase_of_ne hu
  refine
    { main := fun he => ?_, timers := fun k he => ?_, due := fun k hdue => ?_
      closed := hcancelled.closed }
  · rw [hother _ (by simp)] at he
    exact h.main he
  · rw [hother (.delivery k) (by simp)]
    by_cases hkm : k = m
    · subst hkm
      rw [hidle]
      exact ⟨hcount, rfl⟩
    · rw [hother (.timer k) (by simpa using hkm)] at he
      exact h.timers k he
  · rw [hother (.delivery k) (by simp)]
    exact hcancelled.due k hdue

theorem Alone.connect (h : Alone s) (hinv : Inv g cfg s) (hphase : s.phase t = .reConnect) :
    Alone { (s.setConn s.count (nextConn cfg s)).setPhase t (.opened s.count) with
      count := s.count + 1, monitor := some t } := by
  have hnew : s.phase (.delivery s.count) = .idle := (hinv.allowed (.delivery s.count)).2 (Nat.le_refl _)
  have hopened : Alone ((s.setConn s.count (nextConn cfg s)).setPhase t (.opened s.count)) := by
    have hconn : Alone (s.setConn s.count (nextConn cfg s)) := by
      apply h.setConn
      · rw [hnew]
        exact fun _ => rfl
      · intro hclosed
        cases hclosed
    apply hconn.setPhase fun he => by cases he
    rintro k rfl hdue
    have hr := hconn.due k hdue
    rw [show (s.setConn s.count (nextConn cfg s)).phase = s.phase from rfl, hphase] at hr
    cases hr
  refine { hopened with main := fun he => ?_, timers := fun k he => ?_ }
  · -- the subscribing thread is through, or has just connected
    have h0 := hopened.main he
    rcases hinv.connecting hphase with ⟨rfl, _⟩ | ⟨k, rfl, hk⟩
    · rw [show ((s.setConn s.count (nextConn cfg s)).setPhase .main _).phase .main = _ from
        setPhase_self _] at he
      cases he
    · cases h0.symm.trans hk
  · obtain ⟨hcount, hfree⟩ := hopened.timers k he
    have hcount : s.count = k + 1 := hcount
    rcases hinv.connecting hphase with ⟨rfl, h0⟩ | ⟨j, rfl, hj⟩
    · omega
    · obtain rfl : j = k := by omega
      -- a timer and the thread that connects would both be engaged
      have hsame : (s.setPhase (.delivery j) (.opened s.count)).phase (.timer j) =
          s.phase (.timer j) := setPhase_of_ne (by simp)
      have htimer : (s.phase (.timer j)).engaged = true := hsame ▸ he
      have hdelivery := (h.timers j htimer).2
      rw [hphase] at hdelivery
      cases hdelivery

/-- A delivering thread goes on from one call to the next. -/
theorem Alone.onward {phase : Phase} (h : Alone s) (he : (s.phase (.delivery m)).engaged = true)
    (hr : phase.receiving = true) : Alone (s.setPhase (.delivery m) phase) :=
  h.setPhase (fun _ => .inr he) fun _ _ _ => hr

theorem Alone.closing {current : Option Nat} {reason : Reason} {phase : Phase} (h : Alone s)
    (hphase : s.phase t = .closing current reason) : Alone ((s.shutAll current).setPhase t phase) := by
  have hsame := phase_shutAll current hphase
  exact (h.shutAll current).pass (by rw [hsame]; rfl) (by rw [hsame]; rfl)

theorem alone_step {a : Action} (h : Alone s) (hinv : Inv g cfg s) (hk : keeps cfg s a = true)
    (hs : step cfg s a = some s') : Alone s' := by
  cases step_cases hs with
  | publish => exact h.elsewhere rfl rfl rfl
  | elapse => exact h.elsewhere rfl rfl rfl
  | @accept m serial =>
    have hconn : Alone (s.setConn m { s.conns m with position := some serial, sent := serial }) := h.stream rfl rfl
    exact hconn.elsewhere rfl rfl rfl
  | sendFacts => exact h.stream rfl rfl
  | sendSignal => exact h.stream rfl rfl
  | sendKeepAlive => exact h.stream rfl rfl
  | sendComplete => exact h.stream rfl rfl
  | cut => exact h.stream rfl rfl
  | @receiveLate m _ _ hphase _ hclosed =>
    apply h.setPhase fun he => by cases he
    rintro k hkm hdue
    cases hkm
    exact absurd (h.closed m hclosed) hdue
  | @receive m notification rest due hphase hinflight hopen hdue =>
    have hm : m < s.count := hinv.lt_of_fresh fun hf => by cases hf.inflight.symm.trans hinflight
    have hcount := hinv.latest (by rw [hphase]; rfl) hm
    cases notification with
    | keepAlive =>
      have hconn : Alone (s.setConn m { s.conns m with inflight := rest, lastNotification := s.now, due }) :=
        h.stream hdue rfl
      exact hconn.setPhase nofun fun _ _ _ => rfl
    | _ =>
      refine h.receive hcount hphase (fun hclosed => absurd (hopen.symm.trans hclosed) nofun) ?_
      simp only [keeps, hinflight, hopen] at hk
      simpa using hk
  | @receiveError m e hphase hinflight hcut =>
    have hm : m < s.count := hinv.lt_of_fresh fun hf => by cases hf.cut.symm.trans hcut
    have hcount := hinv.latest (by rw [hphase]; rfl) hm
    have hcancelled : Alone (s.setConn m { s.conns m with due := none }) :=
      h.setConn (fun hdue => absurd rfl hdue) fun _ => rfl
    have hdue : ((s.setConn m { s.conns m with due := none }).conns m).due = none := by
      rw [setConn_self]
    cases hclosed : (s.conns m).closed with
    | true =>
      apply hcancelled.setPhase fun he => by cases he
      rintro k hkm hne
      cases hkm
      exact absurd hdue hne
    | false =>
      have htimer : (s.phase (.timer m)).engaged = false := by simpa [keeps, hclosed] using hk
      exact hcancelled.deliver hcount htimer fun hne => absurd hdue hne
  | skip hphase => exact h.onward (by rw [hphase]; rfl) (receiving_resume _)
  | next hphase => exact h.onward (by rw [hphase]; rfl) rfl
  | @enter m c todo hphase =>
    have hnext : Alone (s.setPhase (.delivery m) (.calling c todo)) := h.onward (by rw [hphase]; rfl) rfl
    exact hnext.elsewhere rfl rfl rfl
  | @leaveFact m row todo hphase =>
    have hnext : Alone (s.setPhase (.delivery m) (resume todo)) :=
      h.onward (by rw [hphase]; rfl) (receiving_resume todo)
    exact hnext.elsewhere rfl rfl rfl
  | @leaveComplete m todo hphase =>
    have hnext : Alone (s.setPhase (.delivery m) (resume todo)) :=
      h.onward (by rw [hphase]; rfl) (receiving_resume todo)
    exact hnext.shutAll (some m)
  | leave hphase hc => exact h.onward (by rw [hphase]; rfl) (receiving_resume _)
  | @checkStale m due hphase hdue hnow hstale =>
    have hset : (s.conns m).due ≠ none := by simp [hdue]
    have hidle : s.phase (.delivery m) = .idle := by
      apply Phase.idle_of_receiving (h.due m hset)
      simpa [keeps, stale, hstale] using hk
    have hm : m < s.count := hinv.lt_of_fresh fun hf => absurd hf.due hset
    exact h.stale (hinv.latest (by rw [hidle]; rfl) hm) hidle
  | @check m due hphase hdue =>
    have hset : (s.conns m).due ≠ none := by simp [hdue]
    exact h.setConn (fun _ => h.due m hset) fun hclosed => absurd (h.closed m hclosed) hset
  | notifyError hphase => exact h.pass (by rw [hphase]; rfl) (by rw [hphase]; rfl)
  | @detach t reason hphase =>
    have hpass : Alone (s.setPhase t (.closing s.currentSubscription reason)) :=
      h.pass (by rw [hphase]; rfl) (by rw [hphase]; rfl)
    exact hpass.elsewhere rfl rfl rfl
  | closeRetry hphase => exact h.closing hphase
  | @closeReport t _ current e hphase =>
    have hclosing : Alone ((s.shutAll current).setPhase t (.reporting e)) := h.closing hphase
    exact hclosing.elsewhere rfl rfl rfl
  | close hphase => exact h.closing hphase
  | connected hphase => exact h.done (by rw [hphase]; rfl)
  | connect hphase => exact h.connect hinv hphase
  | @setCurrent t n hphase =>
    have hdone : Alone (s.done t) := h.done (by rw [hphase]; rfl)
    exact hdone.elsewhere rfl rfl rfl
  | abort hphase => exact h.over (by rw [hphase]; rfl)
  | @refuse t e hphase =>
    have hpass : Alone (s.setPhase t (.failing e)) := h.pass (by rw [hphase]; rfl) (by rw [hphase]; rfl)
    exact hpass.elsewhere rfl rfl rfl
  | @failClosed t e hphase =>
    have hpass : Alone (s.setPhase t (.reporting e)) := h.pass (by rw [hphase]; rfl) (by rw [hphase]; rfl)
    exact hpass.elsewhere rfl rfl rfl
  | @fail t e hphase =>
    have hpass : Alone (s.setPhase t (.detach (.report e))) := h.pass (by rw [hphase]; rfl) (by rw [hphase]; rfl)
    exact hpass.elsewhere rfl rfl rfl
  | @reported t e hphase =>
    have hover : Alone (s.setPhase t .over) := h.over (by rw [hphase]; rfl)
    exact hover.elsewhere rfl rfl rfl
  | closeSubscription =>
    have huser : Alone (s.setPhase .user (.detach .closed)) := h.setPhase (fun _ => .inl rfl) nofun
    exact huser.elsewhere rfl rfl rfl

theorem alone_start (h : Start s) : Alone s where
  main := fun _ => h.count
  timers := by
    intro k he
    rw [h.idle (.timer k) (by simp)] at he
    cases he
  due := by
    intro k hdue
    rw [h.conns k] at hdue
    exact absurd rfl hdue
  closed := by
    intro k _
    rw [h.conns k]

end Steps

theorem alone {cfg : Config} {s : State}
    (h : (subscribing cfg).ReachableUnder (fun s a => keeps cfg s a = true) s) : Alone s :=
  h.invariant_from (fun _ => alone_start) fun s a _ hr ha hk hs =>
    alone_step (s := s) (a := a) ha (inv hr.reachable) hk hs

/-- Nothing is handed over twice, and the observer has one caller at a time. -/
def Undisturbed (s : State) : Prop :=
  s.handed.Nodup ∧ ∀ t u, (s.phase t).inside = true → (s.phase u).inside = true → t = u

/-- In every run no fact is handed over twice. -/
theorem handed_nodup {cfg : Config} {s : State} (h : (subscribing cfg).Reachable s) :
    s.handed.Nodup :=
  (inv h).fits.ascending.nodup

/-- In every run in which no notification takes longer than the timer waits, and
nothing is taken up once it has found the connection stale, the observer has one
caller at a time. -/
theorem stale_detection_sound (cfg : Config) (s : State)
    (h : (subscribing cfg).ReachableUnder (fun s a => keeps cfg s a = true) s) : Undisturbed s :=
  ⟨handed_nodup h.reachable, fun _ _ ht hu => (alone h).inside (inv h.reachable) ht hu⟩

/-- The server falls silent, and the timer reports it. -/
def silence : List Action :=
  firstOrder ++ [.elapse 1000, .check 0, .elapse 1000, .check 0, .elapse 1000, .check 0,
    .notifyError (.timer 0), .detach (.timer 0), .close (.timer 0) false, .fail (.timer 0),
    .detach (.timer 0), .close (.timer 0) false]

theorem stale_detection_sound_silence : ∃ s, Undisturbed s ∧
    s.reported = [staleSubscriptionDetected] ∧ (s.phase (.timer 0)).inside = true := by
  obtain ⟨s, hs, hstate⟩ := Machine.exists_reachableUnder subscribed_start silence
    (fun s => (s.reported, (s.phase (.timer 0)).inside)) (c := keeps resilient)
    (b := ([staleSubscriptionDetected], true)) (by decide +kernel)
  obtain ⟨hreported, hinside⟩ := Prod.mk.injEq .. ▸ hstate
  exact ⟨s, stale_detection_sound resilient s hs, hreported, hinside⟩

/-- The observer takes three seconds for the first order, and is told meanwhile. -/
def slow : List Action :=
  [.connect .main, .setCurrent .main, .accept 0, .sendFacts 0 9, .receive 0, .next 0, .enter 0,
    .elapse 1000, .check 0, .elapse 1000, .check 0, .elapse 1000, .check 0, .notifyError (.timer 0),
    .detach (.timer 0), .close (.timer 0) false, .fail (.timer 0), .detach (.timer 0),
    .close (.timer 0) false]

theorem slow_overlap : ¬ ∀ s, (subscribing resilient).Reachable s → Undisturbed s := by
  obtain ⟨s, hs, hstate⟩ := Machine.exists_reachable subscribed_start slow
    (fun s => ((s.phase (.timer 0)).inside, (s.phase (.delivery 0)).inside)) (b := (true, true))
    (by decide +kernel)
  obtain ⟨htimer, hdelivery⟩ := Prod.mk.injEq .. ▸ hstate
  intro hall
  cases (hall s hs).2 _ _ htimer hdelivery

end FactCast.ResilientGrpcSubscription
