import FactCast.Client.Control
import FactCast.Client.StaleConnection
import FactCast.Machine.History

/-! How a resilient subscription recovers.

The steps of a subscription are turns of what matters of it (`turns_step`), if they
keep clear of two branches (`recovers`): a handshake that throws where no one catches
it, and a reconnect that finds the very subscription its error came from. So an error
that was dealt with leaves a subscription alive, or closed and reported once
(`never_zombie`); and when every thread is through with what it was doing, the same
holds, whoever raced with whom (`reconnect_settles`). Either branch loses the
subscription for good (`handshake_zombie`, `early_lost`). -/
namespace FactCast.ResilientGrpcSubscription

/-- The streams that came to their end, noted when the observer's `onComplete` returns. -/
def ends : History State Action (List Nat) where
  initial := []
  note s a completed :=
    match a with
    | .leave m =>
      match s.phase (.delivery m) with
      | .calling .onComplete _ => m :: completed
      | _ => completed
    | _ => completed

/-- Clear of the two branches that lose a subscription, and, if so wanted, of timers. -/
def recovers (timers : Bool) (cfg : Config) (s : State) : Action → Bool
  | .abort t => decide (t = .main)
  | .connect t => decide (s.currentSubscription = none ∨ s.currentSubscription ≠ t.conn?)
  | .check m => timers || !stale cfg s m
  | _ => true

/-- What matters of a state, and of the streams that ended. -/
def control (p : State × List Nat) : Control where
  phase := p.1.phase
  count := p.1.count
  current := p.1.currentSubscription
  isClosed := p.1.isClosed
  monitor := p.1.monitor
  reported := p.1.reported
  closed := fun n => (p.1.conns n).closed
  completed := p.2

/-! ### The steps of a subscription -/

section Steps
variable {g : Prop} {cfg : Config} {timers : Bool} {s s' : State} {completed : List Nat} {m : Nat} {t : Thread}

theorem control_setConn {c : Conn} (hc : c.closed = (s.conns m).closed) :
    control (s.setConn m c, completed) = control (s, completed) := by
  have hclosed : (fun n => ((s.setConn m c).conns n).closed) = fun n => (s.conns n).closed := by
    funext n
    by_cases hn : n = m
    · subst hn
      rw [setConn_self, hc]
    · rw [setConn_of_ne hn]
  simp only [control, hclosed]
  rfl

theorem control_shutAll (current : Option Nat) :
    control (s.shutAll current, completed) = (control (s, completed)).shutAll current := by
  cases current with
  | none => simp [control, Control.shutAll, State.shutAll]
  | some m =>
    have hclosed : (fun n => ((s.shut m).conns n).closed) =
        fun n => (s.conns n).closed || decide (some m = some n) := by
      funext n
      by_cases hn : n = m
      · subst hn
        simp [State.shut]
      · simp [State.shut, setConn_of_ne hn, Ne.symm hn]
    simp only [State.shutAll, control, hclosed]
    rfl

theorem listening_resume (todo : List Callback) : (resume todo).listening = true := by
  cases todo <;> rfl

/-- A step changes nothing that matters, or makes a turn. -/
def Turns (timers : Bool) (c c' : Control) : Prop :=
  c' = c ∨ ∃ t phase, Control.Turn timers c t phase c'

theorem control_setConn_setPhase {c : Conn} {phase : Phase}
    (hc : c.closed = (s.conns m).closed) : control ((s.setConn m c).setPhase t phase, completed) =
      (control (s, completed)).setPhase t phase := by
  rw [← control_setConn hc]
  rfl

theorem turns_receive (hs : receive s m = some s') :
    Turns timers (control (s, completed)) (control (s', completed)) := by
  unfold receive at hs
  dsimp only at hs
  split at hs
  · rename_i notification rest hphase hinflight
    have hfrom : ((control (s, completed)).phase (.delivery m)).listening = true := by
      simp only [control, hphase]
      rfl
    split at hs
    · rename_i hclosed
      cases hs
      exact .inr ⟨_, _, .drop (.delivery m) m rfl hfrom (by simp) hclosed⟩
    · cases hs
      rw [control_setConn_setPhase]
      · exact .inr ⟨_, _, .listen m _ hfrom (listening_resume _)⟩
      · rfl
  · cases hs

theorem turns_receiveError (hs : receiveError s m = some s') :
    Turns timers (control (s, completed)) (control (s', completed)) := by
  unfold receiveError at hs
  dsimp only at hs
  split at hs
  · rename_i e hphase hinflight hcut
    have hfrom : ((control (s, completed)).phase (.delivery m)).listening = true := by
      simp only [control, hphase]
      rfl
    cases hs
    rw [control_setConn_setPhase]
    · split
      · rename_i hclosed
        exact .inr ⟨_, _, .drop (.delivery m) m rfl hfrom (by simp) hclosed⟩
      · exact .inr ⟨_, _, .listen m _ hfrom rfl⟩
    · rfl
  · cases hs

theorem turns_next (hs : next s m = some s') :
    Turns timers (control (s, completed)) (control (s', completed)) := by
  unfold next at hs
  split at hs
  · rename_i c todo hphase
    cases hs
    refine .inr ⟨_, _, .listen m _ ?_ ?_⟩
    · simp only [control, hphase]
      rfl
    · split
      · exact listening_resume todo
      · rfl
  · cases hs

theorem turns_enter (hs : enter s m = some s') :
    Turns timers (control (s, completed)) (control (s', completed)) := by
  unfold enter at hs
  split at hs
  · rename_i c todo hphase
    cases hs
    refine .inr ⟨_, _, .listen m (.calling c todo) ?_ rfl⟩
    simp only [control, hphase]
    rfl
  · cases hs

theorem turns_leave (hs : leave s m = some s') :
    Turns timers (control (s, completed)) (control (s', ends.note s (.leave m) completed)) := by
  unfold leave at hs
  split at hs
  · rename_i c todo hphase
    have hfrom : ((control (s, completed)).phase (.delivery m)).listening = true := by
      simp only [control, hphase]
      rfl
    have hlisten : Turns timers (control (s, completed))
        ((control (s, completed)).setPhase (.delivery m) (resume todo)) :=
      .inr ⟨_, _, .listen m _ hfrom (listening_resume todo)⟩
    cases c with
    | onNext row =>
      cases hs
      simp only [ends, hphase]
      exact hlisten
    | onComplete =>
      cases hs
      simp only [ends, hphase]
      right
      refine ⟨.delivery m, resume todo, ?_⟩
      have hshut : control ((s.setPhase (.delivery m) (resume todo)).shutAll (some m), m :: completed) =
          (control (s.setPhase (.delivery m) (resume todo), m :: completed)).shutAll (some m) :=
        control_shutAll (some m)
      simp only [State.shutAll] at hshut
      rw [hshut]
      exact .complete m (resume todo) hfrom (listening_resume todo)
    | flush =>
      cases hs
      simp only [ends, hphase]
      exact hlisten
    | signal =>
      cases hs
      simp only [ends, hphase]
      exact hlisten
  · cases hs

theorem turns_check (hinv : Inv g cfg s) (hk : recovers timers cfg s (.check m) = true)
    (hs : check cfg s m = some s') :
    Turns timers (control (s, completed)) (control (s', completed)) := by
  unfold check at hs
  dsimp only at hs
  split at hs
  · rename_i due hphase hdue
    split at hs
    · split at hs
      · rename_i hstale
        cases hs
        have htimers : timers = true := by simpa [recovers, stale, hstale] using hk
        rw [control_setConn_setPhase]
        · have hm : m < s.count := hinv.lt_of_fresh fun hf => by cases hf.due.symm.trans hdue
          exact .inr ⟨_, _, .stale m _ htimers hm hphase⟩
        · rfl
      · cases hs
        left
        exact control_setConn rfl
    · cases hs
  · cases hs

theorem turns_notifyError (hs : notifyError s t = some s') :
    Turns timers (control (s, completed)) (control (s', completed)) := by
  unfold notifyError at hs
  split at hs
  · rename_i e m hphase hconn
    cases hs
    right
    split
    · rename_i hclosed
      refine ⟨_, _, .drop t m hconn ?_ ?_ hclosed⟩
      · simp only [control, hphase]
        rfl
      · intro _ _
        simp [control, hphase]
    · exact ⟨_, _, .takeUp t e (by simp [hconn]) hphase⟩
  · cases hs

theorem turns_detach (hs : detach s t = some s') :
    Turns timers (control (s, completed)) (control (s', completed)) := by
  unfold detach at hs
  split at hs
  · rename_i reason hphase
    cases hs
    exact .inr ⟨_, _, .detach t reason hphase⟩
  · cases hs

theorem turns_close {exhausted : Bool} (hs : close cfg s t exhausted = some s') :
    Turns timers (control (s, completed)) (control (s', completed)) := by
  unfold close at hs
  split at hs
  · rename_i current reason hphase
    have hshut : control (s.shutAll current, completed) = (control (s, completed)).shutAll current :=
      control_shutAll current
    right
    split at hs
    · rename_i e
      cases hs
      generalize hphase' : (if shouldRetry cfg.enabled exhausted e then Phase.reConnect
        else .failing e) = phase
      have hto : phase = .reConnect ∨ phase = .failing e := by
        rw [← hphase']
        split
        · exact .inl rfl
        · exact .inr rfl
      have hturn : Control.Turn timers (control (s, completed)) t phase
          (((control (s, completed)).shutAll current).setPhase t phase) :=
        .retry t current e phase hphase hto
      rw [← hshut] at hturn
      exact ⟨t, phase, hturn⟩
    · rename_i e
      cases hs
      have hturn : Control.Turn timers (control (s, completed)) t (.reporting e)
          { ((control (s, completed)).shutAll current).setPhase t (.reporting e) with
            reported := (control (s, completed)).reported ++ [e] } := .report t current e hphase
      rw [← hshut] at hturn
      exact ⟨t, .reporting e, hturn⟩
    · cases hs
      have hturn : Control.Turn timers (control (s, completed)) t .over
          (((control (s, completed)).shutAll current).setPhase t .over) := .close t current hphase
      rw [← hshut] at hturn
      exact ⟨t, .over, hturn⟩
  · cases hs

theorem turns_connect (hinv : Inv g cfg s) (hk : recovers timers cfg s (.connect t) = true)
    (hs : connect cfg s t = some s') :
    Turns timers (control (s, completed)) (control (s', completed)) := by
  unfold connect at hs
  right
  split at hs
  · rename_i hphase hmonitor
    split at hs
    · rename_i k hcurrent
      cases hs
      have hown : t.conn? ≠ some k := by
        simp only [recovers, hcurrent, decide_eq_true_eq] at hk
        rcases hk with hnone | hne
        · cases hnone
        · exact Ne.symm hne
      have hturn : Control.Turn timers (control (s, completed)) t .over
          (((control (s, completed)).shutAll t.conn?).setPhase t .over) :=
        .found t k hphase hmonitor hcurrent hown
      rw [← control_shutAll] at hturn
      exact ⟨t, .over, hturn⟩
    · rename_i hcurrent
      cases hs
      refine ⟨t, .opened s.count, ?_⟩
      have hclosed : (fun n => ((s.setConn s.count (nextConn cfg s)).conns n).closed) =
          fun n => if n = s.count then false else (s.conns n).closed := by
        funext n
        by_cases hn : n = s.count
        · subst hn
          rw [setConn_self, if_pos rfl]
          rfl
        · rw [setConn_of_ne hn, if_neg hn]
      have hown : ∀ k, t.conn? = some k → k < s.count := by
        intro k hk
        rcases hinv.connecting hphase with ⟨rfl, _⟩ | ⟨j, rfl, hj⟩
        · cases hk
        · obtain rfl : j = k := by simpa [Thread.conn?] using hk
          omega
      have hnew : s.phase (.delivery s.count) = .idle :=
        (hinv.allowed (.delivery s.count)).2 (Nat.le_refl _)
      have hto : control ({ (s.setConn s.count (nextConn cfg s)).setPhase t (.opened s.count) with
          count := s.count + 1, monitor := some t }, completed) = _ :=
        congrArg (fun closed => ({ (control (s, completed)).setPhase t (.opened s.count) with
          count := s.count + 1, monitor := some t, closed } : Control)) hclosed
      rw [hto]
      exact .connect t hphase hmonitor hcurrent hown hnew
  · cases hs

theorem turns_setCurrent (hs : setCurrent s t = some s') :
    Turns timers (control (s, completed)) (control (s', completed)) := by
  unfold setCurrent at hs
  split at hs
  · rename_i n hphase
    cases hs
    have hturn : Control.Turn timers (control (s, completed)) t .over
        { ((control (s, completed)).shutAll t.conn?).setPhase t .over with
          current := some n, monitor := none } := .setCurrent t n hphase
    rw [← control_shutAll] at hturn
    exact .inr ⟨t, .over, hturn⟩
  · cases hs

theorem turns_abort (hinv : Inv g cfg s) (hk : recovers timers cfg s (.abort t) = true)
    (hs : abort s t = some s') :
    Turns timers (control (s, completed)) (control (s', completed)) := by
  unfold abort at hs
  split at hs
  · rename_i hphase _
    cases hs
    obtain rfl : t = .main := by simpa [recovers] using hk
    have hcount : s.count = 0 := by
      rcases hinv.connecting hphase with ⟨_, hcount⟩ | ⟨k, hk, _⟩
      · exact hcount
      · cases hk
    exact .inr ⟨_, _, .abort hphase hcount⟩
  · cases hs

theorem turns_refuse {e : Throwable} (hs : refuse s t e = some s') :
    Turns timers (control (s, completed)) (control (s', completed)) := by
  unfold refuse at hs
  split at hs
  · rename_i hphase hmonitor hcurrent
    cases hs
    exact .inr ⟨_, _, .refuse t e hphase hmonitor hcurrent⟩
  · cases hs

theorem turns_fail (hs : fail s t = some s') :
    Turns timers (control (s, completed)) (control (s', completed)) := by
  unfold fail at hs
  split at hs
  · rename_i e hphase
    right
    split at hs
    · rename_i hclosed
      cases hs
      exact ⟨_, _, .failAgain t e hphase hclosed⟩
    · rename_i hclosed
      cases hs
      exact ⟨_, _, .fail t e hphase (Bool.eq_false_of_not_eq_true hclosed)⟩
  · cases hs

theorem turns_reported (hs : reported s t = some s') :
    Turns timers (control (s, completed)) (control (s', completed)) := by
  unfold reported at hs
  split at hs
  · rename_i e hphase
    cases hs
    exact .inr ⟨_, _, .reported t e hphase⟩
  · cases hs

theorem turns_closeSubscription (hinv : Inv g cfg s) (hs : closeSubscription s = some s') :
    Turns timers (control (s, completed)) (control (s', completed)) := by
  unfold closeSubscription at hs
  split at hs
  · cases hs
  · rename_i hclosed
    cases hs
    exact .inr ⟨_, _, .closeSubscription (hinv.allowed .user) (Bool.eq_false_of_not_eq_true hclosed)⟩

theorem turns_step {a : Action} (hinv : Inv g cfg s) (hk : recovers timers cfg s a = true)
    (hs : step cfg s a = some s') :
    Turns timers (control (s, completed)) (control (s', ends.note s a completed)) := by
  cases a with
  | publish rows =>
    simp only [step, publish] at hs
    split at hs
    · cases hs
      exact .inl rfl
    · cases hs
  | elapse ms =>
    cases hs
    exact .inl rfl
  | accept m =>
    simp only [step, accept] at hs
    by_cases hm : m < s.count ∧ (s.conns m).position = none
    · rw [if_pos hm] at hs
      cases hs
      have hsame : ∀ serial, control (s.setConn m
          { s.conns m with position := some serial, sent := serial }, completed) =
          control (s, completed) := fun _ => control_setConn rfl
      exact .inl (hsame _)
    · rw [if_neg hm] at hs
      cases hs
  | sendFacts m n =>
    simp only [step, sendFacts] at hs
    split at hs
    · cases hs
      exact .inl (control_setConn rfl)
    · cases hs
  | sendSignal m =>
    simp only [step, send] at hs
    split at hs
    · cases hs
      exact .inl (control_setConn rfl)
    · cases hs
  | sendKeepAlive m =>
    simp only [step, send] at hs
    split at hs
    · cases hs
      exact .inl (control_setConn rfl)
    · cases hs
  | sendComplete m =>
    simp only [step, send] at hs
    split at hs
    · cases hs
      exact .inl (control_setConn rfl)
    · cases hs
  | cut m arrive e =>
    simp only [step, cut] at hs
    split at hs
    · cases hs
      exact .inl (control_setConn rfl)
    · cases hs
  | receive m => exact turns_receive hs
  | receiveError m => exact turns_receiveError hs
  | next m => exact turns_next hs
  | enter m => exact turns_enter hs
  | leave m => exact turns_leave hs
  | check m => exact turns_check hinv hk hs
  | notifyError t => exact turns_notifyError hs
  | detach t => exact turns_detach hs
  | close t exhausted => exact turns_close hs
  | connect t => exact turns_connect hinv hk hs
  | setCurrent t => exact turns_setCurrent hs
  | abort t => exact turns_abort hinv hk hs
  | refuse t e => exact turns_refuse hs
  | fail t => exact turns_fail hs
  | reported t => exact turns_reported hs
  | closeSubscription => exact turns_closeSubscription hinv hs

theorem tended_start (h : Start s) : (control (s, [])).Tended where
  placed := by
    intro t
    by_cases ht : t = .main
    · subst ht
      simp only [control, h.main]
      trivial
    · simp only [control, h.idle t ht]
      trivial
  unopened := fun m _ => h.idle (.timer m) (by simp)
  current := by
    intro n hn
    cases h.currentSubscription.symm.trans hn
  tended := fun hcount => absurd h.count hcount
  reported := fun hr => absurd h.reported hr
  closed := by
    intro hc
    cases h.isClosed.symm.trans hc

theorem once_start (h : Start s) : (control (s, [])).Once where
  timers := fun m => h.idle (.timer m) (by simp)
  main := fun hcount => absurd h.count hcount
  length := by
    simp only [control, h.reported]
    exact Nat.zero_le 1
  last := fun hr => absurd h.reported hr

end Steps

/-- A resilient subscription, and which of its streams came to their end. -/
def recorded (cfg : Config) : Machine (State × List Nat) Action := (subscribing cfg).along ends

section Runs
variable {g : Prop} {cfg : Config} {timers : Bool} {p p' : State × List Nat}

theorem recorded_reachable
    (h : (recorded cfg).ReachableUnder (fun p a => recovers timers cfg p.1 a = true) p) :
    (subscribing cfg).Reachable p.1 :=
  Machine.ReachableUnder.reachable
    (Machine.ReachableUnder.along_fst (C := fun s a => recovers timers cfg s a = true) h)

theorem turns_recorded {a : Action}
    (h : (recorded cfg).ReachableUnder (fun p a => recovers timers cfg p.1 a = true) p)
    (hk : recovers timers cfg p.1 a = true) (hs : (recorded cfg).step p a = some p') :
    Turns timers (control p) (control p') := by
  obtain ⟨hstep, hnote⟩ := Machine.along_step.mp hs
  obtain ⟨s, completed⟩ := p
  obtain ⟨s', _⟩ := p'
  cases hnote
  exact turns_step (inv (recorded_reachable h)) hk hstep

theorem tended
    (h : (recorded cfg).ReachableUnder (fun p a => recovers timers cfg p.1 a = true) p) :
    (control p).Tended := by
  refine h.invariant_from (I := fun p => (control p).Tended) ?_ ?_
  · rintro ⟨s, _⟩ ⟨hstart, rfl⟩
    exact tended_start hstart
  · intro p a p' hr ht hk hs
    rcases turns_recorded hr hk hs with heq | ⟨t, phase, hturn⟩
    · rwa [heq]
    · exact ht.turn hturn

theorem once (h : (recorded cfg).ReachableUnder (fun p a => recovers false cfg p.1 a = true) p) :
    (control p).Once := by
  refine h.invariant_from (I := fun p => (control p).Once) ?_ ?_
  · rintro ⟨s, _⟩ ⟨hstart, rfl⟩
    exact once_start hstart
  · intro p a p' hr ht hk hs
    rcases turns_recorded hr hk hs with heq | ⟨t, phase, hturn⟩
    · rwa [heq]
    · exact ht.turn (inv (recorded_reachable hr)).allowed hturn

end Runs

/-! ### When an error was dealt with -/

/-- The threads there are: the one that subscribes, and two for each connection. -/
def State.threads (s : State) : List Thread :=
  .main :: (List.range s.count).flatMap fun m => [.delivery m, .timer m]

/-- A subscription that is open, or whose stream came to its end. -/
def Live (p : State × List Nat) (n : Nat) : Prop := (p.1.conns n).closed = false ∨ n ∈ p.2

/-- There is a subscription, or the observer was told once that there is none. -/
def Recovered (p : State × List Nat) : Prop :=
  (∃ n, p.1.currentSubscription = some n ∧ Live p n) ∨
    (p.1.isClosed = true ∧ p.1.reported.length = 1)

/-- Whoever asks for the current subscription goes on waiting. -/
def Blocked (s : State) : Prop := s.currentSubscription = none ∧ s.isClosed = false

/-- A thread gets through with an error, and no other is at one. -/
def Handled (s s' : State) : Prop :=
  (∃ t ∈ s.threads, t ≠ .main ∧ (s.phase t).handling = true ∧ (s'.phase t).handling = false) ∧
    ∀ t ∈ s'.threads, (s'.phase t).handling = false

instance (s s' : State) : Decidable (Handled s s') := inferInstanceAs (Decidable (_ ∧ _))

section Outcome
variable {g : Prop} {cfg : Config} {timers : Bool} {p p' : State × List Nat}

theorem mem_threads {s : State} {t : Thread} :
    t ∈ s.threads ↔ t = .main ∨ ∃ m < s.count, t = .delivery m ∨ t = .timer m := by
  simp [State.threads]

theorem Recovered.not_blocked (h : Recovered p) : ¬ Blocked p.1 := by
  rintro ⟨hnone, hopen⟩
  rcases h with ⟨n, hn, _⟩ | ⟨hclosed, _⟩
  · cases hn.symm.trans hnone
  · cases hclosed.symm.trans hopen

/-- What holds of the threads there are, and of one at rest, holds of all but the user's. -/
theorem forall_threads (hinv : Inv g cfg p.1) (ht : (control p).Tended) {b : Phase → Bool}
    (hidle : b .idle = true) (hall : ∀ t ∈ p.1.threads, b (p.1.phase t) = true) (t : Thread)
    (huser : t ≠ .user) : b (p.1.phase t) = true := by
  cases t with
  | main => exact hall .main (mem_threads.mpr (.inl rfl))
  | user => exact absurd rfl huser
  | delivery m =>
    by_cases hm : m < p.1.count
    · exact hall _ (mem_threads.mpr (.inr ⟨m, hm, .inl rfl⟩))
    · rw [(hinv.allowed (.delivery m)).2 (by omega)]
      exact hidle
  | timer m =>
    by_cases hm : m < p.1.count
    · exact hall _ (mem_threads.mpr (.inr ⟨m, hm, .inr rfl⟩))
    · have hrest : p.1.phase (.timer m) = .idle := ht.unopened m (by simpa [control] using hm)
      rw [hrest]
      exact hidle

/-- Where no thread is at an error, what was given up was reported. -/
theorem reported_of_givenUp (hinv : Inv g cfg p.1) (ht : (control p).Tended)
    (hidle : ∀ t ∈ p.1.threads, (p.1.phase t).handling = false) (hg : (control p).GivenUp) :
    p.1.reported ≠ [] := by
  rcases hg with hne | ⟨t, hgiving⟩
  · exact hne
  · have hgiving : (p.1.phase t).givingUp = true := hgiving
    by_cases huser : t = .user
    · subst huser
      cases (Phase.of_leaving (hinv.allowed .user)).1.symm.trans hgiving
    · have hfree := forall_threads hinv ht (b := fun phase => !phase.handling) rfl
        (fun t ht => by simp [hidle t ht]) t huser
      cases hphase : p.1.phase t with
      | detach => simp [hphase, Phase.handling] at hfree
      | closing => simp [hphase, Phase.handling] at hfree
      | _ => cases hphase ▸ hgiving

/-- A thread gets through with an error by leaving a current subscription, or a report. -/
theorem left_of_handled {a : Action}
    (h : (recorded cfg).ReachableUnder (fun p a => recovers timers cfg p.1 a = true) p)
    (hk : recovers timers cfg p.1 a = true) (hs : (recorded cfg).step p a = some p')
    (hhandled : Handled p.1 p'.1) : p'.1.currentSubscription ≠ none ∨ p'.1.reported ≠ [] := by
  obtain ⟨⟨t, hmem, hmain, hhandling, hover⟩, _⟩ := hhandled
  have huser : t ≠ .user := by
    rintro rfl
    simp [mem_threads] at hmem
  have hmoves : p'.1.phase t ≠ p.1.phase t := by
    intro hsame
    rw [hsame] at hover
    cases hhandling.symm.trans hover
  rcases turns_recorded h hk hs with heq | ⟨u, phase, hturn⟩
  · exact absurd (congrArg (fun c => c.phase t) heq) hmoves
  · rcases hturn.phase_cases t with ⟨rfl, hto⟩ | ⟨_, hto⟩
    · have hto : p'.1.phase t = phase := hto
      exact hturn.through (tended h) hmain huser hhandling (hto ▸ hover)
    · exact absurd hto hmoves

end Outcome

/-- In every run in which no handshake of a reconnect throws, no reconnect finds the
subscription its error came from, and no timer finds a connection stale, every error
that was dealt with leaves a subscription, or the observer is told once; and nobody
who waits for a subscription is left waiting. -/
theorem never_zombie (cfg : Config) (p p' : State × List Nat) (a : Action)
    (h : (recorded cfg).ReachableUnder (fun p a => recovers false cfg p.1 a = true) p)
    (hk : recovers false cfg p.1 a = true) (hs : (recorded cfg).step p a = some p')
    (hhandled : Handled p.1 p'.1) : Recovered p' ∧ ¬ Blocked p'.1 := by
  have h' := h.step hk hs
  have hinv := inv (recorded_reachable h')
  have ht := tended h'
  have hreported : p'.1.reported ≠ [] → Recovered p' := by
    intro hne
    refine .inr ⟨ht.reported hne, ?_⟩
    have hlength : p'.1.reported.length ≤ 1 := (once h').length
    have hpos := List.length_pos_iff.mpr hne
    omega
  have hrecovered : Recovered p' := by
    rcases left_of_handled h hk hs hhandled with hcurrent | hne
    · obtain ⟨n, hn⟩ := Option.ne_none_iff_exists'.mp hcurrent
      rcases (ht.current n hn).2 with hdone | ⟨hopen, _⟩ | hg
      · exact .inl ⟨n, hn, .inr hdone⟩
      · exact .inl ⟨n, hn, .inl hopen⟩
      · exact hreported (reported_of_givenUp hinv ht hhandled.2 hg)
    · exact hreported hne
  exact ⟨hrecovered, hrecovered.not_blocked⟩

theorem recorded_start : (recorded resilient).Start (subscribed, []) := ⟨subscribed_start, rfl⟩

/-- The first stream is cut off, and its thread is about to connect again. -/
def broken : List Action :=
  [.connect .main, .setCurrent .main, .accept 0, .cut 0 0 (.status { code := .unavailable }),
    .receiveError 0, .notifyError (.delivery 0), .detach (.delivery 0), .close (.delivery 0) false]

/-- What a step makes of the current subscription, if an error was dealt with. -/
def outcome (a : Action) (p : State × List Nat) : Option (Option Nat × Bool) :=
  match (recorded resilient).step p a with
  | some p' =>
    if Handled p.1 p'.1 then some (p'.1.currentSubscription, p'.1.isClosed) else none
  | none => none

theorem outcome_eq_some {a : Action} {p : State × List Nat} {b : Option Nat × Bool}
    (h : outcome a p = some b) : ∃ p', (recorded resilient).step p a = some p' ∧
      Handled p.1 p'.1 ∧ p'.1.currentSubscription = b.1 ∧ p'.1.isClosed = b.2 := by
  unfold outcome at h
  split at h
  · rename_i p' hs
    split at h
    · rename_i hhandled
      cases h
      exact ⟨p', hs, hhandled, rfl, rfl⟩
    · cases h
  · cases h

/-- The second connection comes about. -/
theorem never_zombie_broken : ∃ p p', (recorded resilient).step p (.setCurrent (.delivery 0)) = some p' ∧
    Handled p.1 p'.1 ∧ p'.1.currentSubscription = some 1 ∧ Recovered p' := by
  obtain ⟨p, hp, hout⟩ := Machine.exists_reachableUnder recorded_start (broken ++ [.connect (.delivery 0)])
    (outcome (.setCurrent (.delivery 0))) (c := fun p a => recovers false resilient p.1 a)
    (b := some (some 1, false)) (by decide +kernel)
  obtain ⟨p', hs, hhandled, hcurrent, _⟩ := outcome_eq_some hout
  exact ⟨p, p', hs, hhandled, hcurrent, (never_zombie resilient p p' _ hp rfl hs hhandled).1⟩

/-- The handshake throws, and there is neither a subscription nor a report. -/
theorem handshake_zombie : ¬ ∀ p p' a, (recorded resilient).Reachable p →
    (recorded resilient).step p a = some p' → Handled p.1 p'.1 → Recovered p' ∧ ¬ Blocked p'.1 := by
  obtain ⟨p, hp, hout⟩ := Machine.exists_reachable recorded_start broken
    (outcome (.abort (.delivery 0))) (b := some (none, false)) (by decide +kernel)
  obtain ⟨p', hs, hhandled, hcurrent, hclosed⟩ := outcome_eq_some hout
  intro hall
  exact (hall p p' _ hp hs hhandled).2 ⟨hcurrent, hclosed⟩

/-! ### When everybody is through -/

/-- A connection that met no error. -/
def Unended (p : State × List Nat) (n : Nat) : Prop :=
  n ∈ p.2 ∨ ((p.1.conns n).closed = false ∧ (p.1.phase (.delivery n)).receiving = true)

/-- Through, or met no error. -/
def Phase.calm : Phase → Bool
  | .over => true
  | phase => phase.receiving

def Phase.isIdle : Phase → Bool
  | .idle => true
  | _ => false

/-- No thread is at an error, or has one at hand, and the user has not closed it. -/
def Settled (s : State) : Prop :=
  (∀ t ∈ s.threads, (s.phase t).calm = true) ∧ (s.phase .user).isIdle = true

instance (s : State) : Decidable (Settled s) := inferInstanceAs (Decidable (_ ∧ _))

theorem Phase.of_calm {phase : Phase} (h : phase.calm = true) :
    phase.handling = false ∧ phase.tending = false ∧ (phase.past = false → phase.receiving = true) := by
  cases phase with
  | idle => exact ⟨rfl, rfl, fun _ => rfl⟩
  | processing => exact ⟨rfl, rfl, fun _ => rfl⟩
  | checked => exact ⟨rfl, rfl, fun _ => rfl⟩
  | calling => exact ⟨rfl, rfl, fun _ => rfl⟩
  | «over» => exact ⟨rfl, rfl, fun hp => by cases hp⟩
  | _ => cases h

/-- In every run in which no handshake of a reconnect throws and no reconnect finds
the subscription its error came from, wherever all threads are through and the user
has not closed it, the current subscription met no error, or it is closed and the
error was reported. -/
theorem reconnect_settles (cfg : Config) (p : State × List Nat)
    (h : (recorded cfg).ReachableUnder (fun p a => recovers true cfg p.1 a = true) p)
    (hcount : p.1.count ≠ 0) (hsettled : Settled p.1) :
    (∃ n, p.1.currentSubscription = some n ∧ Unended p n) ∨
      (p.1.isClosed = true ∧ p.1.reported ≠ []) := by
  have hinv := inv (recorded_reachable h)
  have ht := tended h
  obtain ⟨hcalm, huser⟩ := hsettled
  have hall := forall_threads hinv ht rfl hcalm
  have hreported : (control p).GivenUp → p.1.isClosed = true ∧ p.1.reported ≠ [] := by
    intro hg
    have hne := reported_of_givenUp hinv ht (fun t ht => (Phase.of_calm (hcalm t ht)).1) hg
    exact ⟨ht.reported hne, hne⟩
  cases hcurrent : p.1.currentSubscription with
  | some n =>
    rcases (ht.current n hcurrent).2 with hdone | ⟨hopen, hpast⟩ | hg
    · exact .inl ⟨n, rfl, .inl hdone⟩
    · have hreceiving := (Phase.of_calm (hall (.delivery n) (by simp))).2.2 hpast
      exact .inl ⟨n, rfl, .inr ⟨hopen, hreceiving⟩⟩
    · exact .inr (hreported hg)
  | none =>
    have hidle : p.1.phase .user = .idle := by
      cases hphase : p.1.phase .user with
      | idle => rfl
      | _ => cases hphase ▸ huser
    rcases ht.tended hcount hcurrent with hclosed | ⟨t, htending⟩
    · rcases ht.closed hclosed with hg | hnot
      · exact .inr (hreported hg)
      · exact absurd hidle hnot
    · have htending : (p.1.phase t).tending = true := htending
      by_cases htu : t = .user
      · subst htu
        rw [hidle] at htending
        cases htending
      · cases (Phase.of_calm (hall t htu)).2.1.symm.trans htending

/-- The first stream breaks before its subscription is stored, and its thread waits. -/
def early : List Action :=
  [.connect .main, .cut 0 0 (.status { code := .unavailable }), .receiveError 0,
    .notifyError (.delivery 0), .detach (.delivery 0), .close (.delivery 0) false, .setCurrent .main]

/-- It is given up for good instead. -/
def earlyGivenUp : List Action :=
  [.connect .main, .cut 0 0 (.status { code := .unavailable }), .receiveError 0,
    .notifyError (.delivery 0), .detach (.delivery 0), .close (.delivery 0) true, .fail (.delivery 0),
    .detach (.delivery 0), .setCurrent .main, .close (.delivery 0) false, .reported (.delivery 0)]

theorem reconnect_settles_earlyGivenUp : ∃ p : State × List Nat, p.1.currentSubscription = some 0 ∧
    ((∃ n, p.1.currentSubscription = some n ∧ Unended p n) ∨
      (p.1.isClosed = true ∧ p.1.reported ≠ [])) := by
  obtain ⟨p, hp, hstate⟩ := Machine.exists_reachableUnder recorded_start earlyGivenUp
    (fun p => (p.1.currentSubscription, p.1.count, decide (Settled p.1)))
    (c := fun p a => recovers true resilient p.1 a) (b := (some 0, 1, true)) (by decide +kernel)
  simp only [Prod.mk.injEq, decide_eq_true_eq] at hstate
  obtain ⟨hcurrent, hcount, hsettled⟩ := hstate
  exact ⟨p, hcurrent, reconnect_settles resilient p hp (by omega) hsettled⟩

/-- The thread that connects again finds the subscription its error came from. -/
theorem early_lost : ¬ ∀ p, (recorded resilient).Reachable p → p.1.count ≠ 0 → Settled p.1 →
    (∃ n, p.1.currentSubscription = some n ∧ Unended p n) ∨
      (p.1.isClosed = true ∧ p.1.reported ≠ []) := by
  obtain ⟨p, hp, hstate⟩ := Machine.exists_reachable recorded_start
    (early ++ [.connect (.delivery 0)])
    (fun p => (p.1.currentSubscription, p.1.count, decide (Settled p.1), p.2, (p.1.conns 0).closed,
      p.1.isClosed)) (b := (some 0, 1, true, [], true, false)) (by decide +kernel)
  simp only [Prod.mk.injEq, decide_eq_true_eq] at hstate
  obtain ⟨hcurrent, hcount, hsettled, hdone, hclosed, hopen⟩ := hstate
  intro hall
  rcases hall p hp (by omega) hsettled with ⟨n, hn, hunended⟩ | ⟨hclosed', _⟩
  · obtain rfl : n = 0 := Option.some.inj (hn.symm.trans hcurrent)
    rcases hunended with hmem | ⟨hnot, _⟩
    · rw [hdone] at hmem
      cases hmem
    · cases hnot.symm.trans hclosed
  · cases hclosed'.symm.trans hopen

end FactCast.ResilientGrpcSubscription
