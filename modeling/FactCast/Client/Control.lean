import FactCast.Client.ReconnectOrder

/-! Who looks after a resilient subscription.

Only a few things matter for whether a subscription recovers from an error: where
the threads are, which subscription is the current one, which are closed, and what
was reported (`Control`). A step changes them in one of a few ways (`Turn`): the
branches are left out that lose a subscription.

`Tended` is what such steps preserve. Where there is no current subscription and
none was given up, a thread is on its way to open one. What is current has met no
error, but for one that is about to be reported. What a thread took out, or is about
to store, belongs to it alone (`At`). Without timers, an error is reported once
(`Once`). -/
namespace FactCast.ResilientGrpcSubscription

/-! ### Where a thread is -/

/-- Closed to be reported. -/
def Reason.reports : Reason → Bool
  | .report _ => true
  | _ => false

/-- Dealing with an error, or connecting. -/
def Phase.handling : Phase → Bool
  | .detach _ => true
  | .closing _ _ => true
  | .reConnect => true
  | .opened _ => true
  | .failing _ => true
  | .reporting _ => true
  | _ => false

/-- On its way to a connection, or to giving up. -/
def Phase.tending : Phase → Bool
  | .closing _ (.retry _) => true
  | .reConnect => true
  | .opened _ => true
  | .failing _ => true
  | _ => false

/-- The subscription is given up, and the error not reported yet. -/
def Phase.givingUp : Phase → Bool
  | .detach reason => reason.reports
  | .closing _ reason => reason.reports
  | _ => false

/-- Nothing was done about an error yet. -/
def Phase.listening : Phase → Bool
  | .idle => true
  | .processing _ => true
  | .checked _ _ => true
  | .calling _ _ => true
  | .notifyError _ => true
  | _ => false

theorem Phase.of_listening {phase : Phase} (h : phase.listening = true) :
    phase.handling = false ∧ phase.givingUp = false ∧ phase.tending = false ∧ phase.past = false := by
  cases phase with
  | detach => cases h
  | closing => cases h
  | reConnect => cases h
  | opened => cases h
  | failing => cases h
  | reporting => cases h
  | «over» => cases h
  | _ => exact ⟨rfl, rfl, rfl, rfl⟩

theorem Phase.of_leaving {phase : Phase} (h : phase.leaving = true) :
    phase.givingUp = false ∧ phase.tending = false := by
  cases phase with
  | detach reason =>
    cases reason with
    | closed => exact ⟨rfl, rfl⟩
    | _ => cases h
  | closing current reason =>
    cases reason with
    | closed => exact ⟨rfl, rfl⟩
    | _ => cases h
  | idle => exact ⟨rfl, rfl⟩
  | «over» => exact ⟨rfl, rfl⟩
  | _ => cases h

/-! ### What a step changes -/

structure Control where
  phase : Thread → Phase
  count : Nat
  current : Option Nat
  isClosed : Bool
  monitor : Option Thread
  reported : List Throwable
  closed : Nat → Bool
  completed : List Nat

namespace Control

def setPhase (c : Control) (t : Thread) (phase : Phase) : Control :=
  { c with phase := Function.update c.phase t phase }

def shutAll (c : Control) (current : Option Nat) : Control :=
  { c with closed := fun n => c.closed n || decide (current = some n) }

/-- An error was reported, or is about to be. -/
def GivenUp (c : Control) : Prop := c.reported ≠ [] ∨ ∃ t, (c.phase t).givingUp = true

/-- A connection that has come to its end or met no error, unless all is given up. -/
def Sound (c : Control) (n : Nat) : Prop :=
  n ∈ c.completed ∨ (c.closed n = false ∧ (c.phase (.delivery n)).past = false) ∨ c.GivenUp

/-- A step that recovers takes a thread to a phase, and changes this. -/
inductive Turn (timers : Bool) (c : Control) : Thread → Phase → Control → Prop
  | listen (m : Nat) (phase : Phase) (hfrom : (c.phase (.delivery m)).listening = true)
      (hto : phase.listening = true) :
      Turn timers c (.delivery m) phase (c.setPhase (.delivery m) phase)
  | stale (m : Nat) (e : Throwable) (htimers : timers = true) (hopen : m < c.count)
      (hphase : c.phase (.timer m) = .idle) :
      Turn timers c (.timer m) (.notifyError e) (c.setPhase (.timer m) (.notifyError e))
  | takeUp (t : Thread) (e : Throwable) (hconn : t.conn? ≠ none)
      (hphase : c.phase t = .notifyError e) :
      Turn timers c t (.detach (.retry e)) (c.setPhase t (.detach (.retry e)))
  | drop (t : Thread) (m : Nat) (hconn : t.conn? = some m) (hfrom : (c.phase t).listening = true)
      (hon : ∀ k, t = .timer k → c.phase t ≠ .idle) (hclosed : c.closed m = true) :
      Turn timers c t .over (c.setPhase t .over)
  | complete (m : Nat) (phase : Phase) (hfrom : (c.phase (.delivery m)).listening = true)
      (hto : phase.listening = true) :
      Turn timers c (.delivery m) phase
        { (c.shutAll (some m)).setPhase (.delivery m) phase with completed := m :: c.completed }
  | detach (t : Thread) (reason : Reason) (hphase : c.phase t = .detach reason) :
      Turn timers c t (.closing c.current reason)
        { c.setPhase t (.closing c.current reason) with current := none }
  | retry (t : Thread) (current : Option Nat) (e : Throwable) (phase : Phase)
      (hphase : c.phase t = .closing current (.retry e))
      (hto : phase = .reConnect ∨ phase = .failing e) :
      Turn timers c t phase ((c.shutAll current).setPhase t phase)
  | report (t : Thread) (current : Option Nat) (e : Throwable)
      (hphase : c.phase t = .closing current (.report e)) :
      Turn timers c t (.reporting e)
        { (c.shutAll current).setPhase t (.reporting e) with reported := c.reported ++ [e] }
  | close (t : Thread) (current : Option Nat) (hphase : c.phase t = .closing current .closed) :
      Turn timers c t .over ((c.shutAll current).setPhase t .over)
  | found (t : Thread) (k : Nat) (hphase : c.phase t = .reConnect) (hmonitor : c.monitor = none)
      (hcurrent : c.current = some k) (hown : t.conn? ≠ some k) :
      Turn timers c t .over ((c.shutAll t.conn?).setPhase t .over)
  | connect (t : Thread) (hphase : c.phase t = .reConnect) (hmonitor : c.monitor = none)
      (hcurrent : c.current = none) (hown : ∀ k, t.conn? = some k → k < c.count)
      (hnew : c.phase (.delivery c.count) = .idle) :
      Turn timers c t (.opened c.count)
        { c.setPhase t (.opened c.count) with
          count := c.count + 1, monitor := some t
          closed := fun n => if n = c.count then false else c.closed n }
  | setCurrent (t : Thread) (n : Nat) (hphase : c.phase t = .opened n) :
      Turn timers c t .over
        { (c.shutAll t.conn?).setPhase t .over with current := some n, monitor := none }
  | abort (hphase : c.phase .main = .reConnect) (hcount : c.count = 0) :
      Turn timers c .main .over (c.setPhase .main .over)
  | refuse (t : Thread) (e : Throwable) (hphase : c.phase t = .reConnect)
      (hmonitor : c.monitor = none) (hcurrent : c.current = none) :
      Turn timers c t (.failing e) { c.setPhase t (.failing e) with monitor := some t }
  | failAgain (t : Thread) (e : Throwable) (hphase : c.phase t = .failing e)
      (hclosed : c.isClosed = true) :
      Turn timers c t (.reporting e)
        { c.setPhase t (.reporting e) with reported := c.reported ++ [e] }
  | fail (t : Thread) (e : Throwable) (hphase : c.phase t = .failing e)
      (hclosed : c.isClosed = false) :
      Turn timers c t (.detach (.report e))
        { c.setPhase t (.detach (.report e)) with isClosed := true }
  | reported (t : Thread) (e : Throwable) (hphase : c.phase t = .reporting e) :
      Turn timers c t .over
        { c.setPhase t .over with monitor := if c.monitor = some t then none else c.monitor }
  | closeSubscription (hphase : (c.phase .user).leaving = true) (hclosed : c.isClosed = false) :
      Turn timers c .user (.detach .closed)
        { c.setPhase .user (.detach .closed) with isClosed := true }

/-- What a thread may rely on that closes for some reason. -/
def Means (c : Control) (t : Thread) : Reason → Prop
  | .retry _ => True
  | .report _ => c.isClosed = true
  | .closed => c.isClosed = true ∧ t = .user

/-- What a thread may rely on, wherever it is. What it took out, or is about to
store, belongs to it alone. -/
def At (c : Control) (t : Thread) : Phase → Prop
  | .detach reason => c.Means t reason
  | .closing current reason => c.Means t reason ∧ ∀ n, current = some n →
      n < c.count ∧ c.current ≠ some n ∧ ∀ u, c.phase u ≠ .opened n
  | .opened n => c.current = none ∧ c.monitor = some t ∧ n < c.count ∧ t.conn? ≠ some n ∧ c.Sound n
  | .reporting _ => c.reported ≠ []
  | _ => True

structure Tended (c : Control) : Prop where
  placed : ∀ t, c.At t (c.phase t)
  unopened : ∀ m, c.count ≤ m → c.phase (.timer m) = .idle
  current : ∀ n, c.current = some n → n < c.count ∧ c.Sound n
  tended : c.count ≠ 0 → c.current = none → c.isClosed = true ∨ ∃ t, (c.phase t).tending = true
  reported : c.reported ≠ [] → c.isClosed = true
  closed : c.isClosed = true → c.GivenUp ∨ c.phase .user ≠ .idle

/-! ### What every step preserves -/

section Turns
variable {c c' : Control} {timers : Bool} {t : Thread} {phase : Phase} {n : Nat}

/-- The one thread moves, and the others stay. -/
theorem Turn.phase_cases (h : Turn timers c t phase c') (u : Thread) :
    (u = t ∧ c'.phase u = phase) ∨ (u ≠ t ∧ c'.phase u = c.phase u) := by
  have hphase : c'.phase = Function.update c.phase t phase := by cases h <;> rfl
  by_cases hu : u = t
  · subst hu
    exact .inl ⟨rfl, by rw [hphase, Function.update_self]⟩
  · exact .inr ⟨hu, by rw [hphase, Function.update_of_ne hu]⟩

theorem Turn.isClosed (h : Turn timers c t phase c') (hc : c.isClosed = true) :
    c'.isClosed = true := by
  cases h with
  | fail => rfl
  | closeSubscription => rfl
  | _ => exact hc

theorem Turn.reported_ne (h : Turn timers c t phase c') (hr : c.reported ≠ []) :
    c'.reported ≠ [] := by
  cases h with
  | report => simp
  | failAgain => simp
  | _ => exact hr

theorem Turn.count_le (h : Turn timers c t phase c') : c.count ≤ c'.count := by
  cases h with
  | connect => exact Nat.le_succ c.count
  | _ => exact Nat.le_refl c.count

theorem Turn.completed (h : Turn timers c t phase c') (hn : n ∈ c.completed) :
    n ∈ c'.completed := by
  cases h with
  | complete m => exact List.mem_cons_of_mem m hn
  | _ => exact hn

/-- What becomes current was opened before. -/
theorem Turn.current_back (h : Turn timers c t phase c') (hn : c'.current = some n) :
    c.current = some n ∨ ∃ u, c.phase u = .opened n := by
  cases h with
  | detach => cases hn
  | setCurrent t k hphase =>
    cases hn
    exact .inr ⟨t, hphase⟩
  | _ => exact .inl hn

/-- What is opened was, or is new. -/
theorem Turn.opened_back (h : Turn timers c t phase c') {u : Thread}
    (hn : c'.phase u = .opened n) : c.phase u = .opened n ∨ n = c.count := by
  rcases h.phase_cases u with ⟨rfl, hu⟩ | ⟨_, hu⟩
  · rw [hu] at hn
    subst hn
    cases h with
    | listen _ _ _ hto => cases hto
    | complete _ _ _ hto => cases hto
    | retry _ _ _ _ _ hto => rcases hto with hto | hto <;> cases hto
    | connect => exact .inr rfl
  · exact .inl (hu ▸ hn)

/-- Who is about to report goes on, or has reported. -/
theorem Turn.givingUp (h : Turn timers c t phase c') (ht : (c.phase t).givingUp = true) :
    phase.givingUp = true ∨ c'.reported ≠ [] := by
  cases h with
  | listen _ _ hfrom => cases (Phase.of_listening hfrom).2.1.symm.trans ht
  | drop _ _ _ hfrom => cases (Phase.of_listening hfrom).2.1.symm.trans ht
  | complete _ _ hfrom => cases (Phase.of_listening hfrom).2.1.symm.trans ht
  | stale _ _ _ _ hphase => cases hphase ▸ ht
  | takeUp _ _ _ hphase => cases hphase ▸ ht
  | closeSubscription hphase => cases (Phase.of_leaving hphase).1.symm.trans ht
  | detach t reason hphase =>
    rw [hphase] at ht
    exact .inl ht
  | report => exact .inr (by simp)
  | failAgain => exact .inr (by simp)
  | retry _ _ _ _ hphase => cases hphase ▸ ht
  | close _ _ hphase => cases hphase ▸ ht
  | found _ _ hphase => cases hphase ▸ ht
  | connect _ hphase => cases hphase ▸ ht
  | setCurrent _ _ hphase => cases hphase ▸ ht
  | abort hphase => cases hphase ▸ ht
  | refuse _ _ hphase => cases hphase ▸ ht
  | fail _ _ hphase => cases hphase ▸ ht
  | reported _ _ hphase => cases hphase ▸ ht

/-- Once it is given up, it stays so. -/
theorem Turn.givenUp (h : Turn timers c t phase c') (hg : c.GivenUp) : c'.GivenUp := by
  rcases hg with hne | ⟨u, hu⟩
  · exact .inl (h.reported_ne hne)
  · rcases h.phase_cases u with ⟨rfl, hto⟩ | ⟨_, hto⟩
    · rcases h.givingUp hu with hp | hne
      · exact .inr ⟨u, hto ▸ hp⟩
      · exact .inl hne
    · exact .inr ⟨u, hto ▸ hu⟩

/-- Current, or about to be. -/
def Held (c : Control) (n : Nat) : Prop := c.current = some n ∨ ∃ u, c.phase u = .opened n

theorem Tended.opened (ht : c.Tended) {u : Thread} (hu : c.phase u = .opened n) :
    c.current = none ∧ c.monitor = some u ∧ n < c.count ∧ u.conn? ≠ some n ∧ c.Sound n := by
  have hplaced := ht.placed u
  rwa [hu] at hplaced

/-- What a thread took out is not held. -/
theorem Tended.taken (ht : c.Tended) {reason : Reason}
    (hphase : c.phase t = .closing (some n) reason) : ¬ c.Held n := by
  have hplaced := ht.placed t
  rw [hphase] at hplaced
  obtain ⟨_, hcurrent, hopened⟩ := hplaced.2 n rfl
  rintro (hn | ⟨u, hu⟩)
  · exact hcurrent hn
  · exact hopened u hu

/-- The connection of a thread that goes through is not held by another. -/
theorem Tended.own (ht : c.Tended) (hheld : c.Held n) (hconn : t.conn? = some n)
    (hphase : c.phase t = .reConnect ∧ c.monitor = none ∧ c.current ≠ some n ∨
      ∃ k, c.phase t = .opened k) : False := by
  rcases hphase with ⟨_, hmonitor, hother⟩ | ⟨k, hk⟩
  · rcases hheld with hn | ⟨u, hu⟩
    · exact hother hn
    · cases (ht.opened hu).2.1.symm.trans hmonitor
  · obtain ⟨hnone, hmonitor, _, hown, _⟩ := ht.opened hk
    rcases hheld with hn | ⟨u, hu⟩
    · cases hn.symm.trans hnone
    · obtain rfl : u = t := Option.some.inj ((ht.opened hu).2.1.symm.trans hmonitor)
      obtain rfl : n = k := by simpa using hu.symm.trans hk
      exact hown hconn

/-- What is held stays open, or comes to its end. -/
theorem Turn.open (h : Turn timers c t phase c') (ht : c.Tended) (hheld : c.Held n)
    (hn : c.closed n = false) : c'.closed n = false ∨ n ∈ c'.completed := by
  have hshut : ∀ current, current ≠ some n → (c.shutAll current).closed n = false := by
    intro current hne
    simp [shutAll, hn, hne]
  cases h with
  | complete m =>
    by_cases hm : n = m
    · subst hm
      exact .inr (List.mem_cons_self ..)
    · exact .inl (hshut (some m) (by simpa using Ne.symm hm))
  | retry t current _ _ hphase =>
    refine .inl (hshut current ?_)
    rintro rfl
    exact ht.taken hphase hheld
  | report t current _ hphase =>
    refine .inl (hshut current ?_)
    rintro rfl
    exact ht.taken hphase hheld
  | close t current hphase =>
    refine .inl (hshut current ?_)
    rintro rfl
    exact ht.taken hphase hheld
  | found t k hphase hmonitor hcurrent hown =>
    refine .inl (hshut t.conn? fun hconn => ?_)
    apply ht.own hheld hconn (.inl ⟨hphase, hmonitor, ?_⟩)
    rw [hcurrent, ← hconn]
    exact Ne.symm hown
  | setCurrent t k hphase =>
    exact .inl (hshut t.conn? fun hconn => ht.own hheld hconn (.inr ⟨k, hphase⟩))
  | connect =>
    left
    show (if n = c.count then false else c.closed n) = false
    rw [hn, ite_self]
  | _ => exact .inl hn

/-- The thread of what is held does not get through, unless all is given up. -/
theorem Turn.stays (h : Turn timers c t phase c') (ht : c.Tended) (hheld : c.Held n)
    (hn : c.closed n = false) (hpast : (c.phase (.delivery n)).past = false) :
    (c'.phase (.delivery n)).past = false ∨ c'.GivenUp := by
  rcases h.phase_cases (.delivery n) with ⟨rfl, hmoved⟩ | ⟨_, hmoved⟩
  · rw [hmoved]
    cases h with
    | listen _ _ _ hto => exact .inl (Phase.of_listening hto).2.2.2
    | complete _ _ _ hto => exact .inl (Phase.of_listening hto).2.2.2
    | drop _ m hconn _ _ hclosed =>
      obtain rfl : n = m := by simpa [Thread.conn?] using hconn
      cases hn.symm.trans hclosed
    | retry _ _ _ _ _ hto =>
      rcases hto with rfl | rfl
      · exact .inl rfl
      · exact .inl rfl
    | close _ _ hphase =>
      have hplaced := ht.placed (.delivery n)
      rw [hphase] at hplaced
      cases hplaced.1.2
    | found _ k hphase hmonitor hcurrent hown =>
      refine (ht.own hheld (t := .delivery n) rfl (.inl ⟨hphase, hmonitor, ?_⟩)).elim
      rw [hcurrent]
      exact Ne.symm hown
    | connect _ hphase hmonitor hcurrent =>
      refine (ht.own hheld (t := .delivery n) rfl (.inl ⟨hphase, hmonitor, ?_⟩)).elim
      rw [hcurrent]
      simp
    | setCurrent _ k hphase => exact (ht.own hheld (t := .delivery n) rfl (.inr ⟨k, hphase⟩)).elim
    | reported _ e hphase =>
      have hplaced := ht.placed (.delivery n)
      rw [hphase] at hplaced
      exact .inr (.inl hplaced)
    | _ => exact .inl rfl
  · exact .inl (hmoved ▸ hpast)

theorem Turn.sound (h : Turn timers c t phase c') (ht : c.Tended) (hheld : c.Held n)
    (hs : c.Sound n) : c'.Sound n := by
  rcases hs with hn | ⟨hopen, hpast⟩ | hg
  · exact .inl (h.completed hn)
  · rcases h.open ht hheld hopen with hopen' | hn
    · rcases h.stays ht hheld hopen hpast with hpast' | hg
      · exact .inr (.inl ⟨hopen', hpast'⟩)
      · exact .inr (.inr hg)
    · exact .inl hn
  · exact .inr (.inr (h.givenUp hg))

theorem Turn.means (h : Turn timers c t phase c') {u : Thread} {reason : Reason}
    (hm : c.Means u reason) : c'.Means u reason := by
  cases reason with
  | retry => trivial
  | report => exact h.isClosed hm
  | closed => exact ⟨h.isClosed hm.1, hm.2⟩

/-- While a thread stores what it opened, the others wait. -/
theorem Turn.waits (h : Turn timers c t phase c') (ht : c.Tended) {u : Thread} (hu : u ≠ t)
    (hcurrent : c.current = none) (hmonitor : c.monitor = some u) :
    c'.current = none ∧ c'.monitor = some u := by
  cases h with
  | detach => exact ⟨rfl, hmonitor⟩
  | connect _ _ hfree => cases hmonitor.symm.trans hfree
  | setCurrent t k hphase =>
    have heq := (ht.opened hphase).2.1
    exact absurd (Option.some.inj (hmonitor.symm.trans heq)) hu
  | refuse _ _ _ hfree => cases hmonitor.symm.trans hfree
  | reported t e =>
    refine ⟨hcurrent, ?_⟩
    show (if c.monitor = some t then none else c.monitor) = some u
    rw [if_neg (by simpa [hmonitor] using hu), hmonitor]
  | _ => exact ⟨hcurrent, hmonitor⟩

theorem at_listening (hl : phase.listening = true) : c.At t phase := by
  cases phase with
  | detach => cases hl
  | closing => cases hl
  | opened => cases hl
  | reporting => cases hl
  | _ => trivial

/-- What the thread that moved may rely on. -/
theorem Turn.moved (h : Turn timers c t phase c') (ht : c.Tended) : c'.At t phase := by
  have hcases := h.phase_cases
  have hback : ∀ u n, c'.phase u = .opened n → c.phase u = .opened n ∨ n = c.count :=
    fun u n hu => h.opened_back hu
  cases h with
  | listen _ _ _ hto => exact at_listening hto
  | complete _ _ _ hto => exact at_listening hto
  | detach t reason hphase =>
    have hplaced := ht.placed t
    rw [hphase] at hplaced
    have hturn : Turn timers c t (.closing c.current reason)
        { c.setPhase t (.closing c.current reason) with current := none } := .detach t reason hphase
    refine ⟨hturn.means hplaced, fun n hn => ?_⟩
    have hlt := (ht.current n hn).1
    refine ⟨hlt, by simp, fun u hu => ?_⟩
    rcases hback u n hu with hopened | heq
    · cases hn.symm.trans (ht.opened hopened).1
    · exact Nat.ne_of_lt hlt heq
  | retry _ _ _ _ _ hto =>
    rcases hto with rfl | rfl
    · trivial
    · trivial
  | report => exact List.append_ne_nil_of_right_ne_nil _ (by simp)
  | failAgain => exact List.append_ne_nil_of_right_ne_nil _ (by simp)
  | fail => rfl
  | closeSubscription => exact ⟨rfl, rfl⟩
  | connect t hphase hmonitor hcurrent hown hnew =>
    have hne : t.conn? ≠ some c.count := fun hconn => Nat.lt_irrefl _ (hown _ hconn)
    refine ⟨hcurrent, rfl, Nat.lt_succ_self c.count, hne, .inr (.inl ⟨if_pos rfl, ?_⟩)⟩
    rcases hcases (.delivery c.count) with ⟨rfl, _⟩ | ⟨_, hto⟩
    · exact absurd rfl hne
    · rw [hto, hnew]
      rfl
  | _ => trivial

/-- What the others may rely on. -/
theorem Turn.kept (h : Turn timers c t phase c') (ht : c.Tended) {u : Thread} (hu : u ≠ t) :
    c'.At u (c.phase u) := by
  have hplaced := ht.placed u
  cases hphase : c.phase u with
  | detach reason =>
    rw [hphase] at hplaced
    exact h.means hplaced
  | closing current reason =>
    rw [hphase] at hplaced
    refine ⟨h.means hplaced.1, fun n hn => ?_⟩
    subst hn
    have hlt := (hplaced.2 n rfl).1
    refine ⟨Nat.lt_of_lt_of_le hlt h.count_le, ?_, fun v hv => ?_⟩
    · exact fun hn => ht.taken hphase (h.current_back hn)
    · rcases h.opened_back hv with hopened | heq
      · exact ht.taken hphase (.inr ⟨v, hopened⟩)
      · exact Nat.ne_of_lt hlt heq
  | opened n =>
    obtain ⟨hcurrent, hmonitor, hlt, hown, hsound⟩ := ht.opened hphase
    obtain ⟨hcurrent', hmonitor'⟩ := h.waits ht hu hcurrent hmonitor
    exact ⟨hcurrent', hmonitor', Nat.lt_of_lt_of_le hlt h.count_le, hown,
      h.sound ht (.inr ⟨u, hphase⟩) hsound⟩
  | reporting =>
    rw [hphase] at hplaced
    exact h.reported_ne hplaced
  | _ => trivial

/-- A thread that was on its way goes on, or has found or left something. -/
theorem Turn.tending (h : Turn timers c t phase c') (hcount : c.count ≠ 0)
    (hcurrent : c'.current = none) (hp : (c.phase t).tending = true) :
    c'.isClosed = true ∨ phase.tending = true := by
  cases h with
  | listen _ _ hfrom => cases (Phase.of_listening hfrom).2.2.1.symm.trans hp
  | drop _ _ _ hfrom => cases (Phase.of_listening hfrom).2.2.1.symm.trans hp
  | complete _ _ hfrom => cases (Phase.of_listening hfrom).2.2.1.symm.trans hp
  | stale _ _ _ _ hphase => cases hphase ▸ hp
  | takeUp _ _ _ hphase => cases hphase ▸ hp
  | closeSubscription => exact .inl rfl
  | fail => exact .inl rfl
  | failAgain _ _ _ hclosed => exact .inl hclosed
  | retry _ _ _ _ _ hto =>
    rcases hto with rfl | rfl
    · exact .inr rfl
    · exact .inr rfl
  | connect => exact .inr rfl
  | refuse => exact .inr rfl
  | abort _ h0 => exact absurd h0 hcount
  | found _ _ _ _ hsome => cases hsome.symm.trans hcurrent
  | setCurrent => cases hcurrent
  | detach _ _ hphase => cases hphase ▸ hp
  | report _ _ _ hphase => cases hphase ▸ hp
  | close _ _ hphase => cases hphase ▸ hp
  | reported _ _ hphase => cases hphase ▸ hp

/-- Where nothing is current any more, or yet, the thread that moved is on its way. -/
theorem Turn.unheld (h : Turn timers c t phase c') (ht : c.Tended)
    (hbefore : c.count = 0 ∨ c.current ≠ none) (hcount : c'.count ≠ 0) (hcurrent : c'.current = none) :
    c'.isClosed = true ∨ phase.tending = true := by
  have hsame : c'.count = c.count → c'.current = c.current → False := by
    intro h1 h2
    rcases hbefore with h0 | hne
    · exact hcount (h1.trans h0)
    · exact hne (h2.symm.trans hcurrent)
  cases h with
  | detach t reason hphase =>
    have hplaced := ht.placed t
    rw [hphase] at hplaced
    cases reason with
    | retry => exact .inr rfl
    | report => exact .inl hplaced
    | closed => exact .inl hplaced.1
  | connect => exact .inr rfl
  | setCurrent => cases hcurrent
  | _ => exact (hsame rfl rfl).elim

theorem Turn.reported_closed (h : Turn timers c t phase c') (ht : c.Tended) (hr : c'.reported ≠ []) :
    c'.isClosed = true := by
  have hturn := h
  cases h with
  | report t current e hphase =>
    have hplaced := ht.placed t
    rw [hphase] at hplaced
    exact hplaced.1
  | failAgain _ _ _ hclosed => exact hclosed
  | _ => exact hturn.isClosed (ht.reported hr)

theorem Turn.user_moves (h : Turn timers c .user phase c') : phase ≠ .idle := by
  cases h with
  | retry _ _ _ _ _ hto => rcases hto with rfl | rfl <;> simp
  | _ => simp

/-- Whoever closes it reports it, or is its user. -/
theorem Turn.closed_known (h : Turn timers c t phase c') (ht : c.Tended)
    (hc : c'.isClosed = true) : c'.GivenUp ∨ c'.phase .user ≠ .idle := by
  have hmoved : c'.phase t = phase := by simpa using h.phase_cases t
  by_cases hbefore : c.isClosed = true
  · rcases ht.closed hbefore with hg | huser
    · exact .inl (h.givenUp hg)
    · right
      rcases h.phase_cases .user with ⟨rfl, hto⟩ | ⟨_, hto⟩
      · rw [hto]
        exact h.user_moves
      · rwa [hto]
  · cases h with
    | fail t e => exact .inl (.inr ⟨t, by rw [hmoved]; rfl⟩)
    | closeSubscription =>
      right
      rw [hmoved]
      simp
    | _ => exact absurd hc hbefore

/-- Who gets through with an error leaves a current subscription behind, or a report. -/
theorem Turn.through (h : Turn timers c t phase c') (ht : c.Tended) (hmain : t ≠ .main)
    (huser : t ≠ .user) (hp : (c.phase t).handling = true) (hover : phase.handling = false) :
    c'.current ≠ none ∨ c'.reported ≠ [] := by
  have hplaced := ht.placed t
  cases h with
  | listen _ _ hfrom => cases (Phase.of_listening hfrom).1.symm.trans hp
  | complete _ _ hfrom => cases (Phase.of_listening hfrom).1.symm.trans hp
  | drop _ _ _ hfrom => cases (Phase.of_listening hfrom).1.symm.trans hp
  | stale _ _ _ _ hphase => cases hphase ▸ hp
  | retry _ _ _ _ _ hto =>
    rcases hto with rfl | rfl
    · cases hover
    · cases hover
  | close t current hphase =>
    rw [hphase] at hplaced
    exact absurd hplaced.1.2 huser
  | found _ k _ _ hcurrent => exact .inl (by simp [shutAll, setPhase, hcurrent])
  | setCurrent => exact .inl (by simp)
  | abort => exact absurd rfl hmain
  | reported t e hphase =>
    rw [hphase] at hplaced
    exact .inr hplaced
  | _ => cases hover

/-- A timer moves from rest where it may, and is that of a connection. -/
theorem Turn.timer_moves {m : Nat} (h : Turn timers c (.timer m) phase c')
    (hm : c.phase (.timer m) = .idle) : timers = true ∧ m < c.count := by
  cases h with
  | stale _ _ htimers hopen => exact ⟨htimers, hopen⟩
  | takeUp _ _ _ hphase => cases hphase.symm.trans hm
  | drop _ _ _ _ hon => exact absurd hm (hon m rfl)
  | detach _ _ hphase => cases hphase.symm.trans hm
  | retry _ _ _ _ hphase => cases hphase.symm.trans hm
  | report _ _ _ hphase => cases hphase.symm.trans hm
  | close _ _ hphase => cases hphase.symm.trans hm
  | found _ _ hphase => cases hphase.symm.trans hm
  | connect _ hphase => cases hphase.symm.trans hm
  | setCurrent _ _ hphase => cases hphase.symm.trans hm
  | refuse _ _ hphase => cases hphase.symm.trans hm
  | failAgain _ _ hphase => cases hphase.symm.trans hm
  | fail _ _ hphase => cases hphase.symm.trans hm
  | reported _ _ hphase => cases hphase.symm.trans hm

theorem Tended.turn (ht : c.Tended) (h : Turn timers c t phase c') : c'.Tended where
  placed := by
    intro u
    rcases h.phase_cases u with ⟨rfl, hto⟩ | ⟨hu, hto⟩
    · exact hto ▸ h.moved ht
    · exact hto ▸ h.kept ht hu
  unopened := by
    intro m hm
    have hm : c.count ≤ m := Nat.le_trans h.count_le hm
    rcases h.phase_cases (.timer m) with ⟨rfl, _⟩ | ⟨_, hto⟩
    · exact absurd (h.timer_moves (ht.unopened m hm)).2 (by omega)
    · rw [hto]
      exact ht.unopened m hm
  current := by
    intro n hn
    have hheld := h.current_back hn
    have hbefore : n < c.count ∧ c.Sound n := by
      rcases hheld with hn | ⟨u, hu⟩
      · exact ht.current n hn
      · exact ⟨(ht.opened hu).2.2.1, (ht.opened hu).2.2.2.2⟩
    exact ⟨Nat.lt_of_lt_of_le hbefore.1 h.count_le, h.sound ht hheld hbefore.2⟩
  tended := by
    intro hcount hcurrent
    have hphase := h.phase_cases t
    have hmoved : c'.phase t = phase := by simpa using hphase
    by_cases hbefore : c.count = 0 ∨ c.current ≠ none
    · rcases h.unheld ht hbefore hcount hcurrent with hclosed | hp
      · exact .inl hclosed
      · exact .inr ⟨t, hmoved ▸ hp⟩
    · simp only [not_or, ne_eq, not_not] at hbefore
      rcases ht.tended hbefore.1 hbefore.2 with hclosed | ⟨u, hu⟩
      · exact .inl (h.isClosed hclosed)
      · rcases h.phase_cases u with ⟨rfl, hto⟩ | ⟨_, hto⟩
        · rcases h.tending hbefore.1 hcurrent hu with hclosed | hp
          · exact .inl hclosed
          · exact .inr ⟨u, hto ▸ hp⟩
        · exact .inr ⟨u, hto ▸ hu⟩
  reported := h.reported_closed ht
  closed := h.closed_known ht

end Turns

end Control

/-! ### Reported once -/

/-- Reporting, or through. -/
def Phase.settled : Phase → Bool
  | .reporting _ => true
  | .over => true
  | _ => false

theorem Phase.settled_listening {phase : Phase} (h : phase.listening = true) :
    phase.settled = false := by
  cases phase with
  | reporting => cases h
  | «over» => cases h
  | _ => rfl

namespace Control
section Once
variable {c c' : Control} {t : Thread} {phase : Phase} {n : Nat}

/-- The thread of the latest connection, or the one that subscribes. -/
def Active (c : Control) (t : Thread) : Prop :=
  (t = .main ∧ c.count = 0) ∨ ∃ m, t = .delivery m ∧ c.count = m + 1

/-- Without timers, whoever reports an error is the last that could. -/
structure Once (c : Control) : Prop where
  timers : ∀ m, c.phase (.timer m) = .idle
  main : c.count ≠ 0 → (c.phase .main).past = true
  length : c.reported.length ≤ 1
  last : c.reported ≠ [] → ∀ t, c.Active t → (c.phase t).settled = true

theorem Active.unique {u : Thread} (ht : c.Active t) (hu : c.Active u) : u = t := by
  rcases ht with ⟨rfl, h0⟩ | ⟨m, rfl, hm⟩
  · rcases hu with ⟨rfl, _⟩ | ⟨k, _, hk⟩
    · rfl
    · omega
  · rcases hu with ⟨_, h0⟩ | ⟨k, rfl, hk⟩
    · omega
    · obtain rfl : k = m := by omega
      rfl

/-- Who does anything but listen is the active thread. -/
theorem Once.active (h : c.Once) (ha : ∀ t, Allowed c.count t (c.phase t))
    (hl : (c.phase t).leaving = false) (hp : (c.phase t).past = false) : c.Active t := by
  have hallowed := ha t
  cases t with
  | main =>
    by_cases hcount : c.count = 0
    · exact .inl ⟨rfl, hcount⟩
    · cases hp.symm.trans (h.main hcount)
  | user => cases hl.symm.trans hallowed
  | timer m =>
    rw [h.timers m] at hl
    cases hl
  | delivery m =>
    right
    refine ⟨m, rfl, ?_⟩
    have h1 : ¬ m + 1 < c.count := fun hlt => by cases hp.symm.trans (hallowed.1 hlt)
    have h2 : ¬ c.count ≤ m := fun hle => by
      rw [hallowed.2 hle] at hl
      cases hl
    omega

variable {timers : Bool}

theorem Turn.count_eq (h : Turn timers c t phase c') : c'.count = c.count ∨
    (c'.count = c.count + 1 ∧ c.phase t = .reConnect ∧ phase = .opened c.count) := by
  cases h with
  | connect _ hphase => exact .inr ⟨rfl, hphase, rfl⟩
  | _ => exact .inl rfl

theorem Turn.reported_eq (h : Turn timers c t phase c') : c'.reported = c.reported ∨
    ∃ e, c'.reported = c.reported ++ [e] ∧ phase = .reporting e ∧ c'.count = c.count ∧
      (c.phase t).leaving = false ∧ (c.phase t).past = false ∧ (c.phase t).settled = false := by
  cases h with
  | report t _ e hphase =>
    right
    rw [hphase]
    exact ⟨e, rfl, rfl, rfl, rfl, rfl, rfl⟩
  | failAgain t e hphase =>
    right
    rw [hphase]
    exact ⟨e, rfl, rfl, rfl, rfl, rfl, rfl⟩
  | _ => exact .inl rfl

theorem Turn.past_stays (h : Turn timers c t phase c') (hp : (c.phase t).past = true)
    (ht : t ≠ .user) : phase.past = true := by
  cases h with
  | listen _ _ hfrom => cases (Phase.of_listening hfrom).2.2.2.symm.trans hp
  | complete _ _ hfrom => cases (Phase.of_listening hfrom).2.2.2.symm.trans hp
  | stale _ _ _ _ hphase => cases hphase ▸ hp
  | takeUp _ _ _ hphase => cases hphase ▸ hp
  | closeSubscription => exact absurd rfl ht
  | detach _ _ hphase => cases hphase ▸ hp
  | retry _ _ _ _ hphase => cases hphase ▸ hp
  | report _ _ _ hphase => cases hphase ▸ hp
  | connect _ hphase => cases hphase ▸ hp
  | refuse _ _ hphase => cases hphase ▸ hp
  | failAgain _ _ hphase => cases hphase ▸ hp
  | fail _ _ hphase => cases hphase ▸ hp
  | _ => rfl

theorem Turn.settled_stays (h : Turn timers c t phase c') (hp : (c.phase t).settled = true)
    (ht : t ≠ .user) : phase.settled = true := by
  cases h with
  | listen _ _ hfrom => cases (Phase.settled_listening hfrom).symm.trans hp
  | stale _ _ _ _ hphase => cases hphase ▸ hp
  | takeUp _ _ _ hphase => cases hphase ▸ hp
  | complete _ _ hfrom => cases (Phase.settled_listening hfrom).symm.trans hp
  | closeSubscription => exact absurd rfl ht
  | detach _ _ hphase => cases hphase ▸ hp
  | retry _ _ _ _ hphase => cases hphase ▸ hp
  | report _ _ _ hphase => cases hphase ▸ hp
  | connect _ hphase => cases hphase ▸ hp
  | refuse _ _ hphase => cases hphase ▸ hp
  | failAgain _ _ hphase => cases hphase ▸ hp
  | fail _ _ hphase => cases hphase ▸ hp
  | _ => rfl

/-- Nothing was reported where the active thread is not through. -/
theorem Once.none_reported (h : c.Once) (hactive : c.Active t)
    (hs : (c.phase t).settled = false) : c.reported = [] := by
  by_contra hr
  cases hs.symm.trans (h.last hr t hactive)

theorem Once.main_past (h : c.Once) (ha : ∀ t, Allowed c.count t (c.phase t))
    (hturn : Turn timers c t phase c') (hcount : c'.count ≠ 0) : (c'.phase .main).past = true := by
  rcases hturn.phase_cases .main with ⟨rfl, hto⟩ | ⟨hne, hto⟩
  · rw [hto]
    rcases hturn.count_eq with heq | ⟨_, _, rfl⟩
    · exact hturn.past_stays (h.main (heq ▸ hcount)) (by simp)
    · rfl
  · rw [hto]
    rcases hturn.count_eq with heq | ⟨_, hphase, _⟩
    · exact h.main (heq ▸ hcount)
    · rcases h.active ha (t := t) (by rw [hphase]; rfl) (by rw [hphase]; rfl) with ⟨rfl, _⟩ | ⟨m, _, hm⟩
      · exact absurd rfl hne
      · exact h.main (by omega)

/-- A step reports nothing, or the active thread reports what comes first. -/
theorem Once.reports (h : c.Once) (ha : ∀ t, Allowed c.count t (c.phase t))
    (hturn : Turn timers c t phase c') : c'.reported = c.reported ∨
      (c.Active t ∧ c'.count = c.count ∧ c'.reported.length = 1 ∧ phase.settled = true) := by
  rcases hturn.reported_eq with heq | ⟨e, heq, rfl, hcount, hl, hp, hs⟩
  · exact .inl heq
  · have hactive := h.active ha hl hp
    have hnone := h.none_reported hactive hs
    exact .inr ⟨hactive, hcount, by rw [heq, hnone]; rfl, rfl⟩

theorem Once.turn (h : c.Once) (ha : ∀ t, Allowed c.count t (c.phase t))
    (hturn : Turn false c t phase c') : c'.Once where
  timers := by
    intro m
    rcases hturn.phase_cases (.timer m) with ⟨rfl, _⟩ | ⟨_, hto⟩
    · cases (hturn.timer_moves (h.timers m)).1
    · rw [hto]
      exact h.timers m
  main := h.main_past ha hturn
  length := by
    rcases h.reports ha hturn with heq | ⟨_, _, hone, _⟩
    · rw [heq]
      exact h.length
    · exact Nat.le_of_eq hone
  last := by
    intro hr u hu
    have hmoved : c'.phase t = phase := by simpa using hturn.phase_cases t
    rcases h.reports ha hturn with heq | ⟨hactive, hcount, _, hsettled⟩
    · rw [heq] at hr
      have hu : c.Active u := by
        rcases hturn.count_eq with hcount | ⟨_, hphase, _⟩
        · simpa only [Active, hcount] using hu
        · have hactive := h.active ha (t := t) (by rw [hphase]; rfl) (by rw [hphase]; rfl)
          exact absurd (h.none_reported hactive (by rw [hphase]; rfl)) hr
      have hbefore := h.last hr u hu
      rcases hturn.phase_cases u with ⟨rfl, _⟩ | ⟨_, hto⟩
      · rw [hmoved]
        refine hturn.settled_stays hbefore ?_
        rcases hu with ⟨rfl, _⟩ | ⟨m, rfl, _⟩ <;> simp
      · rwa [hto]
    · have hu : c.Active u := by simpa only [Active, hcount] using hu
      rw [hactive.unique hu, hmoved]
      exact hsettled

end Once
end Control

end FactCast.ResilientGrpcSubscription
