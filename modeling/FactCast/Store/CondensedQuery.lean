import FactCast.Machine.Fair

/-! Triggers, condensed.

A follow run is triggered from the event bus, on any number of its threads. With no
delay set, the call runs the target itself. Otherwise a flag says that a run is to
come: the call that turns it schedules a task, the others leave it at that. The task
puts the flag back before it runs the target, and not after: a fact whose trigger
comes too late for the query finds the flag down (`trigger_runs`).

One runs the target at a time. -/
namespace FactCast
namespace CondensedQuery

/-- A call of `trigger`. -/
inductive Call where
  | begun
  /-- It was told that the stream is connected. -/
  | connected
  /-- It has turned the flag. -/
  | scheduling
  | entering
  | running
  | over
deriving DecidableEq

/-- The timer's thread. -/
inductive Timer where
  | idle
  /-- It has taken up the task. -/
  | started
  | entering
  | running
deriving DecidableEq

inductive Runner where
  | call (i : Nat)
  | task
deriving DecidableEq

/-- How far a cancellation has got. -/
inductive Cancel where
  | no
  | flagged
  | stopped
  | done
deriving DecidableEq

structure State where
  connected : Bool := true
  currentlyScheduled : Bool := false
  calls : List Call := []
  /-- Scheduled and not yet started. -/
  tasks : Nat := 0
  timer : Timer := .idle
  /-- Who is in `runTarget`, which lets in one at a time. -/
  inside : Option Runner := none
  cancel : Cancel := .no

inductive Action where
  | trigger
  | isConnected (i : Nat)
  | getAndSet (i : Nat)
  | schedule (i : Nat)
  | fire
  | reset
  /-- The run of the target starts. -/
  | enter (r : Runner)
  /-- It ends, by an exception or without. -/
  | leave
  | disconnect
  | cancel
deriving DecidableEq

section Steps
variable (maxDelayInMillis : Int) (s : State)

def trigger : State := { s with calls := s.calls ++ [.begun] }

def isConnected (i : Nat) : Option State :=
  if s.calls[i]? = some .begun then
    some { s with calls := s.calls.set i (if s.connected then .connected else .over) }
  else none

/-- With no delay the call is to run the target. -/
def getAndSet (i : Nat) : Option State :=
  if s.calls[i]? = some .connected then
    if maxDelayInMillis < 1 then some { s with calls := s.calls.set i .entering }
    else if s.currentlyScheduled then some { s with calls := s.calls.set i .over }
    else some { s with currentlyScheduled := true, calls := s.calls.set i .scheduling }
  else none

/-- A timer that was cancelled takes no task. -/
def schedule (i : Nat) : Option State :=
  if s.calls[i]? = some .scheduling then
    if s.cancel = .stopped ∨ s.cancel = .done then some { s with calls := s.calls.set i .over }
    else some { s with tasks := s.tasks + 1, calls := s.calls.set i .over }
  else none

def fire : Option State :=
  if s.timer = .idle ∧ 0 < s.tasks then some { s with tasks := s.tasks - 1, timer := .started }
  else none

def reset : Option State :=
  if s.timer = .started then some { s with currentlyScheduled := false, timer := .entering }
  else none

/-- Whoever waits may enter when nobody is inside. -/
def Waits (s : State) : Runner → Prop
  | .call i => s.calls[i]? = some .entering
  | .task => s.timer = .entering

instance (r : Runner) : Decidable (Waits s r) := by
  cases r <;> exact inferInstanceAs (Decidable (_ = _))

/-- What becomes of a runner. -/
def move (r : Runner) (call : Call) (timer : Timer) (inside : Option Runner) : State :=
  match r with
  | .call i => { s with calls := s.calls.set i call, inside := inside }
  | .task => { s with timer := timer, inside := inside }

def enter (r : Runner) : Option State :=
  if s.inside = none ∧ Waits s r then some (move s r .running .running (some r)) else none

def leave : Option State := s.inside.map fun r => move s r .over .idle none

/-- The flag, the timer with its tasks, and the flag again. -/
def cancel : Option State :=
  match s.cancel with
  | .no => some { s with currentlyScheduled := true, cancel := .flagged }
  | .flagged => some { s with tasks := 0, cancel := .stopped }
  | .stopped => some { s with currentlyScheduled := true, cancel := .done }
  | .done => none

end Steps

def step (maxDelayInMillis : Int) (s : State) : Action → Option State
  | .trigger => some (trigger s)
  | .isConnected i => isConnected s i
  | .getAndSet i => getAndSet maxDelayInMillis s i
  | .schedule i => schedule s i
  | .fire => fire s
  | .reset => reset s
  | .enter r => enter s r
  | .leave => leave s
  | .disconnect => some { s with connected := false }
  | .cancel => cancel s

def machine (maxDelayInMillis : Int) : Machine State Action where
  Start s := s = {}
  step := step maxDelayInMillis

/-- The stream is neither closed nor cancelled. -/
def Follows (_ : State) (a : Action) : Prop := a ≠ .disconnect ∧ a ≠ .cancel

/-- What the threads do once they are to: the timer fires what was scheduled, calls and
runs take their steps and end. -/
def Due : Action → Prop
  | .trigger => False
  | .disconnect => False
  | .cancel => False
  | _ => True

variable {d : Int} {s s' : State} {a : Action}

/-! ### One call at a time -/

/-- What a call, or who waits for it, does next. -/
def Call.next (i : Nat) : Call → Option Action
  | .begun => some (.isConnected i)
  | .connected => some (.getAndSet i)
  | .scheduling => some (.schedule i)
  | .entering => some (.enter (.call i))
  | .running => some .leave
  | .over => none

theorem getElem?_set_other {calls : List Call} {i j : Nat} {b c : Call} (hj : calls[j]? = some b)
    (hi : calls[i]? = some c) (hne : i = j → c ≠ b) (x : Call) : (calls.set j x)[i]? = some c := by
  have hij : j ≠ i := by
    rintro rfl
    rw [hi] at hj
    exact hne rfl (Option.some.inj hj)
  rwa [List.getElem?_set_ne hij]

theorem getElem?_set_same {calls : List Call} {i : Nat} {c : Call} (hi : calls[i]? = some c)
    (x : Call) : (calls.set i x)[i]? = some x :=
  List.getElem?_set_self (List.getElem?_eq_some_iff.mp hi).1

theorem count_set {calls : List Call} {i : Nat} {c : Call} (hi : calls[i]? = some c) (x b : Call) :
    (calls.set i x).count b + (if c = b then 1 else 0) = calls.count b + (if x = b then 1 else 0) := by
  obtain ⟨hlt, rfl⟩ := List.getElem?_eq_some_iff.mp hi
  have hpos : calls[i] = b → 0 < calls.count b := by
    rintro rfl
    exact List.count_pos_iff.mpr (List.getElem_mem hlt)
  rw [List.count_set hlt]
  simp only [beq_iff_eq]
  by_cases hb : calls[i] = b
  · have := hpos hb
    simp only [hb, if_true]
    omega
  · simp only [hb, if_false]
    omega

/-! ### The flag and what it stands for -/

/-- A task that was taken up stands for the flag until it puts it back. -/
def Timer.toReset : Timer → Nat
  | .started => 1
  | _ => 0

/-- The tasks to come. -/
def toCome (s : State) : Nat := s.calls.count .scheduling + s.tasks + s.timer.toReset

structure Following (s : State) : Prop where
  connected : s.connected = true
  cancel : s.cancel = .no
  /-- The flag stands for one task, wherever that is. -/
  flag : toCome s = s.currentlyScheduled.toNat
  task : s.timer = .running ↔ s.inside = some .task
  call : ∀ i, s.inside = some (.call i) → s.calls[i]? = some .running

theorem following_start : Following {} where
  connected := rfl
  cancel := rfl
  flag := rfl
  task := by simp
  call := by simp

/-- A call moves on by its own steps only. -/
theorem call_stays {i : Nat} {c : Call} (h : Following s) (hs : step d s a = some s')
    (hi : s.calls[i]? = some c) (ha : c.next i ≠ some a) : s'.calls[i]? = some c := by
  cases a with
  | trigger =>
    cases hs
    exact List.getElem?_append_left (List.getElem?_eq_some_iff.mp hi).1 ▸ hi
  | isConnected j =>
    simp only [step, isConnected, Option.ite_none_right_eq_some, Option.some.injEq] at hs
    obtain ⟨hj, rfl⟩ := hs
    refine getElem?_set_other hj hi ?_ _
    rintro rfl rfl
    exact ha rfl
  | getAndSet j =>
    simp only [step, getAndSet, Option.ite_none_right_eq_some] at hs
    obtain ⟨hj, hs⟩ := hs
    have hother : ∀ x, (s.calls.set j x)[i]? = some c := by
      refine getElem?_set_other hj hi ?_
      rintro rfl rfl
      exact ha rfl
    split at hs
    · cases hs
      exact hother _
    · split at hs <;> cases hs <;> exact hother _
  | schedule j =>
    simp only [step, schedule, Option.ite_none_right_eq_some] at hs
    obtain ⟨hj, hs⟩ := hs
    have hother : ∀ x, (s.calls.set j x)[i]? = some c := by
      refine getElem?_set_other hj hi ?_
      rintro rfl rfl
      exact ha rfl
    split at hs <;> cases hs <;> exact hother _
  | fire =>
    simp only [step, fire, Option.ite_none_right_eq_some, Option.some.injEq] at hs
    obtain ⟨_, rfl⟩ := hs
    exact hi
  | reset =>
    simp only [step, reset, Option.ite_none_right_eq_some, Option.some.injEq] at hs
    obtain ⟨_, rfl⟩ := hs
    exact hi
  | enter r =>
    simp only [step, enter, Option.ite_none_right_eq_some, Option.some.injEq] at hs
    obtain ⟨⟨_, hr⟩, rfl⟩ := hs
    cases r with
    | call j =>
      refine getElem?_set_other hr hi ?_ _
      rintro rfl rfl
      exact ha rfl
    | task => exact hi
  | leave =>
    simp only [step, leave, Option.map_eq_some_iff] at hs
    obtain ⟨r, hr, rfl⟩ := hs
    cases r with
    | call j =>
      refine getElem?_set_other (h.call j hr) hi ?_ _
      rintro rfl rfl
      exact ha rfl
    | task => exact hi
  | disconnect =>
    cases hs
    exact hi
  | cancel =>
    simp only [step, cancel, h.cancel, Option.some.injEq] at hs
    subst hs
    exact hi

/-- Who is inside stays there, while the others move. -/
theorem inside_stays (h : Following s) (hs : step d s a = some s') (ha : a ≠ .leave) (i : Nat)
    (hi : s.inside = some (.call i)) : s'.calls[i]? = some .running :=
  call_stays h hs (h.call i hi) (by simpa [Call.next] using ha.symm)

theorem following_trigger (h : Following s) : Following (trigger s) where
  connected := h.connected
  cancel := h.cancel
  flag := by simpa [toCome, trigger] using h.flag
  task := h.task
  call i hi := List.getElem?_append_left (List.getElem?_eq_some_iff.mp (h.call i hi)).1 ▸ h.call i hi

theorem following_isConnected {i : Nat} (h : Following s) (hs : isConnected s i = some s') :
    Following s' := by
  have hcall := inside_stays (d := 0) (a := .isConnected i) h hs (by simp)
  simp only [isConnected, h.connected, if_true, Option.ite_none_right_eq_some,
    Option.some.injEq] at hs
  obtain ⟨hi, rfl⟩ := hs
  have hcount := count_set hi .connected .scheduling
  have hflag := h.flag
  exact {
    connected := rfl
    cancel := h.cancel
    flag := by
      simp only [toCome] at hflag ⊢
      simp only [reduceCtorEq, if_false] at hcount
      omega
    task := h.task
    call := hcall }

/-- The call that finds the flag down turns it, and is to schedule a task. -/
theorem following_getAndSet {i : Nat} (h : Following s) (hs : getAndSet d s i = some s') :
    Following s' := by
  have hcall := inside_stays (d := d) (a := .getAndSet i) h hs (by simp)
  have hflag := h.flag
  simp only [getAndSet, Option.ite_none_right_eq_some] at hs
  obtain ⟨hi, hs⟩ := hs
  have hcount := fun x => count_set hi x .scheduling
  simp only [toCome] at hflag
  split at hs
  · cases hs
    have := hcount .entering
    refine ⟨h.connected, h.cancel, ?_, h.task, hcall⟩
    simp only [reduceCtorEq, if_false] at this
    simp only [toCome]
    omega
  · split at hs
    · cases hs
      have := hcount .over
      refine ⟨h.connected, h.cancel, ?_, h.task, hcall⟩
      simp only [reduceCtorEq, if_false] at this
      simp only [toCome]
      omega
    · rename_i hdown
      cases hs
      have := hcount .scheduling
      refine ⟨h.connected, h.cancel, ?_, h.task, hcall⟩
      simp only [reduceCtorEq, if_false, if_true] at this
      simp only [hdown, Bool.toNat_false, toCome, Bool.toNat_true] at hflag ⊢
      omega

theorem following_schedule {i : Nat} (h : Following s) (hs : schedule s i = some s') :
    Following s' := by
  have hcall := inside_stays (d := 0) (a := .schedule i) h hs (by simp)
  have hflag := h.flag
  simp only [schedule, h.cancel, Option.ite_none_right_eq_some, reduceCtorEq, or_self, if_false,
    Option.some.injEq] at hs
  obtain ⟨hi, rfl⟩ := hs
  have hcount := count_set hi .over .scheduling
  refine ⟨h.connected, rfl, ?_, h.task, hcall⟩
  simp only [reduceCtorEq, if_false, if_true] at hcount
  simp only [toCome] at hflag ⊢
  omega

theorem following_fire (h : Following s) (hs : fire s = some s') : Following s' := by
  have hflag := h.flag
  simp only [fire, Option.ite_none_right_eq_some, Option.some.injEq] at hs
  obtain ⟨⟨hidle, htasks⟩, rfl⟩ := hs
  refine ⟨h.connected, h.cancel, ?_, ?_, h.call⟩
  · simp only [toCome, hidle, Timer.toReset] at hflag ⊢
    omega
  · simpa [hidle] using h.task

theorem following_reset (h : Following s) (hs : reset s = some s') : Following s' := by
  have hflag := h.flag
  simp only [reset, Option.ite_none_right_eq_some, Option.some.injEq] at hs
  obtain ⟨hstarted, rfl⟩ := hs
  refine ⟨h.connected, h.cancel, ?_, ?_, h.call⟩
  · have := s.currentlyScheduled.toNat_le
    simp only [toCome, hstarted, Timer.toReset, Bool.toNat_false] at hflag ⊢
    omega
  · simpa [hstarted] using h.task

theorem following_enter {r : Runner} (h : Following s) (hs : enter s r = some s') :
    Following s' := by
  have hflag := h.flag
  simp only [enter, Option.ite_none_right_eq_some, Option.some.injEq] at hs
  obtain ⟨⟨hfree, hr⟩, rfl⟩ := hs
  have htask : s.timer ≠ .running := fun ht => by simpa [hfree] using h.task.mp ht
  cases r with
  | call i =>
    have hcount := count_set hr .running .scheduling
    refine ⟨h.connected, h.cancel, ?_, ?_, ?_⟩
    · simp only [reduceCtorEq, if_false] at hcount
      simp only [toCome, move] at hflag ⊢
      omega
    · simpa [move] using htask
    · rintro j ⟨⟩
      exact getElem?_set_same hr _
  | task =>
    have hr : s.timer = .entering := hr
    refine ⟨h.connected, h.cancel, ?_, by simp [move], by simp [move]⟩
    simpa only [toCome, move, hr, Timer.toReset] using hflag

theorem following_leave (h : Following s) (hs : leave s = some s') : Following s' := by
  have hflag := h.flag
  simp only [leave, Option.map_eq_some_iff] at hs
  obtain ⟨r, hr, rfl⟩ := hs
  cases r with
  | call i =>
    have hcount := count_set (h.call i hr) .over .scheduling
    refine ⟨h.connected, h.cancel, ?_, ?_, by simp [move]⟩
    · simp only [reduceCtorEq, if_false] at hcount
      simp only [toCome, move] at hflag ⊢
      omega
    · simpa [move, hr] using h.task
  | task =>
    have ht := h.task.mpr hr
    refine ⟨h.connected, h.cancel, ?_, by simp [move], by simp [move]⟩
    simpa only [toCome, move, ht, Timer.toReset] using hflag

theorem following_step (h : Following s) (hf : Follows s a) (hs : step d s a = some s') :
    Following s' := by
  cases a with
  | trigger =>
    cases hs
    exact following_trigger h
  | isConnected i => exact following_isConnected h hs
  | getAndSet i => exact following_getAndSet h hs
  | schedule i => exact following_schedule h hs
  | fire => exact following_fire h hs
  | reset => exact following_reset h hs
  | enter r => exact following_enter h hs
  | leave => exact following_leave h hs
  | disconnect => exact absurd rfl hf.1
  | cancel => exact absurd rfl hf.2

theorem following_reachable (h : (machine d).ReachableUnder Follows s) : Following s :=
  h.invariant (fun _ hs => hs ▸ following_start) fun _ _ _ hi hf hs => following_step hi hf hs

theorem tasks_le (h : Following s) : s.tasks ≤ 1 := by
  have := h.flag
  have := s.currentlyScheduled.toNat_le
  simp only [toCome] at *
  omega

/-! ### What the others leave as it is -/

/-- What the timer's thread does next. -/
def Timer.next : Timer → Action
  | .idle => .fire
  | .started => .reset
  | .entering => .enter .task
  | .running => .leave

/-- The start of a run. -/
def Starts (a : Action) : Prop := ∃ r, a = .enter r

structure Stays (s s' : State) (a : Action) : Prop where
  timer : a ≠ s.timer.next → s'.timer = s.timer
  tasks : a ≠ .fire → s.tasks ≤ s'.tasks
  inside : ¬ Starts a → a ≠ .leave → s'.inside = s.inside

theorem stays (h : Following s) (hf : Follows s a) (hs : step d s a = some s') : Stays s s' a := by
  cases a with
  | trigger =>
    cases hs
    exact ⟨fun _ => rfl, fun _ => Nat.le_refl _, fun _ _ => rfl⟩
  | isConnected i =>
    simp only [step, isConnected, Option.ite_none_right_eq_some, Option.some.injEq] at hs
    obtain ⟨_, rfl⟩ := hs
    exact ⟨fun _ => rfl, fun _ => Nat.le_refl _, fun _ _ => rfl⟩
  | getAndSet i =>
    simp only [step, getAndSet, Option.ite_none_right_eq_some] at hs
    obtain ⟨_, hs⟩ := hs
    split at hs
    · cases hs
      exact ⟨fun _ => rfl, fun _ => Nat.le_refl _, fun _ _ => rfl⟩
    · split at hs <;> cases hs <;> exact ⟨fun _ => rfl, fun _ => Nat.le_refl _, fun _ _ => rfl⟩
  | schedule i =>
    simp only [step, schedule, h.cancel, Option.ite_none_right_eq_some, reduceCtorEq, or_self,
      if_false, Option.some.injEq] at hs
    obtain ⟨_, rfl⟩ := hs
    exact ⟨fun _ => rfl, fun _ => Nat.le_succ _, fun _ _ => rfl⟩
  | fire =>
    simp only [step, fire, Option.ite_none_right_eq_some, Option.some.injEq] at hs
    obtain ⟨⟨hidle, _⟩, rfl⟩ := hs
    exact ⟨fun ha => absurd (by rw [hidle]; rfl) ha, fun ha => absurd rfl ha, fun _ _ => rfl⟩
  | reset =>
    simp only [step, reset, Option.ite_none_right_eq_some, Option.some.injEq] at hs
    obtain ⟨hstarted, rfl⟩ := hs
    exact ⟨fun ha => absurd (by rw [hstarted]; rfl) ha, fun _ => Nat.le_refl _, fun _ _ => rfl⟩
  | enter r =>
    simp only [step, enter, Option.ite_none_right_eq_some, Option.some.injEq] at hs
    obtain ⟨⟨_, hr⟩, rfl⟩ := hs
    refine ⟨fun ha => ?_, fun _ => ?_, fun hstarts => absurd ⟨r, rfl⟩ hstarts⟩
    · cases r with
      | call i => rfl
      | task => exact absurd (by rw [show s.timer = .entering from hr]; rfl) ha
    · cases r <;> exact Nat.le_refl _
  | leave =>
    simp only [step, leave, Option.map_eq_some_iff] at hs
    obtain ⟨r, hr, rfl⟩ := hs
    refine ⟨fun ha => ?_, fun _ => ?_, fun _ hleave => absurd rfl hleave⟩
    · cases r with
      | call i => rfl
      | task => exact absurd (by rw [h.task.mpr hr]; rfl) ha
    · cases r <;> exact Nat.le_refl _
  | disconnect => exact absurd rfl hf.1
  | cancel => exact absurd rfl hf.2

/-! ### The way to the next run -/

/-- How far it is to the start of a run. -/
inductive Stage where
  | begun (i : Nat)
  | connected (i : Nat)
  | scheduling (i : Nat)
  /-- A task waits for the timer, which is at the one before. -/
  | behind
  | scheduled
  | started
  /-- Somebody else is inside. -/
  | blocked (r : Runner)
  | free (r : Runner)

namespace Stage

def At : Stage → State → Prop
  | begun i, s => s.calls[i]? = some .begun
  | connected i, s => s.calls[i]? = some .connected
  | scheduling i, s => s.calls[i]? = some .scheduling
  | behind, s => 0 < s.tasks ∧ s.timer = .running
  | scheduled, s => 0 < s.tasks ∧ s.timer = .idle
  | started, s => s.timer = .started
  | blocked r, s => Waits s r ∧ s.inside ≠ none
  | free r, s => Waits s r ∧ s.inside = none

def help : Stage → Action
  | begun i => .isConnected i
  | connected i => .getAndSet i
  | scheduling i => .schedule i
  | behind => .leave
  | scheduled => .fire
  | started => .reset
  | blocked _ => .leave
  | free r => .enter r

@[simp] def rank : Stage → Nat
  | begun _ => 8
  | connected _ => 7
  | scheduling _ => 6
  | behind => 5
  | scheduled => 4
  | started => 3
  | blocked _ => 2
  | free _ => 1

end Stage

/-- Some stage of at most this rank. -/
def Within (n : Nat) (s : State) : Prop := ∃ j : Stage, j.rank < n ∧ j.At s

theorem Within.mono {m n : Nat} (h : Within m s) (hmn : m ≤ n) : Within n s := by
  obtain ⟨j, hj, hat⟩ := h
  exact ⟨j, by omega, hat⟩

theorem within_of_waits {r : Runner} (h : Waits s r) : Within 3 s := by
  by_cases hin : s.inside = none
  · exact ⟨.free r, by simp, h, hin⟩
  · exact ⟨.blocked r, by simp, h, hin⟩

theorem within_of_tasks (h : 0 < s.tasks) : Within 6 s := by
  cases ht : s.timer with
  | idle => exact ⟨.scheduled, by decide, h, ht⟩
  | started => exact ⟨.started, by decide, ht⟩
  | entering => exact (within_of_waits (r := .task) ht).mono (by decide)
  | running => exact ⟨.behind, by decide, h, ht⟩

/-- The flag is not up for nothing. -/
theorem within_of_flag (h : Following s) (hup : s.currentlyScheduled = true) : Within 7 s := by
  have hflag := h.flag
  simp only [toCome, hup, Bool.toNat_true] at hflag
  by_cases htasks : 0 < s.tasks
  · exact (within_of_tasks htasks).mono (by decide)
  · by_cases hcount : 0 < s.calls.count .scheduling
    · obtain ⟨i, hi⟩ := List.mem_iff_getElem?.mp (List.count_pos_iff.mp hcount)
      exact ⟨.scheduling i, by simp, hi⟩
    · have hstarted : s.timer = .started := by
        cases ht : s.timer with
        | started => rfl
        | _ =>
          simp only [ht, Timer.toReset] at hflag
          omega
      exact ⟨.started, by decide, hstarted⟩

theorem waits_stays {r : Runner} (h : Following s) (hf : Follows s a) (hs : step d s a = some s')
    (hstarts : ¬ Starts a) (hr : Waits s r) : Waits s' r := by
  cases r with
  | call i => exact call_stays h hs hr fun ha => hstarts ⟨_, (Option.some.inj ha).symm⟩
  | task =>
    have ht : s.timer = .entering := hr
    have := (stays h hf hs).timer fun ha => hstarts ⟨.task, by rw [ha, ht]; rfl⟩
    exact this.trans ht

namespace Stage

theorem possible (h : Following s) (j : Stage) (hat : j.At s) : (step d s j.help).isSome := by
  cases j with
  | begun i => simp [step, help, isConnected, show s.calls[i]? = _ from hat]
  | connected i =>
    simp only [step, help, getAndSet, show s.calls[i]? = _ from hat, if_true]
    split
    · rfl
    · split <;> rfl
  | scheduling i => simp [step, help, schedule, show s.calls[i]? = _ from hat, h.cancel]
  | behind => simp [step, help, leave, h.task.mp hat.2]
  | scheduled => simp [step, help, fire, hat.1, hat.2]
  | started => simp [step, help, reset, show s.timer = _ from hat]
  | blocked r => simpa [step, help, leave, Option.isSome_iff_ne_none] using hat.2
  | free r => simp [step, help, enter, hat.1, hat.2]

/-- The step that a stage waits for starts a run, or leads to a lower stage. -/
theorem helps (h : Following s) (j : Stage) (hat : j.At s) (hs : step d s j.help = some s') :
    Starts j.help ∨ Within j.rank s' := by
  cases j with
  | begun i =>
    right
    simp only [step, help, isConnected, show s.calls[i]? = _ from hat, h.connected, if_true,
      Option.some.injEq] at hs
    subst hs
    exact ⟨.connected i, by simp, getElem?_set_same hat _⟩
  | connected i =>
    right
    have h' : Following s' := following_getAndSet h hs
    simp only [step, help, getAndSet, show s.calls[i]? = _ from hat, if_true] at hs
    split at hs
    · cases hs
      refine Within.mono (m := 3) ?_ (by simp)
      exact within_of_waits (r := .call i) (getElem?_set_same hat _)
    · split at hs
      · rename_i hup
        cases hs
        exact within_of_flag h' hup
      · cases hs
        exact within_of_flag h' rfl
  | scheduling i =>
    right
    simp only [step, help, schedule, show s.calls[i]? = _ from hat, h.cancel, reduceCtorEq, or_self,
      if_false, if_true, Option.some.injEq] at hs
    subst hs
    exact within_of_tasks (Nat.succ_pos _)
  | behind =>
    right
    simp only [step, help, leave, h.task.mp hat.2, Option.map_some, Option.some.injEq] at hs
    subst hs
    exact ⟨.scheduled, by simp, hat.1, rfl⟩
  | scheduled =>
    right
    simp only [step, help, fire, hat.1, hat.2, and_self, if_true, Option.some.injEq] at hs
    subst hs
    exact ⟨.started, by simp, rfl⟩
  | started =>
    right
    simp only [step, help, reset, show s.timer = _ from hat, if_true, Option.some.injEq] at hs
    subst hs
    exact within_of_waits (r := .task) rfl
  | blocked r =>
    right
    have hr : Waits s' r :=
      waits_stays h ⟨by simp [help], by simp [help]⟩ hs (by rintro ⟨_, ⟨⟩⟩) hat.1
    simp only [step, help, leave, Option.map_eq_some_iff] at hs
    obtain ⟨r', _, rfl⟩ := hs
    refine ⟨.free r, by simp, hr, ?_⟩
    cases r' <;> rfl
  | free r => exact .inl ⟨r, rfl⟩

/-- Until then nothing changes that the stage is about. -/
theorem lasts (h : Following s) (hf : Follows s a) (j : Stage) (hat : j.At s)
    (hs : step d s a = some s') (hne : a ≠ j.help) (hstarts : ¬ Starts a) : j.At s' := by
  have hstays := stays h hf hs
  cases j with
  | begun i => exact call_stays h hs hat fun ha => hne (Option.some.inj ha).symm
  | connected i => exact call_stays h hs hat fun ha => hne (Option.some.inj ha).symm
  | scheduling i => exact call_stays h hs hat fun ha => hne (Option.some.inj ha).symm
  | behind =>
    have htimer := hstays.timer (by rw [hat.2]; exact hne)
    refine ⟨Nat.lt_of_lt_of_le hat.1 (hstays.tasks ?_), htimer.trans hat.2⟩
    rintro rfl
    simp [step, fire, hat.2] at hs
  | scheduled =>
    have htimer := hstays.timer (by rw [hat.2]; exact hne)
    exact ⟨Nat.lt_of_lt_of_le hat.1 (hstays.tasks hne), htimer.trans hat.2⟩
  | started =>
    have ht : s.timer = .started := hat
    exact (hstays.timer (by rw [ht]; exact hne)).trans ht
  | blocked r =>
    refine ⟨waits_stays h hf hs hstarts hat.1, ?_⟩
    rw [hstays.inside hstarts hne]
    exact hat.2
  | free r =>
    refine ⟨waits_stays h hf hs hstarts hat.1, ?_⟩
    rw [hstays.inside hstarts ?_]
    · exact hat.2
    · rintro rfl
      simp [step, leave, hat.2] at hs

end Stage

def stages (d : Int) : (machine d).Stages Follows Due Starts Stage where
  At := Stage.At
  help := Stage.help
  rank := Stage.rank
  due j := by cases j <;> trivial
  possible j _ h hat := Stage.possible (following_reachable h) j hat
  helps j _ _ h hat _ hs := Stage.helps (following_reachable h) j hat hs
  lasts j _ a _ h hat hf hs hne := by
    by_cases hstarts : Starts a
    · exact .inl hstarts
    · exact .inr (.inl (Stage.lasts (following_reachable h) hf j hat hs hne hstarts))

/-- However the calls and the timer interleave, no more than one task is scheduled and
not started, and a run starts after each call of `trigger` began. -/
theorem trigger_runs (maxDelayInMillis : Int) :
    (∀ s, (machine maxDelayInMillis).ReachableUnder Follows s → s.tasks ≤ 1) ∧
      ∀ e : (machine maxDelayInMillis).Execution, e.Under Follows → e.Fair Due →
        ∀ n, e.act n = some .trigger → ∃ m, n < m ∧ ∃ r, e.act m = some (.enter r) := by
  refine ⟨fun s h => tasks_le (following_reachable h), fun e hf hfair n hn => ?_⟩
  have htrigger : trigger (e.state n) = e.state (n + 1) := Option.some.inj (e.moves n _ hn)
  have hbegun : (stages maxDelayInMillis).At (.begun (e.state n).calls.length) (e.state (n + 1)) := by
    rw [← htrigger]
    simp [stages, Stage.At, trigger]
  obtain ⟨m, hm, a, ha, r, rfl⟩ := (stages maxDelayInMillis).eventually hf hfair hbegun
  exact ⟨m, hm, r, ha⟩

/-- Once the calls are over and the timer has nothing to do, all is at rest. -/
theorem step_rest {calls : List Call} (hcalls : ∀ c ∈ calls, c = .over) {a : Action} (ha : Due a) :
    step d { calls := calls } a = none := by
  have hover : ∀ (i : Nat) (c : Call), c ≠ .over → calls[i]? ≠ some c :=
    fun i c hc h => hc (hcalls c (List.mem_of_getElem? h))
  cases a with
  | isConnected i => simpa [step, isConnected] using hover i .begun (by simp)
  | getAndSet i => simp [step, getAndSet, hover i .connected (by simp)]
  | schedule i => simp [step, schedule, hover i .scheduling (by simp)]
  | fire => rfl
  | reset => rfl
  | enter r =>
    cases r with
    | call i => simp [step, enter, Waits, hover i .entering (by simp)]
    | task => rfl
  | leave => rfl
  | _ => cases ha

/-- The second call finds the flag up and leaves it at that. The third comes while the
target runs, and has a run of its own. -/
def delayed : List Action :=
  [.trigger, .isConnected 0, .getAndSet 0, .trigger, .isConnected 1, .getAndSet 1, .schedule 0,
    .fire, .reset, .enter .task, .trigger, .isConnected 2, .getAndSet 2, .schedule 2, .leave,
    .fire, .reset, .enter .task, .leave]

theorem trigger_runs_delayed : ∃ e : (machine 100).Execution,
    (e.act 0 = some .trigger ∧ e.act 3 = some .trigger ∧ e.act 10 = some .trigger) ∧
    e.Under Follows ∧ e.Fair Due ∧ ∀ n ∈ [0, 3, 10], ∃ m, n < m ∧ ∃ r, e.act m = some (.enter r) := by
  have hstart : (machine 100).Start {} := rfl
  have hrun : (machine 100).run {} delayed = some { calls := [.over, .over, .over] } := rfl
  have hf := Machine.Execution.ofRun_under (C := Follows) hstart hrun (by simp [delayed, Follows])
  have hfair := Machine.Execution.ofRun_fair hstart hrun fun a ha => step_rest (by simp) ha
  refine ⟨.ofRun hstart hrun, ⟨rfl, rfl, rfl⟩, hf, hfair, fun n hn => ?_⟩
  have htrigger : ∀ n ∈ [0, 3, 10], (Machine.Execution.ofRun hstart hrun).act n = some .trigger := by
    simp only [List.forall_mem_cons]
    exact ⟨rfl, rfl, rfl, fun _ h => nomatch h⟩
  exact (trigger_runs 100).2 _ hf hfair n (htrigger n hn)

end CondensedQuery
end FactCast
