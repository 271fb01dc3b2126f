import FactCast.Client.Resilience
import FactCast.Store.FactStore
import FactCast.Machine.Run
import Mathlib.Data.List.Nodup

/-! A conditional publish through the client, with its retries.

The client sends the call again when an attempt ends in a retryable failure. It
cannot know what became of the attempt it gives up: the request may be lost, may
have been served, or may be served later. The server serves each request at once
and consumes the token as it does so; meanwhile others publish.

An answer of yes is always right (`publishIfUnchanged_true`). An answer of no is
the answer to the last attempt: if an earlier one was served and published, its
token is gone, the last attempt is rejected, and the client learns that nothing
was published although it was (`given_up_published`). `keeps` excludes attempts
that publish and are given up; under it both answers are right
(`publishIfUnchanged_sound`). -/
namespace FactCast.GrpcFactStore

/-- One call of the client. -/
structure Call where
  facts : List Fact
  token : Option UUID
  /-- Resilience is switched on. -/
  enabled : Bool

inductive Phase where
  /-- About to make an attempt. -/
  | ready
  | waiting
  | returned (success : Bool)
  | thrown (e : Throwable)
deriving DecidableEq

structure State where
  store : PgFactStore.Store
  /-- Every token there ever was. -/
  issued : UUID → Option TokenState
  phase : Phase
  /-- The number of the latest attempt. -/
  attempt : Nat
  /-- The attempts whose request is on its way. -/
  requests : List Nat
  /-- The answers on their way. -/
  responses : List (Nat × PgFactStore.Answer)
  /-- The attempts that published, with their rows. -/
  commits : List (Nat × List FactRow)
  /-- What the log holds of others. -/
  others : List FactRow

inductive Action where
  | send
  | serve (attempt : Nat)
  | deliver (answer : PgFactStore.Answer) (attemptsExhausted : Bool)
  /-- The attempt fails before its answer is there. -/
  | fail (e : Throwable) (attemptsExhausted : Bool)
  | publish (facts : List Fact)
  | publishIfUnchanged (facts : List Fact) (token : Option UUID)
  | createToken (token : UUID) (state : TokenState)
  | invalidate (token : UUID)

section Steps
variable (db : Database) (call : Call) (s : State)

/-- What the server makes of an exception of its store. -/
def exception : PgFactStore.Answer → Option Throwable
  | .returned _ => none
  | .dataAccess => some (.status { code := .unknown })
  | .duplicateFact =>
    some (.status { code := .unknown, exc := some "org.factcast.core.DuplicateFactException" })

/-- The attempt has thrown: there is another one, or the call throws. -/
def handle (e : Throwable) (attemptsExhausted : Bool) : State :=
  let decodedException := ClientExceptionHelper.from_ e
  { s with
    phase := if shouldRetry call.enabled attemptsExhausted decodedException then .ready
      else .thrown decodedException }

def send : Option State :=
  match s.phase with
  | .ready =>
    some { s with
      phase := .waiting, attempt := s.attempt + 1, requests := (s.attempt + 1) :: s.requests }
  | _ => none

/-- The server serves a request, whether or not the client still waits for it. -/
def serve (attempt : Nat) : Option State :=
  if attempt ∈ s.requests then
    let (store, answer) := PgFactStore.publishIfUnchanged db s.store call.facts call.token
    let rows := PgFactStore.rowsFrom db s.store.nextSer call.facts
    some { s with
      store, requests := s.requests.erase attempt, responses := (attempt, answer) :: s.responses
      commits := if answer = .returned true then (attempt, rows) :: s.commits else s.commits }
  else none

/-- The answer to the attempt the client waits for arrives. -/
def deliver (answer : PgFactStore.Answer) (attemptsExhausted : Bool) : Option State :=
  if s.phase = .waiting ∧ (s.attempt, answer) ∈ s.responses then
    match answer with
    | .returned success => some { s with phase := .returned success }
    | _ => (exception answer).map fun e => handle call s e attemptsExhausted
  else none

/-- The handshake fails, or the connection breaks, or the deadline passes. -/
def fail (e : Throwable) (attemptsExhausted : Bool) : Option State :=
  match s.phase with
  | .ready => some (handle call s e attemptsExhausted)
  | .waiting => some (handle call s e attemptsExhausted)
  | _ => none

/-- Another client's call. -/
def other (facts : List Fact) (token : Option UUID) : State :=
  let (store, answer) := PgFactStore.publishIfUnchanged db s.store facts token
  let rows := PgFactStore.rowsFrom db s.store.nextSer facts
  { s with store, others := if answer = .returned true then s.others ++ rows else s.others }

def createToken (token : UUID) (state : TokenState) : Option State :=
  match s.issued token with
  | none => some { s with
      issued := Function.update s.issued token (some state)
      store := { s.store with tokens := Function.update s.store.tokens token (some state) } }
  | some _ => none

end Steps

def step (db : Database) (call : Call) (s : State) : Action → Option State
  | .send => send s
  | .serve attempt => serve db call s attempt
  | .deliver answer attemptsExhausted => deliver call s answer attemptsExhausted
  | .fail e attemptsExhausted => fail call s e attemptsExhausted
  | .publish facts => some (other db s facts none)
  | .publishIfUnchanged facts token => some (other db s facts token)
  | .createToken token state => createToken s token state
  | .invalidate token => some { s with store := s.store.invalidate token }

/-- The call begins, with a token of the store's. -/
structure Start (call : Call) (s : State) : Prop where
  ids : (s.store.log.map fun r => r.fact.id).Nodup
  token : ∀ token, call.token = some token → (s.issued token).isSome = true
  phase : s.phase = .ready
  requests : s.requests = []
  responses : s.responses = []
  commits : s.commits = []
  others : s.others = s.store.log

def calling (db : Database) (call : Call) : Machine State Action where
  Start := Start call
  step := step db call

/-- No attempt that publishes is given up: the client does not try again once its
facts are there, and a request it has given up is not accepted while it tries on. -/
def keeps (db : Database) (call : Call) (s : State) : Action → Bool
  | .fail e attemptsExhausted =>
    call.token.isNone || s.commits.isEmpty ||
      !shouldRetry call.enabled attemptsExhausted (ClientExceptionHelper.from_ e)
  | .serve attempt =>
    match call.token, s.phase with
    | some token, .ready => !PgFactStore.accepts db s.store call.facts token
    | some token, .waiting =>
      attempt == s.attempt || !PgFactStore.accepts db s.store call.facts token
    | _, _ => true
  | _ => true

/-! ### What holds in every run -/

structure Inv (db : Database) (call : Call) (s : State) : Prop where
  ids : (s.store.log.map fun r => r.fact.id).Nodup
  origin : ∀ row ∈ s.store.log, row ∈ s.others ∨ ∃ c ∈ s.commits, row ∈ c.2
  committed : ∀ c ∈ s.commits, (∃ n, c.2 = PgFactStore.rowsFrom db n call.facts) ∧
    ∀ row ∈ c.2, row ∈ s.store.log
  answered : ∀ attempt, (attempt, .returned true) ∈ s.responses → ∃ c ∈ s.commits, c.1 = attempt
  returned : s.phase = .returned true → s.commits ≠ []
  issued : ∀ t, call.token = some t → (s.issued t).isSome = true
  spent : s.commits ≠ [] → ∀ t, call.token = some t → s.store.tokens t = none
  rejected : ∀ attempt, (attempt, .returned false) ∈ s.responses →
    ∃ t, call.token = some t ∧ s.store.tokens t = none

section Steps
variable {db : Database} {call : Call} {s s' : State}

theorem inv_handle {e : Throwable} {attemptsExhausted : Bool} (h : Inv db call s) :
    Inv db call (handle call s e attemptsExhausted) := by
  refine { h with returned := fun hr => ?_ }
  simp only [handle] at hr
  split at hr
  · cases hr
  · cases hr

theorem inv_deliver {answer : PgFactStore.Answer} {attemptsExhausted : Bool} (h : Inv db call s)
    (hs : deliver call s answer attemptsExhausted = some s') : Inv db call s' := by
  unfold deliver at hs
  split at hs
  · rename_i hwaiting
    split at hs
    · cases hs
      refine { h with returned := fun hr => ?_ }
      cases hr
      obtain ⟨c, hc, _⟩ := h.answered s.attempt hwaiting.2
      exact List.ne_nil_of_mem hc
    · obtain ⟨e, _, rfl⟩ := Option.map_eq_some_iff.mp hs
      exact inv_handle h
  · cases hs

/-- Tokens go and the log stays. -/
theorem Inv.store {store : PgFactStore.Store} (h : Inv db call s) (hlog : store.log = s.store.log)
    (hgone : ∀ t, s.store.tokens t = none → store.tokens t = none) :
    Inv db call { s with store } := by
  refine
    { h with
      ids := ?_, origin := ?_, committed := ?_, spent := ?_, rejected := fun k hk => ?_ }
  · show (store.log.map _).Nodup
    rw [hlog]
    exact h.ids
  · show ∀ row ∈ store.log, _
    rw [hlog]
    exact h.origin
  · intro c hc
    show (∃ n, _) ∧ ∀ row ∈ c.2, row ∈ store.log
    rw [hlog]
    exact h.committed c hc
  · exact fun hc t ht => hgone t (h.spent hc t ht)
  · obtain ⟨t, ht, hnone⟩ := h.rejected k hk
    exact ⟨t, ht, hgone t hnone⟩

theorem inv_serve {attempt : Nat} (h : Inv db call s) (hs : serve db call s attempt = some s') :
    Inv db call s' := by
  unfold serve at hs
  split at hs
  · rcases hcall : PgFactStore.publishIfUnchanged db s.store call.facts call.token with ⟨store, answer⟩
    obtain ⟨hlog, hgone, hconsumed⟩ := PgFactStore.publishIfUnchanged_effect hcall
    rw [hcall] at hs
    have hrejected : ∀ k, (k, .returned false) ∈ (attempt, answer) :: s.responses →
        ∃ t, call.token = some t ∧ store.tokens t = none := by
      intro k hk
      rcases List.mem_cons.mp hk with heq | hk
      · cases heq
        cases htok : call.token with
        | some t => exact ⟨t, rfl, hconsumed false rfl t htok⟩
        | none =>
          rw [htok] at hcall
          rcases PgFactStore.publishIfUnchanged_none hcall with ⟨hanswer, _⟩ | ⟨hanswer, _⟩
          · cases hanswer
          · cases hanswer
      · obtain ⟨t, htok, hnone⟩ := h.rejected k hk
        exact ⟨t, htok, hgone t hnone⟩
    cases hs
    rcases hlog with ⟨rfl, hnew, hlog⟩ | ⟨hno, hlog⟩
    · refine
        { ids := ?_, origin := ?_, committed := ?_, answered := ?_, returned := fun _ => ?_
          issued := h.issued, spent := fun _ => hconsumed true rfl, rejected := hrejected }
      · show (store.log.map _).Nodup
        rw [hlog]
        exact PgFactStore.nodup_append_rowsFrom h.ids hnew
      · intro row hrow
        replace hrow : row ∈ store.log := hrow
        rw [hlog] at hrow
        simp only [if_true]
        rcases List.mem_append.mp hrow with hrow | hrow
        · rcases h.origin row hrow with hother | ⟨c, hc, hrow⟩
          · exact .inl hother
          · exact .inr ⟨c, List.mem_cons_of_mem _ hc, hrow⟩
        · exact .inr ⟨_, List.mem_cons_self .., hrow⟩
      · intro c hc
        simp only [if_true] at hc
        show (∃ n, _) ∧ ∀ row ∈ c.2, row ∈ store.log
        rw [hlog]
        rcases List.mem_cons.mp hc with rfl | hc
        · exact ⟨⟨s.store.nextSer, rfl⟩, fun row hrow => List.mem_append_right _ hrow⟩
        · exact ⟨(h.committed c hc).1, fun row hrow =>
            List.mem_append_left _ ((h.committed c hc).2 row hrow)⟩
      · intro k hk
        simp only [if_true]
        rcases List.mem_cons.mp hk with heq | hk
        · cases heq
          exact ⟨_, List.mem_cons_self .., rfl⟩
        · obtain ⟨c, hc, hck⟩ := h.answered k hk
          exact ⟨c, List.mem_cons_of_mem _ hc, hck⟩
      · simp
    · simp only [if_neg hno]
      refine { h.store hlog hgone with answered := fun k hk => ?_, rejected := hrejected }
      rcases List.mem_cons.mp hk with heq | hk
      · cases heq
        exact absurd rfl hno
      · exact h.answered k hk
  · cases hs

theorem inv_other {facts : List Fact} {token : Option UUID} (h : Inv db call s) :
    Inv db call (other db s facts token) := by
  unfold other
  rcases hcall : PgFactStore.publishIfUnchanged db s.store facts token with ⟨store, answer⟩
  obtain ⟨hlog, hgone, _⟩ := PgFactStore.publishIfUnchanged_effect hcall
  rcases hlog with ⟨rfl, hnew, hlog⟩ | ⟨hno, hlog⟩
  · simp only [if_true]
    refine
      { h with
        ids := ?_, origin := ?_, committed := ?_, spent := ?_, rejected := fun k hk => ?_ }
    · show (store.log.map _).Nodup
      rw [hlog]
      exact PgFactStore.nodup_append_rowsFrom h.ids hnew
    · intro row hrow
      replace hrow : row ∈ store.log := hrow
      rw [hlog] at hrow
      rcases List.mem_append.mp hrow with hrow | hrow
      · rcases h.origin row hrow with hother | hc
        · exact .inl (List.mem_append_left _ hother)
        · exact .inr hc
      · exact .inl (List.mem_append_right _ hrow)
    · intro c hc
      refine ⟨(h.committed c hc).1, fun row hrow => ?_⟩
      show row ∈ store.log
      rw [hlog]
      exact List.mem_append_left _ ((h.committed c hc).2 row hrow)
    · exact fun hc t ht => hgone t (h.spent hc t ht)
    · obtain ⟨t, ht, hnone⟩ := h.rejected k hk
      exact ⟨t, ht, hgone t hnone⟩
  · simp only [if_neg hno]
    exact h.store hlog hgone

/-- A token given out now is another one. -/
theorem inv_createToken {token : UUID} {state : TokenState} (h : Inv db call s)
    (hs : createToken s token state = some s') : Inv db call s' := by
  unfold createToken at hs
  split at hs
  · rename_i hnew
    cases hs
    have hother : ∀ t, call.token = some t → t ≠ token := by
      rintro t ht rfl
      have := h.issued t ht
      rw [hnew] at this
      cases this
    refine { h with issued := fun t ht => ?_, spent := fun hc t ht => ?_, rejected := fun k hk => ?_ }
    · show (Function.update s.issued token (some state) t).isSome = true
      rw [Function.update_of_ne (hother t ht)]
      exact h.issued t ht
    · show Function.update s.store.tokens token (some state) t = none
      rw [Function.update_of_ne (hother t ht)]
      exact h.spent hc t ht
    · obtain ⟨t, ht, hnone⟩ := h.rejected k hk
      refine ⟨t, ht, ?_⟩
      show Function.update s.store.tokens token (some state) t = none
      rw [Function.update_of_ne (hother t ht)]
      exact hnone
  · cases hs

theorem gone_invalidate {store : PgFactStore.Store} {token t : UUID} (h : store.tokens t = none) :
    (store.invalidate token).tokens t = none := by
  show Function.update store.tokens token none t = none
  by_cases heq : t = token
  · rw [heq, Function.update_self]
  · rw [Function.update_of_ne heq, h]

theorem inv_step {a : Action} (h : Inv db call s) (hs : step db call s a = some s') :
    Inv db call s' := by
  cases a with
  | send =>
    simp only [step, send] at hs
    split at hs
    · cases hs
      exact { h with returned := fun hr => by cases hr }
    · cases hs
  | serve attempt => exact inv_serve h hs
  | deliver answer attemptsExhausted => exact inv_deliver h hs
  | fail e attemptsExhausted =>
    simp only [step, fail] at hs
    split at hs
    · cases hs
      exact inv_handle h
    · cases hs
      exact inv_handle h
    · cases hs
  | publish facts =>
    cases hs
    exact inv_other h
  | publishIfUnchanged facts token =>
    cases hs
    exact inv_other h
  | createToken token state => exact inv_createToken h hs
  | invalidate token =>
    cases hs
    exact h.store rfl fun _ => gone_invalidate

theorem inv_start (h : Start call s) : Inv db call s where
  ids := h.ids
  origin := by
    intro row hrow
    rw [h.others]
    exact .inl hrow
  committed := by simp [h.commits]
  answered := by simp [h.responses]
  returned := by
    intro hr
    rw [h.phase] at hr
    cases hr
  issued := h.token
  spent := fun hc => absurd h.commits hc
  rejected := by simp [h.responses]

/-! ### No published attempt is given up -/

/-- How the attempts of a call that keeps its published ones stand. -/
structure Kept (call : Call) (s : State) : Prop where
  requests : ∀ attempt ∈ s.requests, attempt ≤ s.attempt
  nodup : s.requests.Nodup
  responses : ∀ r ∈ s.responses, r.1 ≤ s.attempt ∧ r.1 ∉ s.requests
  single : ∀ attempt a b, (attempt, a) ∈ s.responses → (attempt, b) ∈ s.responses → a = b
  ready : s.phase = .ready → call.token.isSome = true → s.commits = []
  waiting : s.phase = .waiting → call.token.isSome = true → s.commits ≠ [] →
    (s.attempt, .returned true) ∈ s.responses
  refused : s.phase = .returned false → s.commits = [] ∧
    ∃ t, call.token = some t ∧ s.store.tokens t = none

theorem kept_handle {e : Throwable} {attemptsExhausted : Bool} (h : Kept call s)
    (hretry : shouldRetry call.enabled attemptsExhausted (ClientExceptionHelper.from_ e) = true →
      call.token.isSome = true → s.commits = []) :
    Kept call (handle call s e attemptsExhausted) := by
  refine { h with ready := fun hr => ?_, waiting := fun hr => ?_, refused := fun hr => ?_ }
  · simp only [handle] at hr
    split at hr
    · rename_i hagain
      exact hretry hagain
    · cases hr
  · simp only [handle] at hr
    split at hr <;> cases hr
  · simp only [handle] at hr
    split at hr <;> cases hr

theorem kept_send (h : Kept call s) (hs : send s = some s') : Kept call s' := by
  unfold send at hs
  split at hs
  · rename_i hready
    cases hs
    have hnew : s.attempt + 1 ∉ s.requests := fun hmem => by
      have := h.requests _ hmem
      omega
    refine
      { requests := fun k hk => ?_, nodup := List.nodup_cons.mpr ⟨hnew, h.nodup⟩
        responses := fun r hr => ?_, single := h.single, ready := fun hr => ?_
        waiting := fun _ htok hc => absurd (h.ready hready htok) hc, refused := fun hr => ?_ }
    · rcases List.mem_cons.mp hk with rfl | hk
      · exact Nat.le_refl _
      · exact Nat.le_succ_of_le (h.requests k hk)
    · obtain ⟨hle, hnot⟩ := h.responses r hr
      refine ⟨Nat.le_succ_of_le hle, fun hmem => ?_⟩
      rcases List.mem_cons.mp hmem with heq | hmem
      · replace hle : r.1 ≤ s.attempt := hle
        omega
      · exact hnot hmem
    · cases hr
    · cases hr
  · cases hs

theorem kept_deliver {answer : PgFactStore.Answer} {attemptsExhausted : Bool} (hi : Inv db call s)
    (h : Kept call s) (hs : deliver call s answer attemptsExhausted = some s') : Kept call s' := by
  unfold deliver at hs
  split at hs
  · rename_i hwaiting
    obtain ⟨hphase, hmem⟩ := hwaiting
    -- what was published is the answer, so any other one means that nothing was
    have hnone : answer ≠ .returned true → call.token.isSome = true → s.commits = [] := by
      intro hno htok
      by_contra hc
      exact hno (h.single _ _ _ hmem (h.waiting hphase htok hc))
    split at hs
    · rename_i success
      cases hs
      refine { h with ready := fun hr => ?_, waiting := fun hr => ?_, refused := fun hr => ?_ }
      · cases hr
      · cases hr
      · cases hr
        obtain ⟨t, ht, hgone⟩ := hi.rejected _ hmem
        have hsome : call.token.isSome = true := by
          rw [ht]
          rfl
        exact ⟨hnone (by simp) hsome, t, ht, hgone⟩
    · rename_i hthrown
      obtain ⟨e, _, rfl⟩ := Option.map_eq_some_iff.mp hs
      exact kept_handle h fun _ => hnone fun heq => hthrown true heq
  · cases hs

theorem kept_serve {attempt : Nat} (h : Kept call s) (hk : keeps db call s (.serve attempt) = true)
    (hs : serve db call s attempt = some s') : Kept call s' := by
  unfold serve at hs
  split at hs
  · rename_i hrequest
    rcases hcall : PgFactStore.publishIfUnchanged db s.store call.facts call.token with ⟨store, answer⟩
    obtain ⟨_, hgone, _⟩ := PgFactStore.publishIfUnchanged_effect hcall
    -- with a token, yes is answered to who is accepted
    have haccepted : ∀ t, call.token = some t → answer = .returned true →
        PgFactStore.accepts db s.store call.facts t = true := by
      intro t ht hyes
      rw [ht] at hcall
      rcases PgFactStore.publishIfUnchanged_some hcall with ⟨_, hacc, _⟩ | ⟨hno, _⟩ | ⟨hno, _⟩
      · exact hacc
      · cases hyes.symm.trans hno
      · cases hyes.symm.trans hno
    rw [hcall] at hs
    cases hs
    refine
      { requests := fun k hk => h.requests k (List.mem_of_mem_erase hk), nodup := h.nodup.erase _
        responses := fun r hr => ?_, single := fun k a b ha hb => ?_, ready := fun hr htok => ?_
        waiting := fun hr htok hc => ?_, refused := fun hr => ?_ }
    · rcases List.mem_cons.mp hr with rfl | hr
      · exact ⟨h.requests _ hrequest, fun hmem => (h.nodup.mem_erase_iff.mp hmem).1 rfl⟩
      · exact ⟨(h.responses r hr).1, fun hmem => (h.responses r hr).2 (List.mem_of_mem_erase hmem)⟩
    · rcases List.mem_cons.mp ha with heq | ha
      · cases heq
        rcases List.mem_cons.mp hb with heq | hb
        · cases heq
          rfl
        · exact absurd hrequest (h.responses _ hb).2
      · rcases List.mem_cons.mp hb with heq | hb
        · cases heq
          exact absurd hrequest (h.responses _ ha).2
        · exact h.single k a b ha hb
    · obtain ⟨t, ht⟩ := Option.isSome_iff_exists.mp htok
      have hphase : s.phase = .ready := hr
      have hno : answer ≠ .returned true := by
        intro hyes
        simp [keeps, ht, hphase, haccepted t ht hyes] at hk
      show (if answer = .returned true then _ else s.commits) = []
      rw [if_neg hno]
      exact h.ready hphase htok
    · obtain ⟨t, ht⟩ := Option.isSome_iff_exists.mp htok
      have hphase : s.phase = .waiting := hr
      show (s.attempt, .returned true) ∈ (attempt, answer) :: s.responses
      by_cases hyes : answer = .returned true
      · simp only [keeps, ht, hphase, haccepted t ht hyes, Bool.not_true, Bool.or_false, beq_iff_eq] at hk
        rw [hk, hyes]
        exact List.mem_cons_self ..
      · simp only [if_neg hyes] at hc
        exact List.mem_cons_of_mem _ (h.waiting hphase htok hc)
    · obtain ⟨hc, t, ht, hnone⟩ := h.refused hr
      have hno : answer ≠ .returned true := by
        intro hyes
        have hacc := haccepted t ht hyes
        simp [PgFactStore.accepts, hnone] at hacc
      refine ⟨?_, t, ht, hgone t hnone⟩
      show (if answer = .returned true then _ else s.commits) = []
      rw [if_neg hno, hc]
  · cases hs

theorem kept_other {facts : List Fact} {token : Option UUID} (h : Kept call s) :
    Kept call (other db s facts token) := by
  unfold other
  rcases hcall : PgFactStore.publishIfUnchanged db s.store facts token with ⟨store, answer⟩
  obtain ⟨_, hgone, _⟩ := PgFactStore.publishIfUnchanged_effect hcall
  refine { h with refused := fun hr => ?_ }
  obtain ⟨hc, t, ht, hnone⟩ := h.refused hr
  exact ⟨hc, t, ht, hgone t hnone⟩

/-- Others do not touch the attempts, and do not bring the token back. -/
theorem kept_step {a : Action} (hi : Inv db call s) (h : Kept call s)
    (hk : keeps db call s a = true) (hs : step db call s a = some s') : Kept call s' := by
  cases a with
  | send => exact kept_send h hs
  | serve attempt => exact kept_serve h hk hs
  | deliver answer attemptsExhausted => exact kept_deliver hi h hs
  | fail e attemptsExhausted =>
    have hretry : shouldRetry call.enabled attemptsExhausted (ClientExceptionHelper.from_ e) = true →
        call.token.isSome = true → s.commits = [] := by
      intro hagain htok
      obtain ⟨t, ht⟩ := Option.isSome_iff_exists.mp htok
      simpa [keeps, hagain, ht] using hk
    simp only [step, fail] at hs
    split at hs
    · cases hs
      exact kept_handle h hretry
    · cases hs
      exact kept_handle h hretry
    · cases hs
  | publish facts =>
    cases hs
    exact kept_other h
  | publishIfUnchanged facts token =>
    cases hs
    exact kept_other h
  | createToken token state =>
    simp only [step, createToken] at hs
    split at hs
    · rename_i hnew
      cases hs
      refine { h with refused := fun hr => ?_ }
      obtain ⟨hc, t, ht, hnone⟩ := h.refused hr
      have hother : t ≠ token := by
        rintro rfl
        have := hi.issued t ht
        rw [hnew] at this
        cases this
      exact ⟨hc, t, ht, (Function.update_of_ne hother ..).trans hnone⟩
    · cases hs
  | invalidate token =>
    cases hs
    refine { h with refused := fun hr => ?_ }
    obtain ⟨hc, t, ht, hnone⟩ := h.refused hr
    exact ⟨hc, t, ht, gone_invalidate hnone⟩

theorem kept_start (h : Start call s) : Kept call s := by
  refine
    { requests := ?_, nodup := ?_, responses := ?_, single := ?_, ready := fun _ _ => h.commits
      waiting := fun hr => ?_, refused := fun hr => ?_ }
  · simp [h.requests]
  · simp [h.requests]
  · simp [h.responses]
  · simp [h.responses]
  · cases h.phase.symm.trans hr
  · cases h.phase.symm.trans hr

end Steps

theorem inv {db : Database} {call : Call} {s : State} (h : (calling db call).Reachable s) :
    Inv db call s :=
  h.invariant (fun _ => inv_start) fun s a s' hi _ hs => by
    have hs : step db call s a = some s' := hs
    exact inv_step hi hs

/-- Every fact of the call is in the log once. -/
def Published (call : Call) (s : State) : Prop :=
  ∀ f ∈ call.facts, (s.store.log.map fun r => r.fact.id).count f.id = 1

/-- Whatever the log holds, others put there. -/
def Unpublished (s : State) : Prop := ∀ row ∈ s.store.log, row ∈ s.others

/-- Yes is always right. -/
theorem publishIfUnchanged_true {db : Database} {call : Call} {s : State}
    (h : (calling db call).Reachable s) (hphase : s.phase = .returned true) : Published call s := by
  have hinv := inv h
  obtain ⟨c, hc⟩ := List.exists_mem_of_ne_nil _ (hinv.returned hphase)
  obtain ⟨⟨n, hrows⟩, hlog⟩ := hinv.committed c hc
  intro f hf
  refine List.count_eq_one_of_mem hinv.ids ?_
  have hid : f.id ∈ c.2.map fun r => r.fact.id := by
    rw [hrows, PgFactStore.ids_rowsFrom]
    exact List.mem_map_of_mem hf
  obtain ⟨row, hrow, hrowid⟩ := List.mem_map.mp hid
  exact List.mem_map.mpr ⟨row, hlog row hrow, hrowid⟩

/-- In every run in which no published attempt is given up, the answer says what
became of the facts: after yes each is in the log once, after no none was put there. -/
theorem publishIfUnchanged_sound (db : Database) (call : Call) (s : State)
    (h : (calling db call).ReachableUnder (fun s a => keeps db call s a = true) s) :
    (s.phase = .returned true → Published call s) ∧
    (s.phase = .returned false → s.commits = [] ∧ Unpublished s) := by
  have hinv := inv h.reachable
  have hkept : Kept call s :=
    h.invariant_from (fun _ => kept_start) fun s a s' hr hf hk hs => by
      have hs : step db call s a = some s' := hs
      exact kept_step (inv hr.reachable) hf hk hs
  refine ⟨publishIfUnchanged_true h.reachable, fun hphase => ?_⟩
  have hnone := (hkept.refused hphase).1
  refine ⟨hnone, fun row hrow => ?_⟩
  rcases hinv.origin row hrow with hother | ⟨c, hc, _⟩
  · exact hother
  · rw [hnone] at hc
    cases hc

/-- An order is placed under a token for the orders of an empty log. -/
def placing : Call := { facts := [placed 1], token := some ⟨0⟩, enabled := true }

def holding : State :=
  let tokens := Function.update (fun _ => none) ⟨0⟩ (some ⟨[ofOrders], 0⟩)
  { store := ⟨[], tokens, 1⟩, issued := tokens, phase := .ready, attempt := 0, requests := []
    responses := [], commits := [], others := [] }

theorem holding_start : (calling .quoted placing).Start holding where
  ids := List.nodup_nil
  token := by
    intro token htoken
    cases htoken
    rfl
  phase := rfl
  requests := rfl
  responses := rfl
  commits := rfl
  others := rfl

/-- The first request is lost, a payment comes in between, and the second attempt is served. -/
def lostRequest : List Action :=
  [.send, .fail (.status { code := .unavailable }) false, .publish [paid 2], .send, .serve 2,
    .deliver (.returned true) false, .serve 1]

theorem publishIfUnchanged_sound_lostRequest :
    ∃ s, s.phase = .returned true ∧ s.responses.map Prod.fst = [1, 2] ∧ Published placing s := by
  obtain ⟨s, hs, hstate⟩ := Machine.exists_reachableUnder holding_start lostRequest
    (fun s => (s.phase, s.responses.map Prod.fst)) (c := keeps .quoted placing)
    (b := (.returned true, [1, 2])) (by decide +kernel)
  obtain ⟨hphase, hresponses⟩ := Prod.mk.injEq .. ▸ hstate
  exact ⟨s, hphase, hresponses, (publishIfUnchanged_sound .quoted placing s hs).1 hphase⟩

/-- The first attempt is served and its answer is lost; the second finds the token gone. -/
def lostResponse : List Action :=
  [.send, .serve 1, .fail (.status { code := .unavailable }) false, .send, .serve 2,
    .deliver (.returned false) false]

theorem given_up_published : ¬ ∀ s, (calling .quoted placing).Reachable s →
    s.phase = .returned false → Unpublished s := by
  obtain ⟨s, hs, hstate⟩ := Machine.exists_reachable holding_start lostResponse
    (fun s => (s.phase, s.store.log.length, s.others.length)) (b := (.returned false, 1, 0))
    (by decide +kernel)
  obtain ⟨hphase, hlog, hothers⟩ : s.phase = .returned false ∧ s.store.log.length = 1 ∧
      s.others.length = 0 := by simpa using hstate
  intro hall
  obtain ⟨row, hrow⟩ := List.length_pos_iff_exists_mem.mp (by omega : 0 < s.store.log.length)
  have hother := hall s hs hphase row hrow
  rw [List.length_eq_zero_iff.mp hothers] at hother
  cases hother

end FactCast.GrpcFactStore
