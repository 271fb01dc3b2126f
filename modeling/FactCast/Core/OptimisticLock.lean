import FactCast.Core.Spec
import Mathlib.Data.Int.Order.Basic

/-! Attempts under an optimistic lock.

An attempt takes a token for the current state, runs the user's operation and
publishes what it wants published, if the state is still the same. If it is not, it
is tried again, as long as a counter has not passed a limit. The counter belongs to
the lock, not to the call: every call goes on counting where the one before it
stopped. What the store and the operation do in each round is given from outside.

A call keeps its books (`Bookkept`) exactly if it is over in time, which depends on
what the counter leaves of the limit (`attempts_iff`). -/
namespace FactCast

/-- What an operation wants published, and what is to be run after that: whether it
throws, if there is anything. -/
structure IntermediatePublishResult where
  factsToPublish : List Fact
  wasSkipped : Bool
  andThen : Option Bool := none

namespace WithOptimisticLock

/-- How the user's operation ends. -/
inductive Attempt where
  | abort
  | exception
  | error
  | null
  | result (r : IntermediatePublishResult)

/-- How a call ends. -/
inductive Result where
  | returned (publishedFacts : List Fact)
  | attemptAborted
  | illegalArgument (message : String)
  | exceptionAfterPublish (publishedFacts : List Fact)
  | optimisticRetriesExceeded (retries : Int32)
  /-- What the operation throws that is no exception. -/
  | error
  /-- What the store throws. -/
  | store
  | interrupted

/-- What a call does. -/
inductive Event where
  | currentStateFor (token : UUID)
  | operation (ends : Attempt)
  /-- It succeeds, or finds the state changed, or throws. -/
  | publishIfUnchanged (factsToPublish : List Fact) (token : UUID) (published : Option Bool)
  | andThen (throws : Bool)
  | invalidate (token : UUID)

/-- What the others do in one round. -/
structure Round where
  /-- The token, or nothing if the store throws. -/
  currentStateFor : Option UUID
  operation : Attempt
  publishIfUnchanged : Option Bool
  /-- The thread is interrupted if it sleeps. -/
  interrupted : Bool := false

/-- A call with the settings that are in force. -/
structure Call where
  retry : Int32 := 10
  interval : Int64 := 0
  rounds : List Round

structure Outcome where
  events : List Event
  result : Result

def executeAndThen (r : IntermediatePublishResult) (facts : List Fact) : Outcome :=
  match r.andThen with
  | none => ⟨[], .returned facts⟩
  | some false => ⟨[.andThen false], .returned facts⟩
  | some true => ⟨[.andThen true], .exceptionAfterPublish facts⟩

/-- The body of the loop: what is done, and the result unless it is done again. A token
is invalidated unless it was handed to the store. -/
def body (interval : Int64) (round : Round) : List Event × Option Result :=
  match round.currentStateFor with
  | none => ([], some .store)
  | some token =>
    let begun : List Event := [.currentStateFor token, .operation round.operation]
    match round.operation with
    | .abort | .exception | .null => (begun ++ [.invalidate token], some .attemptAborted)
    | .error => (begun ++ [.invalidate token], some .error)
    | .result r =>
      if r.wasSkipped then
        let o := executeAndThen r []
        (begun ++ o.events ++ [.invalidate token], some o.result)
      else if r.factsToPublish.isEmpty then
        (begun ++ [.invalidate token], some (.illegalArgument
          "Attempt exited without abort, but does not publish any facts."))
      else
        let tried := begun ++ [.publishIfUnchanged r.factsToPublish token round.publishIfUnchanged]
        match round.publishIfUnchanged with
        | none => (tried, some .store)
        | some true =>
          let o := executeAndThen r r.factsToPublish
          (tried ++ o.events, some o.result)
        | some false => (tried, if 0 < interval && round.interrupted then some .interrupted else none)

/-- The loop, from a value of the counter, and the value it leaves. Nothing if there are
not enough rounds for it to end. -/
def attempt (retry : Int32) (interval : Int64) (count : Int32) : List Round → Option (Outcome × Int32)
  | [] =>
    if count + 1 ≤ retry then none
    else some (⟨[], .optimisticRetriesExceeded retry⟩, count + 1)
  | round :: rest =>
    if count + 1 ≤ retry then
      match body interval round with
      | (events, some result) => some (⟨events, result⟩, count + 1)
      | (events, none) => (attempt retry interval (count + 1) rest).map fun o =>
        (⟨events ++ o.1.events, o.1.result⟩, o.2)
    else some (⟨[], .optimisticRetriesExceeded retry⟩, count + 1)

/-- A call that came to its end, and the counter it began with. -/
structure Report where
  count : Int32
  call : Call
  outcome : Outcome

/-- Calls of one lock, one after another, as far as they end. -/
def attempts (count : Int32) : List Call → List Report
  | [] => []
  | call :: rest =>
    match attempt call.retry call.interval count call.rounds with
    | none => []
    | some (outcome, count') => ⟨count, call, outcome⟩ :: attempts count' rest

/-! ### The books -/

namespace Event

def published : Event → Option (List Fact)
  | publishIfUnchanged facts _ (some true) => some facts
  | _ => none

def conflicts : Event → Bool
  | publishIfUnchanged _ _ (some false) => true
  | _ => false

def runs : Event → Bool
  | operation _ => true
  | _ => false

def skips : Event → Bool
  | operation (.result r) => r.wasSkipped
  | _ => false

def throwsAfterwards : Event → Bool
  | andThen throws => throws
  | _ => false

/-- Takes a token. -/
def obtains (token : UUID) : Event → Bool
  | currentStateFor t => t == token
  | _ => false

/-- Hands a token to the store, or invalidates it. -/
def releases (token : UUID) : Event → Bool
  | publishIfUnchanged _ t _ => t == token
  | invalidate t => t == token
  | _ => false

end Event

/-- What is left of the limit, for positive limits. -/
def limit (retry : Int32) : Nat := retry.toInt.toNat

/-- What a call is to account for. -/
structure Bookkept (retry : Int32) (o : Outcome) : Prop where
  /-- There is at most one publication. -/
  once : (o.events.filterMap Event.published).length ≤ 1
  /-- What is handed over was published, or nothing if the operation skipped. -/
  handedOver : ∀ facts, (o.result = .returned facts ∨ o.result = .exceptionAfterPublish facts) ↔
    facts ∈ o.events.filterMap Event.published ∨ o.events.any Event.skips = true ∧ facts = []
  /-- It is returned, unless what is run afterwards throws. -/
  afterwards : (∃ facts, o.result = .exceptionAfterPublish facts) ↔
    o.events.any Event.throwsAfterwards = true
  /-- The limit is exceeded only by as many conflicts. -/
  exceeded : ∀ n, o.result = .optimisticRetriesExceeded n → limit retry ≤ o.events.countP Event.conflicts
  runs : o.events.countP Event.runs ≤ limit retry
  /-- Every token is handed to the store or invalidated. -/
  released : ∀ token, o.events.countP (Event.obtains token) = o.events.countP (Event.releases token)

/-! ### One round -/

section Round
variable {interval : Int64} {round : Round} {events : List Event} {result : Result}

/-- What is run afterwards counts for nothing else. -/
structure Afterwards (facts : List Fact) (o : Outcome) : Prop where
  silent : o.events.filterMap Event.published = [] ∧ o.events.countP Event.conflicts = 0 ∧
    o.events.countP Event.runs = 0 ∧ o.events.any Event.skips = false ∧
    ∀ token, o.events.countP (Event.obtains token) = 0 ∧ o.events.countP (Event.releases token) = 0
  result : o.result = if o.events.any Event.throwsAfterwards then .exceptionAfterPublish facts else .returned facts

theorem afterwards (r : IntermediatePublishResult) (facts : List Fact) :
    Afterwards facts (executeAndThen r facts) := by
  unfold executeAndThen
  rcases r.andThen with _ | _ | _
  · exact ⟨⟨rfl, rfl, rfl, rfl, fun _ => ⟨rfl, rfl⟩⟩, rfl⟩
  · exact ⟨⟨rfl, rfl, rfl, rfl, fun _ => ⟨rfl, rfl⟩⟩, rfl⟩
  · exact ⟨⟨rfl, rfl, rfl, rfl, fun _ => ⟨rfl, rfl⟩⟩, rfl⟩

/-- What can happen in a round. -/
inductive Does (round : Round) : List Event → Option Result → Prop where
  | unknown (h : round.currentStateFor = none) : Does round [] (some .store)
  | gaveUp (token : UUID) (h : round.currentStateFor = some token) (result : Result)
      (hskip : Event.skips (.operation round.operation) = false)
      (hresult : result = .attemptAborted ∨ result = .error ∨ ∃ message, result = .illegalArgument message) :
      Does round [.currentStateFor token, .operation round.operation, .invalidate token] (some result)
  | skipped (token : UUID) (h : round.currentStateFor = some token) (o : Outcome)
      (hskip : Event.skips (.operation round.operation) = true) (ho : Afterwards [] o) :
      Does round ([.currentStateFor token, .operation round.operation] ++ o.events ++ [.invalidate token])
        (some o.result)
  | tried (token : UUID) (h : round.currentStateFor = some token) (facts : List Fact) (published : Option Bool)
      (hskip : Event.skips (.operation round.operation) = false) (hpublished : published ≠ some true)
      (result : Option Result) (hresult : result = some .store ∨ published = some false ∧
        (result = none ∨ result = some .interrupted)) :
      Does round [.currentStateFor token, .operation round.operation, .publishIfUnchanged facts token published]
        result
  | published (token : UUID) (h : round.currentStateFor = some token) (facts : List Fact) (o : Outcome)
      (hskip : Event.skips (.operation round.operation) = false) (ho : Afterwards facts o) :
      Does round ([.currentStateFor token, .operation round.operation,
        .publishIfUnchanged facts token (some true)] ++ o.events) (some o.result)

theorem body_does (interval : Int64) (round : Round) :
    Does round (body interval round).1 (body interval round).2 := by
  unfold body
  split
  · rename_i h
    exact .unknown h
  · rename_i token h
    dsimp only
    split
    · rename_i hop
      exact .gaveUp token h _ (by rw [hop]; rfl) (.inl rfl)
    · rename_i hop
      exact .gaveUp token h _ (by rw [hop]; rfl) (.inl rfl)
    · rename_i hop
      exact .gaveUp token h _ (by rw [hop]; rfl) (.inl rfl)
    · rename_i hop
      exact .gaveUp token h _ (by rw [hop]; rfl) (.inr (.inl rfl))
    · rename_i r hop
      have hskips : Event.skips (.operation round.operation) = r.wasSkipped := by rw [hop]; rfl
      split
      · rename_i hskipped
        exact .skipped token h _ (hskips.trans hskipped) (afterwards r [])
      · rename_i hskipped
        have hskip := hskips.trans (Bool.not_eq_true _ ▸ hskipped)
        split
        · exact .gaveUp token h _ hskip (.inr (.inr ⟨_, rfl⟩))
        · split
          · rename_i hnone
            exact .tried token h _ _ hskip (by rw [hnone]; simp) _ (.inl rfl)
          · rename_i htrue
            rw [htrue]
            exact .published token h _ _ hskip (afterwards r _)
          · rename_i hfalse
            rw [hfalse]
            refine .tried token h _ _ hskip (by simp) _ (.inr ⟨rfl, ?_⟩)
            split
            · exact .inr rfl
            · exact .inl rfl

/-- Nothing came of the round but that the state has changed. -/
structure Again (events : List Event) : Prop where
  published : events.filterMap Event.published = []
  skips : events.any Event.skips = false
  throwsAfterwards : events.any Event.throwsAfterwards = false
  conflicts : events.countP Event.conflicts = events.countP Event.runs
  released : ∀ token, events.countP (Event.obtains token) = events.countP (Event.releases token)

/-- The books of a call without what is said of the limit. -/
structure Closed (o : Outcome) : Prop where
  once : (o.events.filterMap Event.published).length ≤ 1
  handedOver : ∀ facts, (o.result = .returned facts ∨ o.result = .exceptionAfterPublish facts) ↔
    facts ∈ o.events.filterMap Event.published ∨ o.events.any Event.skips = true ∧ facts = []
  afterwards : (∃ facts, o.result = .exceptionAfterPublish facts) ↔
    o.events.any Event.throwsAfterwards = true
  released : ∀ token, o.events.countP (Event.obtains token) = o.events.countP (Event.releases token)

/-- What was handed over is what was run afterwards for. -/
theorem Afterwards.handedOver {facts : List Fact} {o : Outcome} (h : Afterwards facts o) (other : List Fact) :
    (o.result = .returned other ∨ o.result = .exceptionAfterPublish other) ↔ other = facts := by
  rw [h.result]
  split <;> simp [eq_comm]

theorem Afterwards.throws {facts : List Fact} {o : Outcome} (h : Afterwards facts o) :
    (∃ other, o.result = .exceptionAfterPublish other) ↔ o.events.any Event.throwsAfterwards = true := by
  rw [h.result]
  split
  · rename_i hthrows
    simp [hthrows]
  · rename_i hthrows
    simp [hthrows]

theorem again_of_does (h : Does round events none) : Again events ∧ events.countP Event.runs = 1 := by
  cases h with
  | tried token h facts published hskip hpublished _ hresult =>
    obtain ⟨rfl, _⟩ := hresult.resolve_left fun h => nomatch h
    refine ⟨⟨rfl, ?_, rfl, rfl, fun t => ?_⟩, rfl⟩
    · simp only [List.any_cons, hskip]
      rfl
    · simp [List.countP_cons, Event.obtains, Event.releases]

/-- The round that ends a call leaves its books closed. -/
theorem closed_of_does (h : Does round events (some result)) :
    Closed ⟨events, result⟩ ∧ (∀ n, result ≠ .optimisticRetriesExceeded n) ∧
      events.countP Event.runs = if round.currentStateFor.isSome then 1 else 0 := by
  cases h with
  | unknown h =>
    refine ⟨⟨Nat.zero_le _, fun facts => by simp, by simp, fun _ => rfl⟩, by simp, ?_⟩
    rw [h]
    rfl
  | gaveUp token h _ hskip hresult =>
    have hno : (∀ facts, result ≠ .returned facts) ∧ (∀ facts, result ≠ .exceptionAfterPublish facts) ∧
        ∀ n, result ≠ .optimisticRetriesExceeded n := by
      rcases hresult with rfl | rfl | ⟨message, rfl⟩ <;> simp
    have hskips : [Event.currentStateFor token, .operation round.operation, .invalidate token].any
        Event.skips = false := by
      simp only [List.any_cons, hskip]
      rfl
    refine ⟨⟨Nat.zero_le _, fun facts => ?_, ?_, fun t => ?_⟩, hno.2.2, ?_⟩
    · rw [hskips]
      simp [List.filterMap_cons, Event.published, hno.1, hno.2.1]
    · simp [Event.throwsAfterwards, hno.2.1]
    · simp [List.countP_cons, Event.obtains, Event.releases]
    · rw [h]
      rfl
  | skipped token h o hskip ho =>
    obtain ⟨hpublished, _, hruns, hskips, htokens⟩ := ho.silent
    refine ⟨⟨?_, fun facts => ?_, ?_, fun t => ?_⟩, fun n hn => ?_, ?_⟩
    · simp [List.filterMap_cons, List.filterMap_append, hpublished, Event.published]
    · rw [ho.handedOver]
      simp [List.filterMap_cons, List.filterMap_append, hpublished, Event.published, hskip]
    · rw [ho.throws]
      simp [Event.throwsAfterwards]
    · simp [List.countP_cons, List.countP_append, Event.obtains, Event.releases, htokens t]
    · rw [ho.result] at hn
      split at hn <;> cases hn
    · rw [h]
      simp [List.countP_cons, List.countP_append, hruns, Event.runs]
  | tried token h facts published hskip hpublished _ hresult =>
    have hresult' : result = .store ∨ result = .interrupted := by
      rcases hresult with hstore | ⟨_, hnone | hinterrupted⟩
      · exact .inl (Option.some.inj hstore)
      · cases hnone
      · exact .inr (Option.some.inj hinterrupted)
    have hnone : Event.published (.publishIfUnchanged facts token published) = none := by
      rcases published with _ | _ | _
      · rfl
      · rfl
      · exact absurd rfl hpublished
    have hno : (∀ facts, result ≠ .returned facts) ∧ (∀ facts, result ≠ .exceptionAfterPublish facts) ∧
        ∀ n, result ≠ .optimisticRetriesExceeded n := by
      rcases hresult' with rfl | rfl <;> simp
    have hlist : [Event.currentStateFor token, .operation round.operation,
        .publishIfUnchanged facts token published].filterMap Event.published = [] := by
      simp only [List.filterMap_cons, hnone]
      rfl
    refine ⟨⟨?_, fun other => ?_, ?_, fun t => ?_⟩, hno.2.2, ?_⟩
    · rw [hlist]
      exact Nat.zero_le _
    · have hskips : [Event.currentStateFor token, .operation round.operation,
          .publishIfUnchanged facts token published].any Event.skips = false := by
        simp only [List.any_cons, hskip]
        rfl
      rw [hlist, hskips]
      simp [hno.1, hno.2.1]
    · simp [Event.throwsAfterwards, hno.2.1]
    · simp [List.countP_cons, Event.obtains, Event.releases]
    · rw [h]
      rfl
  | published token h facts o hskip ho =>
    obtain ⟨hpublished, _, hruns, hskips, htokens⟩ := ho.silent
    refine ⟨⟨?_, fun other => ?_, ?_, fun t => ?_⟩, fun n hn => ?_, ?_⟩
    · simp [List.filterMap_cons, hpublished, Event.published]
    · rw [ho.handedOver]
      have hnever : o.events.any Event.skips = false := hskips
      simp only [List.any_append, List.any_cons, hskip, hnever, List.any_nil]
      simp [List.filterMap_cons, hpublished, Event.published, Event.skips]
    · rw [ho.throws]
      simp [Event.throwsAfterwards]
    · simp [List.countP_cons, Event.obtains, Event.releases, htokens t]
    · rw [ho.result] at hn
      split at hn <;> cases hn
    · rw [h]
      simp [List.countP_cons, hruns, Event.runs]

end Round

/-! ### A call -/

/-- How often the loop is still entered, if that is limited at all. The counter wraps. -/
def left (retry count : Int32) : Option Nat :=
  if retry = Int32.maxValue then none else some (retry.toInt - (count + 1).toInt + 1).toNat

namespace Call
variable (call : Call)

/-- The rounds at the beginning after which it is done again. -/
def conflicts : List Round := call.rounds.takeWhile fun round => (body call.interval round).2.isNone

/-- How often the operation is run if nothing but a round ends the call. -/
def runs : Nat :=
  call.conflicts.length + call.rounds[call.conflicts.length]?.elim 0 fun round =>
    if round.currentStateFor.isSome then 1 else 0

/-- The limit is exceeded after as many conflicts as it says, and a round that ends
the call before comes in time. -/
structure InTime (count : Int32) : Prop where
  exceeded : ∀ n, left call.retry count = some n → n ≤ call.conflicts.length → n = limit call.retry
  ended : (∀ n, left call.retry count = some n → call.conflicts.length < n) → call.runs ≤ limit call.retry

end Call

section Call
variable {retry count count' : Int32} {interval : Int64} {rounds : List Round} {o : Outcome}

theorem left_of_lt (h : ¬ count + 1 ≤ retry) : left retry count = some 0 := by
  have hlt : retry.toInt < (count + 1).toInt := by
    rw [Int32.le_iff_toInt_le] at h
    omega
  have hmax : retry ≠ Int32.maxValue := by
    rintro rfl
    exact h (Int32.le_maxValue _)
  unfold left
  rw [if_neg hmax, Option.some.injEq]
  omega

theorem left_of_le (h : count + 1 ≤ retry) : left retry count = (left retry (count + 1)).map (· + 1) := by
  unfold left
  split
  · rfl
  · rename_i hmax
    -- below the highest number the counter does not wrap
    have hle : (count + 1).toInt ≤ retry.toInt := Int32.le_iff_toInt_le.mp h
    have hlt : retry.toInt < 2147483647 := by
      have hle' := Int32.le_iff_toInt_le.mp (Int32.le_maxValue retry)
      have hne : retry.toInt ≠ Int32.maxValue.toInt := fun heq => hmax (Int32.toInt_inj.mp heq)
      have hvalue : Int32.maxValue.toInt = 2147483647 := rfl
      omega
    have hcount : (count + 1 + 1).toInt = (count + 1).toInt + 1 := by
      rw [Int32.toInt_add (count + 1) 1, Int32.toInt_one, Int.bmod_def]
      have hmin := Int32.le_toInt (count + 1)
      omega
    rw [Option.map_some, hcount, Option.some.injEq]
    omega

/-- How a call can end: by the limit, after conflicts only, or by a round. -/
theorem attempt_cases (h : attempt retry interval count rounds = some (o, count')) :
    let call : Call := { retry := retry, interval := interval, rounds := rounds }
    Closed o ∧
      ((∃ n, left retry count = some n ∧ n ≤ call.conflicts.length ∧ o.result = .optimisticRetriesExceeded retry ∧
          o.events.countP Event.conflicts = n ∧ o.events.countP Event.runs = n) ∨
        (∀ n, left retry count = some n → call.conflicts.length < n) ∧
          (∀ n, o.result ≠ .optimisticRetriesExceeded n) ∧ o.events.countP Event.runs = call.runs) := by
  have hexceeded : Closed ⟨[], .optimisticRetriesExceeded retry⟩ :=
    ⟨Nat.zero_le _, fun facts => by simp, by simp, fun _ => rfl⟩
  induction rounds generalizing count o count' with
  | nil =>
    rw [attempt] at h
    split at h
    · cases h
    · rename_i hlimit
      cases h
      exact ⟨hexceeded, .inl ⟨0, left_of_lt hlimit, Nat.le_refl 0, rfl, rfl, rfl⟩⟩
  | cons round rest ih =>
    rw [attempt] at h
    split at h
    · rename_i hlimit
      have hdoes := body_does interval round
      split at h
      · rename_i events result hbody
        cases h
        rw [hbody] at hdoes
        obtain ⟨hclosed, hno, hruns⟩ := closed_of_does hdoes
        have hconflicts : ({ retry := retry, interval := interval, rounds := round :: rest } : Call).conflicts = [] := by
          simp [Call.conflicts, hbody]
        refine ⟨hclosed, .inr ⟨fun n hn => ?_, hno, ?_⟩⟩
        · rw [left_of_le hlimit] at hn
          obtain ⟨m, _, rfl⟩ := Option.map_eq_some_iff.mp hn
          rw [hconflicts]
          exact Nat.succ_pos m
        · rw [Call.runs, hconflicts, hruns]
          simp
      · rename_i events hbody
        obtain ⟨⟨o', count''⟩, hrest, heq⟩ := Option.map_eq_some_iff.mp h
        cases heq
        rw [hbody] at hdoes
        obtain ⟨hagain, hone⟩ := again_of_does hdoes
        obtain ⟨hclosed, hends⟩ := ih hrest
        have hconflicts : ({ retry := retry, interval := interval, rounds := round :: rest } : Call).conflicts =
            round :: ({ retry := retry, interval := interval, rounds := rest } : Call).conflicts := by
          simp [Call.conflicts, hbody]
        have hruns : ({ retry := retry, interval := interval, rounds := round :: rest } : Call).runs =
            ({ retry := retry, interval := interval, rounds := rest } : Call).runs + 1 := by
          unfold Call.runs
          rw [hconflicts]
          exact Nat.succ_add _ _
        refine ⟨⟨?_, fun facts => ?_, ?_, fun t => ?_⟩, ?_⟩
        · rw [List.filterMap_append, hagain.published]
          exact hclosed.once
        · rw [List.filterMap_append, hagain.published, List.any_append, hagain.skips]
          exact hclosed.handedOver facts
        · rw [List.any_append, hagain.throwsAfterwards]
          exact hclosed.afterwards
        · rw [List.countP_append, List.countP_append, hagain.released t, hclosed.released t]
        · rw [left_of_le hlimit, hconflicts]
          refine hends.imp ?_ ?_
          · intro ⟨n, hn, hle, hresult, hc, hr⟩
            refine ⟨n + 1, by rw [hn]; rfl, Nat.succ_le_succ hle, hresult, ?_, ?_⟩
            · rw [List.countP_append, hagain.conflicts, hone, hc, Nat.add_comm]
            · rw [List.countP_append, hone, hr, Nat.add_comm]
          · intro ⟨hin, hno, hr⟩
            refine ⟨fun n hn => ?_, hno, ?_⟩
            · obtain ⟨m, hm, rfl⟩ := Option.map_eq_some_iff.mp hn
              exact Nat.succ_lt_succ (hin m hm)
            · rw [List.countP_append, hone, hr, hruns, Nat.add_comm]
    · rename_i hlimit
      cases h
      exact ⟨hexceeded, .inl ⟨0, left_of_lt hlimit, Nat.zero_le _, rfl, rfl, rfl⟩⟩

/-- A call that ends keeps its books exactly if it is over in time. -/
theorem bookkept_iff {call : Call} (h : attempt call.retry call.interval count call.rounds = some (o, count')) :
    Bookkept call.retry o ↔ call.InTime count := by
  obtain ⟨hclosed, ⟨n, hleft, hle, hresult, hconflicts, hruns⟩ | ⟨hin, hno, hruns⟩⟩ := attempt_cases h
  · refine ⟨fun hb => ⟨fun m hm _ => ?_, fun hin => absurd (hin n hleft) (Nat.not_lt.mpr hle)⟩, fun ht => ?_⟩
    · cases Option.some.inj (hleft.symm.trans hm)
      have hlow := hb.exceeded _ hresult
      have hhigh := hb.runs
      omega
    · have hn := ht.exceeded n hleft hle
      exact ⟨hclosed.once, hclosed.handedOver, hclosed.afterwards, fun _ _ => by omega, by omega, hclosed.released⟩
  · refine ⟨fun hb => ⟨fun n hn hle => absurd (hin n hn) (Nat.not_lt.mpr hle), fun _ => hruns ▸ hb.runs⟩,
      fun ht => ?_⟩
    exact ⟨hclosed.once, hclosed.handedOver, hclosed.afterwards, fun n hn => absurd hn (hno n),
      hruns ▸ ht.ended hin, hclosed.released⟩

/-- A call with a new lock is always in time, if its limit is not the highest number there
is. -/
theorem inTime_new {call : Call} (hmax : call.retry ≠ Int32.maxValue) : call.InTime 0 := by
  have hone : ((0 : Int32) + 1).toInt = 1 := rfl
  have hleft : left call.retry 0 = some (limit call.retry) := by
    unfold left limit
    rw [if_neg hmax, hone]
    congr 1
    omega
  refine ⟨fun n hn _ => Option.some.inj (hn.symm.trans hleft), fun hin => ?_⟩
  have hlt := hin _ hleft
  have hruns : call.runs ≤ call.conflicts.length + 1 := by
    unfold Call.runs
    cases call.rounds[call.conflicts.length]? with
    | none => exact Nat.le_succ _
    | some round =>
      refine Nat.add_le_add_left ?_ _
      show (if _ then _ else _) ≤ 1
      split
      · exact Nat.le_refl 1
      · exact Nat.zero_le 1
  omega

theorem attempt_of_left {n : Nat} (hleft : left retry count = some n) (hrounds : n ≤ rounds.length) :
    (attempt retry interval count rounds).isSome = true := by
  induction rounds generalizing count n with
  | nil =>
    rw [attempt]
    split
    · rename_i hlimit
      rw [left_of_le hlimit] at hleft
      obtain ⟨m, _, rfl⟩ := Option.map_eq_some_iff.mp hleft
      exact absurd hrounds (Nat.not_succ_le_zero m)
    · rfl
  | cons round rest ih =>
    rw [attempt]
    split
    · rename_i hlimit
      rw [left_of_le hlimit] at hleft
      obtain ⟨m, hm, rfl⟩ := Option.map_eq_some_iff.mp hleft
      split
      · rfl
      · rw [Option.isSome_map]
        exact ih hm (Nat.le_of_succ_le_succ hrounds)
    · rfl

/-- With a limit below the highest number a call ends, however it fares: the counter has
not more numbers to go through. -/
theorem attempt_isSome (hmax : retry ≠ Int32.maxValue) (hrounds : 2 ^ 32 ≤ rounds.length) :
    (attempt retry interval count rounds).isSome = true := by
  have hleft : left retry count = some (retry.toInt - (count + 1).toInt + 1).toNat := if_neg hmax
  refine attempt_of_left hleft ?_
  have hlow := Int32.le_toInt (count + 1)
  have hhigh := Int32.toInt_lt retry
  omega

end Call

/-! ### All calls of a lock -/

/-- A lock keeps the books of all its calls exactly if each is over in time, with the
counter as the calls before left it. -/
theorem attempts_iff (calls : List Call) :
    (∀ r ∈ attempts 0 calls, Bookkept r.call.retry r.outcome) ↔
      ∀ r ∈ attempts 0 calls, r.call.InTime r.count := by
  have hreport : ∀ (count : Int32), ∀ r ∈ attempts count calls, ∃ count',
      attempt r.call.retry r.call.interval r.count r.call.rounds = some (r.outcome, count') := by
    induction calls with
    | nil => exact fun _ _ hr => nomatch hr
    | cons call rest ih =>
      intro count r hr
      rw [attempts] at hr
      split at hr
      · cases hr
      · rename_i outcome count' hcall
        rcases List.mem_cons.mp hr with rfl | hr
        · exact ⟨count', hcall⟩
        · exact ih count' r hr
  refine forall₂_congr fun r hr => ?_
  obtain ⟨count', hcall⟩ := hreport 0 r hr
  exact bookkept_iff hcall

theorem orders_no_array (items : List Jsonb) :
    [("ns", Jsonb.str "orders")].lookup "meta" ≠ some (.arr items) := nofun

def secondOrder : Fact := ⟨⟨2⟩, ⟨[("ns", .str "orders")], orders_given, orders_no_array⟩, .null⟩

/-- One conflict is allowed for. -/
def published : Call where
  retry := 1
  rounds := [⟨some ⟨1⟩, .result { factsToPublish := [secondOrder], wasSkipped := false }, some true, false⟩]

/-- The second of two calls does nothing and says that it has tried too often. -/
theorem second_call_exceeded :
    (attempts 0 [published, published]).map (fun r => r.count) = [0, 1] ∧
      (∃ r ∈ attempts 0 [published, published], r.outcome.result = .optimisticRetriesExceeded 1 ∧
        r.outcome.events.length = 0) ∧
      ¬ ∀ r ∈ attempts 0 [published, published], Bookkept r.call.retry r.outcome := by
  have hruns : attempts 0 [published, published] =
      [⟨0, published, ⟨(body 0 (published.rounds.head (by decide))).1, .returned [_]⟩⟩,
        ⟨1, published, ⟨[], .optimisticRetriesExceeded 1⟩⟩] := rfl
  rw [hruns]
  refine ⟨rfl, ⟨_, List.mem_cons_of_mem _ (List.mem_singleton_self _), rfl, rfl⟩, fun hall => ?_⟩
  have hlimit := (hall _ (List.mem_cons_of_mem _ (List.mem_singleton_self _))).exceeded 1 rfl
  exact absurd hlimit (by decide)

end WithOptimisticLock
end FactCast
