import FactCast.Machine.Lockstep
import FactCast.Server.FactStoreGrpcService
import FactCast.Wire.ExceptionTransport

/-! The calls of a client.

A call is made of attempts. Before each of them the client shakes hands if it has to; a
failure that may be temporary is followed by another attempt, unless too many were made
lately. If some of the facts of a list are there already, the client can fall back to
publishing them one by one.

What the attempts are made on is a `Link`. On links that match, the same calls come to the
same answers (`alike_callAll`). -/
namespace FactCast.Calls
open FactStoreGrpcService ExceptionTransport Lockstep

/-! ### Attempts -/

/-- What attempts are made on. What they fail with is decoded. -/
structure Link (F σ : Type) where
  registerAttempt : σ → σ
  initializeIfNecessary : σ → Except Received Unit × σ
  call : (c : StoreCall F) → σ → Except Received c.Result × σ
  /-- The next attempt needs another handshake. -/
  reset : σ → σ
  attemptsExhausted : σ → Bool
  fastStateToken : σ → Bool

structure Settings where
  /-- Resilience is switched on. -/
  enabled : Bool
  ignoreDuplicateFacts : Bool

section Client
variable {F σ α : Type} (settings : Settings) (link : Link F σ)

def shouldRetry (e : Received) (x : σ) : Bool :=
  settings.enabled && e.isRetryable && !link.attemptsExhausted x

/-- The loop, as far as so many attempts. -/
def callAndHandle (block : Program σ Received α) : Nat → Program σ Received α
  | 0 => unending
  | attempts + 1 =>
    tryCatch
      (do
        modify link.registerAttempt
        step link.initializeIfNecessary
        block)
      fun e => do
        if ← shouldRetry settings link e <$> get then
          modify link.reset
          callAndHandle block attempts
        else throw e

def isDuplicateFactException : Received → Bool
  | .same e => e.instanceOf (ExceptionClass.factcast "core.DuplicateFactException")
  | _ => false

def publishBlock (one : F → Program σ Received Unit) (facts : List F) : Program σ Received Unit :=
  tryCatch (step (link.call (.publish facts))) fun e =>
    if isDuplicateFactException e && settings.ignoreDuplicateFacts then
      -- if it is only one, just skip
      if facts.length > 1 then facts.forM one else pure ()
    else throw e

/-- A single fact is not published by itself again. -/
def publishOne (attempts : Nat) (f : F) : Program σ Received Unit :=
  callAndHandle settings link (publishBlock settings link (fun _ => pure ()) [f]) attempts

def publish (attempts : Nat) (facts : List F) : Program σ Received Unit :=
  callAndHandle settings link (publishBlock settings link (publishOne settings link attempts) facts) attempts

/-- Without fast tokens the current state is any state. -/
def call (attempts : Nat) : (c : StoreCall F) → Program σ Received c.Result
  | .publish facts => publish settings link attempts facts
  | .currentStateFor specs => do
    if ← link.fastStateToken <$> get then
      callAndHandle settings link (step (link.call (.currentStateFor specs))) attempts
    else callAndHandle settings link (step (link.call (.stateFor specs))) attempts
  | c => callAndHandle settings link (step (link.call c)) attempts

end Client

section Once
variable {F σ α : Type} {settings : Settings} {link : Link F σ}

/-- With resilience switched off a call is one attempt. -/
theorem callAndHandle_off (hoff : settings.enabled = false) (block : Program σ Received α) (attempts : Nat) (x : σ) :
    (callAndHandle settings link block (attempts + 1)).run.run x =
      match link.initializeIfNecessary (link.registerAttempt x) with
      | (.ok (), x) => block.run.run x
      | (.error e, x) => some (.error e, x) := by
  have hthrow : ∀ (e : Received) (x : σ), (do
      if ← shouldRetry settings link e <$> get then
        modify link.reset
        callAndHandle settings link block attempts
      else throw e : Program σ Received α).run.run x = some (.error e, x) := by
    intro e x
    have hno : shouldRetry settings link e x = false := by simp only [shouldRetry, hoff, Bool.false_and]
    show (if shouldRetry settings link e x = true then _ else throw e : Program σ Received α).run.run x = _
    rw [hno]
    rfl
  unfold callAndHandle
  rw [run_tryCatch, StateT.run_bind, run_bind, run_modify]
  simp only [Option.bind_some, run_bind, run_step]
  rcases link.initializeIfNecessary (link.registerAttempt x) with ⟨e | _, y⟩
  · exact hthrow e y
  · show (block.run.run y).bind _ = block.run.run y
    rcases block.run.run y with _ | ⟨e | a, z⟩
    · rfl
    · exact hthrow e z
    · rfl

/-- Where duplicates are not ignored, facts are published all at once. -/
theorem publishBlock_off (hoff : settings.ignoreDuplicateFacts = false) (one : F → Program σ Received Unit)
    (facts : List F) : publishBlock settings link one facts = step (link.call (.publish facts)) :=
  tryCatch_throw fun e => if_neg (by simp only [hoff, Bool.and_false, Bool.false_eq_true, not_false_eq_true])

end Once

/-! ### Calls one after another -/

/-- What comes of a subscription is told its observer. -/
def answered {F : Type} : StoreCall F → Bool
  | .subscribe _ => false
  | _ => true

/-- A call with an answer. -/
abbrev Answered (F : Type) := { c : StoreCall F // answered c = true }

/-- An answer with its call. -/
abbrev Answer (F : Type) := Σ c : Answered F, Except Received c.1.Result

section Client
variable {F σ : Type} (settings : Settings) (link : Link F σ)

/-- Whatever a call throws, the next one is made. -/
def callAll (attempts : Nat) : List (Answered F) → StateT σ Option (List (Answer F))
  | [] => pure []
  | c :: rest => do
    let answer ← (call settings link attempts c.1).run
    let answers ← callAll attempts rest
    pure (⟨c, answer⟩ :: answers)

end Client

/-! ### Links that match -/

/-- The attempts that calls can lead to. -/
inductive Attempted {F : Type} (calls : List (Answered F)) : StoreCall F → Prop where
  | call {c : Answered F} : c ∈ calls → Attempted calls c.1
  | one {facts : List F} {f : F} : ⟨.publish facts, rfl⟩ ∈ calls → f ∈ facts → Attempted calls (.publish [f])
  | state {specs : List FactSpec} : ⟨.currentStateFor specs, rfl⟩ ∈ calls → Attempted calls (.stateFor specs)

/-- Over related states, what is done on one link comes to the same on the other. -/
structure Matches {F σ σ' : Type} (R : σ → σ' → Prop) (asked : StoreCall F → Prop) (link : Link F σ)
    (link' : Link F σ') : Prop where
  registerAttempt : ∀ x y, R x y → R (link.registerAttempt x) (link'.registerAttempt y)
  initializeIfNecessary : ∀ x y, R x y → Same R (link.initializeIfNecessary x) (link'.initializeIfNecessary y)
  call : ∀ c, asked c → ∀ x y, R x y → Same R (link.call c x) (link'.call c y)
  reset : ∀ x y, R x y → R (link.reset x) (link'.reset y)
  attemptsExhausted : ∀ x y, R x y → link.attemptsExhausted x = link'.attemptsExhausted y
  fastStateToken : ∀ x y, R x y → link.fastStateToken x = link'.fastStateToken y

section Agree
variable {F σ σ' α : Type} {settings : Settings} {R : σ → σ' → Prop} {asked : StoreCall F → Prop}
  {link : Link F σ} {link' : Link F σ'}

theorem alike_callAndHandle (h : Matches R asked link link') {block : Program σ Received α}
    {block' : Program σ' Received α} (hblock : Alike R block.run block'.run) (attempts : Nat) :
    Alike R (callAndHandle settings link block attempts).run (callAndHandle settings link' block' attempts).run := by
  induction attempts with
  | zero => exact alike_unending
  | succ attempts ih =>
    refine alike_tryCatch ?_ fun e => ?_
    · exact alike_bind (alike_modify h.registerAttempt) fun _ =>
        alike_bind (alike_step h.initializeIfNecessary) fun _ => hblock
    · have hretry : ∀ x y, R x y → shouldRetry settings link e x = shouldRetry settings link' e y :=
        fun x y hxy => by simp only [shouldRetry, h.attemptsExhausted x y hxy]
      refine alike_bind (alike_gets hretry) fun again => ?_
      cases again with
      | true => exact alike_bind (alike_modify h.reset) fun _ => ih
      | false => exact alike_throw e

theorem alike_publishBlock (h : Matches R asked link link') {one : F → Program σ Received Unit}
    {one' : F → Program σ' Received Unit} {facts : List F} (hfacts : asked (.publish facts))
    (hone : ∀ f ∈ facts, Alike R (one f).run (one' f).run) :
    Alike R (publishBlock settings link one facts).run (publishBlock settings link' one' facts).run := by
  refine alike_tryCatch (alike_step (h.call _ hfacts)) fun e => ?_
  split
  · split
    · exact alike_forM hone
    · exact alike_return ()
  · exact alike_throw e

theorem alike_publish (h : Matches R asked link link') (attempts : Nat) {facts : List F}
    (hfacts : asked (.publish facts)) (hone : ∀ f ∈ facts, asked (.publish [f])) :
    Alike R (publish settings link attempts facts).run (publish settings link' attempts facts).run := by
  have hpublishOne : ∀ f ∈ facts,
      Alike R (publishOne settings link attempts f).run (publishOne settings link' attempts f).run :=
    fun f hf => alike_callAndHandle h (alike_publishBlock h (hone f hf) fun _ _ => alike_return ()) attempts
  exact alike_callAndHandle h (alike_publishBlock h hfacts hpublishOne) attempts

theorem alike_call (attempts : Nat) {calls : List (Answered F)} (h : Matches R (Attempted calls) link link')
    {c : Answered F} (hc : c ∈ calls) :
    Alike R (call settings link attempts c.1).run (call settings link' attempts c.1).run := by
  have hone : ∀ c, Attempted calls c →
      Alike R (callAndHandle settings link (step (link.call c)) attempts).run
        (callAndHandle settings link' (step (link'.call c)) attempts).run :=
    fun c hc => alike_callAndHandle h (alike_step (h.call c hc)) attempts
  obtain ⟨c, hanswered⟩ := c
  cases c with
  | publish facts => exact alike_publish h attempts (.call hc) fun f hf => .one hc hf
  | currentStateFor specs =>
    refine alike_bind (alike_gets h.fastStateToken) fun fast => ?_
    cases fast with
    | true => exact hone _ (.call hc)
    | false => exact hone _ (.state hc)
  | _ => exact hone _ (.call hc)

/-- On links that match, calls are answered the same. -/
theorem alike_callAll (attempts : Nat) {calls made : List (Answered F)}
    (h : Matches R (Attempted calls) link link') (hmade : ∀ c ∈ made, c ∈ calls) :
    Alike R (callAll settings link attempts made) (callAll settings link' attempts made) := by
  induction made with
  | nil => exact alike_pure []
  | cons c rest ih =>
    refine (alike_call attempts h (hmade c (List.mem_cons_self ..))).bind fun answer => ?_
    exact (ih fun c hc => hmade c (List.mem_cons_of_mem _ hc)).bind fun answers => alike_pure _

end Agree

end FactCast.Calls
