import FactCast.Core.Subscription
import FactCast.Server.Transport
import FactCast.Store.Blacklist
import FactCast.Store.PipelineOrder
import FactCast.Store.StreamSignals

/-! From the log to the client, all the way.

A subscription puts together what the other modules tell one by one: the stream hands
its rows to a pipeline, which drops those that no specification's matcher accepts and
those that are blacklisted, and transforms the rest; the pipeline ends in the
subscription, whose observer sends messages to the client. What closes the subscription
closes the stream, and what fails in the stream is notified as an error.

In every run the client is told a beginning of what it is due, each fact once and in the
order of serials; what was there when the stream connected before it is told that it has
caught up; and if it is told that all is complete, then exactly what is due
(`delivered_in_order`). -/
namespace FactCast.PgSubscriptionFactory
open Transport

abbrev Signal := BufferedTransformingServerPipeline.Signal
abbrev Throwable := BufferedTransformingServerPipeline.Throwable

/-- What a subscription is created with. The service answers each request in its place, or
refuses them all; what else it may throw is told in `Store/FollowErrors.lean`. -/
structure Setting where
  reader : UuidReader
  matcher : PostQueryMatcher
  blocked : Finset UUID
  stage : BufferedTransformingServerPipeline
  turned : TransformationRequest → PgFact
  answers : ∀ n requests facts, stage.transform n requests = .ok facts → facts = requests.map turned
  refuses : ∀ n requests e, stage.transform n requests = .error e → ∃ message, e = .transformationException message
  /-- The texts of a fact. -/
  texts : Fact → JsonFact
  clientMaxInboundMessageSize : Int
  supportsFastForward : Bool

/-! ### The pipeline -/

section Pipeline
variable (d : Setting)

/-- A row becomes a fact, unless it cannot be read. -/
def given : PgFactStream.Signal → Option Signal
  | .fact row => (PgFact.from_ d.reader row).map .fact
  | .flush => some .flush
  | .fastForward id ser => some (.fastForward ⟨some id, ser⟩)
  | .catchup => some .catchup
  | .complete => some .complete
  | .error => some (.error (.other "runtime"))

/-- `PostQueryFilterServerPipeline`. -/
def unmatched : Signal → Bool
  | .fact fact => !(d.matcher.canBeSkipped || d.matcher.test fact)
  | _ => false

/-- `BlacklistFilterServerPipeline`. -/
def blacklisted : Signal → Bool
  | .fact fact => Blacklist.isBlocked d.blocked fact.id
  | _ => false

/-- What reaches the transforming stage. -/
def input (x : PgFactStream.Signal) : Option Signal :=
  ((given d x).filter fun s => !unmatched d s).filter fun s => !blacklisted d s

def toFact (f : PgFact) : Fact := ⟨f.id, f.jsonHeader, f.jsonPayload⟩

/-- `Signal.pass`: what a signal calls on the subscription. -/
def pass : Signal → SubscriptionImpl.Call Throwable
  | .flush => .flush
  | .catchup => .notifyCatchup
  | .complete => .notifyComplete
  | .fastForward position => .notifyFastForward position
  | .factStreamInfo info => .notifyFactStreamInfo info
  | .fact fact => .notifyElement (toFact fact)
  | .error e => .notifyError e

/-- The adapter as the observer of the subscription. A position that is passed on has an identifier. -/
def observe (a : GrpcObserverAdapter) : SubscriptionImpl.Callback Throwable → GrpcObserverAdapter
  | .onNext element => a.onNext (d.texts element)
  | .onFastForward position => position.factId.elim a fun id => a.onFastForward id position.serial.toNat
  | .onFactStreamInfo _ => a.send (.onNext .info)
  | .onCatchup => a.onCatchup
  | .onComplete => a.onComplete
  | .onError _ => a.onError
  | .flush => a.flush

structure Chain where
  stage : BufferedTransformingServerPipeline.State
  subscription : SubscriptionImpl.State Throwable
  adapter : GrpcObserverAdapter

/-- A method of the subscription is called, and its callback returns. -/
def Chain.call (c : Chain) (m : SubscriptionImpl.Call Throwable) : Chain :=
  let called := SubscriptionImpl.call { c.subscription with events := .called m :: c.subscription.events } m
  match called.running with
  | callback :: rest =>
    { c with
      subscription := SubscriptionImpl.afterwards { called with running := rest } callback
      adapter := observe d c.adapter callback }
  | [] => { c with subscription := called }

def Chain.passAll (c : Chain) (signals : List Signal) : Chain := signals.foldl (fun c s => c.call d (pass s)) c

/-- One signal through all the stages. -/
def Chain.process (c : Chain) (x : PgFactStream.Signal) : Chain :=
  match input d x with
  | none => c
  | some signal =>
    let stage := d.stage.process c.stage signal
    Chain.passAll d { c with stage } (stage.parent.drop c.stage.parent.length)

/-- `ServerPipelineFactory.create`, behind an adapter for the client. -/
def create : Chain where
  stage := {}
  subscription := { closed := false, future := fun _ => none, running := [], events := [] }
  adapter := .of_ d.clientMaxInboundMessageSize d.supportsFastForward

end Pipeline

/-! ### The subscription -/

structure State where
  stream : PgFactStream.State
  chain : Chain

section System
variable (d : Setting) (db : Database) (request : SubscriptionRequest)

def readable : PgFactStream.Signal → Bool
  | .fact row => (PgFact.from_ d.reader row).isSome
  | _ => true

/-- What the stream has signalled goes through the pipeline. A user may close the subscription. -/
def next (s : State) (stream : PgFactStream.State) (a : PgFactStream.Action) : Chain :=
  let processed := (stream.sent.drop s.stream.sent.length).foldl (Chain.process d) s.chain
  match a with
  | .close => processed.call d .close
  | _ => processed

/-- The stream takes a step. A subscription that is closed closes the stream, whoever closed it. -/
def step (s : State) (a : PgFactStream.Action) : Option State :=
  (PgFactStream.step db request s.stream a).bind fun stream =>
    if (stream.sent.drop s.stream.sent.length).all (readable d) then
      let chain := next d s stream a
      some { stream := { stream with disconnected := stream.disconnected || chain.subscription.closed }, chain }
    else none

structure Start (s : State) : Prop where
  stream : PgFactStream.Start s.stream
  connected : s.stream.disconnected = false
  chain : s.chain = create d

def subscribing : Machine State PgFactStream.Action where
  Start := Start d
  step := step d db request

/-- What the client is told by the messages sent so far. -/
def State.told (s : State) : List Event := (ClientStreamObserver.receiveAll {} s.chain.adapter.sent).told

def factOf : Event → Option JsonFact
  | .fact fact => some fact
  | _ => none

def factsTold (events : List Event) : List JsonFact := events.filterMap factOf

/-- A fact as it is delivered. -/
def delivered (f : PgFact) : JsonFact :=
  d.texts (toFact (((d.stage.prepareTransformation f).map d.turned).getD f))

/-- What a row comes to: nothing, if its fact is filtered out. -/
def visible (row : FactRow) : Option JsonFact :=
  (((PgFact.from_ d.reader row).filter fun f => d.matcher.canBeSkipped || d.matcher.test f).filter fun f =>
    !Blacklist.isBlocked d.blocked f.id).map (delivered d)

/-- The matching facts of a log above a serial, as they are delivered. -/
def due (serial : Nat) (log : List FactRow) : List JsonFact :=
  (Log.after FactRow.ser (PgFactStream.matching db request) serial log).filterMap (visible d)

/-- The fact fits an empty buffer. -/
def Fits (fact : JsonFact) : Prop :=
  StagedFacts.byteSizeOf fact <
    (StagedFacts.of_ (calculateMaxInboundMessageSize d.clientMaxInboundMessageSize)).maxBytes

instance (fact : JsonFact) : Decidable (Fits d fact) := inferInstanceAs (Decidable (_ < _))

end System

/-! ### The adapter -/

section Adapter
variable {d : Setting} {a : GrpcObserverAdapter}

/-- What the client hears of a signal. -/
def heard (d : Setting) : Signal → List Event
  | .fact f => [.fact (d.texts (toFact f))]
  | .fastForward position =>
    if d.supportsFastForward then position.factId.toList.map fun id => .fastForward id position.serial.toNat else []
  | .catchup => [.catchup]
  | .complete => [.complete]
  | .error _ => [.error]
  | _ => []

/-- The signal is the last one. -/
def terminal : Signal → Bool
  | .complete => true
  | .error _ => true
  | _ => false

def callback : Signal → SubscriptionImpl.Callback Throwable
  | .flush => .flush
  | .catchup => .onCatchup
  | .complete => .onComplete
  | .fastForward position => .onFastForward position
  | .factStreamInfo info => .onFactStreamInfo info
  | .fact fact => .onNext (toFact fact)
  | .error e => .onError e

/-- The buffer counts what it holds, against the budget of the client. -/
structure Sound (d : Setting) (a : GrpcObserverAdapter) : Prop where
  bytes : a.stagedFacts.staged = [] → a.stagedFacts.currentBytes = 0
  budget : a.stagedFacts.maxBytes =
    (StagedFacts.of_ (calculateMaxInboundMessageSize d.clientMaxInboundMessageSize)).maxBytes
  supports : a.supportsFastForward = d.supportsFastForward

/-- Nothing sent so far ends the subscription of the client. -/
def Going (a : GrpcObserverAdapter) : Prop := ∀ m ∈ a.sent, m.open_ = true

/-- The last message is sent, and says the last there is to say. -/
def Gone (a : GrpcObserverAdapter) : Prop := a.stagedFacts.staged = [] ∧
  (ClientStreamObserver.receiveAll {} a.sent).told = a.events.filter Event.deliverable

theorem sound_send {message : Message} (h : Sound d a) : Sound d (a.send message) := ⟨h.bytes, h.budget, h.supports⟩

theorem sound_flush (h : Sound d a) : Sound d a.flush := by
  unfold GrpcObserverAdapter.flush
  split
  · exact h
  · exact ⟨fun _ => rfl, h.budget, h.supports⟩

theorem sound_add {fact : JsonFact} (h : Sound d a) :
    Sound d { a with stagedFacts := (a.stagedFacts.add fact).1 } := by
  unfold StagedFacts.add
  split
  · exact ⟨fun hnil => absurd hnil (by simp), h.budget, h.supports⟩
  · exact h

theorem sound_onNext {fact : JsonFact} (h : Sound d a) : Sound d (a.onNext fact) := by
  unfold GrpcObserverAdapter.onNext
  split
  · rename_i stagedFacts hadd
    have : Sound d { a with stagedFacts := (a.stagedFacts.add fact).1 } := sound_add h
    rw [hadd] at this
    exact this
  · exact sound_add (sound_flush h)

/-- What fits an empty buffer is taken, if need be after a flush. -/
theorem takes_of_fits {fact : JsonFact} (h : Sound d a) (hfits : Fits d fact) : a.takes (.onNext fact) = true := by
  rw [GrpcObserverAdapter.takes_onNext]
  have hflush := sound_flush h
  have hempty : a.flush.stagedFacts.fits fact = true := by
    unfold StagedFacts.fits
    rw [hflush.bytes GrpcObserverAdapter.staged_flush, Int.zero_add, hflush.budget]
    have hint : int32 (StagedFacts.byteSizeOf fact) = StagedFacts.byteSizeOf fact := by
      unfold StagedFacts.byteSizeOf int32
      rw [Int.bmod_bmod]
    rw [hint]
    exact decide_eq_true hfits
  rw [hempty, Bool.or_true]

theorem told_going (h : Going a) :
    (ClientStreamObserver.receiveAll {} a.sent).told = a.events.filter Event.deliverable := by
  rw [ClientStreamObserver.receiveAll_open a.sent rfl h]
  rfl

theorem going_send {message : Message} (h : Going a) (hopen : message.open_ = true) : Going (a.send message) := by
  intro m hm
  rcases List.mem_append.mp hm with hm | hm
  · exact h m hm
  · rw [List.mem_singleton.mp hm]
    exact hopen

theorem staged_finish (ending : Ending) : (a.finish ending).stagedFacts.staged = [] := by
  cases ending <;> exact GrpcObserverAdapter.staged_flush

theorem gone_finish (ending : Ending) (h : Going a) : Gone (a.finish ending) :=
  ⟨staged_finish ending, GrpcObserverAdapter.told_finish ending h⟩

theorem taken_finish (ending : Ending) : (a.finish ending).taken = a.taken ++ [ending.event] := by
  rw [GrpcObserverAdapter.taken, GrpcObserverAdapter.events_finish, staged_finish, List.map_nil, List.append_nil]

/-- The signal leaves nothing staged. -/
def settles : Signal → Bool
  | .flush => true
  | .catchup => true
  | s => terminal s

/-- What the observer makes of a signal while the subscription is open. -/
structure Heard (d : Setting) (a a' : GrpcObserverAdapter) (s : Signal) : Prop where
  sound : Sound d a'
  taken : a'.taken = a.taken ++ heard d s
  going : terminal s = false → Going a'
  gone : terminal s = true → Gone a'
  settled : settles s = true → a'.stagedFacts.staged = []

theorem heard_finish {s : Signal} (ending : Ending) (h : Sound d a) (hgoing : Going a)
    (hs : terminal s = true ∧ heard d s = [ending.event]) : Heard d a (a.finish ending) s where
  sound := by
    cases ending with
    | onComplete => exact sound_send (sound_send (sound_flush h))
    | onError => exact sound_send (sound_flush h)
  taken := by rw [taken_finish, hs.2]
  going := fun hopen => nomatch hs.1.symm.trans hopen
  gone := fun _ => gone_finish ending hgoing
  settled := fun _ => staged_finish ending

theorem heard_call {s : Signal} {m : Call} (h : Sound d (a.call m)) (hgoing : Going a) (htakes : a.takes m = true)
    (hopen : terminal s = false) (hevents : m.events = heard d s)
    (hsettled : settles s = true → (a.call m).stagedFacts.staged = []) : Heard d a (a.call m) s where
  sound := h
  taken := by rw [GrpcObserverAdapter.taken_call htakes, hevents]
  going := fun _ => GrpcObserverAdapter.open_call hgoing
  gone := fun hlast => nomatch hlast.symm.trans hopen
  settled := hsettled

/-- Facts that fit get through, and a fast-forward behind which nothing waits. -/
theorem heard_observe {s : Signal} (h : Sound d a) (hgoing : Going a)
    (hfits : ∀ f, s = .fact f → Fits d (d.texts (toFact f)))
    (hrested : ∀ position, s = .fastForward position → a.stagedFacts.staged = []) :
    Heard d a (observe d a (callback s)) s := by
  cases s with
  | fact f =>
    exact heard_call (m := .onNext (d.texts (toFact f))) (sound_onNext h) hgoing (takes_of_fits h (hfits f rfl)) rfl rfl nofun
  | flush =>
    exact heard_call (m := .flush) (sound_flush h) hgoing rfl rfl rfl fun _ => GrpcObserverAdapter.staged_flush
  | catchup =>
    exact heard_call (m := .onCatchup) (sound_send (sound_flush h)) hgoing rfl rfl rfl
      fun _ => GrpcObserverAdapter.staged_flush
  | complete => exact heard_finish .onComplete h hgoing ⟨rfl, rfl⟩
  | error e => exact heard_finish .onError h hgoing ⟨rfl, rfl⟩
  | factStreamInfo info =>
    refine ⟨sound_send h, ?_, fun _ => going_send hgoing rfl, nofun, nofun⟩
    show (a.send _).events ++ _ = a.taken ++ []
    rw [GrpcObserverAdapter.events_send, List.append_nil]
    show a.events ++ [] ++ _ = a.taken
    rw [List.append_nil]
    rfl
  | fastForward position =>
    have hstaged := hrested position rfl
    obtain ⟨factId, serial⟩ := position
    cases factId with
    | none =>
      refine ⟨h, ?_, fun _ => hgoing, nofun, nofun⟩
      show a.taken = a.taken ++ heard d (.fastForward ⟨none, serial⟩)
      simp [heard]
    | some id =>
      show Heard d a (a.onFastForward id serial.toNat) _
      unfold GrpcObserverAdapter.onFastForward
      split
      · rename_i hsupports
        refine ⟨sound_send h, ?_, fun _ => going_send hgoing rfl, nofun, nofun⟩
        show (a.send _).events ++ a.stagedFacts.staged.map .fact = _
        rw [GrpcObserverAdapter.events_send, hstaged]
        simp [GrpcObserverAdapter.taken, hstaged, heard, ← h.supports, hsupports, Message.events]
      · rename_i hsupports
        refine ⟨h, ?_, fun _ => hgoing, nofun, nofun⟩
        simp [heard, ← h.supports, hsupports]

end Adapter

/-! ### The subscription in between -/

section Call
variable {d : Setting} {c : Chain} {s : Signal}
open SubscriptionImpl (closed_settle running_settle closed_settleBoth)

theorem running_settleBoth {σ : SubscriptionImpl.State Throwable} {outcome : SubscriptionImpl.Outcome Throwable} :
    (SubscriptionImpl.settleBoth σ outcome).running = σ.running := by
  rw [SubscriptionImpl.settleBoth, running_settle, running_settle]

theorem closed_close {σ : SubscriptionImpl.State Throwable} : (SubscriptionImpl.close σ).closed = true := by
  unfold SubscriptionImpl.close SubscriptionImpl.unlessClosed
  split
  · rename_i hclosed
    exact hclosed
  · show (SubscriptionImpl.settleBoth _ _).closed = true
    rw [closed_settleBoth]

theorem running_close {σ : SubscriptionImpl.State Throwable} : (SubscriptionImpl.close σ).running = σ.running := by
  unfold SubscriptionImpl.close SubscriptionImpl.unlessClosed
  split
  · rfl
  · show (SubscriptionImpl.settleBoth _ _).running = _
    rw [running_settleBoth]

/-- The subscription once a method of it is called. -/
def called (c : Chain) (m : SubscriptionImpl.Call Throwable) : SubscriptionImpl.State Throwable :=
  SubscriptionImpl.call { c.subscription with events := .called m :: c.subscription.events } m

theorem call_quiet {m : SubscriptionImpl.Call Throwable} (h : (called c m).running = []) :
    c.call d m = { c with subscription := called c m } := by
  unfold Chain.call
  unfold called at h ⊢
  simp only [h]

theorem call_observed {m : SubscriptionImpl.Call Throwable} {callback : SubscriptionImpl.Callback Throwable}
    (h : (called c m).running = [callback]) : c.call d m =
      { c with
        subscription := SubscriptionImpl.afterwards { called c m with running := [] } callback
        adapter := observe d c.adapter callback } := by
  unfold Chain.call
  unfold called at h ⊢
  simp only [h]

/-- An open subscription passes the signal on, and is closed by the last one. -/
theorem call_open (hrunning : c.subscription.running = []) (hopen : c.subscription.closed = false) :
    (c.call d (pass s)).adapter = observe d c.adapter (callback s) ∧ (c.call d (pass s)).stage = c.stage ∧
      (c.call d (pass s)).subscription.running = [] ∧ (c.call d (pass s)).subscription.closed = terminal s := by
  obtain ⟨stage, ⟨closed, future, running, events⟩, adapter⟩ := c
  obtain rfl : running = [] := hrunning
  obtain rfl : closed = false := hopen
  cases s with
  | catchup => exact ⟨rfl, rfl, running_settle, closed_settle⟩
  | complete => exact ⟨rfl, rfl, running_close.trans running_settleBoth, closed_close⟩
  | error e =>
    rw [call_observed (congrArg _ running_settleBoth)]
    exact ⟨rfl, rfl, running_close, closed_close⟩
  | _ => exact ⟨rfl, rfl, rfl, rfl⟩

/-- A closed one passes on nothing but flushes. -/
theorem call_closed (hrunning : c.subscription.running = []) (hclosed : c.subscription.closed = true)
    (m : SubscriptionImpl.Call Throwable) :
    ((c.call d m).adapter = c.adapter ∨ (c.call d m).adapter = c.adapter.flush) ∧ (c.call d m).stage = c.stage ∧
      (c.call d m).subscription.running = [] ∧ (c.call d m).subscription.closed = true := by
  obtain ⟨stage, ⟨closed, future, running, events⟩, adapter⟩ := c
  obtain rfl : running = [] := hrunning
  obtain rfl : closed = true := hclosed
  cases m with
  | flush => exact ⟨.inr rfl, rfl, rfl, rfl⟩
  | _ => exact ⟨.inl rfl, rfl, rfl, rfl⟩

/-- The user closes it. -/
theorem call_close (hrunning : c.subscription.running = []) :
    (c.call d .close).adapter = c.adapter ∧ (c.call d .close).stage = c.stage ∧
      (c.call d .close).subscription.running = [] ∧ (c.call d .close).subscription.closed = true := by
  obtain ⟨stage, ⟨closed, future, running, events⟩, adapter⟩ := c
  obtain rfl : running = [] := hrunning
  have hcalled : (called ⟨stage, ⟨closed, future, [], events⟩, adapter⟩ .close).running = [] := running_close
  rw [call_quiet hcalled]
  exact ⟨rfl, rfl, running_close, closed_close⟩

end Call

/-! ### The transforming stage in between -/

section Stage
open BufferedTransformingServerPipeline (process_eq doFlush_batch flushIfNecessary output replaced)
variable {d : Setting} {held : List Signal} {x : Signal} {s : BufferedTransformingServerPipeline.State}

/-- What the stage holds back: facts, behind one that is to be transformed. -/
structure Waiting (d : Setting) (held : List Signal) (s : BufferedTransformingServerPipeline.State) : Prop where
  buffer : s.buffer = held.map d.stage.supplier
  mode : s.mode = .direct ∧ held = [] ∨ s.mode = .buffering ∧ d.stage.Opens held
  facts : ∀ y ∈ held, y.indicatesFlush = false

/-- What the stage passes on when a signal comes: nothing, while it holds back facts; or all
it has held back and the signal; or an error in their place. -/
def Passes (d : Setting) (held : List Signal) (x : Signal) (held' passed : List Signal) : Prop :=
  (passed = [] ∧ held' = held ++ [x] ∧ x.indicatesFlush = false) ∨
  (held' = [] ∧ passed = (held ++ [x]).map (d.stage.replaced d.turned)) ∨
  (held' = [] ∧ ∃ message, passed = [.error (.transformationException message)])

theorem replaced_eq_self (h : (d.stage.supplier x).request? = none) : d.stage.replaced d.turned x = x := by
  unfold BufferedTransformingServerPipeline.supplier at h
  unfold replaced
  split at h
  · rename_i f
    cases hf : d.stage.prepareTransformation f with
    | none => rfl
    | some request =>
      rw [hf] at h
      cases h
  · rfl

theorem waiting_process (h : Waiting d held s) (x : Signal) : ∃ held' passed,
    (d.stage.process s x).parent = s.parent ++ passed ∧ Waiting d held' (d.stage.process s x) ∧
      Passes d held x held' passed := by
  rw [process_eq]
  by_cases hdirect : (d.stage.supplier x).request? = none ∧ s.mode = .direct
  · rw [if_pos hdirect]
    have hempty : held = [] := by
      rcases h.mode with ⟨_, hempty⟩ | ⟨hmode, _⟩
      · exact hempty
      · cases hdirect.2.symm.trans hmode
    subst hempty
    refine ⟨[], [x], rfl, ⟨h.buffer, h.mode, h.facts⟩, .inr (.inl ⟨rfl, ?_⟩)⟩
    rw [List.nil_append, List.map_singleton, replaced_eq_self hdirect.1]
  · rw [if_neg hdirect]
    have hopens : d.stage.Opens (held ++ [x]) := by
      rcases h.mode with ⟨hmode, rfl⟩ | ⟨_, y, rest, rfl, hy⟩
      · exact ⟨x, [], rfl, fun hnone => hdirect ⟨hnone, hmode⟩⟩
      · exact ⟨y, rest ++ [x], rfl, hy⟩
    have hbuffer : s.buffer ++ [d.stage.supplier x] = (held ++ [x]).map d.stage.supplier := by
      rw [List.map_append, ← h.buffer]
      rfl
    unfold flushIfNecessary
    split
    · obtain ⟨hb, hm, _, _, hparent⟩ := doFlush_batch d.answers
        (s := { s with mode := .buffering }.add (d.stage.supplier x)) hbuffer hopens
      refine ⟨[], d.stage.output d.turned s.calls (.batch (held ++ [x])), hparent, ⟨hb, .inl ⟨hm, rfl⟩, nofun⟩, ?_⟩
      unfold output
      dsimp only
      cases hcall : d.stage.transform s.calls (d.stage.requests (held ++ [x])) with
      | ok facts => exact .inr (.inl ⟨rfl, rfl⟩)
      | error e =>
        obtain ⟨message, rfl⟩ := d.refuses _ _ _ hcall
        exact .inr (.inr ⟨rfl, message, rfl⟩)
    · rename_i hwait
      have hfact : x.indicatesFlush = false := by
        simp only [Option.any_some, not_or] at hwait
        exact Bool.eq_false_iff.mpr hwait.2
      refine ⟨held ++ [x], [], (List.append_nil _).symm, ⟨hbuffer, .inr ⟨rfl, hopens⟩, fun y hy => ?_⟩,
        .inl ⟨rfl, rfl, hfact⟩⟩
      rcases List.mem_append.mp hy with hy | hy
      · exact h.facts y hy
      · rw [List.mem_singleton.mp hy]
        exact hfact

end Stage

/-! ### What goes through -/

section Pass
variable {d : Setting} {c c' : Chain} {s : Signal} {signals : List Signal}

/-- A chain at rest: no callback is running, and what the adapter has sent is told as it was meant. -/
structure Steady (d : Setting) (c : Chain) : Prop where
  running : c.subscription.running = []
  sound : Sound d c.adapter
  told : Going c.adapter ∨ Gone c.adapter
  going : c.subscription.closed = false → Going c.adapter

/-- A closed subscription stays closed, and the client hears nothing new. -/
structure Mute (d : Setting) (c c' : Chain) : Prop where
  steady : Steady d c'
  closed : c'.subscription.closed = true
  taken : c'.adapter.taken = c.adapter.taken
  stage : c'.stage = c.stage

theorem Mute.trans {c'' : Chain} (h : Mute d c c') (h' : Mute d c' c'') : Mute d c c'' :=
  ⟨h'.steady, h'.closed, h'.taken.trans h.taken, h'.stage.trans h.stage⟩

theorem flush_gone {a : GrpcObserverAdapter} (h : Gone a) : a.flush = a := by
  unfold GrpcObserverAdapter.flush
  rw [h.1]
  rfl

theorem told_flush {a : GrpcObserverAdapter} (h : Going a ∨ Gone a) : Going a.flush ∨ Gone a.flush := by
  rcases h with h | h
  · exact .inl (GrpcObserverAdapter.open_flush h)
  · rw [flush_gone h]
    exact .inr h

theorem mute_call (h : Steady d c) (hclosed : c.subscription.closed = true) (m : SubscriptionImpl.Call Throwable) :
    Mute d c (c.call d m) := by
  obtain ⟨hadapter, hstage, hrunning, hc⟩ := call_closed (d := d) h.running hclosed m
  have hopen : ∀ P : Prop, (c.call d m).subscription.closed = false → P := fun _ ho => nomatch hc.symm.trans ho
  rcases hadapter with hsame | hflushed
  · refine ⟨⟨hrunning, ?_, ?_, hopen _⟩, hc, ?_, hstage⟩
    · exact hsame.symm ▸ h.sound
    · exact hsame.symm ▸ h.told
    · rw [hsame]
  · refine ⟨⟨hrunning, ?_, ?_, hopen _⟩, hc, ?_, hstage⟩
    · exact hflushed.symm ▸ sound_flush h.sound
    · exact hflushed.symm ▸ told_flush h.told
    · rw [hflushed, GrpcObserverAdapter.taken_flush]

theorem mute_close (h : Steady d c) : Mute d c (c.call d .close) := by
  obtain ⟨hadapter, hstage, hrunning, hc⟩ := call_close (d := d) h.running
  refine ⟨⟨hrunning, ?_, ?_, fun ho => nomatch hc.symm.trans ho⟩, hc, ?_, hstage⟩
  · exact hadapter.symm ▸ h.sound
  · exact hadapter.symm ▸ h.told
  · rw [hadapter]

theorem mute_passAll (h : Steady d c) (hclosed : c.subscription.closed = true) (signals : List Signal) :
    Mute d c (c.passAll d signals) := by
  induction signals generalizing c with
  | nil => exact ⟨h, hclosed, rfl, rfl⟩
  | cons s rest ih =>
    have hs := mute_call h hclosed (pass s)
    exact hs.trans (ih hs.steady hs.closed)

/-- What comes of signals that the client hears. -/
structure Tells (d : Setting) (c : Chain) (signals : List Signal) (c' : Chain) : Prop where
  steady : Steady d c'
  taken : c'.adapter.taken = c.adapter.taken ++ signals.flatMap (heard d)
  stage : c'.stage = c.stage

theorem Tells.trans {more : List Signal} {c'' : Chain} (h : Tells d c signals c') (h' : Tells d c' more c'') :
    Tells d c (signals ++ more) c'' :=
  ⟨h'.steady, by rw [h'.taken, h.taken, List.flatMap_append, List.append_assoc],
    h'.stage.trans h.stage⟩

theorem tells_call (h : Steady d c) (hopen : c.subscription.closed = false)
    (hfits : ∀ f, s = .fact f → Fits d (d.texts (toFact f)))
    (hrested : ∀ position, s = .fastForward position → c.adapter.stagedFacts.staged = []) :
    Tells d c [s] (c.call d (pass s)) ∧ (c.call d (pass s)).subscription.closed = terminal s ∧
      (settles s = true → (c.call d (pass s)).adapter.stagedFacts.staged = []) := by
  obtain ⟨hadapter, hstage, hrunning, hclosed⟩ := call_open (d := d) (s := s) h.running hopen
  have hheard := heard_observe h.sound (h.going hopen) hfits hrested
  rw [← hadapter] at hheard
  refine ⟨⟨⟨hrunning, hheard.sound, ?_, fun ho => hheard.going (hclosed ▸ ho)⟩, ?_, hstage⟩, hclosed,
    hheard.settled⟩
  · cases hlast : terminal s with
    | true => exact .inr (hheard.gone hlast)
    | false => exact .inl (hheard.going hlast)
  · rw [hheard.taken, List.flatMap_singleton]

/-- Facts close nothing. -/
theorem tells_facts (h : Steady d c) (hopen : c.subscription.closed = false)
    (hall : ∀ s ∈ signals, ∃ f, s = .fact f ∧ Fits d (d.texts (toFact f))) :
    Tells d c signals (c.passAll d signals) ∧ (c.passAll d signals).subscription.closed = false := by
  induction signals generalizing c with
  | nil => exact ⟨⟨h, (List.append_nil _).symm, rfl⟩, hopen⟩
  | cons s rest ih =>
    obtain ⟨f, rfl, hf⟩ := hall s List.mem_cons_self
    obtain ⟨htells, hclosed, _⟩ := tells_call (s := .fact f) h hopen (fun g hg => by cases hg; exact hf) nofun
    obtain ⟨hrest, hlast⟩ := ih htells.steady hclosed fun s hs => hall s (List.mem_cons_of_mem _ hs)
    exact ⟨htells.trans hrest, hlast⟩

theorem passAll_append {more : List Signal} : c.passAll d (signals ++ more) = (c.passAll d signals).passAll d more :=
  List.foldl_append

end Pass

/-! ### What was fed -/

section Fed
variable {d : Setting} {c : Chain} {fed : List PgFactStream.Signal} {held : List Signal} {x : PgFactStream.Signal}

/-- A signal as it leaves the transforming stage. -/
abbrev turn (d : Setting) (s : Signal) : Signal := d.stage.replaced d.turned s

/-- What the client would hear of signals if all of them were answered. -/
def hears (d : Setting) (fed : List PgFactStream.Signal) : List Event :=
  ((fed.filterMap (input d)).map (turn d)).flatMap (heard d)

def isLast : PgFactStream.Signal → Bool
  | .complete => true
  | .error => true
  | _ => false

/-- The facts of the signals, as they are delivered, fit. -/
def FitAll (d : Setting) (fed : List PgFactStream.Signal) : Prop :=
  ∀ s ∈ (fed.filterMap (input d)).map (turn d), ∀ f, s = .fact f → Fits d (d.texts (toFact f))

/-- A chain after signals. -/
structure Fed (d : Setting) (fed : List PgFactStream.Signal) (held : List Signal) (c : Chain) : Prop where
  steady : Steady d c
  waiting : Waiting d held c.stage
  among : ∀ s ∈ held, s ∈ fed.filterMap (input d)
  /-- As long as the subscription is open nothing but what is held back is missing. -/
  heard : c.subscription.closed = false →
    c.adapter.taken ++ (held.map (turn d)).flatMap (heard d) = hears d fed ∧ ∀ x ∈ fed, isLast x = false
  flushed : c.subscription.closed = false → (fed = [] ∨ ∃ earlier, fed = earlier ++ [.flush]) →
    held = [] ∧ c.adapter.stagedFacts.staged = []
  facts : factsTold c.adapter.taken <+: factsTold (hears d fed)

/-- The client has heard of everything that was fed. -/
def Whole (d : Setting) (fed : List PgFactStream.Signal) (c : Chain) : Prop :=
  c.adapter.taken = hears d fed

/-- What more signals change. -/
structure Grows (d : Setting) (fed more : List PgFactStream.Signal) (c c' : Chain) : Prop where
  taken : c.adapter.taken <+: c'.adapter.taken
  closed : c.subscription.closed = true → c'.subscription.closed = true ∧ c'.adapter.taken = c.adapter.taken
  catchup : .catchup ∈ c'.adapter.taken → .catchup ∈ c.adapter.taken ∨ more = [.catchup] ∧ Whole d (fed ++ more) c'
  complete : .complete ∈ c'.adapter.taken → .complete ∈ c.adapter.taken ∨ more = [.complete] ∧ Whole d (fed ++ more) c'

theorem hears_append (more : List PgFactStream.Signal) : hears d (fed ++ more) = hears d fed ++ hears d more := by
  simp only [hears, List.filterMap_append, List.map_append, List.flatMap_append]

theorem hears_none (h : input d x = none) : hears d (fed ++ [x]) = hears d fed := by
  have hnil : hears d [x] = [] := by
    rw [hears, List.filterMap_cons_none h]
    rfl
  rw [hears_append, hnil, List.append_nil]

theorem hears_some {s : Signal} (h : input d x = some s) : hears d (fed ++ [x]) = hears d fed ++ heard d (turn d s) := by
  rw [hears_append]
  simp only [hears, List.filterMap_cons_some h, List.filterMap_nil, List.map_singleton, List.flatMap_singleton]

theorem factsTold_append (l m : List Event) : factsTold (l ++ m) = factsTold l ++ factsTold m := List.filterMap_append

theorem turn_fact (f : PgFact) : ∃ g, turn d (.fact f) = .fact g := by
  simp only [turn, BufferedTransformingServerPipeline.replaced]
  split <;> exact ⟨_, rfl⟩

theorem fact_of_not_flush {s : Signal} (h : s.indicatesFlush = false) : ∃ f, s = .fact f := by
  cases s with
  | fact f => exact ⟨f, rfl⟩
  | _ => cases h

/-- Only facts are filtered out, and a signal stays what it is. -/
theorem input_cases (x : PgFactStream.Signal) : (∃ row, x = .fact row ∧ ∀ s, input d x = some s → ∃ f, s = .fact f) ∨
    ∃ s, input d x = some s ∧ s.indicatesFlush = true ∧ turn d s = s ∧ terminal s = isLast x ∧
      (settles s = true ∨ ∃ id ser, x = .fastForward id ser ∧ s = .fastForward ⟨some id, ser⟩) ∧
      (x = .flush → s = .flush) ∧ (.catchup ∈ heard d s → x = .catchup) ∧ (.complete ∈ heard d s → x = .complete) ∧
      factsTold (heard d s) = [] := by
  cases x with
  | fact row =>
    refine .inl ⟨row, rfl, fun s hs => ?_⟩
    simp only [input, given, Option.filter_eq_some_iff, Option.map_eq_some_iff] at hs
    obtain ⟨⟨⟨f, _, rfl⟩, _⟩, _⟩ := hs
    exact ⟨f, rfl⟩
  | flush => exact .inr ⟨.flush, rfl, rfl, rfl, rfl, .inl rfl, fun _ => rfl, by simp [heard], by simp [heard], rfl⟩
  | fastForward id ser =>
    refine .inr ⟨_, rfl, rfl, rfl, rfl, .inr ⟨id, ser, rfl, rfl⟩, nofun, ?_, ?_, ?_⟩
    · simp only [heard]
      split <;> simp
    · simp only [heard]
      split <;> simp
    · simp only [heard]
      split <;> rfl
  | catchup => exact .inr ⟨_, rfl, rfl, rfl, rfl, .inl rfl, nofun, fun _ => rfl, by simp [heard], rfl⟩
  | complete => exact .inr ⟨_, rfl, rfl, rfl, rfl, .inl rfl, nofun, by simp [heard], fun _ => rfl, rfl⟩
  | error => exact .inr ⟨_, rfl, rfl, rfl, rfl, .inl rfl, nofun, by simp [heard], by simp [heard], rfl⟩

theorem not_flushed {row : FactRow} (h : fed ++ [.fact row] = [] ∨ ∃ earlier, fed ++ [.fact row] = earlier ++ [.flush]) :
    False := by
  rcases h with h | ⟨earlier, h⟩
  · simp at h
  · cases (List.append_inj' h rfl).2

/-- A fact that is filtered out changes nothing. -/
theorem fed_none (h : Fed d fed held c) (hnone : input d x = none) : Fed d (fed ++ [x]) held c := by
  obtain ⟨row, rfl, _⟩ | ⟨s, hs, _⟩ := input_cases (d := d) x
  · refine ⟨h.steady, h.waiting, fun s hs => ?_, fun ho => ?_, fun _ hf => (not_flushed hf).elim, ?_⟩
    · rw [List.filterMap_append]
      exact List.mem_append_left _ (h.among s hs)
    · refine ⟨(h.heard ho).1.trans (hears_none hnone).symm, fun y hy => ?_⟩
      rcases List.mem_append.mp hy with hy | hy
      · exact (h.heard ho).2 y hy
      · rw [List.mem_singleton.mp hy]
        rfl
    · rw [hears_none hnone]
      exact h.facts
  · cases hnone.symm.trans hs

theorem among_passes {s : Signal} {held' passed : List Signal} (h : ∀ s ∈ held, s ∈ fed.filterMap (input d))
    (hs : input d x = some s) (hpasses : Passes d held s held' passed) :
    ∀ y ∈ held', y ∈ (fed ++ [x]).filterMap (input d) := by
  have hinputs : (fed ++ [x]).filterMap (input d) = fed.filterMap (input d) ++ [s] := by
    rw [List.filterMap_append, List.filterMap_cons_some hs, List.filterMap_nil]
  rw [hinputs]
  intro y hy
  rcases hpasses with ⟨_, rfl, _⟩ | ⟨rfl, _⟩ | ⟨rfl, _⟩
  · rcases List.mem_append.mp hy with hy | hy
    · exact List.mem_append_left _ (h y hy)
    · exact List.mem_append_right _ hy
  · cases hy
  · cases hy

/-- The stage has processed a signal, and what it passed on goes through the subscription. -/
theorem process_some {s : Signal} (h : Fed d fed held c) (hs : input d x = some s) : ∃ stage held' passed,
    Waiting d held' stage ∧ Passes d held s held' passed ∧ Steady d { c with stage } ∧
      c.process d x = Chain.passAll d { c with stage } passed := by
  obtain ⟨held', passed, hparent, hwaiting, hpasses⟩ := waiting_process h.waiting s
  refine ⟨_, held', passed, hwaiting, hpasses, ⟨h.steady.running, h.steady.sound, h.steady.told, h.steady.going⟩, ?_⟩
  unfold Chain.process
  rw [hs]
  simp only [hparent, List.drop_left]

theorem fed_closed {s : Signal} (h : Fed d fed held c) (hclosed : c.subscription.closed = true)
    (hs : input d x = some s) : ∃ held', Fed d (fed ++ [x]) held' (c.process d x) ∧ Grows d fed [x] c (c.process d x) := by
  obtain ⟨stage, held', passed, hwaiting, hpasses, hsteady, hprocess⟩ := process_some h hs
  have hmute := mute_passAll hsteady hclosed passed
  rw [← hprocess] at hmute
  have hopen : ∀ P : Prop, (c.process d x).subscription.closed = false → P :=
    fun _ ho => nomatch hmute.closed.symm.trans ho
  refine ⟨held', ⟨hmute.steady, hmute.stage ▸ hwaiting, among_passes h.among hs hpasses, hopen _, hopen _, ?_⟩,
    ⟨?_, fun _ => ⟨hmute.closed, hmute.taken⟩, fun hc => .inl ?_, fun hc => .inl ?_⟩⟩
  · rw [hmute.taken, hears_some hs, factsTold_append]
    exact h.facts.trans (List.prefix_append ..)
  · rw [hmute.taken]
  · exact hmute.taken ▸ hc
  · exact hmute.taken ▸ hc

/-- What is held back are facts, and they fit. -/
theorem held_facts (h : Fed d fed held c) (hfits : FitAll d (fed ++ [x])) :
    ∀ s ∈ held.map (turn d), ∃ f, s = .fact f ∧ Fits d (d.texts (toFact f)) := by
  intro s hs
  obtain ⟨y, hy, rfl⟩ := List.mem_map.mp hs
  obtain ⟨f, rfl⟩ := fact_of_not_flush (h.waiting.facts y hy)
  obtain ⟨g, hg⟩ := turn_fact (d := d) f
  refine ⟨g, hg, hfits _ (List.mem_map.mpr ⟨.fact f, ?_, rfl⟩) g hg⟩
  rw [List.filterMap_append]
  exact List.mem_append_left _ (h.among _ hy)

theorem heard_facts {signals : List Signal} (hall : ∀ s ∈ signals, ∃ f, s = .fact f ∧ Fits d (d.texts (toFact f))) :
    ∀ e ∈ signals.flatMap (heard d), ∃ fact, e = .fact fact := by
  intro e he
  obtain ⟨s, hs, he⟩ := List.mem_flatMap.mp he
  obtain ⟨f, rfl, _⟩ := hall s hs
  exact ⟨_, List.mem_singleton.mp he⟩

theorem terminal_turn {s : Signal} (hs : input d x = some s) : terminal (turn d s) = isLast x := by
  obtain ⟨row, rfl, hfact⟩ | ⟨s', hs', _, hturn, hlast, _⟩ := input_cases (d := d) x
  · obtain ⟨f, rfl⟩ := hfact s hs
    obtain ⟨g, hg⟩ := turn_fact (d := d) f
    rw [hg]
    rfl
  · obtain rfl := Option.some.inj (hs.symm.trans hs')
    rw [hturn, hlast]

/-- What is heard once is heard of the signal that says it. -/
theorem heard_turn {s : Signal} (hs : input d x = some s) : (.catchup ∈ heard d (turn d s) → x = .catchup) ∧
    (.complete ∈ heard d (turn d s) → x = .complete) := by
  obtain ⟨row, rfl, hfact⟩ | ⟨s', hs', _, hturn, _, _, _, hcatchup, hcomplete, _⟩ := input_cases (d := d) x
  · obtain ⟨f, rfl⟩ := hfact s hs
    obtain ⟨g, hg⟩ := turn_fact (d := d) f
    rw [hg]
    exact ⟨fun h => (nomatch List.mem_singleton.mp h), fun h => (nomatch List.mem_singleton.mp h)⟩
  · obtain rfl := Option.some.inj (hs.symm.trans hs')
    rw [hturn]
    exact ⟨hcatchup, hcomplete⟩

/-- The stage holds a fact back. -/
theorem fed_held {s : Signal} {stage : BufferedTransformingServerPipeline.State} (h : Fed d fed held c)
    (hopen : c.subscription.closed = false) (hs : input d x = some s) (hfact : s.indicatesFlush = false)
    (hsteady : Steady d { c with stage }) (hwaiting : Waiting d (held ++ [s]) stage) :
    Fed d (fed ++ [x]) (held ++ [s]) { c with stage } := by
  obtain ⟨row, rfl, _⟩ | ⟨s', hs', hflush, _⟩ := input_cases (d := d) x
  · refine ⟨hsteady, hwaiting, among_passes h.among hs (.inl ⟨rfl, rfl, hfact⟩), fun _ => ⟨?_, fun y hy => ?_⟩,
      fun _ hf => (not_flushed hf).elim, ?_⟩
    · rw [hears_some hs, ← (h.heard hopen).1, List.map_append, List.flatMap_append, List.append_assoc,
        List.map_singleton, List.flatMap_singleton]
    · rcases List.mem_append.mp hy with hy | hy
      · exact (h.heard hopen).2 y hy
      · rw [List.mem_singleton.mp hy]
        rfl
    · rw [hears_some hs, factsTold_append]
      exact h.facts.trans (List.prefix_append ..)
  · obtain rfl := Option.some.inj (hs.symm.trans hs')
    cases hflush.symm.trans hfact

/-- The stage lets go of all it has held back, and the signal after it. -/
theorem fed_through {s : Signal} {stage : BufferedTransformingServerPipeline.State} (h : Fed d fed held c)
    (hopen : c.subscription.closed = false) (hs : input d x = some s) (hfits : FitAll d (fed ++ [x]))
    (hrested : ∀ id ser, x = .fastForward id ser → fed = [] ∨ ∃ earlier, fed = earlier ++ [.flush])
    (hsteady : Steady d { c with stage }) (hwaiting : Waiting d [] stage) :
    Fed d (fed ++ [x]) [] (Chain.passAll d { c with stage } ((held ++ [s]).map (turn d))) ∧
      Grows d fed [x] c (Chain.passAll d { c with stage } ((held ++ [s]).map (turn d))) := by
  have hheld := held_facts h hfits
  obtain ⟨hbefore, hstill⟩ := tells_facts hsteady hopen hheld
  have hfit : ∀ f, turn d s = .fact f → Fits d (d.texts (toFact f)) := by
    refine hfits _ (List.mem_map.mpr ⟨s, ?_, rfl⟩)
    rw [List.filterMap_append, List.filterMap_cons_some hs]
    exact List.mem_append_right _ (List.mem_singleton.mpr rfl)
  have hstaged : ∀ position, turn d s = .fastForward position →
      (Chain.passAll d { c with stage } (held.map (turn d))).adapter.stagedFacts.staged = [] := by
    intro position hposition
    obtain ⟨row, rfl, hfact⟩ | ⟨s', hs', _, hturn, _, hsettles, _⟩ := input_cases (d := d) x
    · obtain ⟨f, rfl⟩ := hfact s hs
      obtain ⟨g, hg⟩ := turn_fact (d := d) f
      cases hg.symm.trans hposition
    · obtain rfl := Option.some.inj (hs.symm.trans hs')
      rw [hturn] at hposition
      subst hposition
      obtain hsettled | ⟨id, ser, rfl, _⟩ := hsettles
      · cases hsettled
      · obtain ⟨rfl, hnone⟩ := h.flushed hopen (hrested id ser rfl)
        exact hnone
  obtain ⟨hlast, hclosed, hsettled⟩ := tells_call hbefore.steady hstill hfit hstaged
  have hall : Chain.passAll d { c with stage } ((held ++ [s]).map (turn d)) =
      (Chain.passAll d { c with stage } (held.map (turn d))).call d (pass (turn d s)) := by
    rw [List.map_append, passAll_append]
    rfl
  rw [hall]
  have htold := hbefore.trans hlast
  have htaken : ((Chain.passAll d { c with stage } (held.map (turn d))).call d (pass (turn d s))).adapter.taken =
      c.adapter.taken ++ (held.map (turn d)).flatMap (heard d) ++ heard d (turn d s) := by
    rw [htold.taken, List.flatMap_append, List.flatMap_singleton, List.append_assoc]
  have hhears : ((Chain.passAll d { c with stage } (held.map (turn d))).call d (pass (turn d s))).adapter.taken =
      hears d (fed ++ [x]) := by
    rw [htaken, (h.heard hopen).1, hears_some hs]
  have hsaid : ∀ e : Event, (∀ fact, e ≠ .fact fact) →
      e ∈ ((Chain.passAll d { c with stage } (held.map (turn d))).call d (pass (turn d s))).adapter.taken →
      e ∈ c.adapter.taken ∨ e ∈ heard d (turn d s) := by
    intro e he hmem
    rw [htaken] at hmem
    rcases List.mem_append.mp hmem with hmem | hmem
    · rcases List.mem_append.mp hmem with hmem | hmem
      · exact .inl hmem
      · obtain ⟨fact, rfl⟩ := heard_facts hheld e hmem
        exact absurd rfl (he fact)
    · exact .inr hmem
  refine ⟨⟨htold.steady, htold.stage ▸ hwaiting, nofun, fun ho => ⟨?_, fun y hy => ?_⟩, fun ho hf => ⟨rfl, ?_⟩, ?_⟩,
    ⟨?_, fun hc => (nomatch hopen.symm.trans hc), fun hc => ?_, fun hc => ?_⟩⟩
  · rw [hhears]
    exact List.append_nil _
  · rcases List.mem_append.mp hy with hy | hy
    · exact (h.heard hopen).2 y hy
    · rw [List.mem_singleton.mp hy, ← terminal_turn hs, ← hclosed]
      exact ho
  · refine hsettled ?_
    obtain ⟨row, rfl, _⟩ | ⟨s', hs', _, hturn, _, _, hflush, _⟩ := input_cases (d := d) x
    · exact (not_flushed hf).elim
    · obtain rfl := Option.some.inj (hs.symm.trans hs')
      obtain hnil | ⟨earlier, hlast⟩ := hf
      · simp at hnil
      · rw [hturn, hflush (List.singleton_inj.mp (List.append_inj' hlast rfl).2)]
        rfl
  · rw [hhears]
  · rw [htaken, List.append_assoc]
    exact List.prefix_append ..
  · exact (hsaid .catchup nofun hc).imp_right fun hmem => ⟨by rw [(heard_turn hs).1 hmem], hhears⟩
  · exact (hsaid .complete nofun hc).imp_right fun hmem => ⟨by rw [(heard_turn hs).2 hmem], hhears⟩

/-- The service refuses the batch, and an error ends the subscription. -/
theorem fed_refused {s : Signal} {stage : BufferedTransformingServerPipeline.State} {message : String}
    (h : Fed d fed held c) (hopen : c.subscription.closed = false) (hs : input d x = some s)
    (hsteady : Steady d { c with stage }) (hwaiting : Waiting d [] stage) :
    Fed d (fed ++ [x]) [] (Chain.passAll d { c with stage } [.error (.transformationException message)]) ∧
      Grows d fed [x] c (Chain.passAll d { c with stage } [.error (.transformationException message)]) := by
  obtain ⟨htells, hclosed, _⟩ := tells_call (s := .error (.transformationException message)) hsteady hopen nofun nofun
  have hall : Chain.passAll d { c with stage } [.error (.transformationException message)] =
      Chain.call d { c with stage } (pass (.error (.transformationException message))) := rfl
  rw [hall]
  have htaken := htells.taken
  rw [List.flatMap_singleton] at htaken
  have hsaid : ∀ e : Event, e ≠ .error →
      e ∈ (Chain.call d { c with stage } (pass (.error (.transformationException message)))).adapter.taken →
      e ∈ c.adapter.taken := by
    intro e he hmem
    rw [htaken] at hmem
    rcases List.mem_append.mp hmem with hmem | hmem
    · exact hmem
    · exact absurd (List.mem_singleton.mp hmem) he
  have hshut : ∀ P : Prop, (Chain.call d { c with stage }
      (pass (.error (.transformationException message)))).subscription.closed = false → P :=
    fun _ ho => nomatch hclosed.symm.trans ho
  refine ⟨⟨htells.steady, htells.stage ▸ hwaiting, nofun, hshut _, hshut _, ?_⟩,
    ⟨?_, fun hc => (nomatch hopen.symm.trans hc), fun hc => .inl (hsaid .catchup nofun hc),
      fun hc => .inl (hsaid .complete nofun hc)⟩⟩
  · rw [htaken, hears_some hs, factsTold_append, factsTold_append]
    show factsTold c.adapter.taken ++ [] <+: _
    rw [List.append_nil]
    exact h.facts.trans (List.prefix_append ..)
  · rw [htaken]
    exact List.prefix_append ..

theorem fed_process (h : Fed d fed held c) (hfits : FitAll d (fed ++ [x]))
    (hrested : c.subscription.closed = false →
      ∀ id ser, x = .fastForward id ser → fed = [] ∨ ∃ earlier, fed = earlier ++ [.flush]) :
    ∃ held', Fed d (fed ++ [x]) held' (c.process d x) ∧ Grows d fed [x] c (c.process d x) := by
  cases hs : input d x with
  | none =>
    have hsame : c.process d x = c := by
      unfold Chain.process
      rw [hs]
    rw [hsame]
    exact ⟨held, fed_none h hs, List.prefix_rfl, fun hc => ⟨hc, rfl⟩, .inl, .inl⟩
  | some s =>
    cases hclosed : c.subscription.closed with
    | true => exact fed_closed h hclosed hs
    | false =>
      obtain ⟨stage, held', passed, hwaiting, hpasses, hsteady, hprocess⟩ := process_some h hs
      rw [hprocess]
      rcases hpasses with ⟨rfl, rfl, hfact⟩ | ⟨rfl, rfl⟩ | ⟨rfl, message, rfl⟩
      · exact ⟨_, fed_held h hclosed hs hfact hsteady hwaiting, List.prefix_rfl,
          fun hc => (nomatch hclosed.symm.trans hc), .inl, .inl⟩
      · exact ⟨[], fed_through h hclosed hs hfits (hrested hclosed) hsteady hwaiting⟩
      · exact ⟨[], fed_refused h hclosed hs hsteady hwaiting⟩

/-- Facts, flushes and errors, one after another. -/
theorem fed_plain {more : List PgFactStream.Signal} (h : Fed d fed held c) (hfits : FitAll d (fed ++ more))
    (hplain : ∀ x ∈ more, x.plain = true) :
    ∃ held', Fed d (fed ++ more) held' (more.foldl (Chain.process d) c) ∧
      Grows d fed more c (more.foldl (Chain.process d) c) := by
  induction more generalizing fed held c with
  | nil =>
    rw [List.append_nil]
    exact ⟨held, h, List.prefix_rfl, fun hc => ⟨hc, rfl⟩, .inl, .inl⟩
  | cons x rest ih =>
    have hx := hplain x List.mem_cons_self
    have hsplit : fed ++ x :: rest = (fed ++ [x]) ++ rest := by rw [List.append_assoc, List.singleton_append]
    rw [hsplit] at hfits ⊢
    have hfirst : FitAll d (fed ++ [x]) := by
      intro s hs
      refine hfits s ?_
      rw [List.filterMap_append, List.map_append]
      exact List.mem_append_left _ hs
    obtain ⟨held', hfed, hgrows⟩ := fed_process h hfirst fun _ id ser hffwd => by
      rw [hffwd] at hx
      cases hx
    have hplain' : ∀ y ∈ rest, y.plain = true := fun y hy => hplain y (List.mem_cons_of_mem _ hy)
    obtain ⟨held'', hlast, hmore⟩ := ih hfed hfits hplain'
    refine ⟨held'', hlast, hgrows.taken.trans hmore.taken, fun hc => ?_, fun hc => ?_, fun hc => ?_⟩
    · obtain ⟨hc', htaken⟩ := hgrows.closed hc
      exact ⟨(hmore.closed hc').1, (hmore.closed hc').2.trans htaken⟩
    · rcases hmore.catchup hc with hc | ⟨rfl, _⟩
      · rcases hgrows.catchup hc with hc | ⟨hsingle, _⟩
        · exact .inl hc
        · rw [List.singleton_inj.mp hsingle] at hx
          cases hx
      · cases hplain' _ List.mem_cons_self
    · rcases hmore.complete hc with hc | ⟨rfl, _⟩
      · rcases hgrows.complete hc with hc | ⟨hsingle, _⟩
        · exact .inl hc
        · rw [List.singleton_inj.mp hsingle] at hx
          cases hx
      · cases hplain' _ List.mem_cons_self

/-- Whoever closes the subscription, the client hears no more. -/
theorem fed_mute {c' : Chain} (h : Fed d fed held c) (hmute : Mute d c c') : Fed d fed held c' where
  steady := hmute.steady
  waiting := hmute.stage ▸ h.waiting
  among := h.among
  heard := fun ho => nomatch hmute.closed.symm.trans ho
  flushed := fun ho => nomatch hmute.closed.symm.trans ho
  facts := hmute.taken ▸ h.facts

end Fed

/-! ### The rows behind it -/

section Rows
variable {d : Setting} {fed : List PgFactStream.Signal}

theorem turn_eq (f : PgFact) : turn d (.fact f) = .fact (((d.stage.prepareTransformation f).map d.turned).getD f) := by
  simp only [turn, BufferedTransformingServerPipeline.replaced]
  split
  · rename_i hf
    rw [hf]
    rfl
  · rename_i hf
    rw [hf]
    rfl

/-- A row is heard of as it is visible. -/
theorem input_fact (row : FactRow) : ((input d (.fact row)).map (turn d)).map (heard d) =
    (visible d row).map fun fact => [.fact fact] := by
  have hgiven : given d (.fact row) = (PgFact.from_ d.reader row).map .fact := rfl
  unfold input visible
  rw [hgiven]
  cases PgFact.from_ d.reader row with
  | none => rfl
  | some f =>
    have hunmatched : unmatched d (.fact f) = !(d.matcher.canBeSkipped || d.matcher.test f) := rfl
    have hblacklisted : blacklisted d (.fact f) = Blacklist.isBlocked d.blocked f.id := rfl
    rw [Option.map_some, Option.filter_some, Option.filter_some, hunmatched, Bool.not_not]
    split
    · rw [Option.filter_some, Option.filter_some, hblacklisted]
      split
      · rw [Option.map_some, Option.map_some, Option.map_some, Option.map_some, turn_eq]
        rfl
      · rfl
    · rfl

theorem hears_cons (x : PgFactStream.Signal) : hears d (x :: fed) = hears d [x] ++ hears d fed := by
  rw [← hears_append, List.singleton_append]

theorem hears_singleton (x : PgFactStream.Signal) :
    hears d [x] = (((input d x).map (turn d)).map (heard d)).getD [] := by
  cases hx : input d x with
  | none => simp [hears, List.filterMap_cons_none hx]
  | some s => simp [hears, List.filterMap_cons_some hx]

theorem hears_fact (row : FactRow) : hears d [.fact row] = ((visible d row).map fun fact => [.fact fact]).getD [] := by
  rw [hears_singleton, input_fact]

theorem factsTold_fact (row : FactRow) : factsTold (hears d [.fact row]) = (visible d row).toList := by
  rw [hears_fact]
  cases visible d row <;> rfl

/-- Of the facts that are handed over the client hears as they are visible. -/
theorem factsTold_hears : factsTold (hears d fed) = (fed.filterMap PgFactStream.Signal.fact?).filterMap (visible d) := by
  induction fed with
  | nil => rfl
  | cons x rest ih =>
    rw [hears_cons, factsTold_append, ih]
    obtain ⟨row, rfl, _⟩ | ⟨s, hs, hflush, hturn, _, _, _, _, _, hnone⟩ := input_cases (d := d) x
    · rw [factsTold_fact]
      cases hrow : visible d row with
      | none => simp [PgFactStream.Signal.fact?, hrow]
      | some fact => simp [PgFactStream.Signal.fact?, hrow]
    · have hx : x.fact? = none := by
        cases x with
        | fact row =>
          simp only [input, given, Option.filter_eq_some_iff, Option.map_eq_some_iff] at hs
          obtain ⟨⟨⟨f, _, rfl⟩, _⟩, _⟩ := hs
          cases hflush
        | _ => rfl
      rw [hears_singleton, hs, Option.map_some, Option.map_some, hturn, List.filterMap_cons_none hx]
      show factsTold (heard d s) ++ _ = _
      rw [hnone, List.nil_append]

theorem hears_facts (rows : List FactRow) : hears d (rows.map .fact) = (rows.filterMap (visible d)).map .fact := by
  induction rows with
  | nil => rfl
  | cons row rest ih =>
    rw [List.map_cons, hears_cons, ih, hears_fact]
    cases hrow : visible d row with
    | none => simp [hrow]
    | some fact => simp [hrow]

/-- Flushes say nothing. -/
theorem hears_filter : hears d (fed.filter fun x => !x.isFlush) = hears d fed := by
  induction fed with
  | nil => rfl
  | cons x rest ih =>
    rw [hears_cons, List.filter_cons]
    cases x with
    | flush => exact ih
    | _ =>
      show hears d (_ :: _) = _
      rw [hears_cons, ih]

theorem fitAll_of_visible (h : ∀ row ∈ fed.filterMap PgFactStream.Signal.fact?, ∀ fact, visible d row = some fact → Fits d fact) :
    FitAll d fed := by
  intro s hs f hf
  subst hf
  obtain ⟨y, hy, hturn⟩ := List.mem_map.mp hs
  obtain ⟨x, hx, hinput⟩ := List.mem_filterMap.mp hy
  obtain ⟨row, rfl, _⟩ | ⟨s, hs, hflush, hsame, _⟩ := input_cases (d := d) x
  · have hmap := input_fact (d := d) row
    rw [hinput, Option.map_some, Option.map_some, hturn] at hmap
    cases hrow : visible d row with
    | none =>
      rw [hrow] at hmap
      cases hmap
    | some fact =>
      rw [hrow] at hmap
      obtain rfl : d.texts (toFact f) = fact := by simpa [heard] using hmap
      exact h row (List.mem_filterMap.mpr ⟨_, hx, rfl⟩) _ hrow
  · obtain rfl := Option.some.inj (hinput.symm.trans hs)
    rw [hsame] at hturn
    subst hturn
    cases hflush

end Rows

/-! ### Any run -/

section Runs
variable {d : Setting} {db : Database} {request : SubscriptionRequest} {s s' : State}

/-- The rows fit, as they are delivered. -/
def AllFit (d : Setting) (log : List FactRow) : Prop :=
  ∀ row ∈ log, ∀ fact, visible d row = some fact → Fits d fact

/-- A fast-forward as the client hears of it. -/
def target (t : Option (UUID × Nat)) : List Event := (t.map fun p => .fastForward p.1 p.2).toList

/-- What the client hears, in terms of the log. -/
structure Inv (d : Setting) (db : Database) (request : SubscriptionRequest) (s : State) : Prop where
  stream : (PgFactStream.streaming db request).Reachable s.stream
  fed : ∃ held, Fed d s.stream.sent held s.chain
  connected : s.chain.subscription.closed = false → s.stream.disconnected = false
  told : ∃ rows, rows <+: s.stream.facts ∧
    rows <+: Log.after FactRow.ser (PgFactStream.matching db request) s.stream.started s.stream.log ∧
    factsTold s.chain.adapter.taken <+: rows.filterMap (visible d)
  caught : .catchup ∈ s.chain.adapter.taken → s.stream.phase.early = false ∧
    (request.ephemeral = false → ∃ before after, s.chain.adapter.taken = before ++ .catchup :: after ∧
      due d db request s.stream.started s.stream.opened <+: factsTold before)
  completed : .complete ∈ s.chain.adapter.taken → s.chain.subscription.closed = true ∧ s.stream.phase = .ended ∧
    (request.ephemeral = false → s.stream.opened <+: s.stream.finished ∧ ∃ t, s.chain.adapter.taken =
      (due d db request s.stream.started s.stream.finished).map .fact ++ target t ++ [.catchup, .complete])

theorem after_isPrefix {log log' : List FactRow} {started : Nat} (h : log <+: log') :
    Log.after FactRow.ser (PgFactStream.matching db request) started log <+:
      Log.after FactRow.ser (PgFactStream.matching db request) started log' := by
  obtain ⟨rest, rfl⟩ := h
  rw [Log.after_append]
  exact List.prefix_append ..

theorem filterMap_isPrefix {α β : Type} {l l' : List α} (f : α → Option β) (h : l <+: l') :
    l.filterMap f <+: l'.filterMap f := by
  obtain ⟨rest, rfl⟩ := h
  rw [List.filterMap_append]
  exact List.prefix_append ..

/-- A chain that is open has not seen the last signal of its stream. -/
theorem Inv.running (h : Inv d db request s) (hopen : s.chain.subscription.closed = false) :
    s.stream.phase ≠ .ended := by
  intro hended
  have hsaid := PgFactStream.announced h.stream (h.connected hopen)
  rw [hended] at hsaid
  obtain ⟨⟨t, hwords⟩, _⟩ := hsaid
  have hcomplete : .complete ∈ s.stream.signals := by
    rw [hwords]
    simp
  obtain ⟨held, hfed⟩ := h.fed
  cases (hfed.heard hopen).2 _ (List.mem_filter.mp hcomplete).1

theorem step_eq {a : PgFactStream.Action} (hs : step d db request s a = some s') : ∃ stream,
    PgFactStream.step db request s.stream a = some stream ∧ s' =
      { stream := { stream with disconnected := stream.disconnected || (next d s stream a).subscription.closed }
        chain := next d s stream a } := by
  obtain ⟨stream, hstream, hs⟩ := Option.bind_eq_some_iff.mp hs
  split at hs
  · cases hs
    exact ⟨stream, hstream, rfl⟩
  · cases hs

theorem reachable_next {stream : PgFactStream.State} (h : (PgFactStream.streaming db request).Reachable stream)
    (closed : Bool) : (PgFactStream.streaming db request).Reachable
      { stream with disconnected := stream.disconnected || closed } := by
  cases closed with
  | false =>
    rw [Bool.or_false]
    exact h
  | true =>
    rw [Bool.or_true]
    exact .step (a := .close) h trivial rfl

/-- What the signals of one step come to. -/
theorem fed_step {a : PgFactStream.Action} {stream : PgFactStream.State} {held : List Signal} (h : Inv d db request s)
    (hfed : Fed d s.stream.sent held s.chain) (hs : PgFactStream.step db request s.stream a = some stream)
    (hfits : AllFit d stream.log) : ∃ held' more, stream.sent = s.stream.sent ++ more ∧
      PgFactStream.Sends s.stream stream more ∧ Fed d stream.sent held' (next d s stream a) ∧
      Grows d s.stream.sent more s.chain (next d s stream a) ∧
      ((next d s stream a).subscription.closed = false → stream.disconnected = false) := by
  obtain ⟨more, hsent, hsends, hcloses⟩ := PgFactStream.step_sends hs
  have hreach : (PgFactStream.streaming db request).Reachable stream := .step h.stream trivial hs
  have hfit : FitAll d (s.stream.sent ++ more) := by
    rw [← hsent]
    exact fitAll_of_visible fun row hrow => hfits row ((PgFactStream.inv hreach).matched row hrow).1
  have hprocessed : ∃ held', Fed d (s.stream.sent ++ more) held' (more.foldl (Chain.process d) s.chain) ∧
      Grows d s.stream.sent more s.chain (more.foldl (Chain.process d) s.chain) := by
    rcases hsends with hplain | ⟨id, ser, startedSer, targetId, rfl, hphase⟩ | ⟨rfl, _⟩ | ⟨rfl, _⟩
    · exact fed_plain hfed hfit hplain
    · refine fed_process hfed hfit fun hopen _ _ _ => ?_
      have hsaid := PgFactStream.announced h.stream (h.connected hopen)
      rw [hphase] at hsaid
      exact hsaid.2.1
    · exact fed_process hfed hfit fun _ id ser hffwd => by cases hffwd
    · exact fed_process hfed hfit fun _ id ser hffwd => by cases hffwd
  obtain ⟨held', hafter, hgrows⟩ := hprocessed
  have hdrop : stream.sent.drop s.stream.sent.length = more := by rw [hsent, List.drop_left]
  have hstill : (∀ P : Prop, a = .close → P) → (more.foldl (Chain.process d) s.chain).subscription.closed = false →
      stream.disconnected = false := by
    intro hnot ho
    by_contra hdisconnected
    rcases hcloses (by simpa using hdisconnected) with hbefore | hclose | herror
    · cases hopen : s.chain.subscription.closed with
      | true => cases (hgrows.closed hopen).1.symm.trans ho
      | false => cases hbefore.symm.trans (h.connected hopen)
    · exact hnot _ hclose
    · cases (hafter.heard ho).2 _ (List.mem_append_right _ herror)
  rw [← hsent] at hafter
  cases a with
  | close =>
    have hnext : next d s stream .close = (more.foldl (Chain.process d) s.chain).call d .close := by
      rw [← hdrop]
      rfl
    have hmute := mute_close (d := d) hafter.steady
    rw [hnext]
    refine ⟨held', more, hsent, hsends, fed_mute hafter hmute, ⟨?_, fun hc => ⟨hmute.closed, ?_⟩, fun hc => ?_, fun hc => ?_⟩,
      fun ho => nomatch hmute.closed.symm.trans ho⟩
    · exact hmute.taken ▸ hgrows.taken
    · exact hmute.taken.trans (hgrows.closed hc).2
    · rw [hmute.taken] at hc
      exact (hgrows.catchup hc).imp_right fun hwhole => ⟨hwhole.1, hmute.taken.trans hwhole.2⟩
    · rw [hmute.taken] at hc
      exact (hgrows.complete hc).imp_right fun hwhole => ⟨hwhole.1, hmute.taken.trans hwhole.2⟩
  | _ =>
    refine ⟨held', more, hsent, hsends, ?_⟩
    simp only [next, hdrop]
    exact ⟨hafter, hgrows, hstill fun P hclose => nomatch hclose⟩

section Step
variable {a : PgFactStream.Action} {stream : PgFactStream.State} {c : Chain} {more : List PgFactStream.Signal}
  {held : List Signal}

/-- Closed or not: what the client has heard is a beginning of what it is due. -/
theorem told_step (h : Inv d db request s) (hs : PgFactStream.step db request s.stream a = some stream)
    (hfed : Fed d stream.sent held c) (hgrows : Grows d s.stream.sent more s.chain c) : ∃ rows, rows <+: stream.facts ∧
      rows <+: Log.after FactRow.ser (PgFactStream.matching db request) stream.started stream.log ∧
      factsTold c.adapter.taken <+: rows.filterMap (visible d) := by
  have hinv := PgFactStream.inv h.stream
  have hmoves := PgFactStream.moves_step hs
  cases hclosed : s.chain.subscription.closed with
  | true =>
    obtain ⟨rows, hrows, hlog, htold⟩ := h.told
    rw [(hgrows.closed hclosed).2]
    refine ⟨rows, hrows.trans (filterMap_isPrefix _ hmoves.sent), ?_, htold⟩
    rcases hmoves.start with hearly | ⟨_, hstarted, _⟩
    · have hready := hinv.ready
      unfold PgFactStream.Ready at hready
      have hnone : s.stream.facts = [] := by
        cases hphase : s.stream.phase with
        | connecting =>
          rw [hphase] at hready
          exact hready.1
        | jumping =>
          rw [hphase] at hready
          exact hready.1
        | _ =>
          rw [hphase] at hearly
          cases hearly
      rw [hnone] at hrows
      rw [List.prefix_nil.mp hrows]
      exact List.nil_prefix
    · rw [hstarted]
      exact hlog.trans (after_isPrefix hmoves.log)
  | false =>
    refine ⟨stream.facts, List.prefix_rfl, ?_, ?_⟩
    · exact PgFactStream.isPrefix_step hinv (h.connected hclosed) (h.running hclosed) hs
    · have hfacts := hfed.facts
      rw [factsTold_hears] at hfacts
      exact hfacts

theorem due_isPrefix {log log' : List FactRow} {started : Nat} (h : log <+: log') :
    due d db request started log <+: due d db request started log' := filterMap_isPrefix _ (after_isPrefix h)

theorem hears_forwarded (t : Option (UUID × Nat)) : ∃ u, hears d (PgFactStream.forwarded t) = target u := by
  cases t with
  | none => exact ⟨none, rfl⟩
  | some p =>
    cases hsupports : d.supportsFastForward with
    | true =>
      refine ⟨some p, ?_⟩
      show hears d [.fastForward p.1 p.2] = _
      rw [hears_singleton]
      show heard d (.fastForward ⟨some p.1, p.2⟩) = _
      simp [heard, hsupports, target]
    | false =>
      refine ⟨none, ?_⟩
      show hears d [.fastForward p.1 p.2] = _
      rw [hears_singleton]
      show heard d (.fastForward ⟨some p.1, p.2⟩) = _
      simp [heard, hsupports, target]

theorem factsTold_target (u : Option (UUID × Nat)) : factsTold (target u) = [] := by
  cases u <;> rfl

/-- All of what the stream has signalled, as the client hears it. -/
theorem hears_words {tail : List PgFactStream.Signal} (hwords : stream.Says tail) :
    hears d stream.sent = (stream.facts.filterMap (visible d)).map .fact ++ hears d tail := by
  rw [← hears_filter]
  have hsaid : stream.sent.filter (fun x => !x.isFlush) = stream.facts.map .fact ++ tail := hwords
  rw [hsaid, hears_append, hears_facts]

theorem caught_step (h : Inv d db request s) (hs : PgFactStream.step db request s.stream a = some stream)
    (hsends : PgFactStream.Sends s.stream stream more) (hsent : stream.sent = s.stream.sent ++ more)
    (hgrows : Grows d s.stream.sent more s.chain c) (hc : .catchup ∈ c.adapter.taken) : stream.phase.early = false ∧
      (request.ephemeral = false → ∃ before after, c.adapter.taken = before ++ .catchup :: after ∧
        due d db request stream.started stream.opened <+: factsTold before) := by
  rcases hgrows.catchup hc with hbefore | ⟨rfl, hwhole⟩
  · obtain ⟨hearly, hcaught⟩ := h.caught hbefore
    rcases (PgFactStream.moves_step hs).start with hstart | ⟨hlater, hstarted, hopened⟩
    · cases hstart.symm.trans hearly
    · refine ⟨hlater, fun hcatchup => ?_⟩
      obtain ⟨before, after, htaken, hdue⟩ := hcaught hcatchup
      obtain ⟨rest, hrest⟩ := hgrows.taken
      refine ⟨before, after ++ rest, ?_, ?_⟩
      · rw [← hrest, htaken, List.append_assoc, List.cons_append]
      · rw [hstarted, hopened]
        exact hdue
  · rcases hsends with hplain | ⟨id, ser, _, _, hffwd, _⟩ | ⟨_, _, hconnected, hphase⟩ | ⟨hlast, _⟩
    · cases hplain _ List.mem_cons_self
    · cases hffwd
    · have hsaid := PgFactStream.announced (.step (a := a) h.stream trivial hs) hconnected
      rw [hphase] at hsaid
      obtain ⟨⟨t, hwords⟩, hthrough⟩ := hsaid
      obtain ⟨u, hu⟩ := hears_forwarded (d := d) t
      refine ⟨by rw [hphase]; rfl, fun hcatchup => ?_⟩
      obtain ⟨hfacts, hopened⟩ := hthrough hcatchup
      refine ⟨(stream.facts.filterMap (visible d)).map .fact ++ target u, [], ?_, ?_⟩
      · rw [hwhole, ← hsent, hears_words hwords, hears_append, hu, List.append_assoc]
        rfl
      · rw [factsTold_append, factsTold_target, List.append_nil]
        have hmap : factsTold ((stream.facts.filterMap (visible d)).map .fact) = stream.facts.filterMap (visible d) := by
          rw [factsTold, List.filterMap_map]
          exact List.filterMap_some
        rw [hmap, hfacts]
        exact due_isPrefix hopened
    · cases hlast

theorem completed_step (h : Inv d db request s) (hs : PgFactStream.step db request s.stream a = some stream)
    (hsends : PgFactStream.Sends s.stream stream more) (hsent : stream.sent = s.stream.sent ++ more)
    (hfed : Fed d stream.sent held c) (hgrows : Grows d s.stream.sent more s.chain c)
    (hc : .complete ∈ c.adapter.taken) : c.subscription.closed = true ∧ stream.phase = .ended ∧
      (request.ephemeral = false → stream.opened <+: stream.finished ∧ ∃ t, c.adapter.taken =
        (due d db request stream.started stream.finished).map .fact ++ target t ++ [.catchup, .complete]) := by
  rcases hgrows.complete hc with hbefore | ⟨rfl, hwhole⟩
  · obtain ⟨hclosed, hended, hcompleted⟩ := h.completed hbefore
    obtain ⟨hclosed', htaken⟩ := hgrows.closed hclosed
    have hmoves := PgFactStream.moves_step hs
    obtain ⟨hended', hfinished⟩ := hmoves.ended hended
    refine ⟨hclosed', hended', fun hcatchup => ?_⟩
    rcases hmoves.start with hearly | ⟨_, hstarted, hopened⟩
    · rw [hended] at hearly
      cases hearly
    · rw [htaken, hstarted, hopened, hfinished]
      exact hcompleted hcatchup
  · rcases hsends with hplain | ⟨id, ser, _, _, hffwd, _⟩ | ⟨hcatchup, _⟩ | ⟨_, _, hconnected, hphase⟩
    · cases hplain _ List.mem_cons_self
    · cases hffwd
    · cases hcatchup
    · refine ⟨?_, hphase, fun hcatchup => ?_⟩
      · by_contra hopen
        cases (hfed.heard (by simpa using hopen)).2 .complete (hsent ▸ List.mem_append_right _ List.mem_cons_self)
      · have hsaid := PgFactStream.announced (.step (a := a) h.stream trivial hs) hconnected
        rw [hphase] at hsaid
        obtain ⟨⟨t, hwords⟩, hthrough⟩ := hsaid
        obtain ⟨u, hu⟩ := hears_forwarded (d := d) t
        obtain ⟨hfacts, hopened⟩ := hthrough hcatchup
        refine ⟨hopened, u, ?_⟩
        rw [hwhole, ← hsent, hears_words hwords, hears_append, hu, hfacts, List.append_assoc]
        rfl

end Step

theorem inv_step {a : PgFactStream.Action} (h : Inv d db request s) (hs : step d db request s a = some s')
    (hfits : AllFit d s'.stream.log) : Inv d db request s' := by
  obtain ⟨stream, hstream, rfl⟩ := step_eq hs
  obtain ⟨held, hfed⟩ := h.fed
  obtain ⟨held', more, hsent, hsends, hfed', hgrows, hconnected⟩ := fed_step h hfed hstream hfits
  have htold := told_step h hstream hfed' hgrows
  have hcaught := caught_step h hstream hsends hsent hgrows
  have hcompleted := completed_step h hstream hsends hsent hfed' hgrows
  refine ⟨reachable_next (.step h.stream trivial hstream) _, ⟨held', hfed'⟩, fun ho => ?_, htold, hcaught, hcompleted⟩
  show (stream.disconnected || (next d s stream a).subscription.closed) = false
  rw [hconnected ho, show (next d s stream a).subscription.closed = false from ho]
  rfl

theorem inv_start (h : Start d s) : Inv d db request s := by
  have hsent := h.stream.sent
  have htaken : s.chain.adapter.taken = [] := by
    rw [h.chain]
    rfl
  have hnone : ∀ e, e ∈ s.chain.adapter.taken → False := fun e he => by simp [htaken] at he
  refine ⟨.start h.stream, ⟨[], ?_⟩, fun _ => h.connected, ⟨[], List.nil_prefix, List.nil_prefix, ?_⟩,
    fun hc => (hnone _ hc).elim, fun hc => (hnone _ hc).elim⟩
  · rw [hsent, h.chain]
    have hgoing : Going (create d).adapter := nofun
    exact ⟨⟨rfl, ⟨fun _ => rfl, rfl, rfl⟩, .inl hgoing, fun _ => hgoing⟩, ⟨rfl, .inl ⟨rfl, rfl⟩, nofun⟩, nofun,
      fun _ => ⟨rfl, nofun⟩, fun _ _ => ⟨rfl, rfl⟩, List.prefix_rfl⟩
  · rw [htaken]
    exact List.nil_prefix

theorem inv (h : (subscribing d db request).Reachable s) (hfits : AllFit d s.stream.log) : Inv d db request s := by
  induction h with
  | start h => exact inv_start h
  | @step s s' a _ _ hs ih =>
    have hmoves : s.stream.log <+: s'.stream.log := by
      obtain ⟨stream, hstream, rfl⟩ := step_eq hs
      exact (PgFactStream.moves_step hstream).log
    exact inv_step (ih fun row hrow => hfits row (hmoves.subset hrow)) hs hfits

/-! ### What the client is told -/

/-- The client is told what was sent, fast-forwards without a serial apart. -/
theorem told_eq (h : Inv d db request s) : s.told = s.chain.adapter.events.filter Event.deliverable := by
  obtain ⟨held, hfed⟩ := h.fed
  rcases hfed.steady.told with hgoing | hgone
  · exact told_going hgoing
  · exact hgone.2

end Runs

/-- Orders to be transformed, three of them at a time at most; the second one is blacklisted. -/
def ordersUpcast : Setting where
  reader := .canonical
  matcher := ⟨true, []⟩
  blocked := {(placed 2).id}
  stage := ⟨fun f => some ⟨f, [2]⟩, fun _ requests => .ok (requests.map BufferedTransformingServerPipeline.upcast), 3,
    BufferedTransformingServerPipeline.upcasting.admitted⟩
  turned := BufferedTransformingServerPipeline.upcast
  answers _ _ _ h := (Except.ok.inj h).symm
  refuses _ _ _ h := by cases h
  texts f := ⟨"\x7b\x7d", if f.id = (placed 1).id then "1" else "3"⟩
  clientMaxInboundMessageSize := 0
  supportsFastForward := true

def allOrders : SubscriptionRequest := { specs := [ofOrders], continuous := false }

/-- Two orders are committed between the queries. -/
def untilComplete : List PgFactStream.Action :=
  [.connect, .catchup, .row, .finish, .publish [⟨2, placed 2⟩, ⟨3, placed 3⟩], .catchup, .row, .row, .finish,
    .fastForward, .readTarget, .signalCatchup, .register]

end FactCast.PgSubscriptionFactory
