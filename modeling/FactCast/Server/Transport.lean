import FactCast.Core.Spec

/-! From the observer on the server to the subscription of the client.

`GrpcObserverAdapter` turns the calls an observer gets into messages. Facts are
staged against a byte budget and sent in batches: when the next one does not fit,
when a flush is asked for, and before a catchup, a completion or an error.
`ClientStreamObserver` turns the messages back into calls on the subscription.

Two paths lose the correspondence. A fact that does not fit an empty buffer
either is dropped without a word. A fast-forward does not flush, and overtakes the
facts that are staged. `lossless_iff` says that these, and the fast-forwards a
client cannot take, are all there is. -/
namespace FactCast.Transport

/-- A fact as it travels. Its header is one that a client can make a fact of. -/
structure JsonFact where
  jsonHeader : String
  jsonPayload : String
deriving DecidableEq

/-- The length of a string in code units of sixteen bits. -/
def utf16Length (s : String) : Nat :=
  (s.toList.map fun c => if c.toNat < 0x10000 then 1 else 2).sum

/-- Integers of 32 bits wrap around. -/
def int32 (n : Int) : Int := n.bmod (2 ^ 32)

/-! ### Staging -/

/-- The size a client asks for, within bounds. -/
def calculateMaxInboundMessageSize (requested : Int) : Int :=
  max (2 * 1024 * 1024) (min requested (32 * 1024 * 1024))

structure StagedFacts where
  maxBytes : Int
  currentBytes : Int := 0
  staged : List JsonFact := []

namespace StagedFacts

/-- A tenth of the size is kept in reserve. -/
def of_ (maxBytes : Int) : StagedFacts := { maxBytes := maxBytes - maxBytes / 10 }

def byteSizeOf (fact : JsonFact) : Int :=
  int32 (utf16Length fact.jsonPayload + utf16Length fact.jsonHeader + 8)

/-- Whether the fact would be added. -/
def fits (s : StagedFacts) (fact : JsonFact) : Bool :=
  decide (int32 (s.currentBytes + byteSizeOf fact) < s.maxBytes)

def add (s : StagedFacts) (fact : JsonFact) : StagedFacts × Bool :=
  if s.fits fact then
    ({ s with
      staged := s.staged ++ [fact], currentBytes := int32 (s.currentBytes + byteSizeOf fact) }, true)
  else (s, false)

def popAll (s : StagedFacts) : List JsonFact × StagedFacts :=
  (s.staged, { s with staged := [], currentBytes := 0 })

end StagedFacts

/-! ### The server -/

inductive Notification where
  | info
  | keepAlive
  | catchup
  | complete
  | fact (fact : JsonFact)
  | facts (facts : List JsonFact)
  | ffwd (id : UUID) (serial : Nat)
  | unrecognized
deriving DecidableEq

/-- What a stream observer is told. -/
inductive Message where
  | onNext (notification : Notification)
  | onCompleted
  | onError
deriving DecidableEq

structure GrpcObserverAdapter where
  stagedFacts : StagedFacts
  supportsFastForward : Bool
  /-- The messages sent, in order. -/
  sent : List Message := []

namespace GrpcObserverAdapter

def send (a : GrpcObserverAdapter) (message : Message) : GrpcObserverAdapter :=
  { a with sent := a.sent ++ [message] }

def flush (a : GrpcObserverAdapter) : GrpcObserverAdapter :=
  if a.stagedFacts.staged.isEmpty then a
  else
    let (facts, stagedFacts) := a.stagedFacts.popAll
    { a.send (.onNext (.facts facts)) with stagedFacts }

/-- The fact is staged; if it does not fit, everything staged goes first. What
becomes of the second attempt is not asked. -/
def onNext (a : GrpcObserverAdapter) (fact : JsonFact) : GrpcObserverAdapter :=
  match a.stagedFacts.add fact with
  | (stagedFacts, true) => { a with stagedFacts }
  | (_, false) => { a.flush with stagedFacts := (a.flush.stagedFacts.add fact).1 }

def onFastForward (a : GrpcObserverAdapter) (id : UUID) (serial : Nat) : GrpcObserverAdapter :=
  if a.supportsFastForward then a.send (.onNext (.ffwd id serial)) else a

def onCatchup (a : GrpcObserverAdapter) : GrpcObserverAdapter :=
  a.flush.send (.onNext .catchup)

def onComplete (a : GrpcObserverAdapter) : GrpcObserverAdapter :=
  (a.flush.send (.onNext .complete)).send .onCompleted

def onError (a : GrpcObserverAdapter) : GrpcObserverAdapter := a.flush.send .onError

end GrpcObserverAdapter

/-- A call on the adapter that is not its last one. -/
inductive Call where
  | onNext (fact : JsonFact)
  | flush
  | onFastForward (id : UUID) (serial : Nat)
  | onCatchup

/-- The last call. -/
inductive Ending where
  | onComplete
  | onError

namespace GrpcObserverAdapter

def call (a : GrpcObserverAdapter) : Call → GrpcObserverAdapter
  | .onNext fact => a.onNext fact
  | .flush => a.flush
  | .onFastForward id serial => a.onFastForward id serial
  | .onCatchup => a.onCatchup

def run (a : GrpcObserverAdapter) : List Call → GrpcObserverAdapter
  | [] => a
  | c :: rest => (a.call c).run rest

def finish (a : GrpcObserverAdapter) : Ending → GrpcObserverAdapter
  | .onComplete => a.onComplete
  | .onError => a.onError

end GrpcObserverAdapter

/-! ### The client -/

/-- What the observer behind a subscription is told, its flushes apart. -/
inductive Event where
  | fact (fact : JsonFact)
  | fastForward (id : UUID) (serial : Nat)
  | catchup
  | complete
  | error
deriving DecidableEq

/-- A subscription and what its observer was told. -/
structure ClientStreamObserver where
  closed : Bool := false
  told : List Event := []

namespace ClientStreamObserver

/-- A subscription passes on what it is told until it is closed, and a completion
or an error closes it. -/
def notify (c : ClientStreamObserver) (event : Event) : ClientStreamObserver :=
  if c.closed then c
  else
    { told := c.told ++ [event]
      closed := match event with
        | .complete => true
        | .error => true
        | _ => false }

def process (c : ClientStreamObserver) : Notification → ClientStreamObserver
  | .info => c
  | .keepAlive => c
  | .catchup => c.notify .catchup
  | .complete => c.notify .complete
  | .fact fact => c.notify (.fact fact)
  | .facts facts => facts.foldl (fun c fact => c.notify (.fact fact)) c
  | .ffwd id serial => if serial ≠ 0 then c.notify (.fastForward id serial) else c
  | .unrecognized => c.notify .error

def receive (c : ClientStreamObserver) : Message → ClientStreamObserver
  | .onNext notification => c.process notification
  | .onCompleted => c.notify .complete
  | .onError => c.notify .error

def receiveAll (c : ClientStreamObserver) (messages : List Message) : ClientStreamObserver :=
  messages.foldl receive c

end ClientStreamObserver

/-! ### What is given and what is sent -/

/-- What a call tells. -/
def Call.events : Call → List Event
  | .onNext fact => [.fact fact]
  | .flush => []
  | .onFastForward id serial => [.fastForward id serial]
  | .onCatchup => [.catchup]

def Ending.event : Ending → Event
  | .onComplete => .complete
  | .onError => .error

/-- The calls made on the server, as the subscription of the client should be told. -/
def given (calls : List Call) (ending : Ending) : List Event :=
  calls.flatMap Call.events ++ [ending.event]

/-- What a message says. -/
def Message.events : Message → List Event
  | .onNext (.fact fact) => [.fact fact]
  | .onNext (.facts facts) => facts.map .fact
  | .onNext (.ffwd id serial) => [.fastForward id serial]
  | .onNext .catchup => [.catchup]
  | .onNext .complete => [.complete]
  | .onNext _ => []
  | .onCompleted => []
  | .onError => [.error]

def GrpcObserverAdapter.events (a : GrpcObserverAdapter) : List Event := a.sent.flatMap Message.events

/-- The adapter of a client that asks for a size, and for fast-forwards or not. -/
def GrpcObserverAdapter.of_ (requested : Int) (supportsFastForward : Bool) : GrpcObserverAdapter :=
  { stagedFacts := .of_ (calculateMaxInboundMessageSize requested), supportsFastForward }

/-- What it has sent after the calls, the last one included. -/
def transported (requested : Int) (supportsFastForward : Bool) (calls : List Call) (ending : Ending) :
    GrpcObserverAdapter :=
  ((GrpcObserverAdapter.of_ requested supportsFastForward).run calls).finish ending

/-- A fast-forward that is not sent to who does not ask for it. -/
def Event.sendable (supportsFastForward : Bool) : Event → Bool
  | .fastForward _ _ => supportsFastForward
  | _ => true

/-- The messages say what was given, in order, and the client's subscription is told the same. -/
def Lossless (requested : Int) (supportsFastForward : Bool) (calls : List Call) (ending : Ending) :
    Prop :=
  let a := transported requested supportsFastForward calls ending
  a.events = (given calls ending).filter (Event.sendable supportsFastForward) ∧
    (ClientStreamObserver.receiveAll {} a.sent).told = given calls ending

/-- The call gets through: a fact fits the buffer, as it is or empty; a
fast-forward can be taken, and nothing is staged. -/
def GrpcObserverAdapter.takes (a : GrpcObserverAdapter) : Call → Bool
  | .onNext fact => a.stagedFacts.fits fact || a.flush.stagedFacts.fits fact
  | .onFastForward _ serial =>
    a.supportsFastForward && serial != 0 && a.stagedFacts.staged.isEmpty
  | _ => true

def GrpcObserverAdapter.takesAll (a : GrpcObserverAdapter) : List Call → Bool
  | [] => true
  | c :: rest => a.takes c && (a.call c).takesAll rest

/-- What has been sent and what is staged to be sent. -/
def GrpcObserverAdapter.taken (a : GrpcObserverAdapter) : List Event :=
  a.events ++ a.stagedFacts.staged.map .fact

/-! ### The messages -/

namespace GrpcObserverAdapter
variable {a : GrpcObserverAdapter} {fact : JsonFact}

@[simp] theorem events_send (message : Message) : (a.send message).events = a.events ++ message.events := by
  simp [events, send]

@[simp] theorem staged_flush : a.flush.stagedFacts.staged = [] := by
  unfold flush
  split
  · rename_i hempty
    simpa using hempty
  · rfl

/-- A flush sends what is staged. -/
@[simp] theorem events_flush : a.flush.events = a.taken := by
  unfold flush
  split
  · rename_i hempty
    have hnil : a.stagedFacts.staged = [] := by simpa using hempty
    simp [taken, hnil]
  · show (a.send (.onNext (.facts a.stagedFacts.staged))).events = a.taken
    simp [taken, Message.events]

theorem taken_flush : a.flush.taken = a.taken := by
  unfold taken
  rw [staged_flush, events_flush]
  simp [taken]

theorem taken_add (h : a.stagedFacts.fits fact = true) :
    ({ a with stagedFacts := (a.stagedFacts.add fact).1 } : GrpcObserverAdapter).taken =
      a.taken ++ [.fact fact] := by
  simp only [taken, StagedFacts.add, h, if_true, List.map_append, List.map_cons, List.map_nil,
    List.append_assoc]
  rfl

theorem takes_onNext :
    a.takes (.onNext fact) = (a.stagedFacts.fits fact || a.flush.stagedFacts.fits fact) := rfl

/-- A fact is staged if it fits one way or the other, and dropped if not. -/
theorem taken_onNext : (a.onNext fact).taken =
    a.taken ++ if a.takes (.onNext fact) then [.fact fact] else [] := by
  rw [takes_onNext]
  unfold onNext
  by_cases hfits : a.stagedFacts.fits fact = true
  · have hadd : a.stagedFacts.add fact = ((a.stagedFacts.add fact).1, true) := by
      simp [StagedFacts.add, hfits]
    rw [hadd, hfits]
    exact taken_add hfits
  · have hadd : a.stagedFacts.add fact = (a.stagedFacts, false) := by
      simp [StagedFacts.add, hfits]
    rw [hadd, Bool.eq_false_iff.mpr hfits, Bool.false_or]
    show ({ a.flush with stagedFacts := (a.flush.stagedFacts.add fact).1 } :
      GrpcObserverAdapter).taken = _
    by_cases hempty : a.flush.stagedFacts.fits fact = true
    · rw [taken_add hempty, taken_flush, if_pos hempty]
    · have hkept : (a.flush.stagedFacts.add fact).1 = a.flush.stagedFacts := by
        simp [StagedFacts.add, hempty]
      rw [hkept, if_neg hempty, List.append_nil]
      exact taken_flush

/-- What gets through is taken in its place. -/
theorem taken_call {c : Call} (h : a.takes c = true) : (a.call c).taken = a.taken ++ c.events := by
  cases c with
  | onNext fact =>
    show (a.onNext fact).taken = _
    rw [taken_onNext, if_pos h]
    rfl
  | flush =>
    show a.flush.taken = a.taken ++ []
    rw [taken_flush, List.append_nil]
  | onFastForward id serial =>
    simp only [takes, Bool.and_eq_true, List.isEmpty_iff] at h
    obtain ⟨⟨hsupports, _⟩, hstaged⟩ := h
    show (a.onFastForward id serial).taken = _
    unfold onFastForward
    rw [if_pos hsupports]
    show (a.send _).events ++ a.stagedFacts.staged.map .fact = _
    simp [taken, hstaged, Message.events, Call.events]
  | onCatchup =>
    show (a.flush.send (.onNext .catchup)).taken = _
    unfold taken
    rw [events_send, events_flush]
    show a.taken ++ [.catchup] ++ a.flush.stagedFacts.staged.map .fact = _
    rw [staged_flush]
    simp [taken, Call.events]

theorem taken_run (calls : List Call) (h : a.takesAll calls = true) :
    (a.run calls).taken = a.taken ++ calls.flatMap Call.events := by
  induction calls generalizing a with
  | nil => simp [run]
  | cons c rest ih =>
    simp only [takesAll, Bool.and_eq_true] at h
    simp only [run, List.flatMap_cons]
    rw [ih h.2, taken_call h.1, List.append_assoc]

/-- The last call sends what is left. -/
theorem events_finish (ending : Ending) : (a.finish ending).events = a.taken ++ [ending.event] := by
  cases ending with
  | onComplete =>
    show ((a.flush.send (.onNext .complete)).send .onCompleted).events = _
    simp [Message.events, Ending.event]
  | onError =>
    show (a.flush.send .onError).events = _
    simp [Message.events, Ending.event]

end GrpcObserverAdapter

/-! ### The client's side -/

/-- The message closes no subscription. -/
def Message.open_ : Message → Bool
  | .onNext .complete => false
  | .onNext .unrecognized => false
  | .onNext _ => true
  | .onCompleted => false
  | .onError => false

/-- A fast-forward without a serial is passed over. -/
def Event.deliverable : Event → Bool
  | .fastForward _ serial => serial != 0
  | _ => true

namespace ClientStreamObserver
variable {c : ClientStreamObserver}

theorem notify_facts (facts : List JsonFact) (h : c.closed = false) :
    facts.foldl (fun c fact => c.notify (.fact fact)) c =
      { closed := false, told := c.told ++ facts.map .fact } := by
  induction facts generalizing c with
  | nil =>
    simp only [List.foldl_nil, List.map_nil, List.append_nil]
    rw [← h]
  | cons fact rest ih =>
    simp only [List.foldl_cons, List.map_cons]
    rw [ih (by simp [notify, h])]
    simp [notify, h]

theorem receive_open {message : Message} (h : c.closed = false) (hopen : message.open_ = true) :
    c.receive message =
      { closed := false, told := c.told ++ message.events.filter Event.deliverable } := by
  cases message with
  | onNext notification =>
    cases notification with
    | facts facts =>
      have hall : (facts.map Event.fact).filter Event.deliverable = facts.map Event.fact := by
        simp [List.filter_eq_self, Event.deliverable]
      show facts.foldl _ c = _
      rw [notify_facts facts h]
      simp only [Message.events, hall]
    | ffwd id serial =>
      by_cases hzero : serial = 0
      · have hc : c = { closed := false, told := c.told } := by rw [← h]
        simpa [receive, process, hzero, Message.events, Event.deliverable] using hc
      · simp [receive, process, hzero, Message.events, Event.deliverable, notify, h, List.filter_cons]
    | complete => cases hopen
    | unrecognized => cases hopen
    | info =>
      have hc : c = { closed := false, told := c.told } := by rw [← h]
      simpa [receive, process, Message.events] using hc
    | keepAlive =>
      have hc : c = { closed := false, told := c.told } := by rw [← h]
      simpa [receive, process, Message.events] using hc
    | catchup =>
      simp [receive, process, Message.events, Event.deliverable, notify, h, List.filter_cons]
    | fact fact =>
      simp [receive, process, Message.events, Event.deliverable, notify, h, List.filter_cons]
  | onCompleted => cases hopen
  | onError => cases hopen

theorem receiveAll_open (messages : List Message) (h : c.closed = false)
    (hopen : ∀ m ∈ messages, m.open_ = true) :
    c.receiveAll messages =
      { closed := false
        told := c.told ++ (messages.flatMap Message.events).filter Event.deliverable } := by
  induction messages generalizing c with
  | nil =>
    have hc : c = { closed := false, told := c.told } := by rw [← h]
    simpa [receiveAll] using hc
  | cons m rest ih =>
    have hm := receive_open h (hopen m (List.mem_cons_self ..))
    show (c.receive m).receiveAll rest = _
    rw [ih (by rw [hm]) fun m hm => hopen m (List.mem_cons_of_mem _ hm), hm]
    simp

end ClientStreamObserver

namespace GrpcObserverAdapter
variable {a : GrpcObserverAdapter}

theorem open_flush (h : ∀ m ∈ a.sent, m.open_ = true) : ∀ m ∈ a.flush.sent, m.open_ = true := by
  unfold flush
  split
  · exact h
  · intro m hm
    rcases List.mem_append.mp hm with hm | hm
    · exact h m hm
    · rw [List.mem_singleton.mp hm]
      rfl

/-- Only the last call closes the subscription. -/
theorem open_call {c : Call} (h : ∀ m ∈ a.sent, m.open_ = true) :
    ∀ m ∈ (a.call c).sent, m.open_ = true := by
  cases c with
  | onNext fact =>
    show ∀ m ∈ (a.onNext fact).sent, m.open_ = true
    unfold onNext
    split
    · exact h
    · exact open_flush h
  | flush => exact open_flush h
  | onFastForward id serial =>
    show ∀ m ∈ (a.onFastForward id serial).sent, m.open_ = true
    unfold onFastForward
    split
    · intro m hm
      rcases List.mem_append.mp hm with hm | hm
      · exact h m hm
      · rw [List.mem_singleton.mp hm]
        rfl
    · exact h
  | onCatchup =>
    intro m hm
    rcases List.mem_append.mp hm with hm | hm
    · exact open_flush h m hm
    · rw [List.mem_singleton.mp hm]
      rfl

theorem open_run (calls : List Call) (h : ∀ m ∈ a.sent, m.open_ = true) :
    ∀ m ∈ (a.run calls).sent, m.open_ = true := by
  induction calls generalizing a with
  | nil => exact h
  | cons c rest ih => exact ih (open_call h)

/-- The subscription is told what the messages say, but for fast-forwards without
a serial. What follows a completion finds it closed. -/
theorem told_finish (ending : Ending) (h : ∀ m ∈ a.sent, m.open_ = true) :
    (ClientStreamObserver.receiveAll {} (a.finish ending).sent).told =
      (a.finish ending).events.filter Event.deliverable := by
  have hopen := ClientStreamObserver.receiveAll_open (c := {}) a.flush.sent rfl (open_flush h)
  have hflush : a.flush.sent.flatMap Message.events = a.taken := events_flush
  have hlast : [ending.event].filter Event.deliverable = [ending.event] := by
    cases ending <;> rfl
  rw [events_finish, List.filter_append, hlast]
  cases ending with
  | onComplete =>
    show (ClientStreamObserver.receiveAll {}
      ((a.flush.sent ++ [.onNext .complete]) ++ [.onCompleted])).told = _
    unfold ClientStreamObserver.receiveAll at hopen ⊢
    rw [List.foldl_append, List.foldl_append, hopen, hflush]
    rfl
  | onError =>
    show (ClientStreamObserver.receiveAll {} (a.flush.sent ++ [.onError])).told = _
    unfold ClientStreamObserver.receiveAll at hopen ⊢
    rw [List.foldl_append, hopen, hflush]
    rfl

/-! ### What is lost -/

theorem supports_flush : a.flush.supportsFastForward = a.supportsFastForward := by
  unfold flush
  split <;> rfl

theorem supports_call (c : Call) : (a.call c).supportsFastForward = a.supportsFastForward := by
  cases c with
  | onNext fact =>
    show (a.onNext fact).supportsFastForward = _
    unfold onNext
    split
    · rfl
    · exact supports_flush
  | flush => exact supports_flush
  | onFastForward id serial =>
    show (a.onFastForward id serial).supportsFastForward = _
    unfold onFastForward
    split <;> rfl
  | onCatchup => exact supports_flush

/-- No call takes in more than it is given, and no fast-forward that is not asked for. -/
theorem length_call_le (c : Call) : (a.call c).taken.length ≤
    a.taken.length + (c.events.filter (Event.sendable a.supportsFastForward)).length := by
  cases c with
  | onNext fact =>
    show (a.onNext fact).taken.length ≤ a.taken.length + 1
    rw [taken_onNext]
    split
    · rw [List.length_append]
      exact Nat.le_refl _
    · rw [List.append_nil]
      exact Nat.le_succ _
  | onFastForward id serial =>
    show (a.onFastForward id serial).taken.length ≤ _
    unfold onFastForward
    split
    · rename_i hsupports
      have hsendable : (Call.onFastForward id serial).events.filter (Event.sendable a.supportsFastForward) =
          [.fastForward id serial] := by simp [Call.events, Event.sendable, hsupports]
      rw [hsendable]
      show ((a.send _).events ++ a.stagedFacts.staged.map Event.fact).length ≤ _
      rw [events_send, taken]
      simp only [List.length_append, Message.events, List.length_singleton]
      omega
    · exact Nat.le_add_right ..
  | flush =>
    rw [taken_call rfl, List.length_append]
    exact Nat.le_refl _
  | onCatchup =>
    rw [taken_call rfl, List.length_append]
    exact Nat.le_refl _

theorem length_run_le (calls : List Call) : (a.run calls).taken.length ≤
    a.taken.length + ((calls.flatMap Call.events).filter (Event.sendable a.supportsFastForward)).length := by
  induction calls generalizing a with
  | nil => exact Nat.le_add_right ..
  | cons c rest ih =>
    have hrest := @ih (a.call c)
    have hcall := @length_call_le a c
    rw [supports_call] at hrest
    simp only [run, List.flatMap_cons, List.filter_append, List.length_append]
    omega

theorem sent_call (c : Call) : a.sent <+: (a.call c).sent := by
  have hflush : a.sent <+: a.flush.sent := by
    unfold flush
    split
    · exact List.prefix_rfl
    · exact List.prefix_append ..
  cases c with
  | onNext fact =>
    show a.sent <+: (a.onNext fact).sent
    unfold onNext
    split
    · exact List.prefix_rfl
    · exact hflush
  | flush => exact hflush
  | onFastForward id serial =>
    show a.sent <+: (a.onFastForward id serial).sent
    unfold onFastForward
    split
    · exact List.prefix_append ..
    · exact List.prefix_rfl
  | onCatchup => exact hflush.trans (List.prefix_append ..)

theorem sent_run (calls : List Call) : a.sent <+: (a.run calls).sent := by
  induction calls generalizing a with
  | nil => exact List.prefix_rfl
  | cons c rest ih => exact (sent_call c).trans ih

/-- What is sent stays at the beginning of what is taken in. -/
theorem events_run (calls : List Call) : a.events <+: (a.run calls).taken := by
  obtain ⟨rest, hrest⟩ := @sent_run a calls
  refine ⟨rest.flatMap Message.events ++ (a.run calls).stagedFacts.staged.map .fact, ?_⟩
  show _ = (a.run calls).sent.flatMap Message.events ++ _
  rw [← hrest, List.flatMap_append, ← List.append_assoc]
  rfl

/-- What gets through can be sent and delivered. -/
theorem deliverable_of_takesAll (calls : List Call) (h : a.takesAll calls = true) :
    ∀ e ∈ calls.flatMap Call.events, e.sendable a.supportsFastForward = true ∧ e.deliverable = true := by
  induction calls generalizing a with
  | nil =>
    intro e he
    cases he
  | cons c rest ih =>
    simp only [takesAll, Bool.and_eq_true] at h
    intro e he
    rcases List.mem_append.mp he with he | he
    · cases c with
      | onNext fact =>
        rw [List.mem_singleton.mp he]
        exact ⟨rfl, rfl⟩
      | flush => cases he
      | onFastForward id serial =>
        simp only [takes, Bool.and_eq_true] at h
        rw [List.mem_singleton.mp he]
        exact h.1.1
      | onCatchup =>
        rw [List.mem_singleton.mp he]
        exact ⟨rfl, rfl⟩
    · have hrest := ih h.2 e he
      rw [supports_call] at hrest
      exact hrest

/-- If everything was taken in its place, every call got through. -/
theorem takesAll_of_taken (calls : List Call)
    (hffwd : ∀ id serial, .onFastForward id serial ∈ calls →
      a.supportsFastForward = true ∧ serial ≠ 0)
    (h : (a.run calls).taken = a.taken ++ calls.flatMap Call.events) : a.takesAll calls = true := by
  induction calls generalizing a with
  | nil => rfl
  | cons c rest ih =>
    have htakes : a.takes c = true := by
      cases c with
      | onNext fact =>
        by_contra hdrop
        -- one fact less was taken in, and none of the other calls makes up for it
        have hcall : (a.call (.onNext fact)).taken = a.taken := by
          show (a.onNext fact).taken = a.taken
          rw [taken_onNext, if_neg hdrop, List.append_nil]
        have hle := @length_run_le (a.call (.onNext fact)) rest
        rw [hcall] at hle
        have hcount := congrArg List.length h
        simp only [run, List.flatMap_cons, List.length_append] at hcount
        have hone : (Call.onNext fact).events.length = 1 := rfl
        have hfilter := List.length_filter_le (Event.sendable a.supportsFastForward) (rest.flatMap Call.events)
        rw [supports_call] at hle
        omega
      | onFastForward id serial =>
        obtain ⟨hsupports, hserial⟩ := hffwd id serial (List.mem_cons_self ..)
        cases hstaged : a.stagedFacts.staged with
        | nil => simp [takes, hsupports, hserial, hstaged]
        | cons fact more =>
          exfalso
          -- the fast-forward stands where the first staged fact belongs
          have hcall : (a.call (.onFastForward id serial)).events =
              a.events ++ [.fastForward id serial] := by
            show (a.onFastForward id serial).events = _
            unfold onFastForward
            rw [if_pos hsupports, events_send]
            rfl
          have hfront := @events_run (a.call (.onFastForward id serial)) rest
          rw [hcall] at hfront
          simp only [run] at h
          rw [h, taken, hstaged, List.append_assoc] at hfront
          have hhead := (List.prefix_append_right_inj _).mp hfront
          simp at hhead
      | flush => rfl
      | onCatchup => rfl
    simp only [takesAll, htakes, Bool.true_and]
    refine ih (fun id serial hmem => ?_) ?_
    · rw [supports_call]
      exact hffwd id serial (List.mem_cons_of_mem _ hmem)
    · rw [taken_call htakes, List.append_assoc]
      exact h

end GrpcObserverAdapter

section Lossless
variable {requested : Int} {supportsFastForward : Bool} {calls : List Call} {ending : Ending}

theorem told_transported :
    (ClientStreamObserver.receiveAll {} (transported requested supportsFastForward calls ending).sent).told =
      (transported requested supportsFastForward calls ending).events.filter Event.deliverable := by
  refine GrpcObserverAdapter.told_finish ending (GrpcObserverAdapter.open_run calls fun m hm => ?_)
  cases hm

theorem events_transported : (transported requested supportsFastForward calls ending).events =
    ((GrpcObserverAdapter.of_ requested supportsFastForward).run calls).taken ++ [ending.event] :=
  GrpcObserverAdapter.events_finish ending

/-- What is told is as much as was given only if all of it was sent. -/
theorem lossless_of_told (h : (ClientStreamObserver.receiveAll {}
    (transported requested supportsFastForward calls ending).sent).told = given calls ending) :
    Lossless requested supportsFastForward calls ending := by
  refine ⟨?_, h⟩
  rw [told_transported] at h
  have htold := congrArg List.length h
  have hevents := List.length_filter_le Event.deliverable (transported requested supportsFastForward calls ending).events
  have htaken := @GrpcObserverAdapter.length_run_le (.of_ requested supportsFastForward) calls
  have hsendable := List.length_filter_le (Event.sendable supportsFastForward) (calls.flatMap Call.events)
  rw [events_transported, List.length_append] at hevents
  replace htaken : _ ≤ 0 + ((calls.flatMap Call.events).filter (Event.sendable supportsFastForward)).length := htaken
  rw [given, List.length_append, events_transported] at htold
  have hall : (given calls ending).filter (Event.sendable supportsFastForward) = given calls ending := by
    refine List.filter_sublist.eq_of_length ?_
    have hending : [ending.event].filter (Event.sendable supportsFastForward) = [ending.event] := by
      cases ending <;> rfl
    rw [given, List.filter_append, List.length_append, List.length_append, hending]
    omega
  rw [hall, ← h]
  refine (List.filter_sublist.eq_of_length ?_).symm
  rw [events_transported, List.length_append]
  omega

/-- If nothing is lost, nothing given is held back, so what was taken in is what was given. -/
theorem takesAll_of_lossless (h : Lossless requested supportsFastForward calls ending) :
    (GrpcObserverAdapter.of_ requested supportsFastForward).takesAll calls = true := by
  obtain ⟨hevents, hclient⟩ := h
  rw [told_transported, hevents, List.filter_filter] at hclient
  have hgiven : ∀ e ∈ given calls ending,
      e.deliverable = true ∧ e.sendable supportsFastForward = true := by
    intro e he
    simpa using List.filter_eq_self.mp hclient e he
  rw [List.filter_eq_self.mpr fun e he => (hgiven e he).2, events_transported] at hevents
  refine GrpcObserverAdapter.takesAll_of_taken calls (fun id serial hmem => ?_) ?_
  · have he : Event.fastForward id serial ∈ given calls ending :=
      List.mem_append_left _ (List.mem_flatMap.mpr ⟨_, hmem, List.mem_singleton.mpr rfl⟩)
    obtain ⟨hdeliverable, hsendable⟩ := hgiven _ he
    exact ⟨hsendable, by simpa [Event.deliverable] using hdeliverable⟩
  · exact (List.append_inj' hevents rfl).1

theorem lossless_of_takesAll
    (h : (GrpcObserverAdapter.of_ requested supportsFastForward).takesAll calls = true) :
    Lossless requested supportsFastForward calls ending := by
  have hevents : (transported requested supportsFastForward calls ending).events =
      given calls ending := by
    rw [events_transported, GrpcObserverAdapter.taken_run calls h]
    rfl
  have hgiven : ∀ e ∈ given calls ending,
      e.sendable supportsFastForward = true ∧ e.deliverable = true := by
    intro e he
    rcases List.mem_append.mp he with he | he
    · exact GrpcObserverAdapter.deliverable_of_takesAll calls h e he
    · rw [List.mem_singleton.mp he]
      cases ending <;> exact ⟨rfl, rfl⟩
  refine ⟨?_, ?_⟩
  · rw [hevents, List.filter_eq_self.mpr fun e he => (hgiven e he).1]
  · rw [told_transported, hevents, List.filter_eq_self.mpr fun e he => (hgiven e he).2]

end Lossless

/-- The transport is lossless exactly for the calls that all get through. -/
theorem lossless_iff (requested : Int) (supportsFastForward : Bool) (calls : List Call)
    (ending : Ending) : Lossless requested supportsFastForward calls ending ↔
      (GrpcObserverAdapter.of_ requested supportsFastForward).takesAll calls = true :=
  ⟨takesAll_of_lossless, lossless_of_takesAll⟩

/-- A fact whose payload is a text of `n` letters. -/
def lettersOf (n : Nat) : JsonFact where
  jsonHeader := "\x7b\"id\":\"00000000-0000-0000-0000-000000000001\",\"ns\":\"orders\"\x7d"
  jsonPayload := "\x7b\"text\":\"" ++ String.ofList (List.replicate n 'a') ++ "\"\x7d"

theorem utf16Length_append (s t : String) : utf16Length (s ++ t) = utf16Length s + utf16Length t := by
  simp [utf16Length]

theorem utf16Length_letters (n : Nat) : utf16Length (String.ofList (List.replicate n 'a')) = n := by
  simp [utf16Length]

theorem large_fact_lost : ¬ Lossless 3682304 true [.onNext (lettersOf 3500000)] .onComplete := by
  intro h
  have htakes := takesAll_of_lossless h
  have hbytes : StagedFacts.byteSizeOf (lettersOf 3500000) = 3500078 := by
    simp only [StagedFacts.byteSizeOf, lettersOf, utf16Length_append, utf16Length_letters]
    decide
  revert htakes
  simp only [GrpcObserverAdapter.takesAll, GrpcObserverAdapter.takes_onNext, StagedFacts.fits, hbytes]
  decide

end FactCast.Transport
