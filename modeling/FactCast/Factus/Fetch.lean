import FactCast.Factus.Atomic
import FactCast.Factus.Observer
import FactCast.Factus.Snapshot
import FactCast.Machine.Run

/-! Fetching projections with the help of snapshots.

A fetch takes a snapshot, if it finds one, and catches up from the fact that the
snapshot names. While it does so it stores snapshots, one every thirty seconds at
most, and another one in the end. A cache may forget what it stores and may return
what was stored before: a fetch may start from any snapshot that some fetch has
stored, or from none.

The stream that the catchup subscribes to goes through the log. It delivers what
matches in order, fast-forwards past what does not, and completes when nothing that
was there when the fetch began is left. Any number of fetches go on while facts are
published. -/
namespace FactCast.FactusImpl
open ProjectorImpl (Projection Applied Handling Awareness)

/-- A class of snapshot projections, and the state of a new instance. -/
structure SnapshotClass (σ β : Type) where
  dispatchInfo : DispatchInfo
  handling : Handling σ
  /-- What a handler that throws leaves behind. -/
  interrupted : Handler → DeliveredFact → σ → σ
  /-- The class is aware of its position. -/
  aware : Bool
  /-- For an aggregate, its identifier is set. -/
  initial : Option UUID → σ
  snapshots : SnapshotProjection β (Applied σ)

/-- An instance that is caught up, what is stored meanwhile, and the clock. -/
structure Catchup (σ β : Type) where
  projection : Applied σ
  stored : List (SnapshotData β)
  nextSnapshot : Nat
  now : Nat

section Catchup
variable {σ β : Type} (c : SnapshotClass σ β)

def projector : Projection (Catchup σ β) Unit where
  dispatchInfo := c.dispatchInfo
  invoke := fun h f _ w =>
    match c.handling h f w.projection.state with
    | .ok state => .normally { w with projection := { w.projection with state := state } }
    | .error e => .abruptly e
      { w with projection := { w.projection with state := c.interrupted h f w.projection.state } }
  onError := fun _ w => .normally w
  awareness :=
    if c.aware then .factStreamPositionAware fun position w =>
      .normally { w with projection := { w.projection with factStreamPosition := some position } }
    else .unaware

def createSnapshot (state : UUID) (w : Catchup σ β) : Catchup σ β :=
  let serialized := AbstractSnapshotRepository.serialize c.snapshots w.projection state
  { w with projection := serialized.1, stored := w.stored ++ [serialized.2] }

/-- Thirty seconds. -/
def duration : Nat := 30000

/-- Takes a snapshot when one is due. -/
def intervalSnapshotter (uuid : Option UUID) (w : Catchup σ β) : Completion Throwable (Catchup σ β) :=
  if w.nextSnapshot < w.now then
    match uuid with
    | some state => .normally (createSnapshot c state { w with nextSnapshot := w.now + duration })
    | none => .abruptly (.runtime "state is marked non-null but is null") w
  else .normally w

def maxDefault : Nat := 1000

theorem maxDefault_pos : 0 < maxDefault := Nat.succ_pos 999

def catchupProjection (stateOrNull : Option UUID) : Observation (Catchup σ β) Unit where
  projection := projector c
  mode := .catchup stateOrNull (intervalSnapshotter c)
  maxNumberOfFactsToBuffer := maxDefault
  positive := maxDefault_pos

end Catchup

/-- A fetch, or a find, that is going on. -/
structure Running (σ β : Type) where
  id : SnapshotIdentifier
  lastFactIdApplied : Option UUID
  observer : FactObserver (Catchup σ β) Unit
  /-- Where in the log the stream started. -/
  started : Nat
  /-- How far the stream has come. -/
  cursor : Nat
  /-- How long the log was. -/
  wanted : Nat

inductive Fetch (σ β : Type) where
  | idle
  | running (r : Running σ β)
  /-- It has thrown. -/
  | threw
  /-- An instance, or none where nothing was ever applied to an aggregate. -/
  | returned (id : SnapshotIdentifier) (result : Option (Applied σ)) (wanted upTo : Nat)

/-- The classes of an application, and which facts match their specifications. -/
structure Application (σ β : Type) where
  classes : ClassName → SnapshotClass σ β
  matching : SnapshotIdentifier → DeliveredFact → Bool

structure Fetching (σ β : Type) where
  log : List DeliveredFact
  /-- Every snapshot that was ever stored. -/
  snapshots : SnapshotIdentifier → List (SnapshotData β)
  fetch : Nat → Fetch σ β

inductive Move where
  | publish (f : DeliveredFact)
  /-- A call begins, with the `n`-th snapshot that was stored or with none. -/
  | begin_ (t : Nat) (id : SnapshotIdentifier) (n : Option Nat) (now : Nat)
  /-- The next fact that matches. -/
  | onNext (t now : Nat)
  | flush (t now : Nat)
  /-- To the `n`-th fact. -/
  | onFastForward (t n now : Nat)
  | onCatchup (t now : Nat)
  | onError (t now : Nat) (exception : Throwable)
  | onComplete (t now : Nat)

section Step
variable {σ β : Type} (app : Application σ β) (s : Fetching σ β)

def classOf (id : SnapshotIdentifier) : SnapshotClass σ β := app.classes id.projectionClass

/-- Behind the fact of an identifier. -/
def startingAfter (log : List DeliveredFact) : Option UUID → Nat
  | none => 0
  | some id => (log.findIdx? fun f => f.id == id).elim 0 (· + 1)

/-- Serials ascend and identifiers are unique. -/
def publish (f : DeliveredFact) : Option (Fetching σ β) :=
  if f.serial.isSome && s.log.all fun g =>
      decide ((FactStreamPosition.from_ g).serial < (FactStreamPosition.from_ f).serial) && g.id != f.id
  then some { s with log := s.log ++ [f] }
  else none

/-- A restored instance and its last fact, or a new one. -/
def findLatest (id : SnapshotIdentifier) : Option Nat →
    Option (Except Throwable (Applied σ × Option UUID))
  | none => some (.ok (⟨(classOf app id).initial id.aggregateId, none⟩, none))
  | some n => (s.snapshots id)[n]?.map fun data =>
    (AbstractSnapshotRepository.deserialize (classOf app id).snapshots data.serializedProjection).map
      fun projection => (projection, some data.lastFactId)

def begin_ (t : Nat) (id : SnapshotIdentifier) (n : Option Nat) (now : Nat) : Option (Fetching σ β) :=
  match s.fetch t with
  | .running _ => none
  | _ =>
    (findLatest app s id n).map fun
      | .error _ => { s with fetch := Function.update s.fetch t .threw }
      | .ok (projection, lastFactIdApplied) =>
        let started := startingAfter s.log lastFactIdApplied
        { s with fetch := Function.update s.fetch t (.running
          { id := id
            lastFactIdApplied := lastFactIdApplied
            observer := { target := ⟨none, ⟨projection, [], now + duration, now⟩⟩ }
            started := started
            cursor := started
            wanted := s.log.length }) }

/-- Goes on after a callback, with the snapshots that were stored in it. An exception
ends the fetch. -/
def after (t : Nat) (r : Running σ β) (called : Completion Throwable (FactObserver (Catchup σ β) Unit)) :
    Fetching σ β :=
  let w := called.state.target.world
  { s with
    snapshots := Function.update s.snapshots r.id (s.snapshots r.id ++ w.stored)
    fetch := Function.update s.fetch t <|
      match called with
      | .normally x => .running { r with
          observer := { x with target := { x.target with world := { w with stored := [] } } } }
      | .abruptly _ _ => .threw }

/-- The clock is read again. -/
def Running.at_ (r : Running σ β) (now : Nat) : FactObserver (Catchup σ β) Unit :=
  { r.observer with target := { r.observer.target with world := { r.observer.target.world with now := now } } }

def observation (r : Running σ β) : Observation (Catchup σ β) Unit :=
  catchupProjection (classOf app r.id) r.lastFactIdApplied

/-- Nothing that matches lies between two places of the log. -/
def clear (id : SnapshotIdentifier) (start stop : Nat) : Bool :=
  ((s.log.take stop).drop start).all fun f => !app.matching id f

/-- The fetch stores what it has, if it has applied anything, and returns. -/
def dofetch (t : Nat) (r : Running σ β) (x : FactObserver (Catchup σ β) Unit) : Fetching σ β :=
  let w := x.target.world
  let upTo := max r.cursor r.wanted
  match x.position.bind FactStreamPosition.factId with
  | some state =>
    let w := createSnapshot (classOf app r.id) state w
    { s with
      snapshots := Function.update s.snapshots r.id (s.snapshots r.id ++ w.stored)
      fetch := Function.update s.fetch t (.returned r.id (some w.projection) r.wanted upTo) }
  | none =>
    let result := if r.id.aggregateId.isSome && r.lastFactIdApplied.isNone then none else some w.projection
    { s with
      snapshots := Function.update s.snapshots r.id (s.snapshots r.id ++ w.stored)
      fetch := Function.update s.fetch t (.returned r.id result r.wanted upTo) }

/-- A callback of the fetch of a thread. -/
def callback (t : Nat) (step : Running σ β → Option (Fetching σ β)) : Option (Fetching σ β) :=
  match s.fetch t with
  | .running r => step r
  | _ => none

def fetchStep : Move → Option (Fetching σ β)
  | .publish f => publish s f
  | .begin_ t id n now => begin_ app s t id n now
  | .onNext t now => callback s t fun r =>
    ((s.log.drop r.cursor).findIdx? (app.matching r.id)).bind fun k =>
      s.log[r.cursor + k]?.map fun f =>
        after s t { r with cursor := r.cursor + k + 1 } (onNext (observation app r) f (r.at_ now))
  | .flush t now => callback s t fun r => some (after s t r (flush (observation app r) (r.at_ now)))
  | .onFastForward t n now => callback s t fun r =>
    if r.started < n && clear app s r.id r.cursor n then
      (s.log[n - 1]?).map fun f =>
        after s t { r with cursor := max r.cursor n }
          (onFastForward (observation app r) (.from_ f) (r.at_ now))
    else none
  | .onCatchup t now => callback s t fun r => some (after s t r (onCatchup (observation app r) (r.at_ now)))
  | .onError t now exception => callback s t fun r =>
    let called := onError (observation app r) exception (r.at_ now)
    some { after s t r called with fetch := Function.update s.fetch t .threw }
  | .onComplete t now => callback s t fun r =>
    if clear app s r.id r.cursor r.wanted then
      match onComplete (observation app r) (r.at_ now) with
      | .normally x => some (dofetch app s t r x)
      | .abruptly e x => some (after s t r (.abruptly e x))
    else none

end Step
end FactCast.FactusImpl
