import FactCast.Factus.Snapshot
import FactCast.Machine.Run

/-! Snapshots in memory and in files.

A `find` looks into the memory first, and puts there what it has read from the file.
A `store` or a `remove` gets the write lock of the file and leaves the rest to a task,
which releases it; it changes the memory meanwhile, and returns. A change of the memory is
the last thing that a call does, and is one step with its return. Any number of calls
are under way, and each is where its phase says. Calls have the number of the step
they began with, and snapshots that of the call that stored them.

What a `find` may then return is in `Factus/DiskSnapshotCoherence.lean`. -/
namespace FactCast.InMemoryAndDiskSnapshotCache

/-- A snapshot and the call that stored it, zero for what was there before. -/
structure Stored (β : Type) where
  data : SnapshotData β
  storedBy : Nat

inductive Kind (β : Type) where
  | find
  | store (snapshot : SnapshotData β)
  | remove

def Kind.changes : Kind β → Bool
  | .find => false
  | _ => true

/-- What call `n` leaves behind, in the file and in the memory. -/
def Kind.leaves (n : Nat) : Kind β → Option (Stored β)
  | .store snapshot => some ⟨snapshot, n⟩
  | _ => none

/-- A call's next step. -/
inductive Phase (β : Type) where
  /-- It gets the lock of its file. -/
  | lockOn
  /-- It has got it, and waits for it. -/
  | waiting (lock : Nat)
  | reading (lock : Nat)
  /-- The file was read, and the memory is to be changed. -/
  | loaded (snapshot : Stored β) (read : Nat)
  /-- The task was submitted, and the memory is to be changed. -/
  | submitted
  | returned (result : Option (Stored β))

structure Call (β : Type) where
  id : SnapshotIdentifier
  kind : Kind β
  phase : Phase β := .lockOn
  /-- When it acquired the write lock. -/
  lockedAt : Option Nat := none
  returnedAt : Option Nat := none

/-- A task of the pool, which holds a write lock until it is done. -/
structure Task (Path β : Type) where
  path : Path
  lock : Nat
  leaves : Option (Stored β)

/-- A lock, and when it was last asked for. -/
structure FileLock where
  lock : Nat
  lastAccess : Nat

structure State (Path β : Type) where
  cache : SnapshotIdentifier → Option (Stored β)
  files : Path → Option (Stored β)
  fileSystemLevelLocks : Path → Option FileLock := fun _ => none
  calls : Nat → Option (Call β) := fun _ => none
  /-- By the number of the call that submitted it. -/
  tasks : Nat → Option (Task Path β) := fun _ => none
  /-- The number of the next step. -/
  time : Nat := 1
  /-- In milliseconds. -/
  now : Nat

inductive Action (Path β : Type) where
  | call (id : SnapshotIdentifier) (kind : Kind β)
  /-- Call `n` gets the lock of its file. -/
  | lockOn (n : Nat)
  | acquire (n : Nat)
  | read (n : Nat)
  /-- It throws before or while it reads. -/
  | readFails (n : Nat)
  /-- It puts what it has read. -/
  | put (n : Nat)
  /-- It puts what it stores, or invalidates. -/
  | change (n : Nat)
  /-- The task that call `n` submitted. -/
  | run (n : Nat)
  /-- It fails. The file is then as it was, or not to be read. -/
  | runFails (n : Nat) (kept : Bool)
  /-- A clean-up deletes a file, without its lock. -/
  | cleanup (path : Path)
  /-- The memory lets go of a soft value. -/
  | evict (id : SnapshotIdentifier)
  | elapse (ms : Nat)

variable {Path β : Type}

section Steps
variable [DecidableEq Path] (createFile : SnapshotIdentifier → Path) (s : State Path β)

def State.setCall (n : Nat) (c : Call β) : State Path β :=
  { s with
    calls := Function.update s.calls n (some c)
    time := s.time + 1 }

/-- A call returns. -/
def State.finish (n : Nat) (c : Call β) (result : Option (Stored β)) : State Path β :=
  s.setCall n { c with phase := .returned result, returnedAt := some s.time }

/-! #### Locks -/

/-- A lock that was not asked for in a minute is dropped from the cache of locks. -/
def expired (path : Path) : Bool :=
  match s.fileSystemLevelLocks path with
  | some l => decide (60000 ≤ s.now - l.lastAccess)
  | none => false

def getUnchecked (path : Path) : FileLock :=
  match s.fileSystemLevelLocks path, expired s path with
  | some l, false => ⟨l.lock, s.now⟩
  | _, _ => ⟨s.time, s.now⟩

/-- A task holds the lock. -/
def isWriteLocked (lock : Nat) : Bool :=
  (List.range s.time).any fun n => (s.tasks n).any fun t => t.lock == lock

def isReadLocked (lock : Nat) : Bool :=
  (List.range s.time).any fun n =>
    match s.calls n with
    | some { phase := .reading l, .. } => l == lock
    | _ => false

/-! #### Calls -/

/-- The memory answers, or the call goes on to the file. -/
def call (id : SnapshotIdentifier) (kind : Kind β) : State Path β :=
  let begun := s.setCall s.time { id, kind }
  match kind, s.cache id with
  | .find, some snapshot => begun.finish s.time { id, kind } (some snapshot)
  | _, _ => begun

def lockOn (n : Nat) : Option (State Path β) :=
  match s.calls n with
  | some c =>
    match c.phase with
    | .lockOn =>
      let l := getUnchecked s (createFile c.id)
      some { s.setCall n { c with phase := .waiting l.lock } with
        fileSystemLevelLocks := Function.update s.fileSystemLevelLocks (createFile c.id) (some l) }
    | _ => none
  | none => none

/-- A reader goes on to read, a writer leaves the lock to a task. -/
def acquire (n : Nat) : Option (State Path β) :=
  match s.calls n with
  | some c =>
    match c.phase with
    | .waiting l =>
      if isWriteLocked s l then none
      else if !c.kind.changes then some (s.setCall n { c with phase := .reading l })
      else if isReadLocked s l then none
      else
        some { s.setCall n { c with phase := .submitted, lockedAt := some s.time } with
          tasks := Function.update s.tasks n (some ⟨createFile c.id, l, c.kind.leaves n⟩) }
    | _ => none
  | none => none

/-- The file is read, and the lock released. -/
def read (n : Nat) : Option (State Path β) :=
  match s.calls n with
  | some c =>
    match c.phase with
    | .reading _ =>
      match s.files (createFile c.id) with
      | some snapshot => some (s.setCall n { c with phase := .loaded snapshot s.time })
      | none => some (s.finish n c none)
    | _ => none
  | none => none

def readFails (n : Nat) : Option (State Path β) :=
  match s.calls n with
  | some c =>
    match c.kind, c.phase with
    | .find, .lockOn => some (s.finish n c none)
    | .find, .reading _ => some (s.finish n c none)
    | _, _ => none
  | none => none

def put (n : Nat) : Option (State Path β) :=
  match s.calls n with
  | some c =>
    match c.phase with
    | .loaded snapshot _ =>
      some { s.finish n c (some snapshot) with
        cache := Function.update s.cache c.id (some snapshot) }
    | _ => none
  | none => none

def change (n : Nat) : Option (State Path β) :=
  match s.calls n with
  | some c =>
    match c.phase with
    | .submitted =>
      some { s.finish n c none with cache := Function.update s.cache c.id (c.kind.leaves n) }
    | _ => none
  | none => none

/-! #### Tasks -/

/-- The task of call `n` ends, and leaves a file as it leaves it. -/
def runAndUnlock (n : Nat) (leaves : Task Path β → Option (Stored β)) : Option (State Path β) :=
  (s.tasks n).map fun t =>
    { s with
      files := Function.update s.files t.path (leaves t)
      tasks := Function.update s.tasks n none }

end Steps

def step [DecidableEq Path] (createFile : SnapshotIdentifier → Path) (s : State Path β) :
    Action Path β → Option (State Path β)
  | .call id kind => some (call s id kind)
  | .lockOn n => lockOn createFile s n
  | .acquire n => acquire createFile s n
  | .read n => read createFile s n
  | .readFails n => readFails s n
  | .put n => put s n
  | .change n => change s n
  | .run n => runAndUnlock s n Task.leaves
  | .runFails n kept => runAndUnlock s n fun t => if kept then s.files t.path else none
  | .cleanup path => some { s with files := Function.update s.files path none }
  | .evict id => some { s with cache := Function.update s.cache id none }
  | .elapse ms => some { s with now := s.now + ms }

/-- Nothing is in memory at first, and anything in the files. -/
structure Start (s : State Path β) : Prop where
  cache : ∀ id, s.cache id = none
  files : ∀ path snapshot, s.files path = some snapshot → snapshot.storedBy = 0
  fileSystemLevelLocks : ∀ path, s.fileSystemLevelLocks path = none
  calls : ∀ n, s.calls n = none
  tasks : ∀ n, s.tasks n = none
  time : s.time = 1

def machine [DecidableEq Path] (createFile : SnapshotIdentifier → Path) :
    Machine (State Path β) (Action Path β) where
  Start := Start
  step := step createFile

/-! ### What must not happen -/

def Phase.lock? : Phase β → Option Nat
  | .waiting l | .reading l => some l
  | _ => none

section Timely
variable [DecidableEq Path] (createFile : SnapshotIdentifier → Path) (s : State Path β)

/-- Somebody holds a lock of the file, or waits for one. -/
def inUse (path : Path) : Bool :=
  (List.range s.time).any fun n =>
    (s.calls n).any (fun c => decide (createFile c.id = path) && c.phase.lock?.isSome) ||
      (s.tasks n).any fun t => decide (t.path = path)

/-- A change has returned that acquired its lock after the file was read. -/
def replaced (id : SnapshotIdentifier) (read : Nat) : Bool :=
  (List.range s.time).any fun n =>
    (s.calls n).any fun c => decide (c.id = id) && c.kind.changes && c.returnedAt.isSome &&
      c.lockedAt.any fun a => decide (read ≤ a)

/-- No lock expires while it is in use, no `find` puts what was replaced, and no task leaves
a file as it was. -/
def timely : Action Path β → Bool
  | .lockOn n =>
    (s.calls n).all fun c =>
      !(expired s (createFile c.id) && inUse createFile s (createFile c.id))
  | .put n =>
    match s.calls n with
    | some { id, phase := .loaded _ read, .. } => !replaced s id read
    | _ => true
  | .runFails _ kept => !kept
  | _ => true

end Timely

end FactCast.InMemoryAndDiskSnapshotCache
