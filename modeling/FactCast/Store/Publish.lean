import FactCast.Store.FactStore
import FactCast.Store.PublishTriggers
import FactCast.Machine.Run

/-! Publishing under the optimistic lock, for any number of clients.

Every call of `publish` and `publishIfUnchanged` is a transaction of several
statements; creating a token is two statements without a transaction. Between
any two statements every other client may move, so each statement is an action
of its own. What a transaction has written is seen by others from its commit on.
The write lock is held from its acquisition to the end of the transaction.

The insert fails if a fact is not new or cannot be indexed, and the commit fails if
a fact is too long for the trigger that was deferred (`Store/PublishTriggers.lean`).

A finished call leaves an event. `publishIfUnchanged_safe` says what every event of
every run is: the answer of a conditional publish is what its check saw, exactly if the
database can store the facts it is asked to. What the check saw is what the commit
found, and no token is spent twice. -/
namespace FactCast.PgFactStore
open PublishTriggers (Server uniqueEntry fits notifyFactInsert Short notifyFactInsert_ok_iff plain)

/-- How a call ended. `aborted` is a transaction that was cut off: its client
gets no answer from the store. -/
inductive Result where
  | returned (published : Bool)
  | thrown
  | aborted
deriving DecidableEq

/-- The statement a transaction runs next. -/
inductive Phase where
  | locking
  | lookup
  | check
  | insert
  | invalidate
  | commit
deriving DecidableEq

/-- A call under way and what it has written so far. -/
structure Tx where
  facts : List Fact
  token : Option UUID
  phase : Phase := .locking
  /-- What the token store held under the token. -/
  found : Option TokenState := none
  /-- The committed facts at the last statement that read them. -/
  seen : List FactRow := []
  /-- The serial of its first row. -/
  ser : Nat := 0
  txId : Nat := 0
  rows : List FactRow := []
  deleted : Bool := false
  result : Bool := false

/-- The transaction is to answer no, and has written no facts. -/
def Tx.refused (tx : Tx) (phase : Phase) (log : List FactRow) : Tx :=
  { tx with phase, seen := log, rows := [], deleted := false, result := false }

/-- The transaction has written its facts and is to answer yes. -/
def Tx.published (tx : Tx) (phase : Phase) (rows : List FactRow) : Tx :=
  { tx with phase, rows, deleted := false, result := true }

inductive Pc where
  | idle
  | tx (tx : Tx)
  /-- A state was read, its token is not stored yet. -/
  | create (state : TokenState)

/-- A call that has ended, with the committed facts before and after its end. -/
structure Event where
  facts : List Fact
  token : Option UUID
  found : Option TokenState
  seen : List FactRow
  ser : Nat
  txId : Nat
  before : List FactRow
  after : List FactRow
  result : Result

def Tx.event (tx : Tx) (before after : List FactRow) (result : Result) : Event :=
  { facts := tx.facts, token := tx.token, found := tx.found, seen := tx.seen, ser := tx.ser
    txId := tx.txId, before, after, result }

structure State where
  fact : List FactRow
  tokenstore : UUID → Option TokenState
  /-- Every token there ever was. -/
  issued : UUID → Option TokenState
  nextSer : Nat
  lock : Option Nat
  pc : Nat → Pc
  /-- The latest first. -/
  history : List Event

inductive Action where
  | publish (client : Nat) (facts : List Fact)
  | publishIfUnchanged (client : Nat) (facts : List Fact) (token : Option UUID)
  | stateFor (client : Nat) (specs : List FactSpec)
  | currentStateFor (client : Nat) (specs : List FactSpec)
  | create (client : Nat) (token : UUID)
  | acquire (client : Nat)
  | lookup (client : Nat)
  | check (client : Nat)
  /-- The database numbers a transaction when it first writes. -/
  | insert (client : Nat) (txId : Nat)
  | invalidate (client : Nat)
  | commit (client : Nat)
  | abort (client : Nat)
  /-- Compaction of the token store, or a client that drops its tokens. -/
  | forget (tokens : List UUID)
  /-- The sequence behind the serials gives out numbers nobody uses. -/
  | skip (n : Nat)

namespace State

def goto (s : State) (client : Nat) (pc : Pc) : State :=
  { s with pc := Function.update s.pc client pc }

def release (s : State) (client : Nat) : State :=
  { s with lock := if s.lock = some client then none else s.lock }

/-- The transaction ends and nothing it has written is kept. -/
def rollback (s : State) (client : Nat) (tx : Tx) (result : Result) : State :=
  { (s.release client).goto client .idle with
    history := tx.event s.fact s.fact result :: s.history }

/-- The transaction ends and what it has written is there for everyone. -/
def commit (s : State) (client : Nat) (tx : Tx) : State :=
  { (s.release client).goto client .idle with
    fact := s.fact ++ tx.rows
    tokenstore := fun t => if tx.deleted = true ∧ tx.token = some t then none else s.tokenstore t
    history := tx.event s.fact (s.fact ++ tx.rows) (.returned tx.result) :: s.history }

end State

/-- The row has its entries in the indexes. -/
def indexed (server : Server) (row : FactRow) : Bool :=
  (uniqueEntry server row.fact.header.json).isSome && fits server row.fact.header.json

/-- A row as the deferred trigger finds it. -/
def inserted (server : Server) (row : FactRow) : PublishTriggers.Row :=
  ⟨row.ser, row.fact.header.json, row.fact.payload, (uniqueEntry server row.fact.header.json).join⟩

section Statements
variable (db : Database) (server : Server) (readOnly : Bool) (s : State) (i : Nat)

/-- A call comes in. A store in read-only mode refuses it. -/
def call (facts : List Fact) (token : Option UUID) : Option State :=
  match s.pc i with
  | .idle =>
    if readOnly then some (s.rollback i { facts, token } .thrown)
    else some (s.goto i (.tx { facts, token }))
  | _ => none

/-- The first of the two statements behind a new token. -/
def readState (state : Option TokenState) : Option State :=
  match s.pc i with
  | .idle => state.map fun st => s.goto i (.create st)
  | _ => none

/-- The second one. The token is a new one. -/
def createToken (token : UUID) : Option State :=
  match s.pc i, s.issued token with
  | .create st, none =>
    some { s.goto i .idle with
      tokenstore := Function.update s.tokenstore token (some st)
      issued := Function.update s.issued token (some st) }
  | _, _ => none

/-- A statement of the transaction, at its turn. -/
def statement (phase : Phase) (run : Tx → Option State) : Option State :=
  match s.pc i with
  | .tx tx => if tx.phase = phase then run tx else none
  | _ => none

def aquireExclusiveTXLock : Option State :=
  statement s i .locking fun tx =>
    match s.lock with
    | none =>
      let next := if tx.token.isSome then .lookup else .insert
      some { s.goto i (.tx { tx with phase := next }) with lock := some i }
    | some _ => none

/-- The token's state, read from the token store. An unknown token is rejected. -/
def lookupToken : Option State :=
  statement s i .lookup fun tx =>
    tx.token.map fun token =>
      match s.tokenstore token with
      | some st => s.goto i (.tx { tx with phase := .check, found := some st })
      | none => s.goto i (.tx (tx.refused .commit s.fact))

/-- A query that fails takes the transaction with it, the token stays. -/
def checkState : Option State :=
  statement s i .check fun tx =>
    tx.found.map fun st =>
      match isStateUnchanged db st s.fact with
      | none => s.rollback i { tx with seen := s.fact } .thrown
      | some true => s.goto i (.tx { tx with phase := .insert, seen := s.fact })
      | some false => s.goto i (.tx (tx.refused .invalidate s.fact))

/-- All facts or none: a duplicate takes the transaction with it, and so does a fact that
cannot be indexed. -/
def insertFacts (txId : Nat) : Option State :=
  statement s i .insert fun tx =>
    let rows := rowsFrom db s.nextSer tx.facts
    let numbered := { tx with ser := s.nextSer, txId }
    if insertable s.fact tx.facts && rows.all (indexed server) then
      let next := if tx.token.isSome then .invalidate else .commit
      some { s.goto i (.tx (numbered.published next rows)) with
        nextSer := s.nextSer + tx.facts.length }
    else some (s.rollback i numbered .thrown)

def invalidateToken : Option State :=
  statement s i .invalidate fun tx =>
    some (s.goto i (.tx { tx with phase := .commit, deleted := true }))

/-- The deferred triggers run first. The time is in the headers by then. -/
def commitTx : Option State :=
  statement s i .commit fun tx =>
    match notifyFactInsert server ⟨0, tx.txId⟩ [] (tx.rows.map (inserted server)) with
    | .ok _ => some (s.commit i tx)
    | .error _ => some (s.rollback i tx .thrown)

def abortTx : Option State :=
  match s.pc i with
  | .tx tx => some (s.rollback i tx .aborted)
  | _ => none

end Statements

def step (db : Database) (server : Server) (readOnly : Bool) (s : State) : Action → Option State
  | .publish i facts => call readOnly s i facts none
  | .publishIfUnchanged i facts token => call readOnly s i facts token
  | .stateFor i specs => readState s i (getStateFor db specs s.fact)
  | .currentStateFor i specs => readState s i (some (getCurrentStateFor specs s.fact))
  | .create i token => createToken s i token
  | .acquire i => aquireExclusiveTXLock s i
  | .lookup i => lookupToken s i
  | .check i => checkState db s i
  | .insert i txId => insertFacts db server s i txId
  | .invalidate i => invalidateToken s i
  | .commit i => commitTx server s i
  | .abort i => abortTx s i
  | .forget tokens =>
    some { s with tokenstore := fun t => if t ∈ tokens then none else s.tokenstore t }
  | .skip n => some { s with nextSer := s.nextSer + n }

/-- A store with some facts and some tokens, and nobody at work. -/
structure Start (s : State) : Prop where
  ascending : Log.Ascending FactRow.ser s.fact
  below : ∀ row ∈ s.fact, row.ser < s.nextSer
  issued : s.issued = s.tokenstore
  lock : s.lock = none
  idle : ∀ i, s.pc i = .idle
  history : s.history = []

def publishing (db : Database) (server : Server) (readOnly : Bool) : Machine State Action where
  Start := Start
  step := step db server readOnly

/-! ### What holds in every run -/

/-- The token was known, and nothing its state asks for lies above its serial. -/
def Unchanged (db : Database) (found : Option TokenState) (log : List FactRow) : Prop :=
  ∃ state select, found = some state ∧
    PgQueryBuilder.selected db.path state.specs state.serialOfLastMatchingFact = some select ∧
    ∀ row ∈ log, select row = false

/-- The call published its facts in exchange for the token. -/
def Event.Spends (e : Event) (token : UUID) : Prop :=
  e.token = some token ∧ e.result = .returned true

/-- The rows of the call's facts, with their serials. -/
def Event.rows (db : Database) (e : Event) : List FactRow := rowsFrom db e.ser e.facts

/-- Every row can be indexed, and the first row of each pair of namespace and type is short
enough to be notified. -/
def Storable (server : Server) (txId : Nat) (rows : List FactRow) : Prop :=
  (∀ row ∈ rows, indexed server row = true) ∧
    Short server ⟨0, txId⟩ [] (rows.map (inserted server))

/-- What holds of a call that has ended. -/
structure Event.Ok (db : Database) (server : Server) (e : Event) : Prop where
  published : e.result = .returned true → e.after = e.before ++ e.rows db
  storable : e.result = .returned true → Storable server e.txId (e.rows db)
  otherwise : e.result ≠ .returned true → e.after = e.before
  unchanged : e.result = .returned true → e.token.isSome = true →
    Unchanged db e.found e.seen ∧ e.seen = e.before
  changed : e.result = .returned false → ¬ Unchanged db e.found e.seen
  thrown : e.result = .thrown → insertable e.before e.facts = true →
    Unchanged db e.found e.seen → ¬ Storable server e.txId (e.rows db)

/-- The calls of a history, the latest first, take a log from end to end. -/
def Chain : List FactRow → List Event → Prop
  | _, [] => True
  | log, e :: rest => e.after = log ∧ Chain e.before rest

section Transactions
variable (db : Database) (server : Server) (log : List FactRow) (next : Nat)

/-- New rows for the transaction's facts, above a log and below a serial. -/
structure Tx.Written (tx : Tx) : Prop where
  rows : tx.rows = rowsFrom db tx.ser tx.facts
  above : ∀ row ∈ log, row.ser < tx.ser
  below : tx.ser + tx.facts.length ≤ next
  indexed : ∀ row ∈ tx.rows, indexed server row = true

/-- The answer is decided, and the log is still the one it was decided on. -/
structure Tx.Decided (tx : Tx) : Prop where
  yes : tx.result = true → tx.Written db server log next ∧
    (tx.token.isSome = true → Unchanged db tx.found tx.seen ∧ tx.seen = log)
  no : tx.result = false → tx.rows = [] ∧ ¬ Unchanged db tx.found tx.seen

/-- What holds of a transaction before its next statement. -/
def Tx.Ok (tx : Tx) : Prop :=
  match tx.phase with
  | .locking => tx.found = none
  | .lookup => tx.found = none
  | .check => True
  | .insert => tx.token.isSome = true → Unchanged db tx.found tx.seen ∧ tx.seen = log
  | .invalidate => tx.Decided db server log next
  | .commit => tx.Decided db server log next ∧
      (tx.token.isSome = true → tx.result = true → tx.deleted = true)

end Transactions

/-- The client is past the acquisition of the lock. -/
def Pc.holds : Pc → Bool
  | .tx t => t.phase != .locking
  | _ => false

/-- The token was given out for the state and is not spent. -/
def State.Unspent (s : State) (token : UUID) (state : TokenState) : Prop :=
  s.issued token = some state ∧ ∀ e ∈ s.history, ¬ e.Spends token

structure Inv (db : Database) (server : Server) (s : State) : Prop where
  ascending : Log.Ascending FactRow.ser s.fact
  below : ∀ row ∈ s.fact, row.ser < s.nextSer
  holder : ∀ i, (s.pc i).holds = true → s.lock = some i
  ok : ∀ i tx, s.pc i = .tx tx → tx.Ok db server s.fact s.nextSer
  stored : ∀ t st, s.tokenstore t = some st → s.Unspent t st
  held : ∀ i tx, s.pc i = .tx tx → ∀ t st, tx.token = some t → tx.found = some st → s.Unspent t st
  events : ∀ e ∈ s.history, e.Ok db server
  spent : ∀ e ∈ s.history, ∀ t, e.Spends t → (s.issued t).isSome = true
  once : s.history.Pairwise fun e e' => ∀ t, e.Spends t → ¬ e'.Spends t
  chain : Chain s.fact s.history

section Steps
variable {db : Database} {server : Server} {readOnly : Bool} {s s' : State} {i : Nat} {tx : Tx}

theorem unchanged_some {st : TokenState} {log : List FactRow} :
    Unchanged db (some st) log ↔ isStateUnchanged db st log = some true := by
  rw [isStateUnchanged_true_iff]
  constructor
  · rintro ⟨_, select, hst, h⟩
    cases hst
    exact ⟨select, h⟩
  · rintro ⟨select, h⟩
    exact ⟨st, select, rfl, h⟩

theorem not_unchanged_none {log : List FactRow} : ¬ Unchanged db none log := by
  rintro ⟨_, _, h, _⟩
  cases h

theorem statement_eq {phase : Phase} {run : Tx → Option State}
    (h : statement s i phase run = some s') :
    ∃ tx, s.pc i = .tx tx ∧ tx.phase = phase ∧ run tx = some s' := by
  unfold statement at h
  split at h
  · rename_i tx hpc
    split at h
    · rename_i hphase
      exact ⟨tx, hpc, hphase, h⟩
    · cases h
  · cases h

theorem statement_at {phase : Phase} {run : Tx → Option State} (hpc : s.pc i = .tx tx)
    (hphase : tx.phase = phase) : statement s i phase run = run tx := by
  rw [statement, hpc]
  exact if_pos hphase

/-- The triggers decide what becomes of a transaction at its commit. -/
theorem commitTx_short (hpc : s.pc i = .tx tx) (hphase : tx.phase = .commit)
    (hshort : Short server ⟨0, tx.txId⟩ [] (tx.rows.map (inserted server))) :
    commitTx server s i = some (s.commit i tx) := by
  obtain ⟨notified, hnotified⟩ := notifyFactInsert_ok_iff.mpr hshort
  rw [commitTx, statement_at hpc hphase, hnotified]

theorem commitTx_long (hpc : s.pc i = .tx tx) (hphase : tx.phase = .commit)
    (hlong : ¬ Short server ⟨0, tx.txId⟩ [] (tx.rows.map (inserted server))) :
    commitTx server s i = some (s.rollback i tx .thrown) := by
  rw [← notifyFactInsert_ok_iff] at hlong
  rw [commitTx, statement_at hpc hphase]
  split
  · rename_i notified hnotified
    exact absurd ⟨notified, hnotified⟩ hlong
  · rfl

theorem Tx.Written.mono {log : List FactRow} {n m : Nat} (h : tx.Written db server log n)
    (hnm : n ≤ m) : tx.Written db server log m :=
  { h with below := Nat.le_trans h.below hnm }

theorem Tx.Decided.mono {log : List FactRow} {n m : Nat} (h : tx.Decided db server log n)
    (hnm : n ≤ m) : tx.Decided db server log m :=
  ⟨fun hr => ⟨(h.yes hr).1.mono hnm, (h.yes hr).2⟩, h.no⟩

/-- Serials given out in vain do not matter to anybody. -/
theorem Tx.Ok.mono {log : List FactRow} {n m : Nat} (h : tx.Ok db server log n) (hnm : n ≤ m) :
    tx.Ok db server log m := by
  unfold Tx.Ok at h ⊢
  split at h
  · exact h
  · exact h
  · exact h
  · exact h
  · exact h.mono hnm
  · exact ⟨h.1.mono hnm, h.2⟩

theorem at_goto (s : State) (i : Nat) (pc : Pc) (j : Nat) :
    (j = i ∧ (s.goto i pc).pc j = pc) ∨ (j ≠ i ∧ (s.goto i pc).pc j = s.pc j) := by
  by_cases h : j = i
  · subst h
    exact .inl ⟨rfl, Function.update_self ..⟩
  · exact .inr ⟨h, Function.update_of_ne h ..⟩

/-- Who does not hold the lock has not started. -/
theorem Inv.waiting (h : Inv db server s) (hpc : s.pc i = .tx tx) (hlock : s.lock ≠ some i) :
    tx.phase = .locking ∧ tx.found = none := by
  have hphase : tx.phase = .locking := by
    by_contra hne
    refine hlock (h.holder i ?_)
    simp [hpc, Pc.holds, hne]
  have hok := h.ok i tx hpc
  unfold Tx.Ok at hok
  rw [hphase] at hok
  exact ⟨hphase, hok⟩

/-- A client moves on, perhaps with the lock or with new serials. -/
theorem Inv.goto {pc : Pc} {lock : Option Nat} {next : Nat} (h : Inv db server s)
    (hnext : s.nextSer ≤ next) (hlock : lock = s.lock ∨ s.lock = none)
    (hholds : pc.holds = true → lock = some i)
    (hok : ∀ tx, pc = .tx tx → tx.Ok db server s.fact next)
    (hheld : ∀ tx, pc = .tx tx → ∀ t st, tx.token = some t → tx.found = some st → s.Unspent t st) :
    Inv db server { s.goto i pc with nextSer := next, lock := lock } where
  ascending := h.ascending
  below := fun row hrow => Nat.lt_of_lt_of_le (h.below row hrow) hnext
  holder := by
    intro j hj
    rcases at_goto s i pc j with ⟨rfl, hpc⟩ | ⟨hji, hpc⟩
    · exact hholds (hpc ▸ hj)
    · have := h.holder j (hpc ▸ hj)
      rcases hlock with rfl | hnone
      · exact this
      · rw [hnone] at this
        cases this
  ok := by
    intro j tx hj
    rcases at_goto s i pc j with ⟨rfl, hpc⟩ | ⟨hji, hpc⟩
    · exact hok tx (hpc ▸ hj)
    · exact (h.ok j tx (hpc ▸ hj)).mono hnext
  stored := h.stored
  held := by
    intro j tx hj
    rcases at_goto s i pc j with ⟨rfl, hpc⟩ | ⟨hji, hpc⟩
    · exact hheld tx (hpc ▸ hj)
    · exact h.held j tx (hpc ▸ hj)
  events := h.events
  spent := h.spent
  once := h.once
  chain := h.chain

theorem release_lock {j : Nat} (hji : j ≠ i) (h : s.lock = some j) : (s.release i).lock = some j := by
  have hne : s.lock ≠ some i := by
    rw [h]
    simpa using hji
  show (if s.lock = some i then none else s.lock) = some j
  rw [if_neg hne, h]

/-- A transaction ends with nothing done. -/
theorem Inv.rollback {result : Result} (h : Inv db server s) (hres : result = .thrown ∨ result = .aborted)
    (hthrown : result = .thrown → insertable s.fact tx.facts = true → Unchanged db tx.found tx.seen →
      ¬ Storable server tx.txId (rowsFrom db tx.ser tx.facts)) :
    Inv db server (s.rollback i tx result) := by
  have hno : result ≠ .returned true ∧ result ≠ .returned false := by
    rcases hres with rfl | rfl <;> exact ⟨by simp, by simp⟩
  have hunspent : ∀ {t st}, s.Unspent t st → (s.rollback i tx result).Unspent t st := by
    intro t st hu
    refine ⟨hu.1, fun e he hsp => ?_⟩
    rcases List.mem_cons.mp he with rfl | he
    · exact hno.1 hsp.2
    · exact hu.2 e he hsp
  refine
    { ascending := h.ascending, below := h.below, holder := ?_, ok := ?_
      stored := fun t st hst => hunspent (h.stored t st hst), held := ?_, events := ?_
      spent := ?_, once := ?_, chain := ⟨rfl, h.chain⟩ }
  · intro j hj
    rcases at_goto (s.release i) i .idle j with ⟨rfl, hpc⟩ | ⟨hji, hpc⟩
    · exact absurd (hpc ▸ hj) (by simp [Pc.holds])
    · exact release_lock hji (h.holder j (hpc ▸ hj))
  · intro j t hj
    rcases at_goto (s.release i) i .idle j with ⟨rfl, hpc⟩ | ⟨hji, hpc⟩
    · cases hpc.symm.trans hj
    · exact h.ok j t (hpc ▸ hj)
  · intro j t hj tok st htok hst
    rcases at_goto (s.release i) i .idle j with ⟨rfl, hpc⟩ | ⟨hji, hpc⟩
    · cases hpc.symm.trans hj
    · exact hunspent (h.held j t (hpc ▸ hj) tok st htok hst)
  · intro e he
    rcases List.mem_cons.mp he with rfl | he
    · exact ⟨fun hr => absurd hr hno.1, fun hr => absurd hr hno.1, fun _ => rfl,
        fun hr => absurd hr hno.1, fun hr => absurd hr hno.2, hthrown⟩
    · exact h.events e he
  · intro e he t hsp
    rcases List.mem_cons.mp he with rfl | he
    · exact absurd hsp.2 hno.1
    · exact h.spent e he t hsp
  · refine List.pairwise_cons.mpr ⟨fun e' _ t hsp => ?_, h.once⟩
    exact absurd hsp.2 hno.1

/-- What a commit records. -/
theorem commit_ok (hok : tx.Decided db server s.fact s.nextSer)
    (hshort : Short server ⟨0, tx.txId⟩ [] (tx.rows.map (inserted server))) :
    (tx.event s.fact (s.fact ++ tx.rows) (.returned tx.result)).Ok db server where
  published := by
    intro hr
    have hwritten := (hok.yes (by simpa [Tx.event] using hr)).1
    exact congrArg (s.fact ++ ·) hwritten.rows
  storable := by
    intro hr
    have hwritten := (hok.yes (by simpa [Tx.event] using hr)).1
    show Storable server tx.txId (rowsFrom db tx.ser tx.facts)
    rw [← hwritten.rows]
    exact ⟨hwritten.indexed, hshort⟩
  otherwise := by
    intro hr
    have hrows := (hok.no (by simpa [Tx.event] using hr)).1
    simp [Tx.event, hrows]
  unchanged := fun hr => (hok.yes (by simpa [Tx.event] using hr)).2
  changed := fun hr => (hok.no (by simpa [Tx.event] using hr)).2
  thrown := by
    intro hr
    cases hr

/-- Who spends a token has found it and deletes it. -/
theorem spends_commit {t : UUID} (hok : tx.Decided db server s.fact s.nextSer)
    (hdel : tx.token.isSome = true → tx.result = true → tx.deleted = true)
    (h : (tx.event s.fact (s.fact ++ tx.rows) (.returned tx.result)).Spends t) :
    tx.token = some t ∧ tx.deleted = true ∧ ∃ st, tx.found = some st := by
  have htok : tx.token = some t := h.1
  have hsome : tx.token.isSome = true := by
    rw [htok]
    rfl
  have hres : tx.result = true := by simpa [Tx.event] using h.2
  obtain ⟨⟨st, _, hfound, _⟩, _⟩ := (hok.yes hres).2 hsome
  exact ⟨htok, hdel hsome hres, st, hfound⟩

/-- A transaction ends and its writes are there. -/
theorem Inv.commit (h : Inv db server s) (hpc : s.pc i = .tx tx) (hphase : tx.phase = .commit)
    (hshort : Short server ⟨0, tx.txId⟩ [] (tx.rows.map (inserted server))) :
    Inv db server (s.commit i tx) := by
  have hok := h.ok i tx hpc
  unfold Tx.Ok at hok
  rw [hphase] at hok
  obtain ⟨hdec, hdel⟩ := hok
  have hlock : s.lock = some i := h.holder i (by simp [hpc, Pc.holds, hphase])
  -- whoever else is at work has not looked at the token store
  have hother : ∀ {j t}, j ≠ i → s.pc j = .tx t → t.phase = .locking ∧ t.found = none := by
    intro j t hji hj
    refine h.waiting hj ?_
    rw [hlock]
    simpa using hji.symm
  refine
    { ascending := ?_, below := ?_, holder := ?_, ok := ?_, stored := ?_, held := ?_, events := ?_
      spent := ?_, once := ?_, chain := ⟨rfl, h.chain⟩ }
  · cases hres : tx.result with
    | false =>
      simp only [State.commit, (hdec.no hres).1, List.append_nil]
      exact h.ascending
    | true =>
      have hwritten := (hdec.yes hres).1
      simp only [State.commit, hwritten.rows]
      refine h.ascending.append ascending_rowsFrom fun row hrow new hnew => ?_
      exact Nat.lt_of_lt_of_le (hwritten.above row hrow) (ser_rowsFrom hnew).1
  · intro row hrow
    rcases List.mem_append.mp hrow with hrow | hrow
    · exact h.below row hrow
    · cases hres : tx.result with
      | false =>
        rw [(hdec.no hres).1] at hrow
        cases hrow
      | true =>
        have hwritten := (hdec.yes hres).1
        rw [hwritten.rows] at hrow
        exact Nat.lt_of_lt_of_le (ser_rowsFrom hrow).2 hwritten.below
  · intro j hj
    rcases at_goto (s.release i) i .idle j with ⟨rfl, hp⟩ | ⟨hji, hp⟩
    · exact absurd (hp ▸ hj) (by simp [Pc.holds])
    · exact release_lock hji (h.holder j (hp ▸ hj))
  · intro j t hj
    rcases at_goto (s.release i) i .idle j with ⟨rfl, hp⟩ | ⟨hji, hp⟩
    · cases hp.symm.trans hj
    · obtain ⟨hphase, hfound⟩ := hother hji (hp ▸ hj)
      unfold Tx.Ok
      rw [hphase]
      exact hfound
  · intro t st hst
    simp only [State.commit] at hst
    split at hst
    · cases hst
    · rename_i hkept
      have hu := h.stored t st hst
      refine ⟨hu.1, fun e he hsp => ?_⟩
      rcases List.mem_cons.mp he with rfl | he
      · obtain ⟨htok, hdeleted, _⟩ := spends_commit hdec hdel hsp
        exact hkept ⟨hdeleted, htok⟩
      · exact hu.2 e he hsp
  · intro j t hj tok st htok hst
    rcases at_goto (s.release i) i .idle j with ⟨rfl, hp⟩ | ⟨hji, hp⟩
    · cases hp.symm.trans hj
    · have hnone := (hother hji (hp ▸ hj)).2
      rw [hnone] at hst
      cases hst
  · intro e he
    rcases List.mem_cons.mp he with rfl | he
    · exact commit_ok hdec hshort
    · exact h.events e he
  · intro e he t hsp
    rcases List.mem_cons.mp he with rfl | he
    · obtain ⟨htok, _, st, hfound⟩ := spends_commit hdec hdel hsp
      have hissued : s.issued t = some st := (h.held i tx hpc t st htok hfound).1
      show (s.issued t).isSome = true
      rw [hissued]
      rfl
    · exact h.spent e he t hsp
  · refine List.pairwise_cons.mpr ⟨fun e he t hsp => ?_, h.once⟩
    obtain ⟨htok, _, st, hfound⟩ := spends_commit hdec hdel hsp
    exact (h.held i tx hpc t st htok hfound).2 e he

theorem inv_call {facts : List Fact} {token : Option UUID} (h : Inv db server s)
    (hs : call readOnly s i facts token = some s') : Inv db server s' := by
  unfold call at hs
  split at hs
  · split at hs
    · cases hs
      exact h.rollback (.inl rfl) fun _ _ hu => absurd hu not_unchanged_none
    · cases hs
      refine h.goto (Nat.le_refl _) (.inl rfl) (fun hp => ?_) (fun tx htx => ?_) fun tx htx => ?_
      · simp [Pc.holds] at hp
      · cases htx
        rfl
      · cases htx
        intro t st _ hst
        cases hst
  · cases hs

theorem inv_readState {state : Option TokenState} (h : Inv db server s)
    (hs : readState s i state = some s') : Inv db server s' := by
  unfold readState at hs
  split at hs
  · obtain ⟨st, _, rfl⟩ := Option.map_eq_some_iff.mp hs
    refine h.goto (Nat.le_refl _) (.inl rfl) (fun hp => ?_) (fun tx htx => ?_) fun tx htx => ?_
    · simp [Pc.holds] at hp
    · cases htx
    · cases htx
  · cases hs

theorem inv_createToken {token : UUID} (h : Inv db server s)
    (hs : createToken s i token = some s') : Inv db server s' := by
  unfold createToken at hs
  split at hs
  · rename_i st _ hnew
    cases hs
    -- what is spent was given out before, so the new token is not
    have hunspent : ∀ {t st'}, s.Unspent t st' →
        Function.update s.issued token (some st) t = some st' := by
      intro t st' hu
      rw [Function.update_of_ne _ _ s.issued]
      · exact hu.1
      · rintro rfl
        rw [hu.1] at hnew
        cases hnew
    have hidle : Inv db server (s.goto i .idle) := by
      refine h.goto (Nat.le_refl _) (.inl rfl) (fun hp => ?_) (fun tx htx => ?_) fun tx htx => ?_
      · simp [Pc.holds] at hp
      · cases htx
      · cases htx
    refine { hidle with stored := ?_, held := ?_, spent := ?_ }
    · intro t st' hst
      replace hst : Function.update s.tokenstore token (some st) t = some st' := hst
      by_cases ht : t = token
      · subst ht
        rw [Function.update_self] at hst
        refine ⟨(Function.update_self ..).trans hst, fun e he hsp => ?_⟩
        have := h.spent e he t hsp
        rw [hnew] at this
        cases this
      · rw [Function.update_of_ne ht] at hst
        exact ⟨hunspent (h.stored t st' hst), (h.stored t st' hst).2⟩
    · intro j tx hj t st' htok hst
      have hu := hidle.held j tx hj t st' htok hst
      exact ⟨hunspent hu, hu.2⟩
    · intro e he t hsp
      show (Function.update s.issued token (some st) t).isSome = true
      by_cases ht : t = token
      · subst ht
        simp
      · rw [Function.update_of_ne ht]
        exact h.spent e he t hsp
  · cases hs

theorem inv_aquireExclusiveTXLock (h : Inv db server s) (hs : aquireExclusiveTXLock s i = some s') :
    Inv db server s' := by
  obtain ⟨tx, hpc, hphase, hs⟩ := statement_eq hs
  split at hs
  · rename_i hfree
    cases hs
    have hfound : tx.found = none := (h.waiting hpc (by simp [hfree])).2
    refine h.goto (Nat.le_refl _) (.inr hfree) (fun _ => rfl) (fun t ht => ?_) fun t ht => ?_
    · cases ht
      cases htok : tx.token with
      | none =>
        intro hsome
        simp at hsome
      | some _ => exact hfound
    · cases ht
      intro t st _ hst
      rw [show tx.found = some st from hst] at hfound
      cases hfound
  · cases hs

theorem inv_lookupToken (h : Inv db server s) (hs : lookupToken s i = some s') : Inv db server s' := by
  obtain ⟨tx, hpc, hphase, hs⟩ := statement_eq hs
  obtain ⟨token, htok, rfl⟩ := Option.map_eq_some_iff.mp hs
  have hlock : s.lock = some i := h.holder i (by simp [hpc, Pc.holds, hphase])
  split
  · rename_i st hst
    refine h.goto (Nat.le_refl _) (.inl rfl) (fun _ => hlock) (fun t ht => ?_) fun t ht => ?_
    · cases ht
      trivial
    · cases ht
      intro t st' ht hst'
      cases htok.symm.trans ht
      cases hst'
      exact h.stored token _ hst
  · have hok := h.ok i tx hpc
    unfold Tx.Ok at hok
    rw [hphase] at hok
    refine h.goto (Nat.le_refl _) (.inl rfl) (fun _ => hlock) (fun t ht => ?_) fun t ht => ?_
    · cases ht
      refine ⟨⟨fun hr => ?_, fun _ => ⟨rfl, ?_⟩⟩, fun _ hr => ?_⟩
      · simp [Tx.refused] at hr
      · rw [show (tx.refused .commit s.fact).found = none from hok]
        exact not_unchanged_none
      · simp [Tx.refused] at hr
    · cases ht
      exact h.held i tx hpc

theorem inv_checkState (h : Inv db server s) (hs : checkState db s i = some s') : Inv db server s' := by
  obtain ⟨tx, hpc, hphase, hs⟩ := statement_eq hs
  obtain ⟨st, hfound, rfl⟩ := Option.map_eq_some_iff.mp hs
  have hlock : s.lock = some i := h.holder i (by simp [hpc, Pc.holds, hphase])
  have hiff : Unchanged db tx.found s.fact ↔ isStateUnchanged db st s.fact = some true := by
    rw [hfound]
    exact unchanged_some
  split
  · rename_i hfail
    refine h.rollback (.inl rfl) fun _ _ hu => ?_
    rw [show Unchanged db _ _ ↔ _ from hiff, hfail] at hu
    cases hu
  · rename_i htrue
    refine h.goto (Nat.le_refl _) (.inl rfl) (fun _ => hlock) (fun t ht => ?_) fun t ht => ?_
    · cases ht
      exact fun _ => ⟨hiff.mpr htrue, rfl⟩
    · cases ht
      exact h.held i tx hpc
  · rename_i hfalse
    refine h.goto (Nat.le_refl _) (.inl rfl) (fun _ => hlock) (fun t ht => ?_) fun t ht => ?_
    · cases ht
      refine ⟨fun hr => ?_, fun _ => ⟨rfl, ?_⟩⟩
      · simp [Tx.refused] at hr
      · show ¬ Unchanged db tx.found s.fact
        rw [hiff, hfalse]
        simp
    · cases ht
      exact h.held i tx hpc

theorem inv_insertFacts {txId : Nat} (h : Inv db server s)
    (hs : insertFacts db server s i txId = some s') : Inv db server s' := by
  obtain ⟨tx, hpc, hphase, hs⟩ := statement_eq hs
  have hlock : s.lock = some i := h.holder i (by simp [hpc, Pc.holds, hphase])
  have hok := h.ok i tx hpc
  unfold Tx.Ok at hok
  rw [hphase] at hok
  let rows := rowsFrom db s.nextSer tx.facts
  let numbered : Tx := { tx with ser := s.nextSer, txId }
  dsimp only at hs
  by_cases hinsert : (insertable s.fact tx.facts && rows.all (indexed server)) = true
  · rw [if_pos hinsert] at hs
    have hindexed : ∀ row ∈ rows, indexed server row = true :=
      List.all_eq_true.mp (Bool.and_eq_true_iff.mp hinsert).2
    cases hs
    have hdec : ∀ phase, (numbered.published phase rows).Decided db server s.fact
        (s.nextSer + tx.facts.length) := by
      intro phase
      refine ⟨fun _ => ⟨⟨rfl, h.below, Nat.le_refl _, hindexed⟩, hok⟩, fun hr => ?_⟩
      simp [Tx.published] at hr
    refine h.goto (by omega) (.inl rfl) (fun _ => hlock) (fun t ht => ?_) fun t ht => ?_
    · cases ht
      by_cases htok : tx.token.isSome = true
      · rw [if_pos htok]
        exact hdec _
      · rw [if_neg htok]
        exact ⟨hdec _, fun hsome => absurd hsome htok⟩
    · cases ht
      exact h.held i tx hpc
  · rw [if_neg hinsert] at hs
    cases hs
    refine h.rollback (.inl rfl) fun _ hnew _ hstorable => hinsert ?_
    exact Bool.and_eq_true_iff.mpr ⟨hnew, List.all_eq_true.mpr hstorable.1⟩

theorem inv_invalidateToken (h : Inv db server s) (hs : invalidateToken s i = some s') : Inv db server s' := by
  obtain ⟨tx, hpc, hphase, hs⟩ := statement_eq hs
  cases hs
  have hlock : s.lock = some i := h.holder i (by simp [hpc, Pc.holds, hphase])
  have hok := h.ok i tx hpc
  unfold Tx.Ok at hok
  rw [hphase] at hok
  refine h.goto (Nat.le_refl _) (.inl rfl) (fun _ => hlock) (fun t ht => ?_) fun t ht => ?_
  · cases ht
    refine ⟨⟨fun hr => ?_, hok.no⟩, fun _ _ => rfl⟩
    obtain ⟨hwritten, hu⟩ := hok.yes hr
    exact ⟨{ hwritten with }, hu⟩
  · cases ht
    exact h.held i tx hpc

theorem inv_commitTx (h : Inv db server s) (hs : commitTx server s i = some s') :
    Inv db server s' := by
  obtain ⟨tx, hpc, hphase, -⟩ := statement_eq hs
  by_cases hshort : Short server ⟨0, tx.txId⟩ [] (tx.rows.map (inserted server))
  · obtain rfl := Option.some.inj ((commitTx_short hpc hphase hshort).symm.trans hs)
    exact h.commit hpc hphase hshort
  · obtain rfl := Option.some.inj ((commitTx_long hpc hphase hshort).symm.trans hs)
    have hok := h.ok i tx hpc
    unfold Tx.Ok at hok
    rw [hphase] at hok
    refine h.rollback (.inl rfl) fun _ _ hu hstorable => ?_
    cases hresult : tx.result with
    | true =>
      rw [← (hok.1.yes hresult).1.rows] at hstorable
      exact hshort hstorable.2
    | false => exact (hok.1.no hresult).2 hu

theorem inv_step {a : Action} (h : Inv db server s) (hs : step db server readOnly s a = some s') :
    Inv db server s' := by
  cases a with
  | publish i facts => exact inv_call h hs
  | publishIfUnchanged i facts token => exact inv_call h hs
  | stateFor i specs => exact inv_readState h hs
  | currentStateFor i specs => exact inv_readState h hs
  | create i token => exact inv_createToken h hs
  | acquire i => exact inv_aquireExclusiveTXLock h hs
  | lookup i => exact inv_lookupToken h hs
  | check i => exact inv_checkState h hs
  | insert i txId => exact inv_insertFacts h hs
  | invalidate i => exact inv_invalidateToken h hs
  | commit i => exact inv_commitTx h hs
  | abort i =>
    simp only [step, abortTx] at hs
    split at hs
    · cases hs
      exact h.rollback (.inr rfl) fun hr => by cases hr
    · cases hs
  | forget tokens =>
    cases hs
    refine { h with stored := fun t st hst => h.stored t st ?_ }
    by_cases ht : t ∈ tokens
    · simp [ht] at hst
    · simpa [ht] using hst
  | skip n =>
    cases hs
    refine { h with below := fun row hrow => ?_, ok := fun i tx hpc => ?_ }
    · exact Nat.lt_of_lt_of_le (h.below row hrow) (Nat.le_add_right ..)
    · exact (h.ok i tx hpc).mono (Nat.le_add_right ..)

end Steps

theorem inv_start {db : Database} {server : Server} {s : State} (h : Start s) : Inv db server s where
  ascending := h.ascending
  below := h.below
  holder := by
    intro i hi
    simp [h.idle i, Pc.holds] at hi
  ok := by
    intro i tx hpc
    rw [h.idle i] at hpc
    cases hpc
  stored := by
    intro t st hst
    refine ⟨by rw [h.issued, hst], ?_⟩
    simp [h.history]
  held := by
    intro i tx hpc
    rw [h.idle i] at hpc
    cases hpc
  events := by simp [h.history]
  spent := by simp [h.history]
  once := by simp [h.history]
  chain := by
    rw [h.history]
    trivial

theorem inv {db : Database} {server : Server} {readOnly : Bool} {s : State}
    (h : (publishing db server readOnly).Reachable s) : Inv db server s :=
  h.invariant (fun _ => inv_start) fun s a s' hi _ hs => by
    have hs : step db server readOnly s a = some s' := hs
    exact inv_step hi hs

/-! ### The optimistic lock -/

/-- A call with new facts that is not cut off publishes exactly if its check saw the state
unchanged and the database can store the facts. -/
theorem Event.Ok.returned_iff {db : Database} {server : Server} {e : Event} (h : e.Ok db server)
    (htok : e.token.isSome = true) (hnew : insertable e.before e.facts = true)
    (hcut : e.result ≠ .aborted) :
    e.result = .returned true ↔ Unchanged db e.found e.seen ∧ Storable server e.txId (e.rows db) := by
  refine ⟨fun hr => ⟨(h.unchanged hr htok).1, h.storable hr⟩, fun ⟨hu, hstorable⟩ => ?_⟩
  cases hr : e.result with
  | returned published =>
    cases published with
    | true => rfl
    | false => exact absurd hu (h.changed hr)
  | thrown => exact absurd hstorable (h.thrown hr hnew hu)
  | aborted => exact absurd hr hcut

def nobody : State :=
  { fact := [], tokenstore := fun _ => none, issued := fun _ => none, nextSer := 1, lock := none
    pc := fun _ => .idle, history := [] }

/-- Two clients with a token each, on the same facts, publish one after the other. -/
def racing : List Action :=
  [.stateFor 0 [ofOrders], .currentStateFor 1 [ofOrders], .create 1 ⟨1⟩, .create 0 ⟨0⟩,
    .publishIfUnchanged 0 [placed 0] (some ⟨0⟩), .publishIfUnchanged 1 [placed 1] (some ⟨1⟩),
    .acquire 1, .lookup 1, .check 1, .insert 1 700, .invalidate 1, .commit 1,
    .acquire 0, .lookup 0, .check 0, .invalidate 0, .commit 0]

/-! ### A note that is too long -/

/-- A fact with a note. -/
def noted (note : String) : Fact where
  id := ⟨7⟩
  header :=
    { members := [("id", .str (⟨7⟩ : UUID).toString), ("ns", .str "orders"),
        ("meta", .obj [("note", .str note)])]
      ns_given := by
        show blank "orders" = false
        decide
      meta_no_array := fun items h => nomatch h }
  payload := .obj []

def anything : FactSpec where
  ns := "*"
  ns_given := any_given

/-- A client with a fresh token publishes the fact, and is about to commit. -/
def noting (note : String) : List Action :=
  [.currentStateFor 0 [anything], .create 0 ⟨0⟩, .publishIfUnchanged 0 [noted note] (some ⟨0⟩),
    .acquire 0, .lookup 0, .check 0, .insert 0 700, .invalidate 0]

end FactCast.PgFactStore
