import Mathlib.Data.List.Basic

/-! Code that runs in a database transaction.

The code sends statements and may throw, catch and clean up. A statement that
fails fails the transaction: from then on every statement is refused, and what
was written is dropped at the end. The rules say what a sequence, a handler and a
clean-up make of what their parts do, and that a transaction writes everything or
nothing (`commit_error`). -/
namespace Transaction

/-- What the statements of a transaction see, and whether one of them has failed. -/
structure Session (σ : Type) where
  db : σ
  failed : Bool := false

end Transaction

/-- Returns or throws, and leaves the session as its statements did. -/
abbrev Transaction (σ ε α : Type) := ExceptT ε (StateM (Transaction.Session σ)) α

namespace Transaction
variable {σ ε α β : Type}

/-- A statement, in a database that answers `refused` once one has failed. -/
def statement (refused : ε) (run : σ → Except ε (α × σ)) : Transaction σ ε α := fun s =>
  if s.failed then (.error refused, s)
  else
    match run s.db with
    | .ok (a, db) => (.ok a, { s with db })
    | .error e => (.error e, { s with failed := true })

/-- A statement that reads. -/
def query (refused : ε) (read : σ → Except ε α) : Transaction σ ε α :=
  statement refused fun db => (read db).map fun a => (a, db)

/-- A statement that writes. -/
def update (refused : ε) (write : σ → Except ε σ) : Transaction σ ε Unit :=
  statement refused fun db => (write db).map fun db => ((), db)

/-- What the clean-up throws is thrown, whatever came before. -/
def andFinally (body : Transaction σ ε α) (cleanUp : Transaction σ ε Unit) : Transaction σ ε α :=
  fun s =>
    let (outcome, s') := body.run s
    match cleanUp.run s' with
    | (.ok _, s'') => (outcome, s'')
    | (.error e, s'') => (.error e, s'')

/-- A transaction from its begin to its end: the answer, and what is committed. -/
def commit (refused : ε) (body : Transaction σ ε α) (db : σ) : Except ε α × σ :=
  match body.run ⟨db, false⟩ with
  | (.ok a, s) => if s.failed then (.error refused, db) else (.ok a, s.db)
  | (.error e, _) => (.error e, db)

variable {refused e : ε} {run : σ → Except ε (α × σ)} {read : σ → Except ε α}
  {write : σ → Except ε σ} {a : α} {db db' : σ} {s s' s'' : Session σ}
  {body : Transaction σ ε α} {cleanUp : Transaction σ ε Unit} {next : α → Transaction σ ε β}
  {outcome : Except ε α}

/-! ### Statements -/

theorem statement_ok (h : run db = .ok (a, db')) :
    (statement refused run).run ⟨db, false⟩ = (.ok a, ⟨db', false⟩) := by
  simp [statement, ExceptT.run, h]

theorem statement_error (h : run db = .error e) :
    (statement refused run).run ⟨db, false⟩ = (.error e, ⟨db, true⟩) := by
  simp [statement, ExceptT.run, h]

/-- After one has failed, every statement is refused. -/
theorem statement_failed (h : s.failed = true) :
    (statement refused run).run s = (.error refused, s) := by
  simp [statement, ExceptT.run, h]

theorem query_ok (h : read db = .ok a) :
    (query refused read).run ⟨db, false⟩ = (.ok a, ⟨db, false⟩) :=
  statement_ok (by simp [h, Except.map])

theorem query_error (h : read db = .error e) :
    (query refused read).run ⟨db, false⟩ = (.error e, ⟨db, true⟩) :=
  statement_error (by simp [h, Except.map])

theorem update_ok (h : write db = .ok db') :
    (update refused write).run ⟨db, false⟩ = (.ok (), ⟨db', false⟩) :=
  statement_ok (by simp [h, Except.map])

theorem update_error (h : write db = .error e) :
    (update refused write).run ⟨db, false⟩ = (.error e, ⟨db, true⟩) :=
  statement_error (by simp [h, Except.map])

theorem update_failed (h : s.failed = true) : (update refused write).run s = (.error refused, s) :=
  statement_failed h

/-! ### Sequence, handler and clean-up -/

theorem bind_ok (h : body.run s = (.ok a, s')) : (body >>= next).run s = (next a).run s' := by
  show (ExceptT.bind body next) s = (next a) s'
  replace h : body s = (.ok a, s') := h
  simp [ExceptT.bind, ExceptT.mk, ExceptT.bindCont, bind, StateT.bind, h]

theorem bind_error (h : body.run s = (.error e, s')) : (body >>= next).run s = (.error e, s') := by
  show (ExceptT.bind body next) s = _
  replace h : body s = (.error e, s') := h
  simp only [ExceptT.bind, ExceptT.mk, ExceptT.bindCont, bind, StateT.bind, h]
  rfl

theorem tryCatch_ok {handler : ε → Transaction σ ε α} (h : body.run s = (.ok a, s')) :
    (tryCatch body handler).run s = (.ok a, s') := by
  show (ExceptT.tryCatch body handler) s = _
  replace h : body s = (.ok a, s') := h
  simp only [ExceptT.tryCatch, ExceptT.mk, bind, StateT.bind, h]
  rfl

theorem tryCatch_error {handler : ε → Transaction σ ε α} (h : body.run s = (.error e, s')) :
    (tryCatch body handler).run s = (handler e).run s' := by
  show (ExceptT.tryCatch body handler) s = (handler e) s'
  replace h : body s = (.error e, s') := h
  simp [ExceptT.tryCatch, ExceptT.mk, bind, StateT.bind, h]

/-- An exception of the clean-up takes the place of what was returned or thrown. -/
theorem andFinally_throws (h : body.run s = (outcome, s')) (hthrows : cleanUp.run s' = (.error e, s'')) :
    (andFinally body cleanUp).run s = (.error e, s'') := by
  simp only [ExceptT.run] at h hthrows
  simp only [andFinally, ExceptT.run, h, hthrows]

theorem andFinally_completes (h : body.run s = (outcome, s')) (hdone : cleanUp.run s' = (.ok (), s'')) :
    (andFinally body cleanUp).run s = (outcome, s'') := by
  simp only [ExceptT.run] at h hdone
  simp only [andFinally, ExceptT.run, h, hdone]

/-! ### Many statements, and the end -/

section Batch
variable {β : Type} {write : β → σ → Except ε σ} {batch : List β}

/-- Writes in a row that all succeed. -/
theorem forM_update_ok (h : batch.foldlM (fun db b => write b db) db = .ok db') :
    (batch.forM fun b => update refused (write b)).run ⟨db, false⟩ = (.ok (), ⟨db', false⟩) := by
  induction batch generalizing db with
  | nil =>
    cases h
    rfl
  | cons b rest ih =>
    rw [List.foldlM_cons] at h
    cases hb : write b db with
    | ok next =>
      rw [hb] at h
      exact (bind_ok (update_ok hb)).trans (ih h)
    | error e =>
      rw [hb] at h
      cases h

/-- The first one that fails ends them and fails the transaction. -/
theorem forM_update_error (h : batch.foldlM (fun db b => write b db) db = .error e) :
    ∃ db', (batch.forM fun b => update refused (write b)).run ⟨db, false⟩ =
      (.error e, ⟨db', true⟩) := by
  induction batch generalizing db with
  | nil => cases h
  | cons b rest ih =>
    rw [List.foldlM_cons] at h
    cases hb : write b db with
    | ok next =>
      rw [hb] at h
      obtain ⟨db', hrest⟩ := ih h
      exact ⟨db', (bind_ok (update_ok hb)).trans hrest⟩
    | error e' =>
      rw [hb] at h
      cases h
      exact ⟨db, bind_error (update_error hb)⟩

end Batch

theorem commit_ok (h : body.run ⟨db, false⟩ = (.ok a, ⟨db', false⟩)) :
    commit refused body db = (.ok a, db') := by
  simp [commit, h]

/-- What throws writes nothing. -/
theorem commit_error (h : body.run ⟨db, false⟩ = (.error e, s)) :
    commit refused body db = (.error e, db) := by
  simp [commit, h]

end Transaction
