import FactCast.Machine.Transaction
import FactCast.Store.FactStore

/-! A conditional publish as its transaction runs it.

The call takes the write lock, reads the token's state, asks whether it is
unchanged, inserts the facts and, whatever came before, deletes the token. Seen
from outside it is the call of `FactStore.lean` (`publishIfUnchanged_answer`).

A duplicate fails the transaction with its insert. The clean-up that deletes the
token is then refused, and its exception takes the place of the one that names
the duplicate (`publishIfUnchanged_duplicate`). -/
namespace FactCast.PgFactStore.InTransaction
open Transaction

inductive Exception where
  | unsupportedOperation
  /-- A unique key is violated. -/
  | duplicateKey
  | duplicateFact
  /-- A query cannot be run. -/
  | badSqlGrammar
  /-- The transaction has failed before. -/
  | uncategorizedSql
deriving DecidableEq

section Calls
variable (db : Database) (readOnly : Bool)

def aquireExclusiveTXLock : Transaction Store Exception Unit :=
  query .uncategorizedSql fun _ => .ok ()

/-- One statement of the batch. -/
def insertFact (f : Fact) (store : Store) : Except Exception Store :=
  if (store.log.map fun r => r.fact.id).contains f.id then .error .duplicateKey
  else
    let row : FactRow := ⟨store.nextSer, { f with header := db.augment store.nextSer f.header }⟩
    .ok { store with log := store.log ++ [row], nextSer := store.nextSer + 1 }

def publish (factsToPublish : List Fact) : Transaction Store Exception Unit :=
  if readOnly then throw .unsupportedOperation
  else
    tryCatch
      (do
        aquireExclusiveTXLock
        factsToPublish.forM fun f => update .uncategorizedSql (insertFact db f))
      fun
        | .duplicateKey => throw .duplicateFact
        | e => throw e

def getToken (token : UUID) : Transaction Store Exception (Option TokenState) :=
  query .uncategorizedSql fun store => .ok (store.tokens token)

def isUnchanged (state : TokenState) : Transaction Store Exception Bool :=
  query .uncategorizedSql fun store =>
    match isStateUnchanged db state store.log with
    | some unchanged => .ok unchanged
    | none => .error .badSqlGrammar

def invalidate (token : UUID) : Transaction Store Exception Unit :=
  update .uncategorizedSql fun store => .ok (store.invalidate token)

/-- What the call does for a known token before its clean-up. -/
def publishUnlessChanged (factsToPublish : List Fact) (state : TokenState) :
    Transaction Store Exception Bool := do
  if ← isUnchanged db state then
    publish db readOnly factsToPublish
    pure true
  else pure false

/-- The call as every fact store makes it. -/
def superPublishIfUnchanged (factsToPublish : List Fact) (optionalToken : Option UUID) :
    Transaction Store Exception Bool :=
  match optionalToken with
  | some token => do
    match ← getToken token with
    | some state =>
      andFinally (publishUnlessChanged db readOnly factsToPublish state) (invalidate token)
    -- an unknown token is just rejected
    | none => pure false
  | none => do
    publish db readOnly factsToPublish
    pure true

def publishIfUnchanged (factsToPublish : List Fact) (optionalToken : Option UUID) :
    Transaction Store Exception Bool :=
  if readOnly then throw .unsupportedOperation
  else do
    aquireExclusiveTXLock
    superPublishIfUnchanged db readOnly factsToPublish optionalToken

/-- The whole transaction. -/
def call (facts : List Fact) (optionalToken : Option UUID) (store : Store) :
    Except Exception Bool × Store :=
  commit .uncategorizedSql (publishIfUnchanged db readOnly facts optionalToken) store

end Calls

/-- What the caller is told. -/
def answer : Except Exception Bool → Answer
  | .ok success => .returned success
  | .error .duplicateFact => .duplicateFact
  | .error _ => .dataAccess

section Proofs
variable {db : Database} {store store' : Store} {facts : List Fact} {token : UUID}
  {state : TokenState}

theorem aquireExclusiveTXLock_run :
    aquireExclusiveTXLock.run ⟨store, false⟩ = (.ok (), ⟨store, false⟩) :=
  query_ok rfl

theorem getToken_run :
    (getToken token).run ⟨store, false⟩ = (.ok (store.tokens token), ⟨store, false⟩) :=
  query_ok rfl

theorem invalidate_run :
    (invalidate token).run ⟨store, false⟩ = (.ok (), ⟨store.invalidate token, false⟩) :=
  update_ok rfl

theorem invalidate_failed :
    (invalidate token).run ⟨store, true⟩ = (.error .uncategorizedSql, ⟨store, true⟩) :=
  update_failed rfl

/-- A fact can be inserted before others if it is new and they are new after it. -/
theorem insertable_cons {log : List FactRow} {f : Fact} {rest : List Fact} {row : FactRow}
    (hrow : row.fact.id = f.id) : insertable log (f :: rest) = true ↔
      (log.map fun r => r.fact.id).contains f.id = false ∧ insertable (log ++ [row]) rest = true := by
  simp only [insertable, List.map_cons, List.nodup_cons, List.all_cons, Bool.and_eq_true,
    decide_eq_true_eq, List.all_eq_true, Bool.not_eq_true', List.contains_eq_mem,
    decide_eq_false_iff_not, List.map_append, List.map_nil, List.mem_append, List.mem_singleton, hrow]
  constructor
  · rintro ⟨⟨hf, hrest⟩, hnew, hothers⟩
    refine ⟨hnew, hrest, fun g hg hmem => ?_⟩
    rcases hmem with hmem | heq
    · exact hothers g hg hmem
    · exact hf (heq ▸ List.mem_map_of_mem hg)
  · rintro ⟨hnew, hrest, hothers⟩
    refine ⟨⟨fun hmem => ?_, hrest⟩, hnew, fun g hg hmem => hothers g hg (.inl hmem)⟩
    obtain ⟨g, hg, heq⟩ := List.mem_map.mp hmem
    exact hothers g hg (.inr heq)

/-- The statements of the batch together insert all facts, or one of them is a duplicate. -/
theorem foldlM_insertFact : facts.foldlM (fun store f => insertFact db f store) store =
    match store.publish db facts with
    | some store' => .ok store'
    | none => .error .duplicateKey := by
  induction facts generalizing store with
  | nil => simp [Store.publish, insertable, rowsFrom, pure, Except.pure]
  | cons f rest ih =>
    let row : FactRow := ⟨store.nextSer, { f with header := db.augment store.nextSer f.header }⟩
    have hsplit := @insertable_cons store.log f rest row rfl
    rw [List.foldlM_cons]
    by_cases hf : (store.log.map fun r => r.fact.id).contains f.id = true
    · have hinsert : insertFact db f store = .error .duplicateKey := by
        rw [insertFact, if_pos hf]
      have hnot : insertable store.log (f :: rest) = false := by
        rw [← Bool.not_eq_true, hsplit, hf]
        simp
      rw [hinsert, Store.publish, hnot]
      rfl
    · have hinsert : insertFact db f store =
          .ok { store with log := store.log ++ [row], nextSer := store.nextSer + 1 } := by
        rw [insertFact, if_neg hf]
      rw [Bool.not_eq_true] at hf
      rw [hinsert]
      refine (@ih { store with log := store.log ++ [row], nextSer := store.nextSer + 1 }).trans ?_
      by_cases hrest : insertable (store.log ++ [row]) rest = true
      · have hyes := hsplit.mpr ⟨hf, hrest⟩
        simp [Store.publish, hyes, hrest, rowsFrom, row, Nat.add_assoc, Nat.add_comm 1]
      · have hnot : insertable store.log (f :: rest) = false := by
          rw [← Bool.not_eq_true, hsplit]
          exact fun h => hrest h.2
        simp [Store.publish, hnot, hrest]

theorem publish_ok (h : store.publish db facts = some store') :
    (publish db false facts).run ⟨store, false⟩ = (.ok (), ⟨store', false⟩) := by
  have hbatch : facts.foldlM (fun store f => insertFact db f store) store = .ok store' := by
    rw [foldlM_insertFact, h]
  exact tryCatch_ok ((bind_ok aquireExclusiveTXLock_run).trans (forM_update_ok hbatch))

/-- A duplicate is named, and leaves a transaction that has failed. -/
theorem publish_duplicate (h : store.publish db facts = none) :
    ∃ written, (publish db false facts).run ⟨store, false⟩ =
      (.error .duplicateFact, ⟨written, true⟩) := by
  have hbatch : facts.foldlM (fun store f => insertFact db f store) store = .error .duplicateKey := by
    rw [foldlM_insertFact, h]
  obtain ⟨written, hwritten⟩ : ∃ written,
      (facts.forM fun f => update .uncategorizedSql (insertFact db f)).run ⟨store, false⟩ =
        (.error .duplicateKey, ⟨written, true⟩) := forM_update_error hbatch
  exact ⟨written, (tryCatch_error ((bind_ok aquireExclusiveTXLock_run).trans hwritten)).trans rfl⟩

theorem isUnchanged_run {unchanged : Bool} (h : isStateUnchanged db state store.log = some unchanged) :
    (isUnchanged db state).run ⟨store, false⟩ = (.ok unchanged, ⟨store, false⟩) :=
  query_ok (by rw [h])

/-! ### With a known token -/

theorem unlessChanged_published (h : isStateUnchanged db state store.log = some true)
    (hpublish : store.publish db facts = some store') :
    (publishUnlessChanged db false facts state).run ⟨store, false⟩ = (.ok true, ⟨store', false⟩) :=
  (bind_ok (isUnchanged_run h)).trans ((bind_ok (publish_ok hpublish)).trans rfl)

theorem unlessChanged_duplicate (h : isStateUnchanged db state store.log = some true)
    (hpublish : store.publish db facts = none) :
    ∃ written, (publishUnlessChanged db false facts state).run ⟨store, false⟩ =
      (.error .duplicateFact, ⟨written, true⟩) := by
  obtain ⟨written, hwritten⟩ := publish_duplicate hpublish
  exact ⟨written, (bind_ok (isUnchanged_run h)).trans (bind_error hwritten)⟩

theorem unlessChanged_changed (h : isStateUnchanged db state store.log = some false) :
    (publishUnlessChanged db false facts state).run ⟨store, false⟩ = (.ok false, ⟨store, false⟩) :=
  bind_ok (isUnchanged_run h)

theorem unlessChanged_fails (h : isStateUnchanged db state store.log = none) :
    (publishUnlessChanged db false facts state).run ⟨store, false⟩ =
      (.error .badSqlGrammar, ⟨store, true⟩) :=
  bind_error (query_error (by rw [h]))

/-- The call for a known token is its body and the clean-up. -/
theorem publishIfUnchanged_known (h : store.tokens token = some state) :
    (publishIfUnchanged db false facts (some token)).run ⟨store, false⟩ =
      (andFinally (publishUnlessChanged db false facts state) (invalidate token)).run
        ⟨store, false⟩ := by
  refine (bind_ok aquireExclusiveTXLock_run).trans ((bind_ok getToken_run).trans ?_)
  rw [h]

/-- Whatever fails in the transaction, what is thrown is that its clean-up was refused. -/
theorem call_failed {e : Exception} {written : Store} (hknown : store.tokens token = some state)
    (h : (publishUnlessChanged db false facts state).run ⟨store, false⟩ =
      (.error e, ⟨written, true⟩)) :
    call db false facts (some token) store = (.error .uncategorizedSql, store) :=
  Transaction.commit_error ((publishIfUnchanged_known hknown).trans (andFinally_throws h invalidate_failed))

theorem call_completed {success : Bool} (hknown : store.tokens token = some state)
    (h : (publishUnlessChanged db false facts state).run ⟨store, false⟩ =
      (.ok success, ⟨store', false⟩)) :
    call db false facts (some token) store = (.ok success, store'.invalidate token) :=
  Transaction.commit_ok ((publishIfUnchanged_known hknown).trans (andFinally_completes h invalidate_run))

/-- The transaction is the call as `FactStore.lean` has it. -/
theorem publishIfUnchanged_answer (db : Database) (facts : List Fact) (optionalToken : Option UUID)
    (store : Store) :
    ((call db false facts optionalToken store).2, answer (call db false facts optionalToken store).1) =
      PgFactStore.publishIfUnchanged db store facts optionalToken := by
  unfold PgFactStore.publishIfUnchanged
  cases optionalToken with
  | some token =>
    cases hknown : store.tokens token with
    | some state =>
      cases hstate : isStateUnchanged db state store.log with
      | some unchanged =>
        cases unchanged with
        | true =>
          cases hpublish : store.publish db facts with
          | some store' =>
            simp [call_completed hknown (unlessChanged_published hstate hpublish), answer, hknown, hstate]
          | none =>
            obtain ⟨written, hwritten⟩ := unlessChanged_duplicate hstate hpublish
            simp [call_failed hknown hwritten, answer, hknown, hstate]
        | false => simp [call_completed hknown (unlessChanged_changed hstate), answer, hknown, hstate]
      | none => simp [call_failed hknown (unlessChanged_fails hstate), answer, hknown, hstate]
    | none =>
      have hrun : (publishIfUnchanged db false facts (some token)).run ⟨store, false⟩ =
          (.ok false, ⟨store, false⟩) := by
        refine (bind_ok aquireExclusiveTXLock_run).trans ((bind_ok getToken_run).trans ?_)
        rw [hknown]
        rfl
      simp [call, Transaction.commit_ok hrun, answer, hknown]
  | none =>
    cases hpublish : store.publish db facts with
    | some store' =>
      have hrun : (publishIfUnchanged db false facts none).run ⟨store, false⟩ =
          (.ok true, ⟨store', false⟩) :=
        (bind_ok aquireExclusiveTXLock_run).trans ((bind_ok (publish_ok hpublish)).trans rfl)
      simp [call, Transaction.commit_ok hrun, answer]
    | none =>
      obtain ⟨written, hwritten⟩ := publish_duplicate hpublish
      have hrun : (publishIfUnchanged db false facts none).run ⟨store, false⟩ =
          (.error .duplicateFact, ⟨written, true⟩) :=
        (bind_ok aquireExclusiveTXLock_run).trans (bind_error hwritten)
      simp [call, Transaction.commit_error hrun, answer]

theorem publish_none (h : ∃ f ∈ facts, f.id ∈ store.log.map fun r => r.fact.id) :
    store.publish db facts = none := by
  obtain ⟨f, hf, hid⟩ := h
  have hnot : insertable store.log facts = false := by
    by_contra hne
    simp only [insertable, Bool.not_eq_false, Bool.and_eq_true, List.all_eq_true, Bool.not_eq_true',
      List.contains_eq_mem, decide_eq_false_iff_not] at hne
    exact hne.2 f hf hid
  simp [Store.publish, hnot]

end Proofs

/-- The duplicate is named to the caller, and the log is as it was. -/
def FailsCleanly (db : Database) (readOnly : Bool) (store : Store) (facts : List Fact) (token : UUID) :
    Prop :=
  (call db readOnly facts (some token) store).1 = .error .duplicateFact ∧
    (call db readOnly facts (some token) store).2.log = store.log

/-- With a known token whose state is unchanged, a duplicate is never named. The
log is left as it was. -/
theorem publishIfUnchanged_duplicate (db : Database) (readOnly : Bool) (store : Store)
    (facts : List Fact) (token : UUID) (state : TokenState) (hknown : store.tokens token = some state)
    (hunchanged : isStateUnchanged db state store.log = some true)
    (hduplicate : ∃ f ∈ facts, f.id ∈ store.log.map fun r => r.fact.id) :
    ¬ FailsCleanly db readOnly store facts token ∧
      (call db readOnly facts (some token) store).2 = store := by
  have hcall : ∃ e ≠ Exception.duplicateFact,
      call db readOnly facts (some token) store = (.error e, store) := by
    cases readOnly with
    | true => exact ⟨.unsupportedOperation, by decide, rfl⟩
    | false =>
      obtain ⟨written, hwritten⟩ := unlessChanged_duplicate hunchanged (publish_none hduplicate)
      exact ⟨.uncategorizedSql, by decide, call_failed hknown hwritten⟩
  obtain ⟨e, hother, hcall⟩ := hcall
  refine ⟨fun hclean => hother ?_, by rw [hcall]⟩
  have hthrown := hclean.1
  rw [hcall] at hthrown
  simpa using hthrown

/-- An order that is there already, and a token for the orders that has seen it. -/
def holdingToken : Store :=
  ⟨rowsFrom .quoted 1 [placed 1], Function.update (fun _ => none) ⟨0⟩ (some ⟨[ofOrders], 1⟩), 2⟩

theorem publishIfUnchanged_duplicate_placed :
    ¬ FailsCleanly .quoted false holdingToken [paid 2, placed 1] ⟨0⟩ ∧
      (call .quoted false [paid 2, placed 1] (some ⟨0⟩) holdingToken).2 = holdingToken :=
  publishIfUnchanged_duplicate .quoted false holdingToken [paid 2, placed 1] ⟨0⟩ ⟨[ofOrders], 1⟩ rfl
    (by decide +kernel) (by decide)

theorem duplicate_not_named : ¬ ∀ store facts token state, store.tokens token = some state →
    isStateUnchanged .quoted state store.log = some true →
    (∃ f ∈ facts, f.id ∈ store.log.map fun r => r.fact.id) →
    FailsCleanly .quoted false store facts token := by
  intro hall
  have hclean := hall holdingToken [paid 2, placed 1] ⟨0⟩ ⟨[ofOrders], 1⟩ rfl (by decide +kernel)
    (by decide)
  have hthrown : (call .quoted false [paid 2, placed 1] (some ⟨0⟩) holdingToken).1 =
      .error .uncategorizedSql := by decide +kernel
  cases hthrown.symm.trans hclean.1

end FactCast.PgFactStore.InTransaction
