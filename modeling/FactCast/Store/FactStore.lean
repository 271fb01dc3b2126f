import FactCast.Store.Query
import FactCast.Machine.Log

/-! The fact store, one statement at a time.

What `PgFactStore` and `AbstractFactStore` ask of the database: the state of a
list of specifications (the highest serial that matches above another), whether
such a state is unchanged, and rows for new facts. Who may run which of these
when is another matter (`Store/Publish.lean`); here stands what each of them
makes of the committed rows. -/
namespace FactCast

/-- What is outside: how paths are read, and what the insert trigger adds to a
header under its serial. -/
structure Database where
  path : JsonPath
  augment : Nat → Header → Header

/-- The trigger: serial and time go into the header's `meta`, which is added if
there is none. A `meta` that is neither an object nor absent is left alone here;
facts with one that is null are not considered. -/
def augmentSerialAndTimestamp (now : Nat → Nat) (ser : Nat) (h : Header) : Header :=
  let stamp (entries : List (String × Jsonb)) : Header :=
    let stamped :=
      Jsonb.setMember (Jsonb.setMember entries "_ser" (.num ⟨ser, 0⟩)) "_ts" (.num ⟨now ser, 0⟩)
    { members := Jsonb.setMember h.members "meta" (.obj stamped)
      ns_given := by
        unfold nsOf
        rw [Jsonb.lookup_setMember]
        exact h.ns_given
      meta_no_array := by
        intro items
        rw [Jsonb.lookup_setMember]
        simp }
  match h.members.lookup "meta" with
  | none => stamp []
  | some (.obj entries) => stamp entries
  | some _ => h

/-- The trigger with some clock, and paths of which only two quoted names are known. -/
def Database.quoted : Database := ⟨JsonPath.quoted, augmentSerialAndTimestamp fun _ => 0⟩

/-- What a token stands for. -/
structure TokenState where
  specs : List FactSpec
  serialOfLastMatchingFact : Nat

namespace PgFactStore
variable (db : Database)

/-- The highest serial of the log, zero if it is empty. -/
def lastSerialInLog (log : List FactRow) : Nat := Log.last FactRow.ser log

/-- The highest serial that matches above another one, zero if there is none.
Fails as the query fails. -/
def doGetState (specs : List FactSpec) (lastMatchingSerial : Nat) (log : List FactRow) :
    Option TokenState :=
  (PgQueryBuilder.selected db.path specs lastMatchingSerial).map fun select =>
    ⟨specs, Log.last FactRow.ser (log.filter select)⟩

def getStateFor (specs : List FactSpec) (log : List FactRow) : Option TokenState :=
  doGetState db specs 0 log

def getCurrentStateFor (specs : List FactSpec) (log : List FactRow) : TokenState :=
  ⟨specs, lastSerialInLog log⟩

/-- Nothing above the recorded serial matches. -/
def isStateUnchanged (state : TokenState) (log : List FactRow) : Option Bool :=
  (doGetState db state.specs state.serialOfLastMatchingFact log).map fun current =>
    current.serialOfLastMatchingFact == 0

/-- The rows of new facts, with the serials from `n` on. -/
def rowsFrom : Nat → List Fact → List FactRow
  | _, [] => []
  | n, f :: fs => ⟨n, { f with header := db.augment n f.header }⟩ :: rowsFrom (n + 1) fs

/-- No identifier is there already, or twice among the new facts. -/
def insertable (log : List FactRow) (facts : List Fact) : Bool :=
  decide (facts.map Fact.id).Nodup && facts.all fun f => !(log.map fun r => r.fact.id).contains f.id

/-- What the database holds between two calls. -/
structure Store where
  log : List FactRow
  tokens : UUID → Option TokenState
  nextSer : Nat

def Store.invalidate (store : Store) (token : UUID) : Store :=
  { store with tokens := Function.update store.tokens token none }

/-- How a call on its own ends. -/
inductive Answer where
  | returned (success : Bool)
  /-- A query failed. -/
  | dataAccess
  | duplicateFact
deriving DecidableEq

/-- Answers are looked for with the number of the call they belong to. -/
instance : LawfulBEq (Nat × Answer) := inferInstance

/-- All facts or none. -/
def Store.publish (store : Store) (facts : List Fact) : Option Store :=
  if insertable store.log facts then
    some { store with
      log := store.log ++ rowsFrom db store.nextSer facts, nextSer := store.nextSer + facts.length }
  else none

/-- A whole call with nothing in between. What it throws takes its writes with it. -/
def publishIfUnchanged (store : Store) (facts : List Fact) (optionalToken : Option UUID) :
    Store × Answer :=
  match optionalToken with
  | some token =>
    match store.tokens token with
    | some state =>
      match isStateUnchanged db state store.log with
      | some true =>
        match store.publish db facts with
        | some store' => (store'.invalidate token, .returned true)
        -- the token is invalidated in a transaction that has failed, which throws in turn
        | none => (store, .dataAccess)
      | some false => (store.invalidate token, .returned false)
      | none => (store, .dataAccess)
    | none => (store, .returned false)
  | none =>
    match store.publish db facts with
    | some store' => (store', .returned true)
    | none => (store, .duplicateFact)

/-- The token is known, its state is unchanged and the facts are new. -/
def accepts (store : Store) (facts : List Fact) (token : UUID) : Bool :=
  match store.tokens token with
  | some state => isStateUnchanged db state store.log == some true && insertable store.log facts
  | none => false

variable {db} {state : TokenState} {log : List FactRow} {facts : List Fact} {n : Nat}

/-- A state is unchanged if the query selects nothing. -/
theorem isStateUnchanged_true_iff : isStateUnchanged db state log = some true ↔
    ∃ select, PgQueryBuilder.selected db.path state.specs state.serialOfLastMatchingFact = some select ∧
      ∀ row ∈ log, select row = false := by
  simp only [isStateUnchanged, doGetState, Option.map_map, Option.map_eq_some_iff, Function.comp_apply,
    beq_iff_eq]
  refine exists_congr fun select => and_congr_right fun hsel => ?_
  -- what is selected lies above a serial, so its own is positive
  have hpos : ∀ row ∈ log.filter select, 0 < row.ser := by
    intro row hrow
    have := ((PgQueryBuilder.selected_row hsel row).mp (List.mem_filter.mp hrow).2).1
    omega
  rw [Log.last_eq_zero hpos, List.filter_eq_nil_iff]
  simp

theorem length_rowsFrom : (rowsFrom db n facts).length = facts.length := by
  induction facts generalizing n with
  | nil => rfl
  | cons f fs ih => simp [rowsFrom, ih]

theorem rowsFrom_append {more : List Fact} :
    rowsFrom db n (facts ++ more) = rowsFrom db n facts ++ rowsFrom db (n + facts.length) more := by
  induction facts generalizing n with
  | nil => rfl
  | cons f fs ih =>
    have hlen : n + (f :: fs).length = n + 1 + fs.length := by
      rw [List.length_cons]
      omega
    rw [hlen, List.cons_append, rowsFrom, rowsFrom, ih, List.cons_append]

theorem ser_rowsFrom {row : FactRow} (h : row ∈ rowsFrom db n facts) :
    n ≤ row.ser ∧ row.ser < n + facts.length := by
  induction facts generalizing n with
  | nil => cases h
  | cons f fs ih =>
    rcases List.mem_cons.mp h with rfl | h
    · simp
    · have := ih h
      simp only [List.length_cons]
      omega

theorem ascending_rowsFrom : Log.Ascending FactRow.ser (rowsFrom db n facts) := by
  induction facts generalizing n with
  | nil => exact List.Pairwise.nil
  | cons f fs ih =>
    refine List.pairwise_cons.mpr ⟨fun row hrow => ?_, ih⟩
    exact (ser_rowsFrom hrow).1

/-- The new rows hold the new facts in order, under their identifiers and with
their payloads. -/
theorem ids_rowsFrom : (rowsFrom db n facts).map (fun r => r.fact.id) = facts.map Fact.id := by
  induction facts generalizing n with
  | nil => rfl
  | cons f fs ih => simp [rowsFrom, ih]

/-- New rows keep the identifiers of a log distinct. -/
theorem nodup_append_rowsFrom (h : (log.map fun r => r.fact.id).Nodup)
    (hnew : insertable log facts = true) :
    ((log ++ rowsFrom db n facts).map fun r => r.fact.id).Nodup := by
  simp only [insertable, Bool.and_eq_true, decide_eq_true_eq, List.all_eq_true, Bool.not_eq_true',
    List.contains_eq_mem, decide_eq_false_iff_not] at hnew
  rw [List.map_append, ids_rowsFrom]
  refine List.nodup_append.mpr ⟨h, hnew.1, fun id hlog id' hfacts heq => ?_⟩
  obtain ⟨f, hf, rfl⟩ := List.mem_map.mp hfacts
  exact hnew.2 f hf (heq ▸ hlog)

section Call
variable {store store' : Store} {token : UUID} {answer : Answer}

theorem Store.publish_eq (h : store.publish db facts = some store') :
    insertable store.log facts = true ∧ store' =
      { store with
        log := store.log ++ rowsFrom db store.nextSer facts
        nextSer := store.nextSer + facts.length } := by
  unfold Store.publish at h
  split at h
  · rename_i hnew
    exact ⟨hnew, by simpa using h.symm⟩
  · cases h

/-- What a call with a token does: it publishes if it is accepted, and answers no
if the token is not there afterwards; whatever it throws leaves the store alone. -/
theorem publishIfUnchanged_some (h : publishIfUnchanged db store facts (some token) = (store', answer)) :
    (answer = .returned true ∧ accepts db store facts token = true ∧
      store'.log = store.log ++ rowsFrom db store.nextSer facts ∧
      store'.tokens = Function.update store.tokens token none) ∨
    (answer = .returned false ∧ accepts db store facts token = false ∧ store'.log = store.log ∧
      store'.tokens = Function.update store.tokens token none) ∨
    (answer = .dataAccess ∧ accepts db store facts token = false ∧ store' = store) := by
  unfold publishIfUnchanged at h
  unfold accepts
  simp only at h
  split at h
  · rename_i state hstate
    split at h
    · rename_i htrue
      split at h
      · rename_i published hpublished
        obtain ⟨hnew, rfl⟩ := Store.publish_eq hpublished
        cases h
        exact .inl ⟨rfl, by simp [htrue, hnew], rfl, rfl⟩
      · rename_i hpublish
        have hdup : insertable store.log facts = false := by
          by_contra hne
          simp [Store.publish, hne] at hpublish
        cases h
        exact .inr (.inr ⟨rfl, by simp [hdup], rfl⟩)
    · rename_i hfalse
      cases h
      exact .inr (.inl ⟨rfl, by simp [hfalse], rfl, rfl⟩)
    · rename_i hfail
      cases h
      exact .inr (.inr ⟨rfl, by simp [hfail], rfl⟩)
  · rename_i hunknown
    cases h
    refine .inr (.inl ⟨rfl, by simp, rfl, ?_⟩)
    rw [← hunknown, Function.update_eq_self]

/-- What such a call leaves behind: the new rows and no token, or the log and the
serials as they were. -/
theorem publishIfUnchanged_store
    (h : publishIfUnchanged db store facts (some token) = (store', answer)) :
    (answer = .returned true ∧
      (∃ state, store.tokens token = some state ∧ isStateUnchanged db state store.log = some true) ∧
      store'.log = store.log ++ rowsFrom db store.nextSer facts ∧
      store'.nextSer = store.nextSer + facts.length) ∨
    (answer ≠ .returned true ∧ store'.log = store.log ∧ store'.nextSer = store.nextSer) := by
  unfold publishIfUnchanged at h
  simp only at h
  split at h
  · rename_i state hstate
    split at h
    · rename_i htrue
      split at h
      · rename_i published hpublished
        obtain ⟨_, rfl⟩ := Store.publish_eq hpublished
        cases h
        exact .inl ⟨rfl, ⟨state, hstate, htrue⟩, rfl, rfl⟩
      · cases h
        exact .inr ⟨by simp, rfl, rfl⟩
    · cases h
      exact .inr ⟨by simp, rfl, rfl⟩
    · cases h
      exact .inr ⟨by simp, rfl, rfl⟩
  · cases h
    exact .inr ⟨by simp, rfl, rfl⟩

/-- A call without a token publishes, or throws and leaves the store alone. -/
theorem publishIfUnchanged_none (h : publishIfUnchanged db store facts none = (store', answer)) :
    (answer = .returned true ∧ insertable store.log facts = true ∧
      store'.log = store.log ++ rowsFrom db store.nextSer facts ∧ store'.tokens = store.tokens) ∨
    (answer = .duplicateFact ∧ store' = store) := by
  unfold publishIfUnchanged at h
  simp only at h
  split at h
  · rename_i published hpublished
    obtain ⟨hnew, rfl⟩ := Store.publish_eq hpublished
    cases h
    exact .inl ⟨rfl, hnew, rfl, rfl⟩
  · cases h
    exact .inr ⟨rfl, rfl⟩

theorem insertable_of_accepts (h : accepts db store facts token = true) :
    insertable store.log facts = true := by
  unfold accepts at h
  split at h
  · simp only [Bool.and_eq_true] at h
    exact h.2
  · cases h

/-- With a token or without, new facts take the next serials or nothing is written. -/
theorem publishIfUnchanged_grows {optionalToken : Option UUID}
    (h : publishIfUnchanged db store facts optionalToken = (store', answer)) :
    (insertable store.log facts = true ∧ store'.log = store.log ++ rowsFrom db store.nextSer facts ∧
      store'.nextSer = store.nextSer + facts.length) ∨
    (store'.log = store.log ∧ store'.nextSer = store.nextSer) := by
  cases optionalToken with
  | some token =>
    rcases publishIfUnchanged_some h with ⟨rfl, hacc, _⟩ | ⟨hno, _⟩ | ⟨hno, _⟩
    · rcases publishIfUnchanged_store h with ⟨_, _, hlog, hser⟩ | ⟨hno, _⟩
      · exact .inl ⟨insertable_of_accepts hacc, hlog, hser⟩
      · exact absurd rfl hno
    · rcases publishIfUnchanged_store h with ⟨hyes, _⟩ | ⟨_, hkept⟩
      · cases hyes.symm.trans hno
      · exact .inr hkept
    · rcases publishIfUnchanged_store h with ⟨hyes, _⟩ | ⟨_, hkept⟩
      · cases hyes.symm.trans hno
      · exact .inr hkept
  | none =>
    unfold publishIfUnchanged at h
    simp only at h
    split at h
    · rename_i published hpublished
      obtain ⟨hnew, rfl⟩ := Store.publish_eq hpublished
      cases h
      exact .inl ⟨hnew, rfl, rfl⟩
    · cases h
      exact .inr ⟨rfl, rfl⟩

/-- What any call does to the log and to the tokens. -/
theorem publishIfUnchanged_effect {optionalToken : Option UUID}
    (h : publishIfUnchanged db store facts optionalToken = (store', answer)) :
    ((answer = .returned true ∧ insertable store.log facts = true ∧
        store'.log = store.log ++ rowsFrom db store.nextSer facts) ∨
      (answer ≠ .returned true ∧ store'.log = store.log)) ∧
    (∀ t, store.tokens t = none → store'.tokens t = none) ∧
    (∀ success, answer = .returned success →
      ∀ t, optionalToken = some t → store'.tokens t = none) := by
  cases optionalToken with
  | some token =>
    have hgone : ∀ t, store.tokens t = none → Function.update store.tokens token none t = none := by
      intro t ht
      by_cases heq : t = token
      · rw [heq, Function.update_self]
      · rw [Function.update_of_ne heq, ht]
    rcases publishIfUnchanged_some h with ⟨rfl, hacc, hlog, htokens⟩ | ⟨rfl, _, hlog, htokens⟩ | ⟨rfl, _, rfl⟩
    · rw [htokens]
      refine ⟨.inl ⟨rfl, insertable_of_accepts hacc, hlog⟩, hgone, fun _ _ t ht => ?_⟩
      cases ht
      exact Function.update_self ..
    · rw [htokens]
      refine ⟨.inr ⟨by simp, hlog⟩, hgone, fun _ _ t ht => ?_⟩
      cases ht
      exact Function.update_self ..
    · refine ⟨.inr ⟨by simp, rfl⟩, fun _ ht => ht, fun success hsuccess => ?_⟩
      cases hsuccess
  | none =>
    rcases publishIfUnchanged_none h with ⟨rfl, hnew, hlog, htokens⟩ | ⟨rfl, rfl⟩
    · rw [htokens]
      refine ⟨.inl ⟨rfl, hnew, hlog⟩, fun _ ht => ht, fun _ _ t ht => ?_⟩
      cases ht
    · refine ⟨.inr ⟨by simp, rfl⟩, fun _ ht => ht, fun success hsuccess => ?_⟩
      cases hsuccess

end Call

end PgFactStore

/-! ### Two namespaces and their facts -/

def ofOrders : FactSpec where
  ns := "orders"
  ns_given := orders_given

def placed (id : Nat) : Fact where
  id := ⟨.ofNat 128 id⟩
  header := ⟨[("ns", .str "orders")], by decide, fun _ h => nomatch h⟩
  payload := .null

def paid (id : Nat) : Fact where
  id := ⟨.ofNat 128 id⟩
  header := ⟨[("ns", .str "payments")], by decide, fun _ h => nomatch h⟩
  payload := .null

end FactCast
