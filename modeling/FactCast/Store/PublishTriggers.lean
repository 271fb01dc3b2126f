import FactCast.Json.Text
import FactCast.Store.DateSerial
import FactCast.Store.Notification
import FactCast.Store.ReadBack

/-! What a publish may fail of.

Three triggers run inside the transaction that publishes. The two that run before an
insert add serial and time to the header and keep the table of dates. The one that was
deferred runs at the commit, in the order of the inserts: the first row of what it takes
for one pair of namespace and type is notified, with a payload that has the whole header
in it. A payload of 8000 bytes is refused, and that fails the transaction.

`publish_iff`: facts that are accepted, distinct and new are published exactly if their
identifiers and pairs can be indexed and no payload is too long. -/
namespace FactCast.PublishTriggers
open ReadBack

/-- What is outside: the digest behind a setting's name, the session's time zone, how a
text is cast to an identifier, and whether namespace and type fit into a page of the
index for enumeration. -/
structure Server where
  md5 : String → String
  zone : DateSerial.Zone
  uuid : String → Option UUID
  fitsPage : Option String → Option String → Bool

structure NewFact where
  jsonHeader : Document
  jsonPayload : Document

structure Row where
  ser : Nat
  header : Jsonb
  payload : Jsonb
  /-- Its entry in `idx_fact_unique_uuid`. -/
  id : Option UUID

structure Store where
  rows : List Row
  dates : List DateSerial.DateEntry
  nextSer : Nat

/-- When it began, in microseconds, and `txid_current()`. -/
structure Tx where
  started : Nat
  txId : Nat

inductive Exception where
  | unsupportedOperation
  /-- The identifier is no `uuid`. -/
  | invalidTextRepresentation
  | indexRowSize
  | duplicateKey
  | duplicateFact
  | payloadTooLong
deriving DecidableEq

section Publish
variable (server : Server) (tx : Tx)

/-! ### Before an insert -/

def stamped (ser : Nat) (header : Jsonb) : Jsonb :=
  ReadBack.augmentSerialAndTimestamp ser (DateSerial.timestamp tx.started) header

/-- `(header ->> 'id') :: uuid`, `none` if the cast fails. -/
def uniqueEntry (header : Jsonb) : Option (Option UUID) :=
  match header.column "id" with
  | none => some none
  | some text => (server.uuid text).map some

def fits (header : Jsonb) : Bool := server.fitsPage (header.column "ns") (header.column "type")

/-- One statement of the batch, with its triggers and its entries in the indexes. -/
def insertFact (f : NewFact) (store : Store) : Except Exception Store :=
  let header := stamped tx store.nextSer f.jsonHeader.toJsonb
  match uniqueEntry server header with
  | none => .error .invalidTextRepresentation
  | some id =>
    if id.isSome && (store.rows.map Row.id).contains id then .error .duplicateKey
    else if fits server header then
      .ok { rows := store.rows ++ [⟨store.nextSer, header, f.jsonPayload.toJsonb, id⟩]
            dates := DateSerial.maintainFactDate server.zone store.dates ⟨store.nextSer, tx.started⟩
            nextSer := store.nextSer + 1 }
    else .error .indexRowSize

/-! ### At the commit -/

def identifier (header : Jsonb) : String :=
  "myvars.facttrigger." ++
    ("fc" ++ server.md5 (NotifyFactInsert.concat (header.column "ns") (header.column "type")))

def number (n : Nat) : List Char := Nat.toDigits 10 n

/-- A text of the database as a member of an object. -/
def varchar (text : Option String) : List Char := text.elim ['n', 'u', 'l', 'l'] Jsonb.quote

def payload (ser : Nat) (header : Jsonb) : List Char :=
  Jsonb.jsonBuildObject
    [("ser", number ser), ("header", header.text), ("txId", number tx.txId),
      ("ns", varchar (header.column "ns")), ("type", varchar (header.column "type"))]

def pgNotify (payload : List Char) : Except Exception (List Char) :=
  if 8000 ≤ Jsonb.bytes payload then .error .payloadTooLong else .ok payload

/-- The deferred triggers of the rows that are left, given the settings of the transaction. -/
def notifyFactInsert : List String → List Row → Except Exception (List (List Char))
  | _, [] => .ok []
  | settings, row :: rest =>
    if identifier server row.header ∈ settings then notifyFactInsert settings rest
    else do
      let notified ← pgNotify (payload tx row.ser row.header)
      let others ← notifyFactInsert (identifier server row.header :: settings) rest
      return notified :: others

def named : Exception → Exception
  | .duplicateKey => .duplicateFact
  | e => e

/-- The whole transaction. What it throws writes nothing. -/
def publish (readOnlyModeEnabled : Bool) (factsToPublish : List NewFact) (store : Store) :
    Except Exception (Store × List (List Char)) :=
  if readOnlyModeEnabled then .error .unsupportedOperation
  else do
    let inserted ← (factsToPublish.foldlM (fun store f => insertFact server tx f store) store).mapError named
    let notified ← notifyFactInsert server tx [] (inserted.rows.drop store.rows.length)
    return (inserted, notified)

end Publish

section Proofs
variable {server : Server} {tx : Tx} {mapper : Mapper} {store : Store} {facts : List NewFact} {f : NewFact}
  {header : Jsonb} {ser : Nat} {settings : List String} {rows : List Row}

/-! ### Columns -/

theorem column_stamped {name : String} (hname : name ≠ "meta") :
    (stamped tx ser header).column name = header.column name := by
  unfold stamped ReadBack.augmentSerialAndTimestamp
  generalize ReadBack.concat _ _ = entries
  cases header with
  | obj members =>
    simp only [Jsonb.column, Jsonb.get?_obj, Jsonb.lookup_setMember, if_neg hname]
  | _ => rfl

theorem uniqueEntry_stamped : uniqueEntry server (stamped tx ser header) = uniqueEntry server header := by
  rw [uniqueEntry, column_stamped (by decide), uniqueEntry]

theorem fits_stamped : fits server (stamped tx ser header) = fits server header := by
  rw [fits, column_stamped (by decide), column_stamped (by decide), fits]

theorem identifier_stamped : identifier server (stamped tx ser header) = identifier server header := by
  unfold identifier
  rw [column_stamped (by decide), column_stamped (by decide)]

theorem column_toJsonb {members : List (String × Document)} {name : String} :
    (Document.obj members).toJsonb.column name =
      (lastMember members name).bind fun d => Jsonb.columnText d.toJsonb := by
  rw [Document.toJsonb, Document.membersToJsonb_eq, Jsonb.column, Jsonb.get?_obj,
    Jsonb.lookup_lastOfEach, lastMember_map, Option.bind_map]
  rfl

/-! ### The batch -/

/-- The identifier that a header is accepted with. -/
def idOf (mapper : Mapper) (f : NewFact) : Option UUID :=
  (DefaultFact.of mapper f.jsonHeader).bind FactHeader.id

/-- The database casts the identifier, and the pair fits into the index. -/
def Indexable (server : Server) (f : NewFact) : Prop :=
  (uniqueEntry server f.jsonHeader.toJsonb).isSome = true ∧ fits server f.jsonHeader.toJsonb = true

/-- A cast that succeeds gives the identifier the mapper read. -/
theorem uniqueEntry_accepted {id : Option UUID} (haccepted : (DefaultFact.of mapper f.jsonHeader).isSome = true)
    (huuid : ∀ s id id', mapper.uuid (.str s) = some (some id) → server.uuid s = some id' → id' = id)
    (hid : uniqueEntry server f.jsonHeader.toJsonb = some id) : id = idOf mapper f := by
  obtain ⟨h, hof⟩ := Option.isSome_iff_exists.mp haccepted
  obtain ⟨hread, hvalid⟩ := Option.filter_eq_some_iff.mp hof
  have hidOf : idOf mapper f = h.id := by rw [idOf, hof, Option.bind_some]
  obtain ⟨u, hu⟩ := Option.isSome_iff_exists.mp (validate_iff.mp hvalid).1
  cases hheader : f.jsonHeader with
  | obj members =>
    rw [hheader] at hread hid
    have hlast := (reads_of_readValue hread).id
    cases hmember : lastMember members "id" with
    | none =>
      rw [hmember, hu] at hlast
      cases hlast
    | some d =>
      rw [hmember, hu] at hlast
      obtain ⟨s, rfl⟩ := mapper.uuid_text d u hlast
      have hcolumn : (Document.obj members).toJsonb.column "id" = some s := by
        rw [column_toJsonb, hmember]
        rfl
      simp only [uniqueEntry, hcolumn, Option.map_eq_some_iff] at hid
      obtain ⟨id', hcast, rfl⟩ := hid
      rw [hidOf, hu, huuid s u id' hlast hcast]
  | _ =>
    rw [hheader] at hread
    cases hread

/-- The row of a fact. -/
def rowOf (server : Server) (tx : Tx) (ser : Nat) (f : NewFact) : Row :=
  ⟨ser, stamped tx ser f.jsonHeader.toJsonb, f.jsonPayload.toJsonb,
    (uniqueEntry server f.jsonHeader.toJsonb).getD none⟩

def rowsFrom (server : Server) (tx : Tx) : Nat → List NewFact → List Row
  | _, [] => []
  | ser, f :: rest => rowOf server tx ser f :: rowsFrom server tx (ser + 1) rest

theorem insertFact_ok (hf : Indexable server f)
    (hnew : (rowOf server tx store.nextSer f).id ∉ store.rows.map Row.id) :
    ∃ dates, insertFact server tx f store =
      .ok ⟨store.rows ++ [rowOf server tx store.nextSer f], dates, store.nextSer + 1⟩ := by
  obtain ⟨id, hid⟩ := Option.isSome_iff_exists.mp hf.1
  have hrow : rowOf server tx store.nextSer f =
      ⟨store.nextSer, stamped tx store.nextSer f.jsonHeader.toJsonb, f.jsonPayload.toJsonb, id⟩ := by
    rw [rowOf, hid, Option.getD_some]
  have hfree : (id.isSome && (store.rows.map Row.id).contains id) = false := by
    rw [hrow] at hnew
    rw [Bool.and_eq_false_iff, List.contains_eq_mem, decide_eq_false_iff_not]
    exact .inr hnew
  refine ⟨DateSerial.maintainFactDate server.zone store.dates ⟨store.nextSer, tx.started⟩, ?_⟩
  simp only [insertFact, uniqueEntry_stamped, hid, hfree, fits_stamped, hf.2, Bool.false_eq_true, if_false,
    if_true, hrow]

theorem insertFact_error (hf : ¬ Indexable server f) : ∃ e, insertFact server tx f store = .error e := by
  unfold insertFact
  simp only [uniqueEntry_stamped, fits_stamped]
  cases hid : uniqueEntry server f.jsonHeader.toJsonb with
  | none => exact ⟨_, rfl⟩
  | some id =>
    have hfits : fits server f.jsonHeader.toJsonb ≠ true := fun h => hf ⟨by rw [hid]; rfl, h⟩
    dsimp only
    rw [if_neg hfits]
    split <;> exact ⟨_, rfl⟩

theorem insertFacts_ok (hall : ∀ f ∈ facts, Indexable server f)
    (hdistinct : (facts.map fun f => (uniqueEntry server f.jsonHeader.toJsonb).getD none).Nodup)
    (hnew : ∀ f ∈ facts, (uniqueEntry server f.jsonHeader.toJsonb).getD none ∉ store.rows.map Row.id) :
    ∃ inserted, facts.foldlM (fun store f => insertFact server tx f store) store = .ok inserted ∧
      inserted.rows = store.rows ++ rowsFrom server tx store.nextSer facts := by
  induction facts generalizing store with
  | nil => exact ⟨store, rfl, (List.append_nil _).symm⟩
  | cons f rest ih =>
    obtain ⟨hf, hrest⟩ := List.nodup_cons.mp hdistinct
    obtain ⟨dates, hinsert⟩ := @insertFact_ok server tx store f (hall f (.head _)) (hnew f (.head _))
    let next : Store := ⟨store.rows ++ [rowOf server tx store.nextSer f], dates, store.nextSer + 1⟩
    have hfree : ∀ g ∈ rest, (uniqueEntry server g.jsonHeader.toJsonb).getD none ∉ next.rows.map Row.id := by
      intro g hg hmem
      rw [List.map_append, List.mem_append] at hmem
      obtain hold | hthis := hmem
      · exact hnew g (.tail _ hg) hold
      · exact hf (List.mem_map.mpr ⟨g, hg, List.mem_singleton.mp hthis⟩)
    obtain ⟨inserted, hfold, hrows⟩ := ih (fun g hg => hall g (.tail _ hg)) hrest hfree
    refine ⟨inserted, ?_, ?_⟩
    · rw [List.foldlM_cons, hinsert]
      exact hfold
    · rw [hrows, List.append_assoc]
      rfl

theorem insertFacts_error (hsome : ∃ f ∈ facts, ¬ Indexable server f) :
    ∃ e, facts.foldlM (fun store f => insertFact server tx f store) store = .error e := by
  induction facts generalizing store with
  | nil =>
    obtain ⟨f, hf, -⟩ := hsome
    cases hf
  | cons f rest ih =>
    rw [List.foldlM_cons]
    cases hinsert : insertFact server tx f store with
    | error e => exact ⟨e, rfl⟩
    | ok next =>
      refine ih ?_
      obtain ⟨g, hg, hbad⟩ := hsome
      cases hg with
      | head =>
        obtain ⟨e, he⟩ := @insertFact_error server tx store f hbad
        rw [hinsert] at he
        cases he
      | tail _ hg => exact ⟨g, hg, hbad⟩

/-! ### The commit -/

/-- A row whose pair was not notified before it is short enough to be. -/
def Short (server : Server) (tx : Tx) (settings : List String) (rows : List Row) : Prop :=
  ∀ before row after, rows = before ++ row :: after → identifier server row.header ∉ settings →
    identifier server row.header ∉ before.map (fun r => identifier server r.header) →
    Jsonb.bytes (payload tx row.ser row.header) < 8000

theorem short_of_known {row : Row} (h : identifier server row.header ∈ settings) :
    Short server tx settings (row :: rows) ↔ Short server tx settings rows := by
  constructor
  · intro hall before r after hsplit hfree hfirst
    refine hall (row :: before) r after (congrArg (row :: ·) hsplit) hfree ?_
    rw [List.map_cons, List.mem_cons]
    intro hmem
    obtain heq | hmem := hmem
    · exact hfree (heq ▸ h)
    · exact hfirst hmem
  · intro hall before r after hsplit hfree hfirst
    cases before with
    | nil =>
      obtain rfl : row = r := (List.cons.inj hsplit).1
      exact absurd h hfree
    | cons b before =>
      obtain ⟨rfl, hrest⟩ := List.cons.inj hsplit
      exact hall before r after hrest hfree fun hmem => hfirst (.tail _ hmem)

theorem short_of_new {row : Row} (h : identifier server row.header ∉ settings) :
    Short server tx settings (row :: rows) ↔
      Jsonb.bytes (payload tx row.ser row.header) < 8000 ∧
        Short server tx (identifier server row.header :: settings) rows := by
  constructor
  · intro hall
    refine ⟨hall [] row rows rfl h List.not_mem_nil, ?_⟩
    intro before r after hsplit hfree hfirst
    rw [List.mem_cons, not_or] at hfree
    refine hall (row :: before) r after (congrArg (row :: ·) hsplit) hfree.2 ?_
    rw [List.map_cons, List.mem_cons, not_or]
    exact ⟨hfree.1, hfirst⟩
  · intro ⟨hrow, hall⟩ before r after hsplit hfree hfirst
    cases before with
    | nil =>
      obtain rfl : row = r := (List.cons.inj hsplit).1
      exact hrow
    | cons b before =>
      obtain ⟨rfl, hrest⟩ := List.cons.inj hsplit
      rw [List.map_cons, List.mem_cons, not_or] at hfirst
      refine hall before r after hrest ?_ hfirst.2
      rw [List.mem_cons, not_or]
      exact ⟨hfirst.1, hfree⟩

/-- The triggers pass exactly if no row that is to be notified is too long. -/
theorem notifyFactInsert_ok_iff :
    (∃ notified, notifyFactInsert server tx settings rows = .ok notified) ↔ Short server tx settings rows := by
  induction rows generalizing settings with
  | nil =>
    refine iff_of_true ⟨[], rfl⟩ fun before row after hsplit => ?_
    simp at hsplit
  | cons row rest ih =>
    by_cases hknown : identifier server row.header ∈ settings
    · rw [notifyFactInsert, if_pos hknown, short_of_known hknown, ih]
    · rw [notifyFactInsert, if_neg hknown, short_of_new hknown, ← ih, pgNotify]
      by_cases hlong : 8000 ≤ Jsonb.bytes (payload tx row.ser row.header)
      · rw [if_pos hlong]
        refine iff_of_false (fun ⟨_, h⟩ => nomatch h) fun h => ?_
        omega
      · rw [if_neg hlong]
        cases hrest : notifyFactInsert server tx (identifier server row.header :: settings) rest with
        | ok others => exact iff_of_true ⟨_, rfl⟩ ⟨by omega, others, rfl⟩
        | error e => exact iff_of_false (fun ⟨_, h⟩ => nomatch h) fun ⟨_, _, h⟩ => nomatch h

/-! ### The facts -/

/-- What the trigger takes for the pair of namespace and type. -/
def pairOf (server : Server) (f : NewFact) : String := identifier server f.jsonHeader.toJsonb

/-- The bytes of a payload: the header with serial and time, namespace and type again, and
two numbers. -/
def payloadSize (tx : Tx) (ser : Nat) (f : NewFact) : Nat :=
  54 + Jsonb.bytes (stamped tx ser f.jsonHeader.toJsonb).text +
    Jsonb.bytes (varchar (f.jsonHeader.toJsonb.column "ns")) +
    Jsonb.bytes (varchar (f.jsonHeader.toJsonb.column "type")) +
    Jsonb.bytes (number ser) + Jsonb.bytes (number tx.txId)

theorem bytes_payload : Jsonb.bytes (payload tx ser (stamped tx ser f.jsonHeader.toJsonb)) =
    payloadSize tx ser f := by
  have hser : Jsonb.bytes (Jsonb.quote "ser") = 5 := rfl
  have hheader : Jsonb.bytes (Jsonb.quote "header") = 8 := rfl
  have htxId : Jsonb.bytes (Jsonb.quote "txId") = 6 := rfl
  have hns : Jsonb.bytes (Jsonb.quote "ns") = 4 := rfl
  have htype : Jsonb.bytes (Jsonb.quote "type") = 6 := rfl
  have hsize : ∀ c ∈ ['{', '}', ',', ' ', ':'], c.utf8Size = 1 := by
    simp only [List.forall_mem_cons]
    exact ⟨rfl, rfl, rfl, rfl, rfl, nofun⟩
  simp only [List.forall_mem_cons] at hsize
  obtain ⟨hopen, hclose, hcomma, hspace, hcolon, -⟩ := hsize
  simp only [payload, Jsonb.jsonBuildObject, List.map_cons, List.map_nil, Jsonb.separated, List.cons_append,
    Jsonb.bytes_append, Jsonb.bytes_cons, Jsonb.bytes_nil, hser, hheader, htxId, hns, htype, hopen, hclose, hcomma,
    hspace, hcolon, column_stamped (show "ns" ≠ "meta" by decide),
    column_stamped (show "type" ≠ "meta" by decide), payloadSize]
  omega

theorem bytes_le_payload (header : Jsonb) :
    Jsonb.bytes header.text ≤ Jsonb.bytes (payload tx ser header) := by
  simp only [payload, Jsonb.jsonBuildObject, List.map_cons, List.map_nil, Jsonb.separated, List.cons_append,
    Jsonb.bytes_append, Jsonb.bytes_cons]
  omega

/-- The first fact of each pair is short enough to be notified. -/
def NoneTooLong (server : Server) (tx : Tx) (ser : Nat) (facts : List NewFact) : Prop :=
  ∀ before f after, facts = before ++ f :: after → pairOf server f ∉ before.map (pairOf server) →
    payloadSize tx (ser + before.length) f < 8000

theorem identifiers_rowsFrom :
    (rowsFrom server tx ser facts).map (fun r => identifier server r.header) = facts.map (pairOf server) := by
  induction facts generalizing ser with
  | nil => rfl
  | cons f rest ih =>
    rw [rowsFrom, List.map_cons, List.map_cons, ih, rowOf, identifier_stamped, pairOf]

theorem rowsFrom_append (before after : List NewFact) : rowsFrom server tx ser (before ++ after) =
    rowsFrom server tx ser before ++ rowsFrom server tx (ser + before.length) after := by
  induction before generalizing ser with
  | nil => rfl
  | cons f rest ih =>
    have hlength : ser + (f :: rest).length = ser + 1 + rest.length := by
      rw [List.length_cons]
      omega
    rw [List.cons_append, rowsFrom, ih, rowsFrom, hlength, List.cons_append]

theorem rowsFrom_eq_append {before after : List Row} {row : Row}
    (h : rowsFrom server tx ser facts = before ++ row :: after) :
    ∃ first f rest, facts = first ++ f :: rest ∧ before = rowsFrom server tx ser first ∧
      row = rowOf server tx (ser + first.length) f := by
  induction before generalizing ser facts with
  | nil =>
    cases facts with
    | nil => cases h
    | cons f rest => exact ⟨[], f, rest, rfl, rfl, (List.cons.inj h).1.symm⟩
  | cons b before ih =>
    cases facts with
    | nil => cases h
    | cons g rest =>
      obtain ⟨hb, htail⟩ := List.cons.inj h
      obtain ⟨first, f, others, rfl, rfl, rfl⟩ := ih htail
      refine ⟨g :: first, f, others, rfl, by rw [rowsFrom, hb], ?_⟩
      rw [List.length_cons, Nat.add_assoc, Nat.add_comm 1]

theorem short_rowsFrom :
    Short server tx [] (rowsFrom server tx ser facts) ↔ NoneTooLong server tx ser facts := by
  constructor
  · intro hall before f after hsplit hfirst
    have hrow := hall (rowsFrom server tx ser before) (rowOf server tx (ser + before.length) f)
      (rowsFrom server tx (ser + before.length + 1) after) (by rw [hsplit, rowsFrom_append, rowsFrom])
      List.not_mem_nil
    rw [identifiers_rowsFrom, rowOf, identifier_stamped] at hrow
    exact bytes_payload ▸ hrow hfirst
  · intro hall before row after hsplit _ hfirst
    obtain ⟨first, f, rest, rfl, rfl, rfl⟩ := rowsFrom_eq_append hsplit
    rw [identifiers_rowsFrom, rowOf, identifier_stamped] at hfirst
    show Jsonb.bytes (payload tx (ser + first.length) _) < 8000
    rw [rowOf, bytes_payload]
    exact hall first f rest rfl hfirst

end Proofs

/-- Every fact is committed, in order, with serial and time in its header. -/
def Published (server : Server) (tx : Tx) (facts : List NewFact) (store : Store) : Prop :=
  ∃ inserted notified, publish server tx false facts store = .ok (inserted, notified) ∧
    inserted.rows = store.rows ++ rowsFrom server tx store.nextSer facts

/-- Once everything is inserted it is up to the payloads. -/
theorem published_iff_of_indexable {server : Server} {tx : Tx} {facts : List NewFact} {store : Store}
    (hall : ∀ f ∈ facts, Indexable server f)
    (hdistinct : (facts.map fun f => (uniqueEntry server f.jsonHeader.toJsonb).getD none).Nodup)
    (hnew : ∀ f ∈ facts, (uniqueEntry server f.jsonHeader.toJsonb).getD none ∉ store.rows.map Row.id) :
    Published server tx facts store ↔ NoneTooLong server tx store.nextSer facts := by
  obtain ⟨inserted, hinserted, hrows⟩ := @insertFacts_ok server tx store facts hall hdistinct hnew
  have hpublish : publish server tx false facts store =
      (notifyFactInsert server tx [] (rowsFrom server tx store.nextSer facts)).map
        fun notified => (inserted, notified) := by
    rw [publish, if_neg Bool.false_ne_true, hinserted]
    show (do let notified ← notifyFactInsert server tx [] (inserted.rows.drop store.rows.length); _) = _
    rw [hrows, List.drop_left]
    rfl
  rw [← short_rowsFrom, ← notifyFactInsert_ok_iff, Published, hpublish]
  cases notifyFactInsert server tx [] (rowsFrom server tx store.nextSer facts) with
  | ok notified => exact iff_of_true ⟨inserted, notified, rfl, hrows⟩ ⟨notified, rfl⟩
  | error e => exact iff_of_false (fun ⟨_, _, h, _⟩ => nomatch h) fun ⟨_, h⟩ => nomatch h

/-- Facts that are accepted, distinct and new are published exactly if what the indexes take of
them can be indexed and the first fact of each pair is short enough to be notified. -/
theorem publish_iff (server : Server) (tx : Tx) (mapper : Mapper) (facts : List NewFact) (store : Store)
    (haccepted : ∀ f ∈ facts, (DefaultFact.of mapper f.jsonHeader).isSome = true)
    (hdistinct : (facts.map (idOf mapper)).Nodup)
    (hnew : ∀ f ∈ facts, idOf mapper f ∉ store.rows.map Row.id)
    (huuid : ∀ s id id', mapper.uuid (.str s) = some (some id) → server.uuid s = some id' → id' = id) :
    Published server tx facts store ↔
      (∀ f ∈ facts, Indexable server f) ∧ NoneTooLong server tx store.nextSer facts := by
  by_cases hall : ∀ f ∈ facts, Indexable server f
  · have hentry : ∀ f ∈ facts, (uniqueEntry server f.jsonHeader.toJsonb).getD none = idOf mapper f := by
      intro f hf
      obtain ⟨id, hid⟩ := Option.isSome_iff_exists.mp (hall f hf).1
      rw [hid, Option.getD_some, uniqueEntry_accepted (haccepted f hf) huuid hid]
    rw [and_iff_right hall]
    refine published_iff_of_indexable hall ?_ fun f hf => hentry f hf ▸ hnew f hf
    rw [List.map_congr_left hentry]
    exact hdistinct
  · refine iff_of_false (fun ⟨inserted, notified, hpublish, _⟩ => ?_) fun h => hall h.1
    push Not at hall
    obtain ⟨e, he⟩ := @insertFacts_error server tx store facts hall
    rw [publish, if_neg Bool.false_ne_true, he] at hpublish
    cases hpublish

theorem noneTooLong_singleton {server : Server} {tx : Tx} {ser : Nat} {f : NewFact} :
    NoneTooLong server tx ser [f] ↔ payloadSize tx ser f < 8000 := by
  constructor
  · exact fun h => h [] f [] rfl List.not_mem_nil
  · intro h before g after hsplit _
    cases before with
    | nil =>
      obtain rfl : f = g := (List.cons.inj hsplit).1
      exact h
    | cons b before =>
      have hlength := congrArg List.length hsplit
      simp at hlength

/-- What the trigger knows a row by is what the listener's model of it has
(`Store/Notification.lean`). -/
theorem identifier_eq (server : Server) (pg : Postgres) (hmd5 : pg.md5 = server.md5)
    (htext : ∀ d, pg.jsonText d = .ofList d.text) (h : Header) :
    identifier server h.json = NotifyFactInsert.identifier pg (NotifyFactInsert.text pg h "ns")
      (NotifyFactInsert.text pg h "type") := by
  have hcolumn : ∀ name, h.json.column name = NotifyFactInsert.text pg h name := by
    intro name
    unfold Jsonb.column NotifyFactInsert.text
    cases hget : h.json.get? name with
    | none => rfl
    | some v =>
      rw [Option.bind_some]
      cases v with
      | null => rfl
      | _ => simp only [Jsonb.columnText, htext]
  unfold identifier NotifyFactInsert.identifier
  rw [hcolumn, hcolumn, hmd5]

/-! ### A short note and a long one -/

/-- A server in UTC. An entry of the index takes up to 2704 bytes, some of them its own. -/
def plain : Server where
  md5 _ := "12c500ed0b7879105fb46af0f246be87"
  zone := DateSerial.utc
  uuid := UuidReader.canonical.read
  fitsPage ns type := decide (Jsonb.bytes (varchar ns) + Jsonb.bytes (varchar type) ≤ 2600)

def noted (id : UUID) (note : String) : NewFact where
  jsonHeader := .obj [("id", .str id.toString), ("ns", .str "orders"),
    ("meta", .obj [("note", .str note)])]
  jsonPayload := .obj []

def idle : Store := ⟨[], [], 1⟩

/-- A note is there already. -/
def stored : Store := ⟨rowsFrom plain ⟨0, 1⟩ 1 [noted ⟨6⟩ "one box"], [⟨0, 1, 1⟩], 2⟩

theorem noted_accepted (id : UUID) (note : String) : DefaultFact.of (.plain .canonical) (noted id note).jsonHeader =
    some { id := some id, ns := some "orders", «meta» := some [("note", some note)] } := by
  have hread : (Mapper.plain .canonical).readValue (noted id note).jsonHeader =
      some { id := some id, ns := some "orders", «meta» := some [("note", some note)] } := by
    simp [Mapper.readValue, noted, Mapper.property, Mapper.plain, UuidReader.canonical.read_toString,
      Mapper.map, readMembers]
  rw [DefaultFact.of, hread]
  rfl

theorem toJsonb_noted (id : UUID) (note : String) : (noted id note).jsonHeader.toJsonb =
    .obj [("id", .str id.toString), ("ns", .str "orders"), ("meta", .obj [("note", .str note)])] := by
  simp [noted, Document.toJsonb, Document.membersToJsonb, Jsonb.lastOfEach]

theorem columnText_str (s : String) : (Jsonb.str s).columnText = some s := rfl

/-- Only the pair goes into the page, and it is the same whatever the note is. -/
theorem noted_pair (id : UUID) (note : String) :
    (noted id note).jsonHeader.toJsonb.column "ns" = some "orders" ∧
      (noted id note).jsonHeader.toJsonb.column "type" = none := by
  rw [toJsonb_noted]
  exact ⟨rfl, rfl⟩

theorem pairOf_noted (id : UUID) (note : String) : pairOf plain (noted id note) =
    "myvars.facttrigger." ++ ("fc" ++ plain.md5 (NotifyFactInsert.concat (some "orders") none)) := by
  have hns := (noted_pair id note).1
  have htype := (noted_pair id note).2
  unfold pairOf identifier
  rewrite [htype, hns]
  rfl

theorem uniqueEntry_noted (id : UUID) (note : String) :
    uniqueEntry plain (noted id note).jsonHeader.toJsonb = some (some id) := by
  have hid : (noted id note).jsonHeader.toJsonb.column "id" = some id.toString := by
    rw [toJsonb_noted, Jsonb.column, Jsonb.get?_obj, List.lookup_cons_self, Option.bind_some, columnText_str]
  unfold uniqueEntry
  rewrite [hid]
  simp only [plain, UuidReader.canonical.read_toString, Option.map_some]

theorem noted_indexable (id : UUID) (note : String) : Indexable plain (noted id note) := by
  refine ⟨?_, ?_⟩
  · rw [uniqueEntry_noted]
    rfl
  · have hns := (noted_pair id note).1
    have htype := (noted_pair id note).2
    unfold fits
    rewrite [htype, hns]
    rfl

theorem plain_uuid_str (reader : UuidReader) (s : String) :
    (Mapper.plain reader).uuid (.str s) = (reader.read s).map some := rfl

theorem plain_uuid_eq {s : String} {id id' : UUID}
    (hread : (Mapper.plain .canonical).uuid (.str s) = some (some id)) (hcast : plain.uuid s = some id') :
    id' = id := by
  rw [plain_uuid_str] at hread
  simp only [plain] at hcast
  rw [hcast, Option.map_some, Option.some.injEq, Option.some.injEq] at hread
  exact hread

theorem isSome_noted {facts : List NewFact} (h : ∀ f ∈ facts, ∃ id note, f = noted id note) :
    ∀ f ∈ facts, (DefaultFact.of (.plain .canonical) f.jsonHeader).isSome = true := by
  intro f hf
  obtain ⟨id, note, rfl⟩ := h f hf
  rw [noted_accepted]
  rfl

theorem idOf_noted (id : UUID) (note : String) : idOf (.plain .canonical) (noted id note) = some id := by
  rw [idOf, noted_accepted]
  rfl

/-- The two facts of the batch have one pair, so the first of them is notified for both. -/
theorem publish_short :
    Published plain ⟨0, 2⟩ [noted ⟨7⟩ "two boxes", noted ⟨8⟩ "three boxes"] stored := by
  have hshort : payloadSize ⟨0, 2⟩ 2 (noted ⟨7⟩ "two boxes") < 8000 := by decide +kernel
  have hnoted : ∀ f ∈ [noted ⟨7⟩ "two boxes", noted ⟨8⟩ "three boxes"], ∃ id note, f = noted id note := by
    intro f hf
    rcases List.mem_pair.mp hf with rfl | rfl
    · exact ⟨_, _, rfl⟩
    · exact ⟨_, _, rfl⟩
  have hids : [noted ⟨7⟩ "two boxes", noted ⟨8⟩ "three boxes"].map (idOf (.plain .canonical)) =
      [some ⟨7⟩, some ⟨8⟩] := by
    rw [List.map_cons, List.map_singleton, idOf_noted, idOf_noted]
  have hstored : stored.rows.map Row.id = [some ⟨6⟩] := by
    show [(rowOf plain ⟨0, 1⟩ 1 (noted ⟨6⟩ "one box")).id] = _
    rw [rowOf, uniqueEntry_noted, Option.getD_some]
  refine (publish_iff plain ⟨0, 2⟩ (.plain .canonical) _ stored
    (isSome_noted hnoted) ?_ ?_ (fun s id id' => plain_uuid_eq)).mpr ⟨?_, ?_⟩
  · rw [hids]
    decide
  · intro f hf
    have hmem := List.mem_map_of_mem (f := idOf (.plain .canonical)) hf
    rw [hids] at hmem
    rw [hstored]
    rcases List.mem_pair.mp hmem with hid | hid <;> rw [hid] <;> decide
  · intro f hf
    obtain ⟨id, note, rfl⟩ := hnoted f hf
    exact noted_indexable id note
  · intro before f after hsplit hfirst
    have hf : f ∈ [noted ⟨7⟩ "two boxes", noted ⟨8⟩ "three boxes"] :=
      hsplit ▸ List.mem_append_right _ List.mem_cons_self
    cases before with
    | nil =>
      obtain rfl := (List.cons.inj hsplit).1
      exact hshort
    | cons g before =>
      obtain rfl := (List.cons.inj hsplit).1
      obtain ⟨id, note, rfl⟩ := hnoted f hf
      refine absurd (List.mem_map.mpr ⟨_, List.mem_cons_self, ?_⟩) hfirst
      rw [pairOf_noted ⟨7⟩, pairOf_noted id]

theorem length_le_payloadSize (note : String) : note.toList.length ≤ payloadSize ⟨0, 1⟩ 1 (noted ⟨7⟩ note) := by
  let entries : Jsonb := .obj [("note", .str note), ("_ser", .num ⟨1, 0⟩), ("_ts", .num ⟨0, 0⟩)]
  have hentries : (stamped ⟨0, 1⟩ 1 (noted ⟨7⟩ note).jsonHeader.toJsonb).HasMember "meta" entries :=
    ⟨_, rfl, .tail _ (.tail _ (.head _))⟩
  have hnote : entries.HasMember "note" (.str note) := ⟨_, rfl, .head _⟩
  have hheader := Jsonb.bytes_le_of_hasMember hentries
  have hmeta := Jsonb.bytes_le_of_hasMember hnote
  have hquote := Jsonb.length_le_bytes_quote note
  rw [Jsonb.text] at hmeta
  unfold payloadSize
  omega

/-- A note of 8000 letters is accepted, and aborts the publish. -/
theorem long_not_published :
    (DefaultFact.of (.plain .canonical) (noted ⟨7⟩ (.ofList (List.replicate 8000 'x'))).jsonHeader).isSome = true ∧
    ¬ Published plain ⟨0, 1⟩ [noted ⟨7⟩ (.ofList (List.replicate 8000 'x'))] idle := by
  generalize hnote : String.ofList (List.replicate 8000 'x') = note
  refine ⟨by rw [noted_accepted]; rfl, fun hpublished => ?_⟩
  have hindexable : ∀ f ∈ [noted ⟨7⟩ note], Indexable plain f := by
    intro f hf
    obtain rfl := List.mem_singleton.mp hf
    exact noted_indexable _ _
  have hshort := noneTooLong_singleton.mp ((published_iff_of_indexable hindexable (List.nodup_singleton _)
    fun f _ => List.not_mem_nil).mp hpublished)
  have hlength := length_le_payloadSize note
  rw [← hnote, String.toList_ofList, List.length_replicate, hnote] at hlength
  have hser : idle.nextSer = 1 := rfl
  rw [hser] at hshort
  omega

end FactCast.PublishTriggers
