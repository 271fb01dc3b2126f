import FactCast.Store.QueryMeaning
import FactCast.Store.StreamOrder

/-! From an insert to a query run.

The insert trigger notifies once per transaction for what it takes for one pair of
namespace and type; the listener turns each notification into a signal, or into
one for everybody if it cannot read it; and the executor behind a subscription
triggers a query if the signal names a pair its specifications ask for.

Two of these keys are too coarse. The trigger knows a pair by the concatenation of
its parts, which pairs share; and a specification of all namespaces that asks for
a type is looked up under a namespace that no fact has. `noticed_iff` says when a
transaction is noticed all the same. -/
namespace FactCast

/-- What is outside: the digest behind a setting's name, how the text of an array
or an object is written, and what the client's parser refuses to read. -/
structure Postgres where
  md5 : String → String
  /-- No collisions. -/
  md5_injective : Function.Injective md5
  jsonText : Jsonb → String
  readable : Jsonb → Bool

/-! ### The trigger -/

namespace NotifyFactInsert
variable (pg : Postgres)

/-- A member of the header as text, `header ->> name`. -/
def text (h : Header) (name : String) : Option String :=
  match h.json.get? name with
  | none => none
  | some .null => none
  | some v => some (v.scalarText.getD (pg.jsonText v))

/-- An absent value concatenates as the empty text. -/
def concat (ns type : Option String) : String := ns.getD "" ++ type.getD ""

def identifier (ns type : Option String) : String :=
  "myvars.facttrigger." ++ ("fc" ++ pg.md5 (concat ns type))

def payload (txId : Nat) (row : FactRow) : Jsonb :=
  let str (s : Option String) : Jsonb := s.elim .null .str
  .obj [("ser", .num ⟨row.ser, 0⟩), ("header", row.fact.header.json), ("txId", .num ⟨txId, 0⟩),
    ("ns", str (text pg row.fact.header "ns")), ("type", str (text pg row.fact.header "type"))]

/-- The trigger for a row, given the settings of its transaction. -/
def notifyFactInsert (txId : Nat) (settings : List String) (row : FactRow) :
    List String × Option Jsonb :=
  let id := identifier pg (text pg row.fact.header "ns") (text pg row.fact.header "type")
  if id ∈ settings then (settings, none) else (id :: settings, some (payload pg txId row))

/-- The payloads a transaction notifies of, its rows in the order of their inserts. -/
def raised (txId : Nat) : List String → List FactRow → List Jsonb
  | _, [] => []
  | settings, row :: rest =>
    let (settings, payload) := notifyFactInsert pg txId settings row
    payload.toList ++ raised txId settings rest

end NotifyFactInsert

/-! ### The listener -/

namespace PgListener

inductive Channel where
  | factInsert
  | scheduledPoll
  | blacklistChange
  | schemaStoreChange
  | transformationStoreChange
  | roundtrip
  | unknown
deriving DecidableEq

/-- A notification, its payload as the document it is the text of. -/
structure PGNotification where
  name : Channel
  parameter : Jsonb

structure FactInsertionSignal where
  name : Channel
  ns : Option String
  type : Option String

/-- What is posted on the event bus. -/
inductive Signal where
  | factInsertion (signal : FactInsertionSignal)
  | blacklistChange
  | schemaStoreChange (ns type : String) (version : Int)
  | transformationStoreChange (ns type : String)

def Signal.factInsertion? : Signal → Option FactInsertionSignal
  | .factInsertion signal => some signal
  | _ => none

section Processing
variable (pg : Postgres)

/-- A node as text: nothing is lost of a scalar, and nothing is there of a container. -/
def asText : Jsonb → String
  | .null => "null"
  | v => v.scalarText.getD ""

/-- A node as a number, zero if it is none. -/
def asInt : Jsonb → Int
  | .num n => n.mantissa / 10 ^ n.scale
  | _ => 0

def readTree (json : Jsonb) : Option Jsonb := if pg.readable json then some json else none

def processSchemaStoreChangeNotification (n : PGNotification) : List Signal :=
  match (readTree pg n.parameter).bind fun root =>
      (root.get? "ns").bind fun ns => (root.get? "type").bind fun type =>
        (root.get? "version").map fun version => (ns, type, version) with
  | some (ns, type, version) => [.schemaStoreChange (asText ns) (asText type) (asInt version)]
  | none => []

/-- Namespace and type of a payload, if it can be read and has both. -/
def nsAndType (n : PGNotification) : Option (String × String) :=
  (readTree pg n.parameter).bind fun root =>
    (root.get? "ns").bind fun ns => (root.get? "type").map fun type => (asText ns, asText type)

def processTransformationStoreChangeNotification (n : PGNotification) : List Signal :=
  match nsAndType pg n with
  | some (ns, type) => [.transformationStoreChange ns type]
  | none => []

/-- What cannot be read is told to everybody, once per array. -/
def processFactInsertNotification (n : PGNotification) (oncePerArray : Bool) :
    List Signal × Bool :=
  match nsAndType pg n with
  | some (ns, type) => ([.factInsertion ⟨.factInsert, some ns, some type⟩], oncePerArray)
  | none =>
    (if oncePerArray then [] else [.factInsertion ⟨.factInsert, none, none⟩], true)

def processNotification (n : PGNotification) (oncePerArray : Bool) : List Signal × Bool :=
  match n.name with
  | .blacklistChange => ([.blacklistChange], oncePerArray)
  | .schemaStoreChange => (processSchemaStoreChangeNotification pg n, oncePerArray)
  | .transformationStoreChange => (processTransformationStoreChangeNotification pg n, oncePerArray)
  | .factInsert => processFactInsertNotification pg n oncePerArray
  | _ => ([], oncePerArray)

/-- The signals for an array of notifications, given whether everybody was told already. -/
def processFrom : Bool → List PGNotification → List Signal
  | _, [] => []
  | oncePerArray, n :: rest =>
    let (signals, oncePerArray) := processNotification pg n oncePerArray
    signals ++ processFrom oncePerArray rest

def processNotifications (notifications : List PGNotification) : List Signal :=
  processFrom pg false notifications

end Processing

end PgListener

/-! ### The executor -/

structure CondensedQueryExecutor where
  maxDelayInMillis : Nat
  interests : List String
  /-- What the connection state supplier says. -/
  connected : Bool
  /-- A run is scheduled and has not begun. -/
  currentlyScheduled : Bool
  /-- How often the query was run. -/
  runs : Nat

namespace CondensedQueryExecutor

def extractInterests (specs : List FactSpec) : List String :=
  specs.map fun s =>
    match s.type with
    | none => s.ns
    | some type => s.ns ++ ":" ++ type

def runTarget (e : CondensedQueryExecutor) : CondensedQueryExecutor := { e with runs := e.runs + 1 }

def trigger (e : CondensedQueryExecutor) : CondensedQueryExecutor :=
  if e.connected then
    if e.maxDelayInMillis < 1 then e.runTarget else { e with currentlyScheduled := true }
  else e

def mightMatch (interests : List String) (ns type : Option String) : Bool :=
  match ns with
  | none => true
  | some ns =>
    interests.contains (ns ++ ":" ++ type.getD "null") || interests.contains ns ||
      interests.contains "*"

def onEvent (e : CondensedQueryExecutor) (ev : PgListener.FactInsertionSignal) :
    CondensedQueryExecutor :=
  if mightMatch e.interests ev.ns ev.type then e.trigger else e

/-- The query was run, or a run is due. -/
def Triggered (e e' : CondensedQueryExecutor) : Prop :=
  e'.runs = e.runs + 1 ∨ e'.currentlyScheduled = true

theorem triggered_onEvent {e : CondensedQueryExecutor} {ev : PgListener.FactInsertionSignal}
    (hc : e.connected = true) (hm : mightMatch e.interests ev.ns ev.type = true) :
    Triggered e (e.onEvent ev) := by
  unfold onEvent trigger
  rw [if_pos hm, if_pos hc]
  split
  · exact .inl rfl
  · exact .inr rfl

end CondensedQueryExecutor

/-! ### What is noticed -/

namespace Notification
open NotifyFactInsert PgListener CondensedQueryExecutor
variable (pg : Postgres) (txId : Nat) (specs : List FactSpec) (rows : List FactRow)

/-- A signal for which a query is run, by every executor of the specifications that is connected. -/
def Wakes (signal : FactInsertionSignal) : Prop :=
  mightMatch (extractInterests specs) signal.ns signal.type = true ∧
    ∀ e : CondensedQueryExecutor, e.interests = extractInterests specs → e.connected = true →
      Triggered e (e.onEvent signal)

/-- However the transaction's notifications arrive, in however many arrays and among
whatever others, one of them wakes the subscription. -/
def Noticed : Prop :=
  ∀ arrays : List (List PGNotification),
    (∀ payload ∈ raised pg txId [] rows, ∃ array ∈ arrays, ⟨.factInsert, payload⟩ ∈ array) →
    ∃ array ∈ arrays, ∃ signal ∈ processNotifications pg array,
      ∃ ev, signal.factInsertion? = some ev ∧ Wakes specs ev

/-- A row as the trigger knows it. -/
def key (row : FactRow) : String :=
  concat (text pg row.fact.header "ns") (text pg row.fact.header "type")

/-- The pair a payload of the row names. -/
def pair (row : FactRow) : String × String :=
  ((text pg row.fact.header "ns").getD "null", (text pg row.fact.header "type").getD "null")

/-- The specification is one for the pair: it names the namespace and the type, or
the namespace alone, or no namespace and no type. A colon may stand in either part. -/
def Calls (spec : FactSpec) (p : String × String) : Prop :=
  match spec.type with
  | none => spec.ns = "*" ∨ spec.ns = p.1 ∨ spec.ns = p.1 ++ ":" ++ p.2
  | some type => spec.ns ++ ":" ++ type = p.1 ++ ":" ++ p.2 ∨ spec.ns ++ ":" ++ type = p.1

/-- Some row comes before all others of its key, and its payload cannot be read or
some specification is one for its pair. -/
def Heard : Prop :=
  ∃ before row rest, rows = before ++ row :: rest ∧ (∀ r ∈ before, key pg r ≠ key pg row) ∧
    (pg.readable (payload pg txId row) = false ∨ ∃ spec ∈ specs, Calls spec (pair pg row))

/-- The transaction and the specifications do without what the keys cannot tell apart. -/
structure Distinguished : Prop where
  /-- No specification asks for a type of all namespaces. -/
  typed : ∀ spec ∈ specs, spec.ns = "*" → spec.type = none
  spliceable : ∀ spec ∈ specs, spec.Spliceable
  /-- No two pairs in the transaction concatenate to the same text. -/
  keyed : ∀ r ∈ rows, ∀ r' ∈ rows, key pg r = key pg r' → pair pg r = pair pg r'

variable {pg txId specs rows}

theorem identifier_eq_iff {ns ns' type type' : Option String} :
    identifier pg ns type = identifier pg ns' type' ↔ concat ns type = concat ns' type' := by
  constructor
  · intro h
    unfold identifier at h
    rw [String.append_right_inj, String.append_right_inj] at h
    exact pg.md5_injective h
  · intro h
    unfold identifier
    rw [h]

/-- One payload is raised for every key, that of the first row. -/
theorem mem_raised {settings : List String} {doc : Jsonb} : doc ∈ raised pg txId settings rows ↔
    ∃ before row rest, rows = before ++ row :: rest ∧ (∀ r ∈ before, key pg r ≠ key pg row) ∧
      identifier pg (text pg row.fact.header "ns") (text pg row.fact.header "type") ∉ settings ∧
      doc = payload pg txId row := by
  induction rows generalizing settings with
  | nil => simp [raised]
  | cons row rest ih =>
    simp only [raised, notifyFactInsert, List.mem_append]
    constructor
    · rintro (hdoc | hdoc)
      · split at hdoc
        · simp at hdoc
        · rename_i hnew
          refine ⟨[], row, rest, rfl, by simp, hnew, ?_⟩
          simpa using hdoc
      · obtain ⟨before, r, after, rfl, hfirst, hnew, hdoc⟩ := ih.mp hdoc
        refine ⟨row :: before, r, after, rfl, fun x hx => ?_, ?_, hdoc⟩
        · rcases List.mem_cons.mp hx with rfl | hx
          · intro hkey
            -- the identifier of the first row is set by now
            apply hnew
            rw [← identifier_eq_iff.mpr hkey]
            split
            · assumption
            · exact List.mem_cons_self ..
          · exact hfirst x hx
        · intro hold
          apply hnew
          split
          · exact hold
          · exact List.mem_cons_of_mem _ hold
    · rintro ⟨before, r, after, hrows, hfirst, hnew, rfl⟩
      cases before with
      | nil =>
        obtain ⟨rfl, rfl⟩ := List.cons_eq_cons.mp hrows
        left
        rw [if_neg hnew]
        simp
      | cons x before =>
        obtain ⟨rfl, rfl⟩ := List.cons_eq_cons.mp hrows
        right
        refine ih.mpr ⟨before, r, after, rfl, fun y hy => hfirst y (List.mem_cons_of_mem _ hy), ?_, rfl⟩
        split
        · exact hnew
        · intro hmem
          rcases List.mem_cons.mp hmem with heq | hmem
          · exact hfirst row (List.mem_cons_self ..) (identifier_eq_iff.mp heq).symm
          · exact hnew hmem

/-- What the listener reads of a payload. -/
theorem nsAndType_payload (row : FactRow) :
    nsAndType pg ⟨.factInsert, payload pg txId row⟩ =
      if pg.readable (payload pg txId row) then some (pair pg row) else none := by
  have htext : ∀ s : Option String, asText (s.elim .null .str) = s.getD "null" := by
    intro s
    cases s <;> rfl
  simp only [nsAndType, readTree]
  split
  · show some (asText _, asText _) = _
    rw [htext, htext]
    rfl
  · rfl

theorem mem_process {n : PGNotification} {array : List PGNotification} {once : Bool}
    {ns type : String} (hn : n ∈ array) (hname : n.name = .factInsert)
    (hread : nsAndType pg n = some (ns, type)) :
    Signal.factInsertion ⟨.factInsert, some ns, some type⟩ ∈ processFrom pg once array := by
  induction array generalizing once with
  | nil => cases hn
  | cons x rest ih =>
    simp only [processFrom, List.mem_append]
    rcases List.mem_cons.mp hn with rfl | hn
    · left
      simp [processNotification, hname, processFactInsertNotification, hread]
    · exact .inr (ih hn)

/-- One notification that cannot be read is enough to tell everybody. -/
theorem fallback_mem {n : PGNotification} {array : List PGNotification} (hn : n ∈ array)
    (hname : n.name = .factInsert) (hread : nsAndType pg n = none) :
    Signal.factInsertion ⟨.factInsert, none, none⟩ ∈ processNotifications pg array := by
  unfold processNotifications
  induction array with
  | nil => cases hn
  | cons x rest ih =>
    simp only [processFrom, List.mem_append]
    by_cases hx : x.name = .factInsert ∧ nsAndType pg x = none
    · left
      simp [processNotification, hx.1, processFactInsertNotification, hx.2]
    · right
      rcases List.mem_cons.mp hn with rfl | hn
      · exact absurd ⟨hname, hread⟩ hx
      · have honce : (processNotification pg x false).2 = false := by
          unfold processNotification
          cases hch : x.name with
          | factInsert =>
            cases hr : nsAndType pg x with
            | none => exact absurd ⟨hch, hr⟩ hx
            | some p => simp [processFactInsertNotification, hr]
          | _ => rfl
        rw [honce]
        exact ih hn

theorem mightMatch_iff {p : String × String} :
    mightMatch (extractInterests specs) (some p.1) (some p.2) = true ↔
      ∃ spec ∈ specs, Calls spec p := by
  have hstar : ∀ spec : FactSpec, ∀ type : String, spec.ns ++ ":" ++ type ≠ "*" := by
    intro spec type heq
    have hmem : ':' ∈ ("*" : String).toList := by
      rw [← heq]
      simp
    simp at hmem
  simp only [mightMatch, extractInterests, Option.getD_some, Bool.or_eq_true, List.contains_iff_mem,
    List.mem_map]
  constructor
  · rintro ((⟨spec, hspec, h⟩ | ⟨spec, hspec, h⟩) | ⟨spec, hspec, h⟩)
    · refine ⟨spec, hspec, ?_⟩
      unfold Calls
      cases htype : spec.type with
      | none => exact .inr (.inr (by simpa [htype] using h))
      | some type => exact .inl (by simpa [htype] using h)
    · refine ⟨spec, hspec, ?_⟩
      unfold Calls
      cases htype : spec.type with
      | none => exact .inr (.inl (by simpa [htype] using h))
      | some type => exact .inr (by simpa [htype] using h)
    · refine ⟨spec, hspec, ?_⟩
      unfold Calls
      cases htype : spec.type with
      | none => exact .inl (by simpa [htype] using h)
      | some type => exact absurd (by simpa [htype] using h) (hstar spec type)
  · rintro ⟨spec, hspec, h⟩
    unfold Calls at h
    cases htype : spec.type with
    | none =>
      simp only [htype] at h
      rcases h with h | h | h
      · exact .inr ⟨spec, hspec, by simpa [htype] using h⟩
      · exact .inl (.inr ⟨spec, hspec, by simpa [htype] using h⟩)
      · exact .inl (.inl ⟨spec, hspec, by simpa [htype] using h⟩)
    | some type =>
      simp only [htype] at h
      rcases h with h | h
      · exact .inl (.inl ⟨spec, hspec, by simpa [htype] using h⟩)
      · exact .inl (.inr ⟨spec, hspec, by simpa [htype] using h⟩)

theorem wakes_of_mightMatch {ev : FactInsertionSignal}
    (h : mightMatch (extractInterests specs) ev.ns ev.type = true) : Wakes specs ev :=
  ⟨h, fun _ he hc => triggered_onEvent hc (he ▸ h)⟩

theorem noticed_of_heard (h : Heard pg txId specs rows) : Noticed pg txId specs rows := by
  intro arrays harrays
  obtain ⟨before, row, rest, hrows, hfirst, hheard⟩ := h
  obtain ⟨array, harray, hn⟩ := harrays (payload pg txId row)
    (mem_raised.mpr ⟨before, row, rest, hrows, hfirst, by simp, rfl⟩)
  refine ⟨array, harray, ?_⟩
  cases hread : pg.readable (payload pg txId row) with
  | false =>
    have hnone : nsAndType pg ⟨.factInsert, payload pg txId row⟩ = none := by
      rw [nsAndType_payload, hread]
      rfl
    have hwakes : Wakes specs ⟨.factInsert, none, none⟩ := wakes_of_mightMatch rfl
    exact ⟨_, fallback_mem hn rfl hnone, _, rfl, hwakes⟩
  | true =>
    have hcalls : ∃ spec ∈ specs, Calls spec (pair pg row) := by
      rcases hheard with hunread | hcalls
      · cases hread.symm.trans hunread
      · exact hcalls
    have hpair : nsAndType pg ⟨.factInsert, payload pg txId row⟩ = some (pair pg row) := by
      rw [nsAndType_payload, hread]
      rfl
    have hwakes : Wakes specs ⟨.factInsert, some (pair pg row).1, some (pair pg row).2⟩ :=
      wakes_of_mightMatch (mightMatch_iff.mpr hcalls)
    exact ⟨_, mem_process hn rfl hpair, _, rfl, hwakes⟩

theorem heard_of_noticed (h : Noticed pg txId specs rows) : Heard pg txId specs rows := by
  -- every notification arrives alone
  obtain ⟨array, harray, signal, hsignal, ev, hev, hwakes⟩ :=
    h ((raised pg txId [] rows).map fun doc => [⟨.factInsert, doc⟩])
      fun doc hdoc => ⟨_, List.mem_map_of_mem hdoc, List.mem_singleton_self _⟩
  obtain ⟨doc, hdoc, rfl⟩ := List.mem_map.mp harray
  obtain ⟨before, row, rest, hrows, hfirst, _, rfl⟩ := mem_raised.mp hdoc
  refine ⟨before, row, rest, hrows, hfirst, ?_⟩
  cases hread : pg.readable (payload pg txId row) with
  | false => exact .inl rfl
  | true =>
    right
    have hpair : nsAndType pg ⟨.factInsert, payload pg txId row⟩ = some (pair pg row) := by
      rw [nsAndType_payload, hread]
      rfl
    have honly : signal = .factInsertion ⟨.factInsert, some (pair pg row).1, some (pair pg row).2⟩ := by
      simpa [processNotifications, processFrom, processNotification, processFactInsertNotification,
        hpair] using hsignal
    subst honly
    cases hev
    exact mightMatch_iff.mp hwakes.1

/-- The first row of a key. -/
theorem exists_first {row : FactRow} (hrow : row ∈ rows) : ∃ before first rest,
    rows = before ++ first :: rest ∧ (∀ r ∈ before, key pg r ≠ key pg first) ∧
      key pg first = key pg row := by
  induction rows with
  | nil => cases hrow
  | cons x rest ih =>
    by_cases hx : key pg x = key pg row
    · exact ⟨[], x, rest, rfl, by simp, hx⟩
    · have hrest : row ∈ rest := by
        rcases List.mem_cons.mp hrow with rfl | hrest
        · exact absurd rfl hx
        · exact hrest
      obtain ⟨before, first, after, rfl, hfirst, hkey⟩ := ih hrest
      refine ⟨x :: before, first, after, rfl, fun r hr => ?_, hkey⟩
      rcases List.mem_cons.mp hr with rfl | hr
      · rw [hkey]
        exact hx
      · exact hfirst r hr

theorem text_str {h : Header} {name s : String} (hs : h.json.get? name = some (.str s)) :
    text pg h name = some s := by
  unfold text
  rw [hs]
  rfl

/-- A specification that matches a row is one for its pair. -/
theorem calls_of_matches {spec : FactSpec} {row : FactRow} (hm : spec.Matches row.fact.header)
    (htyped : spec.ns = "*" → spec.type = none) : Calls spec (pair pg row) := by
  unfold Calls
  rcases hm.ns with hstar | hns
  · rw [htyped hstar]
    exact .inl hstar
  · have hpair : (pair pg row).1 = spec.ns := by simp [pair, text_str hns]
    cases htype : spec.type with
    | none => exact .inr (.inl hpair.symm)
    | some type =>
      have htext : (pair pg row).2 = type := by simp [pair, text_str (hm.type type htype)]
      left
      rw [hpair, htext]

theorem heard_of_distinguished {db : Database} {request : SubscriptionRequest}
    (hd : Distinguished pg request.specs rows) {row : FactRow} (hrow : row ∈ rows)
    (hselected : PgFactStream.matching db request row = true) :
    Heard pg txId request.specs rows := by
  obtain ⟨spec, hspec, hall⟩ := List.any_eq_true.mp hselected
  have hm : spec.Matches row.fact.header := by
    have hcriteria : ∀ h : Header, (∀ c ∈ PgQueryBuilder.criteria spec,
        c.holds db.path h.json = true) ↔ spec.Matches h :=
      (PgQueryBuilder.criteria_spliceable (hd.spliceable spec hspec)).2
    exact (hcriteria row.fact.header).mp (List.all_eq_true.mp hall)
  have hexists : ∃ before first rest, rows = before ++ first :: rest ∧
      (∀ r ∈ before, key pg r ≠ key pg first) ∧ key pg first = key pg row := exists_first hrow
  obtain ⟨before, first, rest, hrows, hfirst, hkey⟩ := hexists
  refine ⟨before, first, rest, hrows, hfirst, .inr ⟨spec, hspec, ?_⟩⟩
  rw [hd.keyed first (by simp [hrows]) row hrow hkey]
  exact calls_of_matches hm (hd.typed spec hspec)

/-- A transaction that inserts a row the query selects is noticed if and only if it
is heard; and it is heard if the keys can tell its pairs and the specifications apart. -/
theorem noticed_iff (pg : Postgres) (db : Database) (txId : Nat) (request : SubscriptionRequest)
    (rows : List FactRow) :
    (((∃ row ∈ rows, PgFactStream.matching db request row = true) →
        Noticed pg txId request.specs rows) ↔
      (∀ row ∈ rows, PgFactStream.matching db request row = false) ∨
        Heard pg txId request.specs rows) ∧
    (Distinguished pg request.specs rows →
      (∃ row ∈ rows, PgFactStream.matching db request row = true) →
        Heard pg txId request.specs rows) := by
  refine ⟨⟨fun h => ?_, ?_⟩, fun hd ⟨row, hrow, hm⟩ => heard_of_distinguished hd hrow hm⟩
  · by_cases hnone : ∀ row ∈ rows, PgFactStream.matching db request row = false
    · exact .inl hnone
    · right
      apply heard_of_noticed
      apply h
      simpa using hnone
  · rintro (hnone | hheard) ⟨row, hrow, hm⟩
    · cases (hnone row hrow).symm.trans hm
    · exact noticed_of_heard hheard

/-! ### Two pairs of one key, and a type of all namespaces -/

/-- An environment in which the digest of a text is that text, and everything can be read. -/
def plain : Postgres := ⟨id, fun _ _ h => h, fun _ => "", fun _ => true⟩

def typed (ser : Nat) (ns type : String) (h : blank ns = false) : FactRow where
  ser := ser
  fact :=
    { id := ⟨.ofNat 128 ser⟩
      header := ⟨[("ns", .str ns), ("type", .str type)], h, fun _ h => nomatch h⟩
      payload := .null }

/-- Two facts of different namespaces and types, which concatenate to the same text. -/
def clashing : List FactRow := [typed 1 "ab" "c" (by decide), typed 2 "a" "bc" (by decide)]

def ofType (ns type : String) (h : blank ns = false) : SubscriptionRequest where
  specs := [{ ns := ns, ns_given := h, type := some type }]

theorem noticed_iff_clashing :
    Noticed plain 1 (ofType "ab" "c" (by decide)).specs clashing := by
  apply ((noticed_iff plain .quoted 1 (ofType "ab" "c" (by decide)) clashing).1.mpr _)
  · exact ⟨typed 1 "ab" "c" (by decide), by simp [clashing], by decide +kernel⟩
  · right
    refine ⟨[], typed 1 "ab" "c" (by decide), [typed 2 "a" "bc" (by decide)], rfl, by simp, ?_⟩
    exact .inr ⟨_, List.mem_singleton_self _, .inl rfl⟩

/-- The second fact is not notified of, since the first one has its key; and a type
of all namespaces is under no name that a fact has. -/
theorem clashing_unnoticed :
    ((∃ row ∈ clashing, PgFactStream.matching .quoted (ofType "a" "bc" (by decide)) row = true) ∧
      ¬ Noticed plain 1 (ofType "a" "bc" (by decide)).specs clashing) ∧
    ((∃ row ∈ clashing, PgFactStream.matching .quoted (ofType "*" "c" (by decide)) row = true) ∧
      ¬ Noticed plain 1 (ofType "*" "c" (by decide)).specs clashing) := by
  -- only the first fact comes before all others of its key
  have hfirst : ∀ specs : List FactSpec, Noticed plain 1 specs clashing →
      ∃ spec ∈ specs, Calls spec ("ab", "c") := by
    intro specs hnoticed
    obtain ⟨before, row, rest, hrows, hbefore, hheard⟩ := heard_of_noticed hnoticed
    have hcalls : ∃ spec ∈ specs, Calls spec (pair plain row) :=
      hheard.resolve_left fun h => by cases h
    cases before with
    | nil =>
      obtain ⟨rfl, _⟩ := List.cons_eq_cons.mp hrows
      exact hcalls
    | cons x before =>
      obtain ⟨rfl, hrest⟩ := List.cons_eq_cons.mp hrows
      cases before with
      | nil =>
        obtain ⟨rfl, _⟩ := List.cons_eq_cons.mp hrest
        exact absurd (by decide) (hbefore _ (List.mem_singleton_self _))
      | cons y before =>
        obtain ⟨_, hrest⟩ := List.cons_eq_cons.mp hrest
        simp at hrest
  refine ⟨⟨⟨typed 2 "a" "bc" (by decide), by simp [clashing], by decide +kernel⟩, fun h => ?_⟩,
    ⟨typed 1 "ab" "c" (by decide), by simp [clashing], by decide +kernel⟩, fun h => ?_⟩
  · obtain ⟨spec, hspec, hcalls⟩ := hfirst _ h
    obtain rfl := List.mem_singleton.mp hspec
    revert hcalls
    show ¬ ("a" ++ ":" ++ "bc" = "ab" ++ ":" ++ "c" ∨ "a" ++ ":" ++ "bc" = "ab")
    decide
  · obtain ⟨spec, hspec, hcalls⟩ := hfirst _ h
    obtain rfl := List.mem_singleton.mp hspec
    revert hcalls
    show ¬ ("*" ++ ":" ++ "c" = "ab" ++ ":" ++ "c" ∨ "*" ++ ":" ++ "c" = "ab")
    decide

end Notification
end FactCast
