import FactCast.Store.QueryMeaning

/-! The filter behind the query.

Rows that the query selects become facts (`PgFact`), and the first stage of the
pipeline drops those that no specification's matcher accepts. The stage is
switched off if no specification has a script. Where it is on, it does not test
the script alone but matches everything again, in its own way: the namespace must
be equal, where the query takes `*` for any, the version must be the stored
one, though facts are brought to the requested version only later, and what the
header has is read with a mapper that takes numbers for text and a null for nothing.

`passes_iff` says when the filter agrees with the query nevertheless: without
scripts always; with scripts, if some specification that accepts a fact is met as
the query has it exactly when one is met as the filter reads it. -/
namespace FactCast

/-! ### Facts as the filter sees them -/

structure PgFact where
  id : UUID
  ns : String
  type : Option String
  version : Int
  aggIds : List UUID
  jsonHeader : Header
  jsonPayload : Jsonb

/-- A column that is read as text. -/
def textColumn (h : Header) (name : String) : Option String :=
  (h.json.get? name).bind Jsonb.scalarText

/-- A column that is read as a number, zero if there is none. -/
def intColumn (h : Header) (name : String) : Int :=
  match h.json.get? name with
  | some (.num n) => n.mantissa.tdiv (10 ^ n.scale)
  | some (.str s) => s.toInt?.getD 0
  | _ => 0

/-- The identifiers of an array, unless one cannot be read. -/
def toUUIDs (reader : UuidReader) : List Jsonb → Option (List UUID)
  | [] => some []
  | .str s :: rest => do return (← reader.read s) :: (← toUUIDs reader rest)
  | _ => none

/-- The set of identifiers in a header: none given is none, and a set refuses to
hold one twice. -/
def toUUIDSet (reader : UuidReader) (h : Header) : Option (List UUID) :=
  match h.json.get? "aggIds" with
  | some (.arr items) => (toUUIDs reader items).filter fun ids => decide ids.Nodup
  | some .null => some []
  | none => some []
  | _ => none

namespace PgFact

/-- A row as a fact, unless its identifiers cannot be read. -/
def from_ (reader : UuidReader) (row : FactRow) : Option PgFact :=
  (toUUIDSet reader row.fact.header).map fun aggIds =>
    { id := row.fact.id
      ns := row.fact.header.ns
      type := textColumn row.fact.header "type"
      version := intColumn row.fact.header "version"
      aggIds := aggIds
      jsonHeader := row.fact.header
      jsonPayload := row.fact.payload }

/-- What the parsed header's `meta` maps a key to: scalars are taken as text. -/
def meta? (f : PgFact) (key : String) : Option String := (f.jsonHeader.meta? key).bind Jsonb.scalarText

end PgFact

/-! ### Matching facts -/

/-- Runs the function `test` of a script on a header and a payload. -/
abbrev JSEngine := Jsonb → Jsonb → Bool

/-- The engine of a source. -/
abbrev JSEngineFactory := String → JSEngine

structure FactSpecMatcher where
  spec : FactSpec
  scriptEngine : Option JSEngine

namespace FactSpecMatcher

/-- A language other than `js` is refused. -/
def getEngine (ef : JSEngineFactory) : Option FilterScript → Option (Option JSEngine)
  | none => some none
  | some script =>
    if script.languageIdentifier = "js" then some (some (ef ("var test=" ++ script.source))) else none

def of_ (ef : JSEngineFactory) (spec : FactSpec) : Option FactSpecMatcher :=
  (getEngine ef spec.filterScript).map fun engine => ⟨spec, engine⟩

def nsMatch (m : FactSpecMatcher) (t : PgFact) : Bool := m.spec.ns == t.ns

def typeMatch (m : FactSpecMatcher) (t : PgFact) : Bool :=
  match m.spec.type with
  | none => true
  | some type => t.type == some type

def versionMatch (m : FactSpecMatcher) (t : PgFact) : Bool :=
  m.spec.version == 0 || m.spec.version == t.version

def aggIdMatch (m : FactSpecMatcher) (t : PgFact) : Bool :=
  m.spec.mergedAggIds.isEmpty || m.spec.mergedAggIds.all fun id => t.aggIds.contains id

def metaMatch (m : FactSpecMatcher) (t : PgFact) : Bool :=
  m.spec.meta.entries.isEmpty || m.spec.meta.entries.all fun e => t.meta? e.1 == some e.2

def metaKeyExistsMatch (m : FactSpecMatcher) (t : PgFact) : Bool :=
  m.spec.metaKeyExists.entries.isEmpty || m.spec.metaKeyExists.entries.all fun e =>
    (e.2 && (t.meta? e.1).isSome) || (!e.2 && (t.meta? e.1).isNone)

def scriptMatch (m : FactSpecMatcher) (t : PgFact) : Bool :=
  match m.scriptEngine with
  | none => true
  | some engine => engine t.jsonHeader.json t.jsonPayload

def test (m : FactSpecMatcher) (t : PgFact) : Bool :=
  m.nsMatch t && m.typeMatch t && m.versionMatch t && m.aggIdMatch t && m.metaMatch t &&
    m.metaKeyExistsMatch t && m.scriptMatch t

end FactSpecMatcher

structure PostQueryMatcher where
  canBeSkipped : Bool
  matchers : List FactSpecMatcher

namespace PostQueryMatcher

/-- The matchers of a request, unless a script is refused. -/
def of_ (ef : JSEngineFactory) (specs : List FactSpec) : Option PostQueryMatcher :=
  if specs.all fun s => s.filterScript.isNone then some ⟨true, []⟩
  else (specs.mapM (FactSpecMatcher.of_ ef)).map fun matchers => ⟨false, matchers⟩

def test (m : PostQueryMatcher) (input : PgFact) : Bool :=
  m.canBeSkipped || m.matchers.any fun matcher => matcher.test input

end PostQueryMatcher

inductive Signal where
  | fact (fact : PgFact)
  | flush
  | catchup
  | complete
  | error

/-- The first stage of the pipeline: what it hands to the next. -/
def postQueryFilter (matcher : PostQueryMatcher) : Signal → List Signal
  | .fact fact => if matcher.canBeSkipped || matcher.test fact then [.fact fact] else []
  | s => [s]

/-! ### The filter and the query -/

/-- The script of a specification accepts the fact, or there is none. -/
def FactSpec.accepts (ef : JSEngineFactory) (spec : FactSpec) (row : FactRow) : Bool :=
  match spec.filterScript with
  | none => true
  | some script => ef ("var test=" ++ script.source) row.fact.header.json row.fact.payload

/-- What the mapper reads of a header: scalars and nulls. A fact whose header has
anything else there is refused before it is published. -/
structure Header.Readable (h : Header) : Prop where
  type : ∀ v, h.json.get? "type" = some v → v = .null ∨ v.scalarText.isSome = true
  «meta» : ∀ key v, h.meta? key = some v → v = .null ∨ v.scalarText.isSome = true

/-- What the specification asks is there as the filter reads it: the namespace by name,
the stored version, numbers and Booleans for their text, and a null for nothing. -/
structure FactSpec.ReadIn (spec : FactSpec) (row : FactRow) (fact : PgFact) : Prop where
  ns : spec.ns = fact.ns
  type : ∀ t, spec.type = some t →
    ∃ v, row.fact.header.json.get? "type" = some v ∧ v.scalarText = some t
  version : spec.version = 0 ∨ spec.version = fact.version
  aggIds : ∀ id ∈ spec.mergedAggIds, id ∈ fact.aggIds
  «meta» : ∀ e ∈ spec.meta.entries, ∃ v, row.fact.header.meta? e.1 = some v ∧ v.scalarText = some e.2
  metaKeyExists : ∀ e ∈ spec.metaKeyExists.entries,
    (e.2 = true ↔ ∃ v, row.fact.header.meta? e.1 = some v ∧ v ≠ .null)

/-- What the specification asks is written in the header as text is written:
no number or Boolean where a string is asked for, no null under a key that is
asked for, and identifiers in their usual notation. -/
structure FactSpec.Textual (spec : FactSpec) (h : Header) : Prop where
  ns : h.json.get? "ns" = some (.str h.ns)
  type : ∀ v s, spec.type.isSome → h.json.get? "type" = some v → v.scalarText = some s → v = .str s
  aggIds : spec.mergedAggIds ≠ [] → ∃ ids : List UUID,
    h.json.get? "aggIds" = some (.arr (ids.map fun id => .str id.toString)) ∨
      h.json.get? "aggIds" = none ∧ ids = []
  «meta» : ∀ e ∈ spec.meta.entries, ∀ v s, h.meta? e.1 = some v → v.scalarText = some s → v = .str s
  metaKeyExists : ∀ e ∈ spec.metaKeyExists.entries, ∀ v, h.meta? e.1 = some v → v.scalarText.isSome

variable {ef : JSEngineFactory} {reader : UuidReader} {spec : FactSpec} {row : FactRow} {fact : PgFact}

theorem toUUIDs_toString (reader : UuidReader) (ids : List UUID) :
    toUUIDs reader (ids.map fun id => .str id.toString) = some ids := by
  induction ids with
  | nil => rfl
  | cons id ids ih => simp [toUUIDs, reader.read_toString, ih]

/-- What is read of a textual header for a specification's identifiers. -/
theorem aggIds_of_textual (ht : spec.Textual row.fact.header) (hne : spec.mergedAggIds ≠ [])
    (hf : PgFact.from_ reader row = some fact) :
    (∀ id ∈ spec.mergedAggIds, id ∈ fact.aggIds) ↔
      ∃ items, row.fact.header.json.get? "aggIds" = some (.arr items) ∧
        ∀ id ∈ spec.mergedAggIds, .str id.toString ∈ items := by
  obtain ⟨aggIds, hset, rfl⟩ := Option.map_eq_some_iff.mp hf
  obtain ⟨ids, hids | ⟨hnone, _⟩⟩ := ht.aggIds hne
  · rw [toUUIDSet, hids] at hset
    obtain rfl : ids = aggIds := by
      have := (Option.filter_eq_some_iff.mp hset).1
      simpa [toUUIDs_toString] using this
    -- identifiers that read alike are alike
    have hinj : ∀ a b : UUID, a.toString = b.toString → a = b := by
      intro a b hab
      have := reader.read_toString a
      rw [hab, reader.read_toString b] at this
      exact (Option.some.inj this).symm
    refine ⟨fun h => ⟨_, hids, fun id hid => List.mem_map.mpr ⟨id, h id hid, rfl⟩⟩, ?_⟩
    intro ⟨items, hitems, hall⟩ id hid
    rw [hids] at hitems
    cases hitems
    obtain ⟨b, hb, hbid⟩ := List.mem_map.mp (hall id hid)
    rw [← hinj b id (by simpa using hbid)]
    exact hb
  · rw [toUUIDSet, hnone] at hset
    cases hset
    obtain ⟨id, hid⟩ := List.exists_mem_of_ne_nil _ hne
    refine ⟨fun h => absurd (h id hid) (by simp), ?_⟩
    intro ⟨items, hitems, _⟩
    rw [hnone] at hitems
    cases hitems

theorem matcher_of {m : FactSpecMatcher} (hm : FactSpecMatcher.of_ ef spec = some m) :
    m.spec = spec ∧ ∀ row : FactRow, ∀ fact, PgFact.from_ reader row = some fact →
      m.scriptMatch fact = spec.accepts ef row := by
  obtain ⟨engine, hengine, rfl⟩ := Option.map_eq_some_iff.mp hm
  refine ⟨rfl, fun row fact hf => ?_⟩
  obtain ⟨aggIds, _, rfl⟩ := Option.map_eq_some_iff.mp hf
  unfold FactSpecMatcher.getEngine at hengine
  unfold FactSpec.accepts FactSpecMatcher.scriptMatch
  split at hengine
  · cases hengine
    rfl
  · split at hengine
    · cases hengine
      rfl
    · cases hengine

/-- A matcher asks what the specification says, in its own reading. -/
theorem test_iff_read {m : FactSpecMatcher} (hm : FactSpecMatcher.of_ ef spec = some m)
    (hr : row.fact.header.Readable) (hf : PgFact.from_ reader row = some fact) :
    m.test fact = true ↔ spec.ReadIn row fact ∧ spec.accepts ef row = true := by
  obtain ⟨rfl, hscript⟩ : m.spec = spec ∧ ∀ row : FactRow, ∀ fact,
      PgFact.from_ reader row = some fact → m.scriptMatch fact = spec.accepts ef row := matcher_of hm
  obtain ⟨aggIds, _, hfact⟩ := Option.map_eq_some_iff.mp hf
  have htype : fact.type = textColumn row.fact.header "type" := by rw [← hfact]
  have hmeta : ∀ key, fact.meta? key = (row.fact.header.meta? key).bind Jsonb.scalarText := by
    intro key
    rw [← hfact]
    rfl
  have h₁ : m.nsMatch fact = true ↔ m.spec.ns = fact.ns := by simp [FactSpecMatcher.nsMatch]
  have h₂ : m.typeMatch fact = true ↔ ∀ t, m.spec.type = some t →
      ∃ v, row.fact.header.json.get? "type" = some v ∧ v.scalarText = some t := by
    unfold FactSpecMatcher.typeMatch
    cases hst : m.spec.type with
    | none => simp
    | some t =>
      rw [htype, textColumn]
      simp only [beq_iff_eq, Option.some.injEq, forall_eq', Option.bind_eq_some_iff]
  have h₃ : m.versionMatch fact = true ↔ m.spec.version = 0 ∨ m.spec.version = fact.version := by
    simp [FactSpecMatcher.versionMatch]
  have h₄ : m.aggIdMatch fact = true ↔ ∀ id ∈ m.spec.mergedAggIds, id ∈ fact.aggIds := by
    unfold FactSpecMatcher.aggIdMatch
    cases m.spec.mergedAggIds <;> simp
  have h₅ : m.metaMatch fact = true ↔ ∀ e ∈ m.spec.meta.entries,
      ∃ v, row.fact.header.meta? e.1 = some v ∧ v.scalarText = some e.2 := by
    have hall : m.metaMatch fact = true ↔ ∀ e ∈ m.spec.meta.entries, fact.meta? e.1 = some e.2 := by
      unfold FactSpecMatcher.metaMatch
      cases m.spec.meta.entries <;> simp
    rw [hall]
    refine forall₂_congr fun e _ => ?_
    rw [hmeta, Option.bind_eq_some_iff]
  have h₆ : m.metaKeyExistsMatch fact = true ↔ ∀ e ∈ m.spec.metaKeyExists.entries,
      (e.2 = true ↔ ∃ v, row.fact.header.meta? e.1 = some v ∧ v ≠ .null) := by
    have hall : m.metaKeyExistsMatch fact = true ↔ ∀ e ∈ m.spec.metaKeyExists.entries,
        (e.2 = true ↔ (fact.meta? e.1).isSome = true) := by
      unfold FactSpecMatcher.metaKeyExistsMatch
      rw [Bool.or_eq_true, List.all_eq_true, List.isEmpty_iff]
      have hb : ∀ e : String × Bool, ((e.2 && (fact.meta? e.1).isSome) ||
          (!e.2 && (fact.meta? e.1).isNone)) = true ↔
          (e.2 = true ↔ (fact.meta? e.1).isSome = true) := by
        intro e
        cases e.2 <;> cases fact.meta? e.1 <;> simp
      simp only [hb]
      refine ⟨?_, .inr⟩
      rintro (hnil | h)
      · simp [hnil]
      · exact h
    rw [hall]
    refine forall₂_congr fun e _ => ?_
    have hsome : (fact.meta? e.1).isSome = true ↔ ∃ v, row.fact.header.meta? e.1 = some v ∧ v ≠ .null := by
      rw [hmeta]
      cases hv : row.fact.header.meta? e.1 with
      | none => simp
      | some v =>
        rw [Option.bind_some]
        rcases hr.meta e.1 v hv with rfl | hscalar
        · simp [Jsonb.scalarText]
        · refine iff_of_true hscalar ⟨v, rfl, ?_⟩
          rintro rfl
          cases hscalar
    rw [hsome]
  simp only [FactSpecMatcher.test, Bool.and_eq_true, h₁, h₂, h₃, h₄, h₅, h₆, hscript row fact hf]
  constructor
  · rintro ⟨⟨⟨⟨⟨⟨hn, ht⟩, hv⟩, ha⟩, hm'⟩, hk⟩, hs⟩
    exact ⟨⟨hn, ht, hv, ha, hm', hk⟩, hs⟩
  · rintro ⟨h, hs⟩
    exact ⟨⟨⟨⟨⟨⟨h.ns, h.type⟩, h.version⟩, h.aggIds⟩, h.meta⟩, h.metaKeyExists⟩, hs⟩

theorem meta_of_textual {h : Header} {key : String} {v : String}
    (ht : ∀ w s, h.meta? key = some w → w.scalarText = some s → w = .str s) :
    (∃ w, h.meta? key = some w ∧ w.scalarText = some v) ↔ h.meta? key = some (.str v) := by
  refine ⟨fun ⟨w, hw, hs⟩ => ?_, fun hv => ⟨_, hv, rfl⟩⟩
  rw [hw, ht w v hw hs]

/-- On a textual header that is what the specification says, but for the namespace by
name, and the stored version. -/
theorem readIn_iff_matches (ht : spec.Textual row.fact.header) (hf : PgFact.from_ reader row = some fact) :
    spec.ReadIn row fact ↔ spec.Matches row.fact.header ∧
      spec.ns = fact.ns ∧ (spec.version = 0 ∨ spec.version = fact.version) := by
  have hns : fact.ns = row.fact.header.ns := by
    obtain ⟨aggIds, _, hfact⟩ := Option.map_eq_some_iff.mp hf
    rw [← hfact]
  have htype (t : String) (hst : spec.type = some t) :
      (∃ v, row.fact.header.json.get? "type" = some v ∧ v.scalarText = some t) ↔
        row.fact.header.json.get? "type" = some (.str t) := by
    refine ⟨fun ⟨v, hv, hs⟩ => ?_, fun h => ⟨_, h, rfl⟩⟩
    rw [hv, ht.type v t (by rw [hst]; rfl) hv hs]
  have hkey (e : String × Bool) (he : e ∈ spec.metaKeyExists.entries) :
      (∃ v, row.fact.header.meta? e.1 = some v ∧ v ≠ .null) ↔ (row.fact.header.meta? e.1).isSome = true := by
    cases hv : row.fact.header.meta? e.1 with
    | none => simp
    | some v =>
      refine iff_of_true ⟨v, rfl, ?_⟩ rfl
      rintro rfl
      cases ht.metaKeyExists e he _ hv
  constructor
  · intro h
    refine ⟨⟨.inr ?_, fun t hst => (htype t hst).mp (h.type t hst), fun hne => ?_, fun e he => ?_,
      fun e he => (h.metaKeyExists e he).trans (hkey e he)⟩, h.ns, h.version⟩
    · rw [h.ns, hns]
      exact ht.ns
    · exact (aggIds_of_textual ht hne hf).mp h.aggIds
    · exact (meta_of_textual (ht.meta e he)).mp (h.meta e he)
  · rintro ⟨h, hn, hv⟩
    refine ⟨hn, fun t hst => (htype t hst).mpr (h.type t hst), hv, fun id hid => ?_, fun e he => ?_,
      fun e he => (h.metaKeyExists e he).trans (hkey e he).symm⟩
    · have hne : spec.mergedAggIds ≠ [] := List.ne_nil_of_mem hid
      exact (aggIds_of_textual ht hne hf).mpr (h.aggIds hne) id hid
    · exact (meta_of_textual (ht.meta e he)).mpr (h.meta e he)

/-- Some specification that selects the row, as the query has it, accepts it. -/
def Wanted (jp : JsonPath) (ef : JSEngineFactory) (specs : List FactSpec) (row : FactRow) : Prop :=
  ∃ spec ∈ specs, (∀ c ∈ PgQueryBuilder.criteria spec, c.holds jp row.fact.header.json = true) ∧
    spec.accepts ef row = true

/-- Some specification that accepts the row is met as the filter reads it. -/
def Read (ef : JSEngineFactory) (specs : List FactSpec) (row : FactRow) (fact : PgFact) : Prop :=
  ∃ spec ∈ specs, spec.ReadIn row fact ∧ spec.accepts ef row = true

/-- One that selects the row and accepts it names the namespace of the fact as it is, and
the stored version or none. -/
def WantedLiterally (jp : JsonPath) (ef : JSEngineFactory) (specs : List FactSpec) (row : FactRow)
    (fact : PgFact) : Prop :=
  ∃ spec ∈ specs, (∀ c ∈ PgQueryBuilder.criteria spec, c.holds jp row.fact.header.json = true) ∧
    spec.accepts ef row = true ∧
    spec.ns = fact.ns ∧ (spec.version = 0 ∨ spec.version = fact.version)

/-- The filter hands the fact on. -/
def Passes (matcher : PostQueryMatcher) (fact : PgFact) : Prop :=
  Signal.fact fact ∈ postQueryFilter matcher (.fact fact)

theorem passes_iff_test {matcher : PostQueryMatcher} :
    Passes matcher fact ↔ matcher.canBeSkipped = true ∨ matcher.test fact = true := by
  show Signal.fact fact ∈ (if matcher.canBeSkipped || matcher.test fact then [.fact fact] else []) ↔ _
  by_cases h : (matcher.canBeSkipped || matcher.test fact) = true
  · rw [if_pos h]
    simpa using h
  · rw [if_neg h]
    simpa using h

/-- Every specification has its matcher among those of a request. -/
theorem mapM_of {specs : List FactSpec} {matchers : List FactSpecMatcher}
    (h : specs.mapM (FactSpecMatcher.of_ ef) = some matchers) (t : PgFact) :
    (∀ spec ∈ specs, ∃ m, FactSpecMatcher.of_ ef spec = some m) ∧
      ((∃ m ∈ matchers, m.test t = true) ↔
        ∃ spec ∈ specs, ∃ m, FactSpecMatcher.of_ ef spec = some m ∧ m.test t = true) := by
  induction specs generalizing matchers with
  | nil =>
    cases h
    simp
  | cons spec specs ih =>
    rw [List.mapM_cons] at h
    simp only [Option.bind_eq_bind, Option.bind_eq_some_iff] at h
    obtain ⟨m, hm, ms, hms, he⟩ := h
    cases he
    obtain ⟨hall, hany⟩ := ih hms
    refine ⟨List.forall_mem_cons.mpr ⟨⟨m, hm⟩, hall⟩, ?_⟩
    simp only [List.mem_cons, exists_eq_or_imp, hany, hm, Option.some.injEq, exists_eq_left']

section Request
variable {jp : JsonPath} {specs : List FactSpec} {matcher : PostQueryMatcher}

/-- Where there is no script every fact is handed on. -/
theorem passes_scriptFree (hmatcher : PostQueryMatcher.of_ ef specs = some matcher)
    (hnone : ∀ spec ∈ specs, spec.filterScript = none) : Passes matcher fact := by
  have hskip : (specs.all fun s => s.filterScript.isNone) = true := by simpa using hnone
  rw [PostQueryMatcher.of_, if_pos hskip] at hmatcher
  cases hmatcher
  exact passes_iff_test.mpr (.inl rfl)

/-- Where there is one, those are that some accepting specification is read in. -/
theorem passes_iff_read (hmatcher : PostQueryMatcher.of_ ef specs = some matcher)
    (hscript : ¬ ∀ spec ∈ specs, spec.filterScript = none) (hr : row.fact.header.Readable)
    (hf : PgFact.from_ reader row = some fact) : Passes matcher fact ↔ Read ef specs row fact := by
  have hskip : ¬ (specs.all fun s => s.filterScript.isNone) = true := by simpa using hscript
  rw [PostQueryMatcher.of_, if_neg hskip] at hmatcher
  obtain ⟨matchers, hmatchers, rfl⟩ := Option.map_eq_some_iff.mp hmatcher
  obtain ⟨hall, hany⟩ := mapM_of hmatchers fact
  rw [passes_iff_test]
  simp only [PostQueryMatcher.test, Bool.false_or, List.any_eq_true, Bool.false_eq_true, false_or, hany]
  refine exists_congr fun spec => and_congr_right fun hspec => ?_
  obtain ⟨m, hm⟩ := hall spec hspec
  rw [← test_iff_read hm hr hf]
  simp [hm]

/-- Where the specifications can be spliced and ask for what the header has as text, the
filter reads what the query wants, if it is wanted by name and in the stored version. -/
theorem read_iff_wantedLiterally (hregular : ∀ spec ∈ specs, spec.Spliceable ∧ spec.Textual row.fact.header)
    (hf : PgFact.from_ reader row = some fact) :
    Read ef specs row fact ↔ WantedLiterally jp ef specs row fact := by
  refine exists_congr fun spec => and_congr_right fun hspec => ?_
  obtain ⟨hspliceable, htextual⟩ := hregular spec hspec
  rw [readIn_iff_matches htextual hf, ((PgQueryBuilder.criteria_spliceable hspliceable).2 row.fact.header :
    (∀ c ∈ PgQueryBuilder.criteria spec, c.holds jp row.fact.header.json = true) ↔ _)]
  constructor
  · exact fun ⟨⟨hmatches, hn, hv⟩, ha⟩ => ⟨hmatches, ha, hn, hv⟩
  · exact fun ⟨hmatches, ha, hn, hv⟩ => ⟨⟨hmatches, hn, hv⟩, ha⟩

/-- What is wanted by name and in the stored version is wanted. -/
theorem wanted_of_literally (h : WantedLiterally jp ef specs row fact) : Wanted jp ef specs row := by
  obtain ⟨spec, hspec, hholds, haccepts, _⟩ := h
  exact ⟨spec, hspec, hholds, haccepts⟩

end Request

/-- An order whose header is as it is stored: the serial is a number. -/
def orderRow : FactRow where
  ser := 42
  fact :=
    { id := ⟨3⟩
      header := ⟨[("ns", .str "orders"), ("type", .str "OrderPlaced"), ("version", .num ⟨2, 0⟩),
        ("meta", .obj [("_ser", .num ⟨42, 0⟩), ("tenant", .str "blue")])], by decide, fun _ h => nomatch h⟩
      payload := .obj [("total", .num ⟨10, 0⟩)] }

/-- Orders that a script looks at, in any version. -/
def scriptedOrders : FactSpec where
  ns := "orders"
  ns_given := orders_given
  «meta» := ⟨[("tenant", "blue")], by decide⟩
  filterScript := some ⟨"js", "function (h, p) \x7b return p.total > 5 \x7d"⟩

/-- An engine under which the script says what it says of this payload. -/
def acceptingEngine : JSEngineFactory := fun _ _ payload => (payload.get? "total").isSome

/-- Audited facts that a script looks at. -/
def scriptedAudit : FactSpec where
  ns := "audit"
  ns_given := by decide
  filterScript := some ⟨"js", "function (h, p) \x7b return true \x7d"⟩

end FactCast
