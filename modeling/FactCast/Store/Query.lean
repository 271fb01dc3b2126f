import FactCast.Store.Statement

/-! The SQL built from a list of specifications.

`PgQueryBuilder` walks the specifications twice: once to write the text with its
placeholders (`createWhereClause`), once to set the parameters
(`createStatementSetter`). Both walks are translated as they stand, and both turn
out to follow one list of criteria per specification (`criteria`): the text is
the text of their conjuncts, and the parameters are their texts in order.

Each criterion splices a string of the specification into a JSON text or a path.
Where every such string can be spliced (`FactSpec.Spliceable`), the statement
selects the rows above the serial that some specification matches. Where one
cannot, the specification on its own no longer means what it says: the builder's
own comment calls it vulnerable to injection. -/
namespace FactCast

namespace PgQueryBuilder

/-! ### Setting the parameters -/

def nsText (ns : String) : String := "\x7b\"ns\": \"" ++ ns ++ "\"\x7d"

def typeText (type : String) : String := "\x7b\"type\": \"" ++ type ++ "\"\x7d"

def aggIdsText (ids : List UUID) : String :=
  "\x7b\"aggIds\": [" ++
    ("\"" ++ String.intercalate "\",\"" (ids.map UUID.toString) ++ "\"") ++ "]\x7d"

def metaText (key value : String) : String :=
  "\x7b\"meta\":\x7b\"" ++ key ++ "\":\"" ++ value ++ "\"\x7d\x7d"

def metaKeyText (key : String) : String := "$.\"meta\".\"" ++ key ++ "\""

def setNs (p : PreparedStatement) (count : Nat) (spec : FactSpec) : PreparedStatement × Nat :=
  if spec.ns ≠ "*" then (p.setString (count + 1) (nsText spec.ns), count + 1) else (p, count)

def setType (p : PreparedStatement) (count : Nat) (spec : FactSpec) : PreparedStatement × Nat :=
  match spec.type with
  | some type => (p.setString (count + 1) (typeText type), count + 1)
  | none => (p, count)

def filterByAggregateIds (spec : FactSpec) : Bool := !spec.mergedAggIds.isEmpty

def setAggIds (p : PreparedStatement) (count : Nat) (spec : FactSpec) : PreparedStatement × Nat :=
  if filterByAggregateIds spec then
    (p.setString (count + 1) (aggIdsText spec.mergedAggIds), count + 1)
  else (p, count)

def setMeta (p : PreparedStatement) (count : Nat) (spec : FactSpec) : PreparedStatement × Nat :=
  spec.meta.entries.foldl
    (fun (p, count) e => (p.setString (count + 1) (metaText e.1 e.2), count + 1)) (p, count)

def setMetaKeyExists (p : PreparedStatement) (count : Nat) (spec : FactSpec) :
    PreparedStatement × Nat :=
  spec.metaKeyExists.entries.foldl
    (fun (p, count) e => (p.setString (count + 1) (metaKeyText e.1), count + 1)) (p, count)

/-- One specification's parameters. The version is not among them. -/
def setSpec (p : PreparedStatement) (count : Nat) (spec : FactSpec) : PreparedStatement × Nat :=
  let (p, count) := setNs p count spec
  let (p, count) := setType p count spec
  let (p, count) := setAggIds p count spec
  let (p, count) := setMeta p count spec
  setMetaKeyExists p count spec

def createStatementSetter (specs : List FactSpec) (serial : Int) (p : PreparedStatement) :
    PreparedStatement :=
  let (p, count) := specs.foldl (fun (p, count) spec => setSpec p count spec) (p, 0)
  p.setLong (count + 1) serial

/-! ### Writing the text -/

/-- One specification's predicate. -/
def predicate (spec : FactSpec) : String :=
  let sb := "(1=1"
  let sb := if spec.ns ≠ "*" then sb ++ Conjunct.contains.text else sb
  let sb := if spec.type.isSome then sb ++ Conjunct.contains.text else sb
  let sb := if filterByAggregateIds spec then sb ++ Conjunct.contains.text else sb
  let sb := spec.meta.entries.foldl (fun sb _ => sb ++ Conjunct.contains.text) sb
  let sb := spec.metaKeyExists.entries.foldl (fun sb e => sb ++ (Conjunct.path e.2).text) sb
  sb ++ ")"

def createWhereClause (specs : List FactSpec) : String :=
  let predicates := specs.map predicate
  let predicatesAsString := String.intercalate " OR " predicates
  "( " ++ predicatesAsString ++ " ) AND ser>?"

def projectionFact : String :=
  "ser, header, payload, header->>'id' AS id, header->>'aggIds' AS aggIds, " ++
    "header->>'ns' AS ns, header->>'type' AS type, header->>'version' AS version"

def createSQL (specs : List FactSpec) : String :=
  "SELECT " ++ projectionFact ++ " FROM fact WHERE " ++ createWhereClause specs ++ " ORDER BY ser ASC"

def createStateSQL (specs : List FactSpec) : String :=
  "SELECT ser FROM fact WHERE " ++ createWhereClause specs ++ " ORDER BY ser DESC LIMIT 1"

/-! ### The two walks in step -/

/-- What one specification asks, conjunct by conjunct. -/
def criteria (spec : FactSpec) : List Criterion :=
  (if spec.ns ≠ "*" then [⟨.contains, nsText spec.ns⟩] else []) ++
  ((spec.type.map fun type => ⟨.contains, typeText type⟩).toList ++
  ((if filterByAggregateIds spec then [⟨.contains, aggIdsText spec.mergedAggIds⟩] else []) ++
  (spec.meta.entries.map (fun e => ⟨.contains, metaText e.1 e.2⟩) ++
  spec.metaKeyExists.entries.map fun e => ⟨.path e.2, metaKeyText e.1⟩)))

/-- The condition that `createWhereClause` writes. -/
def whereClause (specs : List FactSpec) : Where :=
  ⟨(specs.map criteria).map fun cs => cs.map Criterion.conjunct⟩

/-- The rows that the statement for these specifications selects, unless it fails. -/
def selected (jp : JsonPath) (specs : List FactSpec) (serial : Int) : Option (FactRow → Bool) :=
  (whereClause specs).execute jp (createStatementSetter specs serial ⟨[]⟩)

/-- Setting texts one after another. -/
def setTexts (p : PreparedStatement × Nat) (texts : List String) : PreparedStatement × Nat :=
  texts.foldl (fun p s => (p.1.setString (p.2 + 1) s, p.2 + 1)) p

theorem setTexts_append (p : PreparedStatement × Nat) (ss ts : List String) :
    setTexts p (ss ++ ts) = setTexts (setTexts p ss) ts :=
  List.foldl_append ..

theorem setTexts_params (p : PreparedStatement × Nat) (ss : List String) :
    (setTexts p ss).1.params = p.1.params ++ numbered (p.2 + 1) (ss.map .string) ∧
      (setTexts p ss).2 = p.2 + ss.length := by
  induction ss generalizing p with
  | nil => simp [setTexts, numbered]
  | cons s ss ih =>
    obtain ⟨hparams, hcount⟩ := ih (p.1.setString (p.2 + 1) s, p.2 + 1)
    refine ⟨?_, ?_⟩
    · show (setTexts (p.1.setString (p.2 + 1) s, p.2 + 1) ss).1.params = _
      rw [hparams]
      simp [PreparedStatement.setString, numbered]
    · show (setTexts (p.1.setString (p.2 + 1) s, p.2 + 1) ss).2 = _
      rw [hcount, List.length_cons]
      show p.2 + 1 + ss.length = _
      omega

theorem setSpec_eq (p : PreparedStatement) (count : Nat) (spec : FactSpec) :
    setSpec p count spec = setTexts (p, count) ((criteria spec).map Criterion.text) := by
  have hns : ∀ p count, setNs p count spec = setTexts (p, count)
      ((if spec.ns ≠ "*" then [⟨.contains, nsText spec.ns⟩] else [] : List Criterion).map
        Criterion.text) := by
    intro p count
    unfold setNs
    split <;> rfl
  have htype : ∀ p count, setType p count spec = setTexts (p, count)
      ((spec.type.map fun type => (⟨.contains, typeText type⟩ : Criterion)).toList.map
        Criterion.text) := by
    intro p count
    unfold setType
    cases spec.type <;> rfl
  have haggIds : ∀ p count, setAggIds p count spec = setTexts (p, count)
      ((if filterByAggregateIds spec then [⟨.contains, aggIdsText spec.mergedAggIds⟩] else []
        : List Criterion).map Criterion.text) := by
    intro p count
    unfold setAggIds
    split <;> rfl
  have hmeta : ∀ p count, setMeta p count spec = setTexts (p, count)
      ((spec.meta.entries.map fun e => (⟨.contains, metaText e.1 e.2⟩ : Criterion)).map
        Criterion.text) := by
    intro p count
    rw [setMeta, setTexts, List.map_map, List.foldl_map]
    rfl
  have hkeys : ∀ p count, setMetaKeyExists p count spec = setTexts (p, count)
      ((spec.metaKeyExists.entries.map fun e => (⟨.path e.2, metaKeyText e.1⟩ : Criterion)).map
        Criterion.text) := by
    intro p count
    rw [setMetaKeyExists, setTexts, List.map_map, List.foldl_map]
    rfl
  simp only [setSpec, criteria, List.map_append, setTexts_append, ← hns, ← htype, ← haggIds,
    ← hmeta, ← hkeys]

theorem setSpecs_eq (p : PreparedStatement × Nat) (specs : List FactSpec) :
    specs.foldl (fun (p, count) spec => setSpec p count spec) p =
      setTexts p ((specs.map criteria).flatten.map Criterion.text) := by
  induction specs generalizing p with
  | nil => rfl
  | cons spec specs ih =>
    obtain ⟨p, count⟩ := p
    rw [List.foldl_cons, ih]
    show setTexts (setSpec p count spec) _ = _
    rw [setSpec_eq, List.map_cons, List.flatten_cons, List.map_append,
      setTexts_append]

/-- The parameters, numbered from one: the texts of the criteria, then the serial. -/
theorem createStatementSetter_params (specs : List FactSpec) (serial : Int) :
    (createStatementSetter specs serial ⟨[]⟩).params =
      numbered 1 ((specs.map criteria).flatten.map (fun c => .string c.text) ++ [.long serial]) := by
  have h := setTexts_params (⟨[]⟩, 0) ((specs.map criteria).flatten.map Criterion.text)
  simp only [createStatementSetter, setSpecs_eq, PreparedStatement.setLong, h.1, h.2,
    numbered_append, List.map_map, List.length_map, List.nil_append, Nat.zero_add]
  rw [Nat.add_comm 1]
  rfl

theorem foldl_text {α : Type} (f : α → String) (sb : String) (l : List α) :
    l.foldl (fun sb x => sb ++ f x) sb = sb ++ String.join (l.map f) := by
  induction l generalizing sb with
  | nil => simp
  | cons x l ih => simp [ih, String.append_assoc]

theorem predicate_eq (spec : FactSpec) :
    predicate spec = Where.disjunctText ((criteria spec).map Criterion.conjunct) := by
  simp only [predicate, foldl_text, criteria, Where.disjunctText, List.map_append,
    String.join_append, List.map_map]
  by_cases hns : spec.ns = "*"
  · cases spec.type <;> by_cases h : filterByAggregateIds spec = true <;>
      simp [hns, h, Function.comp_def, String.append_assoc]
  · cases spec.type <;> by_cases h : filterByAggregateIds spec = true <;>
      simp [hns, h, Function.comp_def, String.append_assoc]

/-- What is written is the text of the condition. -/
theorem createWhereClause_eq (specs : List FactSpec) :
    createWhereClause specs = (whereClause specs).text := by
  simp only [createWhereClause, whereClause, Where.text, List.map_map]
  congr 4
  funext spec
  exact predicate_eq spec

theorem length_numbered (n : Nat) (vs : List Param) : (numbered n vs).length = vs.length := by
  induction vs generalizing n with
  | nil => rfl
  | cons v vs ih => simp [numbered, ih]

theorem map_snd_numbered (n : Nat) (vs : List Param) : (numbered n vs).map Prod.snd = vs := by
  induction vs generalizing n with
  | nil => rfl
  | cons v vs ih => simp [numbered, ih]

/-- One placeholder for every criterion and one for the serial. -/
theorem count_createSQL (specs : List FactSpec) :
    (createSQL specs).toList.count '?' = (specs.map criteria).flatten.length + 1 := by
  have hhead : ("SELECT " ++ projectionFact ++ " FROM fact WHERE ").toList.count '?' = 0 := by
    delta projectionFact
    simp only [String.toList_append, List.count_append]
    decide +kernel
  have htail : " ORDER BY ser ASC".toList.count '?' = 0 := by decide
  have hlen : (whereClause specs).placeholders = (specs.map criteria).flatten.length := by
    simp [Where.placeholders, whereClause, List.length_flatten, Function.comp_def]
  rw [createSQL, String.toList_append, List.count_append, String.toList_append, List.count_append,
    hhead, htail, createWhereClause_eq, Where.count_text, hlen]
  omega

/-- As many placeholders as parameters, and the placeholder of every number is
bound to the parameter that was set in that place. -/
theorem createSQL_bound (specs : List FactSpec) (serial : Int) :
    let p := createStatementSetter specs serial ⟨[]⟩
    (createSQL specs).toList.count '?' = p.params.length ∧
      ∀ n, p.bound (n + 1) = (p.params.map Prod.snd)[n]? := by
  intro p
  have hparams : p.params = _ := createStatementSetter_params specs serial
  constructor
  · rw [count_createSQL, hparams, length_numbered, List.length_append, List.length_map,
      List.length_singleton]
  · intro n
    rw [PreparedStatement.bound, hparams, map_snd_numbered, Nat.add_comm, lookup_numbered]

/-- The statement fails if a criterion's text cannot be cast or if there is no
specification; otherwise a row is selected when all criteria of some
specification hold of its header and it lies above the serial. -/
theorem selected_eq (jp : JsonPath) (specs : List FactSpec) (serial : Int) :
    selected jp specs serial =
      if specs ≠ [] ∧ ∀ spec ∈ specs, ∀ c ∈ criteria spec, c.WellFormed jp then
        some fun row =>
          (specs.any fun spec => (criteria spec).all fun c => c.holds jp row.fact.header.json) &&
            decide (serial < row.ser)
      else none := by
  rw [selected, whereClause, Where.execute_of_bound (createStatementSetter_params specs serial)]
  simp [List.any_map, Function.comp_def]

/-- The rows a statement that does not fail selects. -/
theorem selected_row {jp : JsonPath} {specs : List FactSpec} {serial : Int} {select : FactRow → Bool}
    (h : selected jp specs serial = some select) (row : FactRow) :
    select row = true ↔ serial < row.ser ∧
      ∃ spec ∈ specs, ∀ c ∈ criteria spec, c.holds jp row.fact.header.json = true := by
  rw [selected_eq] at h
  split at h
  · cases h
    simp only [Bool.and_eq_true, List.any_eq_true, List.all_eq_true, decide_eq_true_eq]
    exact and_comm
  · cases h

/-! ### What each criterion asks -/

section Criteria
variable {jp : JsonPath} {h : Header}

/-- A key that a quoted path can name as it is. -/
def PathPlain (key : String) : Prop := ∀ c ∈ key.toList, c ≠ '"' ∧ c ≠ '\\' ∧ c.toNat ≠ 0

instance : DecidablePred PathPlain := fun key => inferInstanceAs
  (Decidable (∀ c ∈ key.toList, c ≠ '"' ∧ c ≠ '\\' ∧ c.toNat ≠ 0))

-- `delta` and not `rw`: the equation of a text spliced from literals is slow to derive

theorem parse_nsText {ns : String} (hns : Json.Plain ns) :
    Json.parse (nsText ns) = some (.obj [("ns", .str ns)]) := by
  delta nsText
  exact Json.parse_member (by decide) hns (by simp)

theorem parse_typeText {type : String} (htype : Json.Plain type) :
    Json.parse (typeText type) = some (.obj [("type", .str type)]) := by
  delta typeText
  exact Json.parse_member (by decide) htype (by simp)

theorem parse_aggIdsText {ids : List UUID} (hne : ids ≠ []) :
    Json.parse (aggIdsText ids) =
      some (.obj [("aggIds", .arr ((ids.map UUID.toString).map .str))]) := by
  have hplain : ∀ s ∈ ids.map UUID.toString, Json.Plain s := by
    intro s hs
    obtain ⟨id, _, rfl⟩ := List.mem_map.mp hs
    exact id.toString_plain
  delta aggIdsText
  exact Json.parse_strs (by decide) hplain (by simpa using hne) (by simp)

theorem parse_metaText {key value : String} (hkey : Json.Plain key) (hvalue : Json.Plain value) :
    Json.parse (metaText key value) = some (.obj [("meta", .obj [(key, .str value)])]) := by
  delta metaText
  exact Json.parse_nested (by decide) hkey hvalue (by simp)

theorem contains_metaText {key value : String} {d : Jsonb} :
    d.contains (.obj [("meta", .obj [(key, .str value)])]) = true ↔
      (d.get? "meta").bind (fun m => m.get? key) = some (.str value) := by
  rw [Jsonb.contains_member]
  simp only [Jsonb.contains_member_str, Option.bind_eq_some_iff]

/-- On a stored header the path of a key finds something exactly when `meta` has
that key. -/
theorem compile_metaKeyText (jp : JsonPath) {key : String} (hkey : PathPlain key) :
    ∃ find, jp.compile (metaKeyText key) = some find ∧
      ∀ h : Header, find h.json = (h.meta? key).isSome := by
  refine ⟨_, jp.members "meta" key ?_, fun h => ?_⟩
  · intro c hc
    rcases List.mem_append.mp hc with hc | hc
    · have hmeta : ∀ c ∈ "meta".toList, c ≠ '"' ∧ c ≠ '\\' ∧ c.toNat ≠ 0 := by simp
      exact hmeta c hc
    · exact hkey c hc
  · show (!((h.members.lookup "meta").toList.flatMap fun m => m.laxMembers key).isEmpty) = _
    rw [Header.meta?]
    show _ = ((h.members.lookup "meta").bind fun m => m.get? key).isSome
    cases hm : h.members.lookup "meta" with
    | none => rfl
    | some m =>
      cases m with
      | arr items => exact absurd hm (h.meta_no_array items)
      | obj ms => cases hl : ms.lookup key <;> simp [Jsonb.laxMembers, Jsonb.get?, hl]
      | _ => rfl

end Criteria

end PgQueryBuilder
end FactCast
