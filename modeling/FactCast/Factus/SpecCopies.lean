import FactCast.Factus.HandlerMethod
import Mathlib.Data.List.Dedup

/-! What is lost when specifications are copied.

A copy of a specification, and one for another namespace, asks for what the
original asks for, but not for the keys that `meta` must or must not have. That
makes no difference exactly if each key that must exist is asked for with its value
as well, and no key must be missing (`keyless_matched_iff`). -/
namespace FactCast

/-! ### Matching -/

/-- A fact as it is read from a row. -/
def PgFact.Stored (reader : UuidReader) (f : PgFact) : Prop := ∃ row, PgFact.from_ reader row = some f

/-- What the matcher of a specification says of a fact, unless the script is refused. -/
def FactSpec.matched (ef : JSEngineFactory) (spec : FactSpec) (f : PgFact) : Option Bool :=
  (FactSpecMatcher.of_ ef spec).map fun m => m.test f

/-- The fact meets each criterion. -/
structure FactSpec.Met (ef : JSEngineFactory) (spec : FactSpec) (f : PgFact) : Prop where
  ns : spec.ns = f.ns
  type : ∀ type, spec.type = some type → f.type = some type
  version : spec.version = 0 ∨ spec.version = f.version
  aggIds : ∀ id ∈ spec.mergedAggIds, id ∈ f.aggIds
  «meta» : ∀ e ∈ spec.meta.entries, f.meta? e.1 = some e.2
  metaKeyExists : ∀ e ∈ spec.metaKeyExists.entries, (e.2 = true ↔ (f.meta? e.1).isSome = true)
  filterScript : ∀ script, spec.filterScript = some script →
    ef ("var test=" ++ script.source) f.jsonHeader.json f.jsonPayload = true

/-- There is no script, or one in the language that is known. -/
def FactSpec.Engine (spec : FactSpec) : Prop :=
  ∀ script, spec.filterScript = some script → script.languageIdentifier = "js"

section Matching
variable {ef : JSEngineFactory} {spec : FactSpec} {f : PgFact} {reader : UuidReader}

theorem FactSpec.met_of_test {engine : Option JSEngine}
    (hengine : FactSpecMatcher.getEngine ef spec.filterScript = some engine) :
    (⟨spec, engine⟩ : FactSpecMatcher).test f = true ↔ spec.Met ef f := by
  let m : FactSpecMatcher := ⟨spec, engine⟩
  have hns : m.nsMatch f = true ↔ spec.ns = f.ns := by simp [m, FactSpecMatcher.nsMatch]
  have htype : m.typeMatch f = true ↔ ∀ type, spec.type = some type → f.type = some type := by
    unfold FactSpecMatcher.typeMatch
    cases m.spec.type with
    | none => simp
    | some type => simp
  have hversion : m.versionMatch f = true ↔ spec.version = 0 ∨ spec.version = f.version := by
    simp [m, FactSpecMatcher.versionMatch]
  have haggIds : m.aggIdMatch f = true ↔ ∀ id ∈ spec.mergedAggIds, id ∈ f.aggIds := by
    unfold FactSpecMatcher.aggIdMatch
    rw [Bool.or_eq_true, List.isEmpty_iff, List.all_eq_true]
    simp only [List.contains_eq_mem, decide_eq_true_eq]
    refine or_iff_right_of_imp fun hnil id hid => ?_
    rw [hnil] at hid
    cases hid
  have hmeta : m.metaMatch f = true ↔ ∀ e ∈ spec.meta.entries, f.meta? e.1 = some e.2 := by
    unfold FactSpecMatcher.metaMatch
    rw [Bool.or_eq_true, List.isEmpty_iff, List.all_eq_true]
    simp only [beq_iff_eq]
    refine or_iff_right_of_imp fun hnil e he => ?_
    rw [hnil] at he
    cases he
  have hkeys : m.metaKeyExistsMatch f = true ↔
      ∀ e ∈ spec.metaKeyExists.entries, (e.2 = true ↔ (f.meta? e.1).isSome = true) := by
    unfold FactSpecMatcher.metaKeyExistsMatch
    rw [Bool.or_eq_true, List.isEmpty_iff, List.all_eq_true]
    have hkey : ∀ e : String × Bool, ((e.2 && (f.meta? e.1).isSome) ||
        (!e.2 && (f.meta? e.1).isNone)) = true ↔ (e.2 = true ↔ (f.meta? e.1).isSome = true) := by
      intro e
      cases e.2 <;> cases f.meta? e.1 <;> simp
    simp only [hkey]
    refine or_iff_right_of_imp fun hnil e he => ?_
    rw [hnil] at he
    cases he
  have hscript : m.scriptMatch f = true ↔ ∀ script, spec.filterScript = some script →
      ef ("var test=" ++ script.source) f.jsonHeader.json f.jsonPayload = true := by
    unfold FactSpecMatcher.getEngine at hengine
    split at hengine
    · rename_i hnone
      cases hengine
      simp [m, FactSpecMatcher.scriptMatch, hnone]
    · rename_i script hsome
      split at hengine
      · cases hengine
        simp [m, FactSpecMatcher.scriptMatch, hsome]
      · cases hengine
  show m.test f = true ↔ _
  simp only [FactSpecMatcher.test, Bool.and_eq_true, hns, htype, hversion, haggIds, hmeta, hkeys, hscript]
  refine ⟨fun h => ?_, fun h => ?_⟩
  · obtain ⟨⟨⟨⟨⟨⟨h₁, h₂⟩, h₃⟩, h₄⟩, h₅⟩, h₆⟩, h₇⟩ := h
    exact ⟨h₁, h₂, h₃, h₄, h₅, h₆, h₇⟩
  · exact ⟨⟨⟨⟨⟨⟨h.ns, h.type⟩, h.version⟩, h.aggIds⟩, h.meta⟩, h.metaKeyExists⟩, h.filterScript⟩

theorem FactSpec.getEngine_isSome :
    (FactSpecMatcher.getEngine ef spec.filterScript).isSome = true ↔ spec.Engine := by
  unfold FactSpecMatcher.getEngine FactSpec.Engine
  cases h : spec.filterScript with
  | none => simp
  | some script =>
    by_cases hjs : script.languageIdentifier = "js"
    · simp [hjs]
    · simp [hjs]

theorem FactSpec.matched_iff : spec.matched ef f = some true ↔ spec.Engine ∧ spec.Met ef f := by
  unfold FactSpec.matched FactSpecMatcher.of_
  rw [Option.map_map, Option.map_eq_some_iff]
  refine ⟨fun ⟨engine, hengine, htest⟩ => ?_, fun ⟨hjs, hmet⟩ => ?_⟩
  · exact ⟨FactSpec.getEngine_isSome.mp (by rw [hengine]; rfl), (FactSpec.met_of_test hengine).mp htest⟩
  · have hsome : (FactSpecMatcher.getEngine ef spec.filterScript).isSome = true :=
      FactSpec.getEngine_isSome.mpr hjs
    obtain ⟨engine, hengine⟩ := Option.isSome_iff_exists.mp hsome
    exact ⟨engine, hengine, (FactSpec.met_of_test hengine).mpr hmet⟩

theorem FactSpec.matched_eq_none : spec.matched ef f = none ↔ ¬ spec.Engine := by
  have hsome : (FactSpecMatcher.getEngine ef spec.filterScript).isSome = true ↔ spec.Engine :=
    FactSpec.getEngine_isSome
  unfold FactSpec.matched FactSpecMatcher.of_
  rw [Option.map_map, Option.map_eq_none_iff, ← hsome, Bool.not_eq_true, Option.isSome_eq_false_iff,
    Option.isNone_iff_eq_none]

/-- Two specifications are matched alike if their scripts are refused alike and their
criteria are met alike. -/
theorem FactSpec.matched_eq_iff {spec' : FactSpec} (hengine : spec'.Engine ↔ spec.Engine) :
    spec'.matched ef f = spec.matched ef f ↔ (spec.Engine → (spec'.Met ef f ↔ spec.Met ef f)) := by
  by_cases hjs : spec.Engine
  · have hsome : spec.matched ef f ≠ none := fun hnone => FactSpec.matched_eq_none.mp hnone hjs
    have hsome' : spec'.matched ef f ≠ none := fun hnone =>
      FactSpec.matched_eq_none.mp hnone (hengine.mpr hjs)
    have hmet : spec.matched ef f = some true ↔ spec.Met ef f := by
      rw [FactSpec.matched_iff, and_iff_right hjs]
    have hmet' : spec'.matched ef f = some true ↔ spec'.Met ef f := by
      rw [FactSpec.matched_iff, and_iff_right (hengine.mpr hjs)]
    rw [← hmet, ← hmet']
    refine ⟨fun heq _ => by rw [heq], fun hiff => ?_⟩
    obtain ⟨b, hb⟩ := Option.ne_none_iff_exists'.mp hsome
    obtain ⟨b', hb'⟩ := Option.ne_none_iff_exists'.mp hsome'
    have hsame := hiff hjs
    rw [hb, hb', Option.some.injEq, Option.some.injEq] at hsame
    rw [hb, hb', Bool.eq_iff_iff.mpr hsame]
  · rw [FactSpec.matched_eq_none.mpr hjs, FactSpec.matched_eq_none.mpr (mt hengine.mp hjs)]
    exact iff_of_true rfl fun h => absurd h hjs

theorem FactSpec.mem_mergedAggIds {id : UUID} :
    id ∈ spec.mergedAggIds ↔ id ∈ spec.aggIds ∨ spec.aggId = some id := by
  unfold FactSpec.mergedAggIds
  split
  · rename_i hnone
    simp [hnone]
  · rename_i other hother
    rw [hother, Option.some.injEq]
    by_cases hin : other ∈ spec.aggIds
    · rw [if_pos hin]
      exact (or_iff_left_of_imp fun heq => heq ▸ hin).symm
    · rw [if_neg hin, List.mem_append, List.mem_singleton, eq_comm]

/-- One more identifier is one more criterion. -/
theorem FactSpec.met_addAggId {id : UUID} :
    (spec.addAggId id).Met ef f ↔ spec.Met ef f ∧ id ∈ f.aggIds := by
  have hmem : ∀ other, other ∈ (spec.addAggId id).mergedAggIds ↔ other ∈ spec.mergedAggIds ∨ other = id := by
    intro other
    rw [mem_mergedAggIds, mem_mergedAggIds, FactSpec.mem_addAggId, or_right_comm]
    exact Iff.rfl
  refine ⟨fun h => ⟨⟨h.ns, h.type, h.version, fun other hother => ?_, h.meta, h.metaKeyExists, h.filterScript⟩, ?_⟩,
    fun ⟨h, hid⟩ => ⟨h.ns, h.type, h.version, fun other hother => ?_, h.meta, h.metaKeyExists, h.filterScript⟩⟩
  · exact h.aggIds other ((hmem other).mpr (.inl hother))
  · exact h.aggIds id ((hmem id).mpr (.inr rfl))
  · rcases (hmem other).mp hother with hother | rfl
    · exact h.aggIds other hother
    · exact hid

end Matching

/-! ### Facts to try a specification on -/

/-- A header with the members that a specification can ask for. -/
def askedHeader (ns : String) (hns : blank ns = false) (type : String) (version : Int) (ids : List UUID)
    (entries : List (String × String)) : Header where
  members := [("ns", .str ns), ("type", .str type), ("version", .num ⟨version, 0⟩),
    ("aggIds", .arr (ids.map fun id => .str id.toString)),
    ("meta", .obj (entries.map fun e => (e.1, .str e.2)))]
  ns_given := hns
  meta_no_array := fun _ h => nomatch h

/-- A fact can have any coordinates, any set of identifiers and any entries. -/
theorem exists_stored (reader : UuidReader) {ns : String} (hns : blank ns = false) (type : String)
    (version : Int) {ids : List UUID} (hids : ids.Nodup) (entries : List (String × String)) :
    ∃ f : PgFact, f.Stored reader ∧ f.ns = ns ∧ f.type = some type ∧ f.version = version ∧
      f.aggIds = ids ∧ ∀ key, f.meta? key = entries.lookup key := by
  let header := askedHeader ns hns type version ids entries
  have hset : toUUIDSet reader header = some ids := by
    have hget : header.json.get? "aggIds" = some (.arr (ids.map fun id => .str id.toString)) := rfl
    unfold toUUIDSet
    rw [hget]
    simp [toUUIDs_toString, hids]
  have hversion : intColumn header "version" = version := by
    show version.tdiv (10 ^ 0) = version
    simp
  refine ⟨⟨⟨0⟩, ns, some type, version, ids, header, .null⟩, ⟨⟨1, ⟨0⟩, header, .null⟩, ?_⟩,
    rfl, rfl, rfl, rfl, fun key => ?_⟩
  · rw [PgFact.from_, hset, Option.map_some, hversion]
    rfl
  · show ((entries.map fun e => (e.1, Jsonb.str e.2)).lookup key).bind Jsonb.scalarText = _
    rw [List.lookup_map_snd]
    cases entries.lookup key <;> rfl

/-! ### Copies -/

theorem LinkedMap.ext {β : Type} {m m' : LinkedMap β} (h : m.entries = m'.entries) : m = m' := by
  cases m
  cases m'
  cases h
  rfl

theorem LinkedMap.putAll_empty {β : Type} (m : LinkedMap β) : LinkedMap.empty.putAll m.entries = m :=
  LinkedMap.ext (LinkedMap.putAll_of_nodup m.nodup)

namespace FactSpec
variable {spec : FactSpec} {reader : UuidReader}

/-- What is left of a specification that is copied. -/
def keyless (spec : FactSpec) : FactSpec := { spec with metaKeyExists := .empty }

theorem copy_eq : spec.copy = spec.keyless := by
  unfold copy
  rw [LinkedMap.putAll_empty]
  rfl

theorem withNs_eq {newNs : String} (hns : blank newNs = false) :
    spec.withNs newNs = .ok { spec with ns := newNs, ns_given := hns }.keyless := by
  unfold withNs ns_
  rw [dif_pos hns]
  show Except.ok _ = _
  rw [LinkedMap.putAll_empty]
  rfl

/-- The script can be run, and then a key is only asked for if it must exist and its
value is asked for as well. -/
def KeysImplied (spec : FactSpec) : Prop :=
  spec.Engine → ∀ e ∈ spec.metaKeyExists.entries, e.2 = true ∧ e.1 ∈ spec.meta.entries.map Prod.fst

theorem met_keyless_of_met {ef : JSEngineFactory} {f : PgFact} (hmet : spec.Met ef f) : spec.keyless.Met ef f :=
  ⟨hmet.ns, hmet.type, hmet.version, hmet.aggIds, hmet.meta, (fun _ he => nomatch he), hmet.filterScript⟩

/-- Something meets what is left of a specification and has, of all entries, those
that are asked for and perhaps one more. -/
theorem exists_met_keyless (reader : UuidReader) (spec : FactSpec) (more : List (String × String)) :
    ∃ f : PgFact, f.Stored reader ∧ spec.keyless.Met (fun _ _ _ => true) f ∧
      ∀ key, f.meta? key = (spec.meta.entries ++ more).lookup key := by
  obtain ⟨f, hstored, hns, htype, hversion, haggIds, hmeta⟩ := exists_stored reader spec.ns_given
    (spec.type.getD "") spec.version (List.nodup_dedup spec.mergedAggIds) (spec.meta.entries ++ more)
  refine ⟨f, hstored, ⟨hns.symm, fun type ht => ?_, .inr hversion.symm, fun id hid => ?_, fun e he => ?_,
    (fun _ he => nomatch he), fun _ _ => rfl⟩, hmeta⟩
  · rw [htype, show spec.type = some type from ht]
    rfl
  · rw [haggIds]
    exact List.mem_dedup.mpr hid
  · have hlookup := PgQueryBuilder.lookup_map_of_mem spec.meta.nodup he id
    rw [hmeta, List.lookup_append, show spec.meta.entries.lookup e.1 = some e.2 by simpa using hlookup]
    rfl

/-- Leaving the keys behind makes no difference exactly if they are implied. -/
theorem keyless_matched_iff (reader : UuidReader) (spec : FactSpec) :
    (∀ ef, ∀ f : PgFact, f.Stored reader → spec.keyless.matched ef f = spec.matched ef f) ↔
      spec.KeysImplied := by
  have heq : ∀ ef f, spec.keyless.matched ef f = spec.matched ef f ↔
      (spec.Engine → (spec.keyless.Met ef f ↔ spec.Met ef f)) := fun _ _ => matched_eq_iff Iff.rfl
  simp only [heq]
  refine ⟨fun hall hjs e he => ?_, fun himplied ef f _ hjs => ⟨fun hmet => ?_, met_keyless_of_met⟩⟩
  · have hexists : e.2 = true := by
      by_contra hmust
      -- a fact that has the key nevertheless
      obtain ⟨f, hstored, hmet, hmeta⟩ := exists_met_keyless reader spec [(e.1, "")]
      have hkey := ((hall _ f hstored hjs).mp hmet).metaKeyExists e he
      refine hmust (hkey.mpr ?_)
      rw [hmeta, PgQueryBuilder.lookup_isSome_iff]
      simp
    refine ⟨hexists, ?_⟩
    obtain ⟨f, hstored, hmet, hmeta⟩ := exists_met_keyless reader spec []
    have hkey := ((hall _ f hstored hjs).mp hmet).metaKeyExists e he
    have hsome := hkey.mp hexists
    rwa [hmeta, List.append_nil, PgQueryBuilder.lookup_isSome_iff] at hsome
  · refine ⟨hmet.ns, hmet.type, hmet.version, hmet.aggIds, hmet.meta, fun e he => ?_, hmet.filterScript⟩
    obtain ⟨hexists, hkey⟩ := himplied hjs e he
    obtain ⟨d, hd, hde⟩ := List.mem_map.mp hkey
    rw [← hde, hmet.meta d hd]
    exact iff_of_true hexists rfl

end FactSpec

end FactCast
