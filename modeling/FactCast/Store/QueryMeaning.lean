import FactCast.Store.Query
import Mathlib.Data.Finset.Max

/-! What the generated SQL means.

A criterion *asks* something of headers if its text can be cast and it holds of
exactly the headers that have it. Where every string of a specification can be
spliced (`FactSpec.Spliceable`), each of its criteria asks for what the
specification says, so the criteria together are `FactSpec.Matches` and the
statement denotes the list (`denotes_of_spliceable`).

Where some string cannot, the specification on its own does not mean what it says
(`spliceable_of_denotes`). The proof builds a header that has everything the
specification asks for. Every criterion must hold of it, so the texts of
namespace and type must hold the very strings they were written around, which
they have no room for unless those are plain. For the entries of `meta` the
longest one that is not plain is changed in the header: some criterion must now
fail, and only a text as long as that entry could. -/
namespace FactCast

/-! ### Strings that can be spliced -/

/-- Every string of the specification can be put where the query puts it. -/
structure FactSpec.Spliceable (spec : FactSpec) : Prop where
  ns : Json.Plain spec.ns
  type : ∀ t, spec.type = some t → Json.Plain t
  «meta» : ∀ e ∈ spec.meta.entries, Json.Plain e.1 ∧ Json.Plain e.2
  metaKeyExists : ∀ e ∈ spec.metaKeyExists.entries, PgQueryBuilder.PathPlain e.1

/-- No key of `meta` is asked for and ruled out at once. -/
def FactSpec.Consistent (spec : FactSpec) : Prop :=
  ∀ e ∈ spec.metaKeyExists.entries, e.2 = false → ∀ f ∈ spec.meta.entries, f.1 ≠ e.1

namespace PgQueryBuilder
variable {jp : JsonPath} {spec : FactSpec} {h : Header}

/-- The statement for these specifications never fails, and selects the rows
above the serial that some specification matches. -/
def Denotes (jp : JsonPath) (specs : List FactSpec) : Prop :=
  ∀ serial, ∃ select, selected jp specs serial = some select ∧
    ∀ row, select row = true ↔
      serial < row.ser ∧ ∃ spec ∈ specs, spec.Matches row.fact.header

/-- The criterion can be cast and holds of the headers that satisfy `P`. -/
def Asks (jp : JsonPath) (c : Criterion) (P : Header → Prop) : Prop :=
  c.WellFormed jp ∧ ∀ h : Header, c.holds jp h.json = true ↔ P h

/-- Headers that agree on what is asked are not told apart. -/
theorem Asks.holds_of_holds {c : Criterion} {P : Header → Prop} (ha : Asks jp c P) {h h' : Header}
    (hc : c.holds jp h.json = true) (hpp : P h → P h') : c.holds jp h'.json = true :=
  (ha.2 h').mpr (hpp ((ha.2 h).mp hc))

theorem asks_contains (jp : JsonPath) {s : String} {pattern : Jsonb} (hs : Json.parse s = some pattern) :
    Asks jp ⟨.contains, s⟩ fun h => h.json.contains pattern = true := by
  have ht : Criterion.test jp ⟨.contains, s⟩ = _ := Criterion.test_contains hs
  refine ⟨Criterion.wellFormed_of_test ht, fun h => ?_⟩
  rw [Criterion.holds_of_test ht]

theorem asks_ns {ns : String} (hns : Json.Plain ns) :
    Asks jp ⟨.contains, nsText ns⟩ fun h => h.json.get? "ns" = some (.str ns) := by
  obtain ⟨hwf, hholds⟩ := asks_contains jp (parse_nsText hns)
  exact ⟨hwf, fun h => (hholds h).trans Jsonb.contains_member_str⟩

theorem asks_type {type : String} (htype : Json.Plain type) :
    Asks jp ⟨.contains, typeText type⟩ fun h => h.json.get? "type" = some (.str type) := by
  obtain ⟨hwf, hholds⟩ := asks_contains jp (parse_typeText htype)
  exact ⟨hwf, fun h => (hholds h).trans Jsonb.contains_member_str⟩

theorem asks_aggIds {ids : List UUID} (hne : ids ≠ []) :
    Asks jp ⟨.contains, aggIdsText ids⟩ fun h => ∃ items,
      h.json.get? "aggIds" = some (.arr items) ∧ ∀ id ∈ ids, .str id.toString ∈ items := by
  obtain ⟨hwf, hholds⟩ := asks_contains jp (parse_aggIdsText hne)
  refine ⟨hwf, fun h => (hholds h).trans ?_⟩
  show h.json.contains (.obj [("aggIds", .arr _)]) = true ↔ _
  rw [Jsonb.contains_member]
  simp only [Jsonb.contains_strs, List.forall_mem_map]
  refine ⟨?_, ?_⟩
  · rintro ⟨v, hv, items, rfl, hitems⟩
    exact ⟨items, hv, hitems⟩
  · rintro ⟨items, hv, hitems⟩
    exact ⟨_, hv, items, rfl, hitems⟩

theorem asks_meta {key value : String} (hkey : Json.Plain key) (hvalue : Json.Plain value) :
    Asks jp ⟨.contains, metaText key value⟩ fun h => h.meta? key = some (.str value) := by
  obtain ⟨hwf, hholds⟩ := asks_contains jp (parse_metaText hkey hvalue)
  exact ⟨hwf, fun h => (hholds h).trans contains_metaText⟩

theorem asks_metaKey {key : String} {exists_ : Bool} (hkey : PathPlain key) :
    Asks jp ⟨.path exists_, metaKeyText key⟩ fun h =>
      exists_ = true ↔ (h.meta? key).isSome = true := by
  obtain ⟨find, hfind, hspec⟩ := compile_metaKeyText jp hkey
  have ht : Criterion.test jp ⟨.path exists_, metaKeyText key⟩ = _ := Criterion.test_path hfind
  refine ⟨Criterion.wellFormed_of_test ht, fun h => ?_⟩
  rw [Criterion.holds_of_test ht]
  show (find h.json == exists_) = true ↔ (exists_ = true ↔ (h.meta? key).isSome = true)
  rw [hspec h]
  cases exists_ <;> cases (h.meta? key).isSome <;> decide

/-! ### Spliceable specifications mean what they say -/

theorem mem_criteria {c : Criterion} : c ∈ criteria spec ↔
    (spec.ns ≠ "*" ∧ c = ⟨.contains, nsText spec.ns⟩) ∨
    (∃ t, spec.type = some t ∧ c = ⟨.contains, typeText t⟩) ∨
    (spec.mergedAggIds ≠ [] ∧ c = ⟨.contains, aggIdsText spec.mergedAggIds⟩) ∨
    (∃ e ∈ spec.meta.entries, c = ⟨.contains, metaText e.1 e.2⟩) ∨
    (∃ e ∈ spec.metaKeyExists.entries, c = ⟨.path e.2, metaKeyText e.1⟩) := by
  have hagg : filterByAggregateIds spec = true ↔ spec.mergedAggIds ≠ [] := by
    simp [filterByAggregateIds]
  simp only [criteria, List.mem_append, Option.mem_toList, Option.map_eq_some_iff,
    List.mem_map, List.mem_ite_nil_right, List.mem_singleton, hagg]
  simp only [eq_comm (a := c)]

/-- Each criterion of a spliceable specification asks something, and together
they ask what the specification says. -/
theorem criteria_spliceable (hs : spec.Spliceable) :
    (∀ c ∈ criteria spec, c.WellFormed jp) ∧
      ∀ h : Header, (∀ c ∈ criteria spec, c.holds jp h.json = true) ↔ spec.Matches h := by
  refine ⟨fun c hc => ?_, fun h => ⟨fun hall => ⟨?_, ?_, ?_, ?_, ?_⟩, fun hm c hc => ?_⟩⟩
  · rcases mem_criteria.mp hc with ⟨_, rfl⟩ | ⟨t, ht, rfl⟩ | ⟨hne, rfl⟩ | ⟨e, he, rfl⟩ | ⟨e, he, rfl⟩
    · exact (asks_ns hs.ns).1
    · exact (asks_type (hs.type t ht)).1
    · exact (asks_aggIds hne).1
    · exact (asks_meta (hs.meta e he).1 (hs.meta e he).2).1
    · exact (asks_metaKey (hs.metaKeyExists e he)).1
  · by_cases hns : spec.ns = "*"
    · exact .inl hns
    · have hasks : Asks jp _ _ := asks_ns hs.ns
      exact .inr ((hasks.2 h).mp (hall _ (mem_criteria.mpr (.inl ⟨hns, rfl⟩))))
  · intro t ht
    exact ((asks_type (hs.type t ht)).2 h).mp (hall _ (mem_criteria.mpr (.inr (.inl ⟨t, ht, rfl⟩))))
  · intro hne
    exact ((asks_aggIds hne).2 h).mp
      (hall _ (mem_criteria.mpr (.inr (.inr (.inl ⟨hne, rfl⟩)))))
  · intro e he
    exact ((asks_meta (hs.meta e he).1 (hs.meta e he).2).2 h).mp
      (hall _ (mem_criteria.mpr (.inr (.inr (.inr (.inl ⟨e, he, rfl⟩))))))
  · intro e he
    exact ((asks_metaKey (hs.metaKeyExists e he)).2 h).mp
      (hall _ (mem_criteria.mpr (.inr (.inr (.inr (.inr ⟨e, he, rfl⟩))))))
  · rcases mem_criteria.mp hc with ⟨hne, rfl⟩ | ⟨t, ht, rfl⟩ | ⟨hne, rfl⟩ | ⟨e, he, rfl⟩ | ⟨e, he, rfl⟩
    · exact ((asks_ns hs.ns).2 h).mpr (hm.ns.resolve_left hne)
    · exact ((asks_type (hs.type t ht)).2 h).mpr (hm.type t ht)
    · exact ((asks_aggIds hne).2 h).mpr (hm.aggIds hne)
    · exact ((asks_meta (hs.meta e he).1 (hs.meta e he).2).2 h).mpr (hm.meta e he)
    · exact ((asks_metaKey (hs.metaKeyExists e he)).2 h).mpr (hm.metaKeyExists e he)

theorem denotes_of_spliceable (jp : JsonPath) {specs : List FactSpec} (hne : specs ≠ [])
    (hs : ∀ spec ∈ specs, spec.Spliceable) : Denotes jp specs := by
  intro serial
  have hwf : specs ≠ [] ∧ ∀ spec ∈ specs, ∀ c ∈ criteria spec, c.WellFormed jp :=
    ⟨hne, fun spec hspec => (criteria_spliceable (hs spec hspec)).1⟩
  refine ⟨_, by rw [selected_eq, if_pos hwf], fun row => ?_⟩
  simp only [Bool.and_eq_true, List.any_eq_true, List.all_eq_true, decide_eq_true_eq]
  rw [and_comm]
  refine and_congr_right fun _ => exists_congr fun spec => and_congr_right fun hspec => ?_
  exact (criteria_spliceable (hs spec hspec)).2 _

/-! ### Only spliceable specifications do -/

/-- A header with everything a specification asks for outside of `meta`. -/
def sampleHeader (spec : FactSpec) (ms : List (String × Jsonb)) : Header where
  members := [("ns", .str spec.ns), ("type", .str (spec.type.getD "")),
    ("aggIds", .arr (spec.mergedAggIds.map fun id => .str id.toString)), ("meta", .obj ms)]
  ns_given := spec.ns_given
  meta_no_array := fun _ h => nomatch h

/-- The entries of `meta` that a specification asks for, and the keys. -/
def sampleMeta (spec : FactSpec) : List (String × Jsonb) :=
  spec.meta.entries.map (fun e => (e.1, .str e.2)) ++
    (spec.metaKeyExists.entries.filter fun e => e.2).map fun e => (e.1, .null)

theorem sampleHeader_meta? (ms : List (String × Jsonb)) (key : String) :
    (sampleHeader spec ms).meta? key = ms.lookup key := rfl

theorem lookup_map_of_mem {α β : Type} {l : List (String × α)} (hnd : (l.map Prod.fst).Nodup)
    {e : String × α} (he : e ∈ l) (f : α → β) :
    (l.map fun e => (e.1, f e.2)).lookup e.1 = some (f e.2) := by
  induction l with
  | nil => cases he
  | cons x l ih =>
    simp only [List.map_cons, List.nodup_cons] at hnd
    rcases List.mem_cons.mp he with rfl | he
    · simp
    · have hne : e.1 ≠ x.1 := fun heq => hnd.1 (List.mem_map.mpr ⟨e, he, heq⟩)
      have hb : (e.1 == x.1) = false := by simpa using hne
      rw [List.map_cons, List.lookup_cons, hb]
      exact ih hnd.2 he

theorem lookup_isSome_iff {α : Type} {l : List (String × α)} {key : String} :
    (l.lookup key).isSome = true ↔ key ∈ l.map Prod.fst := by
  induction l with
  | nil => simp
  | cons x l ih =>
    rw [List.lookup_cons]
    by_cases hk : key = x.1
    · simp [hk]
    · have hb : (key == x.1) = false := by simpa using hk
      simp [hb, ih, hk]

/-- A consistent specification matches its sample. -/
theorem sample_matches (spec : FactSpec) (hc : spec.Consistent) : spec.Matches (sampleHeader spec (sampleMeta spec)) := by
  refine ⟨.inr rfl, ?_, ?_, ?_, ?_⟩
  · intro t ht
    show some (Jsonb.str (spec.type.getD "")) = _
    rw [ht]
    rfl
  · intro _
    exact ⟨_, rfl, fun id hid => List.mem_map.mpr ⟨id, hid, rfl⟩⟩
  · intro e he
    rw [sampleHeader_meta?, sampleMeta, List.lookup_append,
      lookup_map_of_mem spec.meta.nodup he Jsonb.str]
    rfl
  · intro e he
    rw [sampleHeader_meta?, lookup_isSome_iff]
    simp only [sampleMeta, List.map_append, List.map_map, List.mem_append, List.mem_map,
      List.mem_filter, Function.comp_apply]
    refine ⟨fun hb => .inr ⟨e, ⟨he, hb⟩, rfl⟩, ?_⟩
    rintro (⟨f, hf, hfe⟩ | ⟨f, ⟨hf, hb⟩, hfe⟩)
    · by_contra hb
      exact hc e he (by simpa using hb) f hf hfe
    · -- keys are distinct, so the entry found is the one asked for
      have h₁ := lookup_map_of_mem spec.metaKeyExists.nodup he id
      have h₂ := lookup_map_of_mem spec.metaKeyExists.nodup hf id
      rw [hfe] at h₂
      rw [h₁] at h₂
      have hbe : e.2 = f.2 := by simpa using h₂
      rw [hbe, hb]

/-- A statement that means what it says selects what matches and nothing else. -/
theorem criteria_of_denotes (hd : Denotes jp [spec]) (h : Header) :
    (∀ c ∈ criteria spec, c.WellFormed jp) ∧
      ((∀ c ∈ criteria spec, c.holds jp h.json = true) ↔ spec.Matches h) := by
  obtain ⟨select, hsel, hrow⟩ := hd 0
  rw [selected_eq] at hsel
  split at hsel
  · rename_i hwf
    cases hsel
    refine ⟨hwf.2 spec (by simp), ?_⟩
    -- any row with this header will do, above serial zero
    have := hrow ⟨1, ⟨⟨0⟩, h, .null⟩⟩
    simpa using this
  · cases hsel

/-- A criterion that can be cast was written around a document. -/
theorem contains_of_holds {s : String} {d : Jsonb} (hwf : (⟨.contains, s⟩ : Criterion).WellFormed jp) :
    ∃ pattern, Json.parse s = some pattern ∧
      ((⟨.contains, s⟩ : Criterion).holds jp d = d.contains pattern) := by
  cases hp : Json.parse s with
  | none => simp [Criterion.WellFormed, Criterion.test, Conjunct.test, hp] at hwf
  | some pattern => exact ⟨pattern, rfl, by rw [Criterion.holds_of_test (Criterion.test_contains hp)]⟩

/-- A string spliced under a name, whose criterion holds of a header that has it
there, is plain. -/
theorem plain_of_holds (name : String) {s text : String} (hn : Json.Plain name)
    (ht : text.toList = '{' :: '"' :: (name.toList ++ '"' :: ':' :: ' ' :: '"' ::
      (s.toList ++ ['"', '}'])))
    (hwf : (⟨.contains, text⟩ : Criterion).WellFormed jp) {d : Jsonb}
    (hholds : (⟨.contains, text⟩ : Criterion).holds jp d = true) (hd : d.get? name = some (.str s)) :
    Json.Plain s := by
  obtain ⟨pattern, hp, heq⟩ := contains_of_holds (d := d) hwf
  obtain ⟨⟨w, hw⟩, hplain⟩ := Json.parse_member_tight hn ht hp
  obtain ⟨v, hv, hvw⟩ := Jsonb.contains_hasMember (heq ▸ hholds) hw
  rw [hd] at hv
  cases hv
  rw [Jsonb.str_contains.mp hvw] at hw
  exact hplain hw

/-- A document that contained a pattern until the value of one key of `meta` was
replaced: the pattern has that key, with the value it had. -/
theorem changed_meta {ms : List (String × Jsonb)} {key value other : String} {pattern : Jsonb}
    (hms : ms.lookup key = some (.str value))
    (hold : (sampleHeader spec ms).json.contains pattern = true)
    (hnew : ¬ (sampleHeader spec ((key, .str other) :: ms)).json.contains pattern = true) :
    ∃ e, pattern.HasMember "meta" e ∧ e.HasMember key (.str value) := by
  obtain ⟨name, e, v, hmem, hlookup, hve, hnone⟩ := Jsonb.contains_change hold hnew
  by_cases hname : name = "meta"
  · subst hname
    cases hlookup
    obtain ⟨k, q, w, hq, hw, hwq, hother⟩ := Jsonb.contains_change hve (hnone _ rfl)
    by_cases hk : k = key
    · subst hk
      rw [hms] at hw
      cases hw
      rw [Jsonb.str_contains.mp hwq] at hq
      exact ⟨e, hmem, hq⟩
    · have hb : (k == key) = false := by simpa using hk
      exact absurd hwq (hother w (by rw [List.lookup_cons, hb]; exact hw))
  · -- outside of `meta` the two headers are the same
    have hb : (name == "meta") = false := by simpa using hname
    refine absurd hve (hnone v ?_)
    simpa [sampleHeader, List.lookup_cons, hb] using hlookup

/-- Of the entries that do not satisfy `good` there is one that is longest. -/
theorem exists_longest {l : List (String × String)} {good : String × String → Prop}
    (h : ∃ e ∈ l, ¬ good e) : ∃ e ∈ l, ¬ good e ∧ ∀ f ∈ l, ¬ good f →
      f.1.toList.length + f.2.toList.length ≤ e.1.toList.length + e.2.toList.length := by
  classical
  obtain ⟨e₀, he₀, hbad⟩ := h
  obtain ⟨e, he, hmax⟩ := Finset.exists_max_image (l.toFinset.filter fun e => ¬ good e)
    (fun e => e.1.toList.length + e.2.toList.length) ⟨e₀, by simp [he₀, hbad]⟩
  simp only [Finset.mem_filter, List.mem_toFinset] at he hmax
  exact ⟨e, he.1, he.2, fun f hf hfb => hmax f ⟨hf, hfb⟩⟩

/-- If the other strings of the specification can be spliced, so can the entries
of `meta`. -/
theorem meta_plain_of_denotes (hc : spec.Consistent) (hns : Json.Plain spec.ns)
    (htype : ∀ t, spec.type = some t → Json.Plain t)
    (hkeys : ∀ e ∈ spec.metaKeyExists.entries, PathPlain e.1) (hd : Denotes jp [spec]) :
    ∀ e ∈ spec.meta.entries, Json.Plain e.1 ∧ Json.Plain e.2 := by
  by_contra hbad
  simp only [not_forall, exists_prop] at hbad
  obtain ⟨e, he, heb, hmax⟩ := exists_longest hbad
  obtain ⟨hwf, hiff⟩ := criteria_of_denotes hd (sampleHeader spec (sampleMeta spec))
  have hold := hiff.mpr (sample_matches spec hc)
  have hlookup : (sampleMeta spec).lookup e.1 = some (.str e.2) := (sample_matches spec hc).meta e he
  -- the longest entry that is not plain gets another value, so some criterion fails
  have hnew : ¬ spec.Matches (sampleHeader spec ((e.1, .str (e.2 ++ "x")) :: sampleMeta spec)) := by
    intro hm
    have := hm.meta e he
    rw [sampleHeader_meta?] at this
    simp at this
  obtain ⟨c, hcm, hcn⟩ : ∃ c ∈ criteria spec, ¬ c.holds jp
      (sampleHeader spec ((e.1, .str (e.2 ++ "x")) :: sampleMeta spec)).json = true := by
    by_contra hall
    refine hnew ((criteria_of_denotes hd _).2.mp fun c hcm => ?_)
    by_contra hcn
    exact hall ⟨c, hcm, hcn⟩
  have hco := hold c hcm
  have hcw := hwf c hcm
  rcases mem_criteria.mp hcm with ⟨_, rfl⟩ | ⟨t, ht, rfl⟩ | ⟨hne, rfl⟩ | ⟨f, hf, rfl⟩ | ⟨f, hf, rfl⟩
  · exact hcn ((asks_ns hns).holds_of_holds hco fun hp => hp)
  · exact hcn ((asks_type (htype t ht)).holds_of_holds hco fun hp => hp)
  · exact hcn ((asks_aggIds hne).holds_of_holds hco fun hp => hp)
  · obtain ⟨pattern, hp, hpo⟩ := contains_of_holds
      (d := (sampleHeader spec (sampleMeta spec)).json) hcw
    obtain ⟨pattern', hp', hpn⟩ := contains_of_holds
      (d := (sampleHeader spec ((e.1, .str (e.2 ++ "x")) :: sampleMeta spec)).json) hcw
    cases hp.symm.trans hp'
    rw [hpo] at hco
    rw [hpn] at hcn
    obtain ⟨d, hd₁, hd₂⟩ := changed_meta hlookup hco hcn
    have hplain : Json.Plain f.1 ∧ Json.Plain f.2 := by
      by_contra hfb
      exact hfb ((Json.parse_nested_tight (by decide) (by simp [metaText]) hp).2 d e.1 e.2 hd₁ hd₂
        (hmax f hf hfb))
    -- a plain entry's pattern has no key and value but its own
    rw [parse_metaText hplain.1 hplain.2] at hp
    cases hp
    obtain ⟨_, he₁, hm₁⟩ := hd₁
    cases he₁
    obtain rfl : d = .obj [(f.1, .str f.2)] := by simpa using hm₁
    obtain ⟨_, he₂, hm₂⟩ := hd₂
    cases he₂
    obtain ⟨h₁, h₂⟩ : e.1 = f.1 ∧ e.2 = f.2 := by simpa using hm₂
    exact heb (h₁ ▸ h₂ ▸ hplain)
  · have hsame : ((sampleHeader spec ((e.1, .str (e.2 ++ "x")) :: sampleMeta spec)).meta? f.1).isSome =
        ((sampleHeader spec (sampleMeta spec)).meta? f.1).isSome := by
      rw [sampleHeader_meta?, sampleHeader_meta?, List.lookup_cons]
      by_cases hfe : f.1 = e.1
      · rw [hfe, hlookup]
        simp
      · have hb : (f.1 == e.1) = false := by simpa using hfe
        rw [hb]
    refine hcn ((asks_metaKey (hkeys f hf)).holds_of_holds hco fun hiff => ?_)
    rw [hsame]
    exact hiff

/-- A consistent specification that means what it says is spliceable, as far as
its criteria are cast to documents. -/
theorem spliceable_of_denotes (hc : spec.Consistent)
    (hkeys : ∀ e ∈ spec.metaKeyExists.entries, PathPlain e.1) (hd : Denotes jp [spec]) :
    spec.Spliceable := by
  obtain ⟨hwf, hiff⟩ := criteria_of_denotes hd (sampleHeader spec (sampleMeta spec))
  have hholds := hiff.mpr (sample_matches spec hc)
  have hns : Json.Plain spec.ns := by
    by_cases hstar : spec.ns = "*"
    · rw [hstar]
      decide
    · have hmem := mem_criteria.mpr (.inl ⟨hstar, rfl⟩)
      exact plain_of_holds "ns" (by decide) (by simp [nsText]) (hwf _ hmem)
        (hholds _ hmem) rfl
  have htype : ∀ t, spec.type = some t → Json.Plain t := by
    intro t ht
    have hmem := mem_criteria.mpr (.inr (.inl ⟨t, ht, rfl⟩))
    refine plain_of_holds "type" (by decide) (by simp [typeText]) (hwf _ hmem)
      (hholds _ hmem) ?_
    show some (Jsonb.str (spec.type.getD "")) = _
    rw [ht]
    rfl
  exact ⟨hns, htype, meta_plain_of_denotes hc hns htype hkeys hd, hkeys⟩

/-! ### The statement and its specifications -/

/-- Placeholders and parameters are always in step. The statement denotes the
specifications whose strings can all be spliced, and a consistent specification
that its own statement denotes is one of these, as far as its paths are known. -/
theorem statement_denotes (jp : JsonPath) (specs : List FactSpec) (hne : specs ≠ []) :
    (∀ serial, (createSQL specs).toList.count '?' =
        (createStatementSetter specs serial ⟨[]⟩).params.length ∧
      ∀ n, (createStatementSetter specs serial ⟨[]⟩).bound (n + 1) =
        ((createStatementSetter specs serial ⟨[]⟩).params.map Prod.snd)[n]?) ∧
    ((∀ spec ∈ specs, spec.Spliceable) → Denotes jp specs) ∧
    ∀ spec ∈ specs, spec.Consistent → (∀ e ∈ spec.metaKeyExists.entries, PathPlain e.1) →
      (Denotes jp [spec] ↔ spec.Spliceable) := by
  refine ⟨fun serial => createSQL_bound specs serial, denotes_of_spliceable jp hne, ?_⟩
  intro spec _ hc hkeys
  refine ⟨spliceable_of_denotes hc hkeys, fun hs => denotes_of_spliceable jp (by simp) ?_⟩
  intro spec' hmem
  rw [List.mem_singleton.mp hmem]
  exact hs

/-- Everything a specification can ask for. -/
def orderPlaced : FactSpec where
  ns := "orders"
  ns_given := orders_given
  type := some "OrderPlaced"
  aggId := some ⟨7⟩
  aggIds := [⟨1⟩, ⟨2⟩]
  «meta» := ⟨[("tenant", "blue"), ("source", "web")], by decide⟩
  metaKeyExists := ⟨[("audit", true), ("deleted", false)], by decide⟩

theorem statement_denotes_orderPlaced : Denotes JsonPath.quoted [orderPlaced] := by
  refine (statement_denotes JsonPath.quoted [orderPlaced] (by simp)).2.1 fun spec hspec => ?_
  rw [List.mem_singleton.mp hspec]
  refine ⟨by decide, ?_, by decide, by simp [orderPlaced, PgQueryBuilder.PathPlain]⟩
  intro t ht
  cases ht
  decide

/-- A specification of every namespace. -/
def everything : FactSpec where
  ns := "*"
  ns_given := any_given

/-- A namespace that ends the string it is spliced into and names another. -/
def otherNamespace : FactSpec where
  ns := "orders\", \"ns\": \"secret"
  ns_given := by decide

/-- A fact of the namespace `secret`. -/
def secretRow : FactRow where
  ser := 1
  fact :=
    { id := ⟨0⟩
      header := ⟨[("ns", .str "secret")], by decide, fun _ h => nomatch h⟩
      payload := .null }

theorem otherNamespace_not_denoted : ¬ Denotes JsonPath.quoted [otherNamespace] := by
  intro hd
  obtain ⟨select, hsel, hrow⟩ := hd 0
  have hselects : (selected JsonPath.quoted [otherNamespace] 0).any (fun s => s secretRow) = true := by
    decide +kernel
  rw [hsel] at hselects
  obtain ⟨_, spec, hspec, hm⟩ := (hrow secretRow).mp hselects
  obtain rfl := List.mem_singleton.mp hspec
  rcases hm.ns with hstar | hns
  · exact absurd hstar (by decide)
  · have hne : "secret" ≠ otherNamespace.ns := by decide
    exact hne (by simpa [Header.json, secretRow] using hns)

end PgQueryBuilder
end FactCast
