import FactCast.Cli.Validation
import FactCast.Json.Document

/-! What is known of a project that was validated.

A project is validated in two steps: its folders, then its examples and transformations. Of an
accepted one nothing of the first step is left but that folders have different names,
and of the second that there are no errors (`accepted_of_validateProject`). -/
namespace FactCast.SchemaRegistryCli

open MissingTransformationCalculator

section Accepted
variable {J S ρ ε : Type}

/-- All examples of the one version can be read, and have the schema of the other. -/
def TakenOver (tools : Tools J S ρ ε) (v w : Version) : Prop :=
  ∃ schema, loadSchema tools w.schemaPath = .ok schema ∧ ∀ e ∈ v.examples, ∃ json,
    tools.readToJsonNode e.exampleFilePath = some json ∧ tools.isSuccess (tools.validate schema json) = true

/-- Nothing was to be reported of the project. -/
structure Accepted (tools : Tools J S ρ ε) (project : Project) : Prop where
  names : (project.namespaces.map Namespace.name).Nodup
  types : ∀ ns ∈ project.namespaces, (ns.events.map Event.type).Nodup
  versions : ∀ ns ∈ project.namespaces, ∀ event ∈ ns.events, event.versions.Nodup
  upcasts : ∀ ns ∈ project.namespaces, ∀ event ∈ ns.events, calculateUpcastTransformations event = []
  downcasts : ∀ ns ∈ project.namespaces, ∀ event ∈ ns.events,
    ∀ pair ∈ calculateDowncastTransformations event, TakenOver tools pair.1 pair.2
  transformations : ∀ ns ∈ project.namespaces, ∀ event ∈ ns.events, ∀ t ∈ event.transformations,
    ∀ version, version = t.from ∨ version = t.to → ∃ v ∈ event.versions, v.version = version

variable {tools : Tools J S ρ ε} {project : Project} {α : Type}

/-! ### Structure -/

theorem mem_mapEvents {fn : Namespace → Event → α} {a : α} : a ∈ project.mapEvents fn ↔
    ∃ ns ∈ project.namespaces, ∃ event ∈ ns.events, fn ns event = a := by
  simp [Project.mapEvents]

theorem mem_mapEventVersions {fn : Namespace → Event → Version → α} {a : α} :
    a ∈ project.mapEventVersions fn ↔
      ∃ ns ∈ project.namespaces, ∃ event ∈ ns.events, ∃ v ∈ event.versions, fn ns event v = a := by
  simp [Project.mapEventVersions]

theorem mem_mapEventTransformations {fn : Namespace → Event → Transformation → α} {a : α} :
    a ∈ project.mapEventTransformations fn ↔
      ∃ ns ∈ project.namespaces, ∃ event ∈ ns.events, ∃ t ∈ event.transformations, fn ns event t = a := by
  simp [Project.mapEventTransformations]

/-- Versions are told apart by their schema files. -/
theorem toEvent_versions {folder : EventFolder} {event : Event} (h : folder.toEvent tools = some event) :
    event.type = fileName folder.path ∧ event.versions.Nodup := by
  obtain ⟨description, -, h⟩ := Option.bind_eq_some_iff.mp h
  obtain ⟨versions, hversions, h⟩ := Option.bind_eq_some_iff.mp h
  obtain ⟨transformations, -, h⟩ := Option.bind_eq_some_iff.mp h
  cases h
  have hschema : versions.map Version.schemaPath =
      folder.versionFolders.map fun folder => folder.path ++ ["schema.json"] := by
    refine map_mapM (fun folder version hversion => ?_) hversions
    obtain ⟨number, -, h⟩ := Option.bind_eq_some_iff.mp hversion
    obtain ⟨schema, hschema, h⟩ := Option.bind_eq_some_iff.mp h
    obtain ⟨description, -, h⟩ := Option.bind_eq_some_iff.mp h
    cases h
    exact folder.schema_path schema hschema
  have hdistinct : (versions.map Version.schemaPath).Nodup := by
    rw [hschema, show (fun folder : EventVersionFolder => folder.path ++ ["schema.json"]) =
      (· ++ ["schema.json"]) ∘ EventVersionFolder.path from rfl, ← List.map_map]
    exact folder.distinct.map (List.append_left_injective _)
  exact ⟨rfl, hdistinct.of_map⟩

theorem toNamespace_events {folder : NamespaceFolder} {ns : Namespace}
    (h : folder.toNamespace tools = some ns) :
    ns.name = fileName folder.path ∧ (ns.events.map Event.type).Nodup ∧
      ∀ event ∈ ns.events, event.versions.Nodup := by
  obtain ⟨description, -, h⟩ := Option.bind_eq_some_iff.mp h
  obtain ⟨events, hevents, h⟩ := Option.bind_eq_some_iff.mp h
  cases h
  refine ⟨rfl, ?_, fun event hevent => ?_⟩
  · rw [map_mapM (fun _ _ h => (toEvent_versions h).1) hevents]
    exact folder.distinct
  · obtain ⟨eventFolder, -, h⟩ := exists_of_mem_mapM hevents event hevent
    exact (toEvent_versions h).2

theorem toProject_namespaces {folder : ProjectFolder} (h : folder.toProject tools = some project) :
    (project.namespaces.map Namespace.name).Nodup ∧ ∀ ns ∈ project.namespaces,
      (ns.events.map Event.type).Nodup ∧ ∀ event ∈ ns.events, event.versions.Nodup := by
  obtain ⟨namespaces, hnamespaces, h⟩ := Option.bind_eq_some_iff.mp h
  cases h
  refine ⟨?_, fun ns hns => ?_⟩
  · rw [map_mapM (fun _ _ h => (toNamespace_events h).1) hnamespaces]
    exact folder.distinct
  · obtain ⟨namespaceFolder, -, h⟩ := exists_of_mem_mapM hnamespaces ns hns
    exact (toNamespace_events h).2

theorem validateProject_ok {folder : ProjectFolder} (h : validateProject tools folder = .ok project) :
    folder.toProject tools = some project ∧ validateExamples tools project = [] ∧
      validateTransformations tools project = [] := by
  have hstructure : validateProjectStructure tools folder = .ok project ∧
      (validateExamples tools project ++ validateTransformations tools project).isEmpty = true := by
    unfold validateProject at h
    cases hs : validateProjectStructure tools folder with
    | error failure =>
      rw [hs] at h
      cases h
    | ok validated =>
      rw [hs] at h
      dsimp only at h
      split at h
      · cases h
        exact ⟨rfl, ‹_›⟩
      · cases h
  obtain ⟨hs, hempty⟩ := hstructure
  obtain ⟨hexamples, htransformations⟩ := List.append_eq_nil_iff.mp (List.isEmpty_iff.mp hempty)
  refine ⟨?_, hexamples, htransformations⟩
  simp only [validateProjectStructure] at hs
  split at hs
  · split at hs
    · cases hs
      assumption
    · cases hs
  · cases hs

/-! ### Neighbouring versions -/

section Neighbouring
variable {event : Event} {pair : Version × Version}

def versionsDescending (event : Event) : List Version :=
  event.versions.insertionSort fun v w => w.version ≤ v.version

def versionsAscending (event : Event) : List Version :=
  event.versions.insertionSort fun v w => v.version ≤ w.version

theorem mem_versionsDescending {v : Version} : v ∈ versionsDescending event ↔ v ∈ event.versions :=
  List.mem_insertionSort _

theorem mem_versionsAscending {v : Version} : v ∈ versionsAscending event ↔ v ∈ event.versions :=
  List.mem_insertionSort _

theorem pairwise_versionsDescending : (versionsDescending event).Pairwise fun v w => w.version ≤ v.version :=
  have : Std.Total fun v w : Version => w.version ≤ v.version := ⟨fun v w => le_total w.version v.version⟩
  have : IsTrans Version fun v w => w.version ≤ v.version := ⟨fun _ _ _ h h' => h'.trans h⟩
  List.pairwise_insertionSort _ _

theorem pairwise_versionsAscending : (versionsAscending event).Pairwise fun v w => v.version ≤ w.version :=
  have : Std.Total fun v w : Version => v.version ≤ w.version := ⟨fun v w => le_total v.version w.version⟩
  have : IsTrans Version fun v w => v.version ≤ w.version := ⟨fun _ _ _ h h' => h.trans h'⟩
  List.pairwise_insertionSort _ _

/-- Only the last version has none that follows it. -/
theorem mem_calculateMissingTransformations {l : List Version} {transformations : List Transformation}
    (hl : l.Nodup) : pair ∈ calculateMissingTransformations l transformations ↔ pair ∈ neighbours l ∧
      ∀ t ∈ transformations, ¬ (t.from = pair.1.version ∧ t.to = pair.2.version) := by
  have hnone : (transformations.all fun t => !(t.from == pair.1.version && t.to == pair.2.version)) = true ↔
      ∀ t ∈ transformations, ¬ (t.from = pair.1.version ∧ t.to = pair.2.version) := by
    simp [List.all_eq_true, imp_iff_not_or]
  unfold calculateMissingTransformations
  rw [List.mem_filter, List.mem_filter, hnone]
  constructor
  · rintro ⟨⟨hpair, -⟩, hmissing⟩
    exact ⟨hpair, hmissing⟩
  · rintro ⟨hpair, hmissing⟩
    exact ⟨⟨hpair, decide_eq_true (ne_last_of_neighbours hl hpair)⟩, hmissing⟩

theorem mem_of_downcast (h : pair ∈ calculateDowncastTransformations event) :
    pair.1 ∈ event.versions ∧ pair.2 ∈ event.versions := by
  have hpair : pair ∈ neighbours (versionsDescending event) :=
    List.mem_of_mem_filter (List.mem_of_mem_filter h)
  obtain ⟨hv, hw⟩ := mem_of_neighbours hpair
  exact ⟨mem_versionsDescending.mp hv, mem_versionsDescending.mp hw⟩

theorem mem_calculateDowncastTransformations (hversions : event.versions.Nodup) :
    pair ∈ calculateDowncastTransformations event ↔ pair ∈ neighbours (versionsDescending event) ∧
      ∀ t ∈ event.transformations, ¬ (t.from = pair.1.version ∧ t.to = pair.2.version) :=
  mem_calculateMissingTransformations ((List.perm_insertionSort _ _).nodup_iff.mpr hversions)

theorem upcast_of_neighbours (hversions : event.versions.Nodup)
    (h : calculateUpcastTransformations event = []) (hpair : pair ∈ neighbours (versionsAscending event)) :
    ∃ t ∈ event.transformations, t.from = pair.1.version ∧ t.to = pair.2.version := by
  by_contra hnone
  have hmissing : pair ∈ calculateUpcastTransformations event :=
    (mem_calculateMissingTransformations ((List.perm_insertionSort _ _).nodup_iff.mpr hversions)).mpr
      ⟨hpair, fun t ht hends => hnone ⟨t, ht, hends⟩⟩
  rw [h] at hmissing
  cases hmissing

end Neighbouring

/-! ### What validation leaves -/

section Errors
variable {ns : Namespace} {event : Event}

/-- The first example that does not have the schema would be reported. -/
theorem takenOver_of_examples {v w : Version} {f : J → ρ → ProjectError ρ ε} {schema : S}
    (hschema : loadSchema tools w.schemaPath = .ok schema)
    (hread : ∀ e ∈ v.examples, ∃ json, tools.readToJsonNode e.exampleFilePath = some json)
    (h : ((examplesOf tools v).filterMap fun data =>
      if tools.isSuccess (tools.validate schema data) then none
      else some (f data (tools.validate schema data))) = []) : TakenOver tools v w := by
  refine ⟨schema, hschema, fun e he => ?_⟩
  obtain ⟨json, hjson⟩ := hread e he
  have hdata : json ∈ examplesOf tools v := List.mem_filterMap.mpr ⟨e, he, hjson⟩
  have hvalid := List.filterMap_eq_nil_iff.mp h json hdata
  refine ⟨json, hjson, ?_⟩
  by_contra hno
  rw [if_neg hno] at hvalid
  cases hvalid

theorem readable_of_validateExamples (h : validateExamples tools project = []) (hns : ns ∈ project.namespaces)
    (hevent : event ∈ ns.events) {v : Version} (hv : v ∈ event.versions) {e : Example} (he : e ∈ v.examples) :
    ∃ json, tools.readToJsonNode e.exampleFilePath = some json := by
  have hall := List.flatten_eq_nil_iff.mp h _ (mem_mapEventVersions.mpr ⟨ns, hns, event, hevent, v, hv, rfl⟩)
  cases hschema : loadSchema tools v.schemaPath with
  | error error =>
    rw [hschema] at hall
    cases hall
  | ok schema =>
    rw [hschema] at hall
    have hnone := List.filterMap_eq_nil_iff.mp hall e he
    cases hjson : tools.readToJsonNode e.exampleFilePath with
    | none =>
      rw [hjson] at hnone
      cases hnone
    | some json => exact ⟨json, rfl⟩

theorem takenOver_of_downcasts (hexamples : validateExamples tools project = [])
    (h : calculateNoopDowncastErrors tools project = []) (hns : ns ∈ project.namespaces)
    (hevent : event ∈ ns.events) {pair : Version × Version}
    (hpair : pair ∈ calculateDowncastTransformations event) (hv : pair.1 ∈ event.versions) :
    TakenOver tools pair.1 pair.2 := by
  have hall := List.flatten_eq_nil_iff.mp h _ (mem_mapEvents.mpr ⟨ns, hns, event, hevent, rfl⟩)
  have hnone := List.flatMap_eq_nil_iff.mp hall pair hpair
  cases hschema : loadSchema tools pair.2.schemaPath with
  | error error =>
    rw [hschema] at hnone
    cases hnone
  | ok schema =>
    rw [hschema] at hnone
    exact takenOver_of_examples hschema
      (fun e he => readable_of_validateExamples hexamples hns hevent hv he) hnone

theorem versions_of_transformation (h : calculateValidationErrors tools project = [])
    (hns : ns ∈ project.namespaces) (hevent : event ∈ ns.events) {t : Transformation}
    (ht : t ∈ event.transformations) {version : Int} (hversion : version = t.from ∨ version = t.to) :
    ∃ v ∈ event.versions, v.version = version := by
  have hnone := List.flatten_eq_nil_iff.mp h _
    (mem_mapEventTransformations.mpr ⟨ns, hns, event, hevent, t, ht, rfl⟩)
  dsimp only at hnone
  split at hnone
  · next fromVersion toVersion hfrom hto =>
    rcases hversion with rfl | rfl
    · exact ⟨fromVersion, List.mem_of_find?_eq_some hfrom, by simpa using List.find?_some hfrom⟩
    · exact ⟨toVersion, List.mem_of_find?_eq_some hto, by simpa using List.find?_some hto⟩
  · cases hnone

/-- Nothing is left to be reported. -/
theorem accepted_of_validateProject {folder : ProjectFolder}
    (h : validateProject tools folder = .ok project) :
    Accepted tools project := by
  obtain ⟨hproject, hexamples, htransformations⟩ := validateProject_ok h
  obtain ⟨hbefore, hvalidation⟩ := List.append_eq_nil_iff.mp htransformations
  obtain ⟨hdowncasts, hupcasts⟩ := List.append_eq_nil_iff.mp hbefore
  obtain ⟨hnames, hnamespaces⟩ := toProject_namespaces hproject
  refine ⟨hnames, fun ns hns => (hnamespaces ns hns).1, fun ns hns => (hnamespaces ns hns).2,
    fun ns hns event hevent => ?_, fun ns hns event hevent pair hpair => ?_,
    fun ns hns event hevent t ht version => versions_of_transformation hvalidation hns hevent ht⟩
  · exact List.map_eq_nil_iff.mp
      (List.flatten_eq_nil_iff.mp hupcasts _ (mem_mapEvents.mpr ⟨ns, hns, event, hevent, rfl⟩))
  · exact takenOver_of_downcasts hexamples hdowncasts hns hevent hpair (mem_of_downcast hpair).1

end Errors

end Accepted

end FactCast.SchemaRegistryCli
