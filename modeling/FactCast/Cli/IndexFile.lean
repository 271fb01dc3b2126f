import FactCast.Cli.Accepted
import FactCast.Machine.Route

/-! The index of a validated project.

An index names the schemas of all versions and the transformations between them. Those
that are missing from a version to the one before are added without a script; they are
synthetic.

A validated project has an index in which every version of an event leads to every
other one, and no transformation leads to a version that is not there. A synthetic
transformation is accepted because examples of the one version have the schema of the
other, but two folders may stand for one version, say `2` and `02`, and then examples
of only one of them were looked at. `complete_iff` says for which projects all
examples can be taken over. -/
namespace FactCast.SchemaRegistryCli

/-! ### The index -/

structure Schema where
  id : String
  ns : String
  type : String
  version : Int
  hash : String

/-- A transformation without a script has no hash. -/
structure IndexTransformation where
  id : String
  ns : String
  type : String
  «from» : Int
  «to» : Int
  hash : Option String
deriving DecidableEq

structure Index where
  schemes : List Schema
  transformations : List IndexTransformation

def getEventId (ns : Namespace) (event : Event) (version : Version) : String :=
  ns.name ++ "/" ++ event.type ++ "/" ++ toString version.version ++ "/schema.json"

def getTransformationId (ns : Namespace) (event : Event) (fromVersion toVersion : Int) : String :=
  ns.name ++ "/" ++ event.type ++ "/" ++ toString fromVersion ++ "-" ++ toString toVersion ++ "/transform.js"

open MissingTransformationCalculator

def fileBasedTransformation (createMd5Hash : Path → String) (ns : Namespace) (event : Event)
    (t : Transformation) : IndexTransformation :=
  ⟨getTransformationId ns event t.from t.to, ns.name, event.type, t.from, t.to,
    some (createMd5Hash t.transformationPath)⟩

def syntheticTransformation (ns : Namespace) (event : Event) (pair : Version × Version) :
    IndexTransformation :=
  ⟨"synthetic/" ++ getTransformationId ns event pair.1.version pair.2.version, ns.name, event.type,
    pair.1.version, pair.2.version, none⟩

/-- Schemas have a hash of their own, as properties may be removed from them. -/
def calculateIndex (createSchemaHash createMd5Hash : Path → String) (project : Project) : Index where
  schemes := project.mapEventVersions fun ns event version =>
    ⟨getEventId ns event version, ns.name, event.type, version.version, createSchemaHash version.schemaPath⟩
  transformations :=
    project.mapEventTransformations (fileBasedTransformation createMd5Hash) ++
      (project.mapEvents fun ns event =>
        (calculateDowncastTransformations event).map (syntheticTransformation ns event)).flatten

/-- The transformations of an event. -/
def Index.stepsOf (index : Index) (ns : Namespace) (event : Event) : List IndexTransformation :=
  index.transformations.filter fun t => t.ns == ns.name && t.type == event.type

/-! ### What is expected of it -/

section Complete
variable {J S ρ ε : Type} (tools : Tools J S ρ ε)

/-- Versions lead to each other, transformations to versions, and what has no script
needs none. -/
structure Complete (project : Project) (index : Index) : Prop where
  paths : ∀ ns ∈ project.namespaces, ∀ event ∈ ns.events, ∀ v ∈ event.versions, ∀ w ∈ event.versions,
    ∃ path, Route IndexTransformation.from IndexTransformation.to (index.stepsOf ns event)
      v.version path w.version
  versions : ∀ t ∈ index.transformations, ∀ version, version = t.from ∨ version = t.to →
    ∃ s ∈ index.schemes, s.ns = t.ns ∧ s.type = t.type ∧ s.version = version
  synthetic : ∀ t ∈ index.transformations, t.hash = none → ∀ ns ∈ project.namespaces, ∀ event ∈ ns.events,
    ns.name = t.ns → event.type = t.type → ∀ v ∈ event.versions, ∀ w ∈ event.versions,
      v.version = t.from → w.version = t.to → TakenOver tools v w

/-- Another folder stands for the same version. -/
def Shared (event : Event) (v : Version) : Prop :=
  ∃ other ∈ event.versions, other ≠ v ∧ other.version = v.version

/-- Of versions that several folders stand for, examples of each have the schema of
the version before, if there is no transformation to it. -/
def Unambiguous (project : Project) : Prop :=
  ∀ ns ∈ project.namespaces, ∀ event ∈ ns.events, ∀ v ∈ event.versions, ∀ w ∈ event.versions,
    w.version < v.version → (∀ u ∈ event.versions, v.version ≤ u.version ∨ u.version ≤ w.version) →
    (∀ t ∈ event.transformations, ¬ (t.from = v.version ∧ t.to = w.version)) →
    Shared event v ∨ Shared event w → TakenOver tools v w

end Complete

section Proofs
variable {J S ρ ε : Type} {tools : Tools J S ρ ε} {project : Project} {ns : Namespace} {event : Event}
  {createSchemaHash createMd5Hash : Path → String} {t : IndexTransformation} {v w : Version}

/-! ### The transformations of an index -/

theorem mem_transformations : t ∈ (calculateIndex createSchemaHash createMd5Hash project).transformations ↔
    (∃ ns ∈ project.namespaces, ∃ event ∈ ns.events, ∃ s ∈ event.transformations,
      fileBasedTransformation createMd5Hash ns event s = t) ∨
    ∃ ns ∈ project.namespaces, ∃ event ∈ ns.events, ∃ pair ∈ calculateDowncastTransformations event,
      syntheticTransformation ns event pair = t := by
  unfold calculateIndex
  rw [List.mem_append, mem_mapEventTransformations, List.mem_flatten]
  refine or_congr_right ⟨?_, ?_⟩
  · rintro ⟨l, hl, ht⟩
    obtain ⟨ns, hns, event, hevent, rfl⟩ := mem_mapEvents.mp hl
    exact ⟨ns, hns, event, hevent, List.mem_map.mp ht⟩
  · rintro ⟨ns, hns, event, hevent, ht⟩
    exact ⟨_, mem_mapEvents.mpr ⟨ns, hns, event, hevent, rfl⟩, List.mem_map.mpr ht⟩

theorem mem_stepsOf {index : Index} :
    t ∈ index.stepsOf ns event ↔ t ∈ index.transformations ∧ t.ns = ns.name ∧ t.type = event.type := by
  simp [Index.stepsOf]

/-! ### Paths -/

/-- The steps of an event lead from a version to another. -/
def Leads (index : Index) (ns : Namespace) (event : Event) (v w : Version) : Prop :=
  ∃ path, Route IndexTransformation.from IndexTransformation.to (index.stepsOf ns event)
    v.version path w.version

theorem leads_trans {index : Index} (a b c : Version) (h : Leads index ns event a b)
    (h' : Leads index ns event b c) : Leads index ns event a c := by
  obtain ⟨path, hpath⟩ := h
  obtain ⟨path', hpath'⟩ := h'
  exact ⟨path ++ path', hpath.append hpath'⟩

theorem leads_of_transformation (hns : ns ∈ project.namespaces) (hevent : event ∈ ns.events)
    {s : Transformation} (hs : s ∈ event.transformations) (hv : s.from = v.version) (hw : s.to = w.version) :
    Leads (calculateIndex createSchemaHash createMd5Hash project) ns event v w := by
  have hstep : fileBasedTransformation createMd5Hash ns event s ∈
      (calculateIndex createSchemaHash createMd5Hash project).stepsOf ns event :=
    mem_stepsOf.mpr ⟨mem_transformations.mpr (.inl ⟨ns, hns, event, hevent, s, hs, rfl⟩), rfl, rfl⟩
  have hroute : Route IndexTransformation.from IndexTransformation.to
      ((calculateIndex createSchemaHash createMd5Hash project).stepsOf ns event) s.from
      [fileBasedTransformation createMd5Hash ns event s] s.to := Route.single hstep
  rw [hv, hw] at hroute
  exact ⟨_, hroute⟩

theorem leads_of_synthetic (hns : ns ∈ project.namespaces) (hevent : event ∈ ns.events)
    {pair : Version × Version} (hpair : pair ∈ calculateDowncastTransformations event) :
    Leads (calculateIndex createSchemaHash createMd5Hash project) ns event pair.1 pair.2 := by
  have hstep : syntheticTransformation ns event pair ∈
      (calculateIndex createSchemaHash createMd5Hash project).stepsOf ns event :=
    mem_stepsOf.mpr ⟨mem_transformations.mpr (.inr ⟨ns, hns, event, hevent, pair, hpair, rfl⟩), rfl, rfl⟩
  exact ⟨_, Route.single hstep⟩

theorem leads_up (h : Accepted tools project) (hns : ns ∈ project.namespaces) (hevent : event ∈ ns.events) :
    (versionsAscending event).Pairwise
      (Leads (calculateIndex createSchemaHash createMd5Hash project) ns event) := by
  refine pairwise_of_neighbours leads_trans fun pair hpair => ?_
  obtain ⟨s, hs, hfrom, hto⟩ :=
    upcast_of_neighbours (h.versions ns hns event hevent) (h.upcasts ns hns event hevent) hpair
  exact leads_of_transformation hns hevent hs hfrom hto

/-- A step down has a script, or is added. -/
theorem leads_down (h : Accepted tools project) (hns : ns ∈ project.namespaces) (hevent : event ∈ ns.events) :
    (versionsDescending event).Pairwise
      (Leads (calculateIndex createSchemaHash createMd5Hash project) ns event) := by
  refine pairwise_of_neighbours leads_trans fun pair hpair => ?_
  by_cases hexists : ∃ s ∈ event.transformations, s.from = pair.1.version ∧ s.to = pair.2.version
  · obtain ⟨s, hs, hfrom, hto⟩ := hexists
    exact leads_of_transformation hns hevent hs hfrom hto
  · have hmissing := (mem_calculateDowncastTransformations (h.versions ns hns event hevent)).mpr
      ⟨hpair, fun s hs hends => hexists ⟨s, hs, hends⟩⟩
    exact leads_of_synthetic hns hevent hmissing

theorem leads_of_accepted (h : Accepted tools project) (hns : ns ∈ project.namespaces)
    (hevent : event ∈ ns.events) (hv : v ∈ event.versions) (hw : w ∈ event.versions) :
    Leads (calculateIndex createSchemaHash createMd5Hash project) ns event v w := by
  rcases lt_trichotomy v.version w.version with hlt | heq | hgt
  · exact rel_of_not_rel pairwise_versionsAscending (leads_up h hns hevent) (mem_versionsAscending.mpr hv)
      (mem_versionsAscending.mpr hw) (fun heq => hlt.ne (heq ▸ rfl)) hlt.not_ge
  · exact ⟨[], heq⟩
  · exact rel_of_not_rel pairwise_versionsDescending (leads_down h hns hevent) (mem_versionsDescending.mpr hv)
      (mem_versionsDescending.mpr hw) (fun heq => hgt.ne (heq ▸ rfl)) hgt.not_ge

/-! ### Versions -/

theorem schema_of_version (hns : ns ∈ project.namespaces) (hevent : event ∈ ns.events)
    (hv : v ∈ event.versions) :
    ∃ s ∈ (calculateIndex createSchemaHash createMd5Hash project).schemes,
      s.ns = ns.name ∧ s.type = event.type ∧ s.version = v.version :=
  ⟨_, mem_mapEventVersions.mpr ⟨ns, hns, event, hevent, v, hv, rfl⟩, rfl, rfl, rfl⟩

theorem versions_of_accepted (h : Accepted tools project)
    (ht : t ∈ (calculateIndex createSchemaHash createMd5Hash project).transformations) {version : Int}
    (hversion : version = t.from ∨ version = t.to) :
    ∃ s ∈ (calculateIndex createSchemaHash createMd5Hash project).schemes,
      s.ns = t.ns ∧ s.type = t.type ∧ s.version = version := by
  rcases mem_transformations.mp ht with ⟨ns, hns, event, hevent, s, hs, rfl⟩ |
    ⟨ns, hns, event, hevent, pair, hpair, rfl⟩
  · obtain ⟨v, hv, rfl⟩ := h.transformations ns hns event hevent s hs version hversion
    exact schema_of_version hns hevent hv
  · obtain ⟨hfrom, hto⟩ := mem_of_downcast hpair
    rcases hversion with rfl | rfl
    · exact schema_of_version hns hevent hfrom
    · exact schema_of_version hns hevent hto

/-! ### What needs no script -/

/-- Folders for one version lead to each other by a transformation. -/
theorem transformation_of_shared (h : Accepted tools project) (hns : ns ∈ project.namespaces)
    (hevent : event ∈ ns.events) (hv : v ∈ event.versions) (hw : w ∈ event.versions) (hne : v ≠ w)
    (heq : v.version = w.version) :
    ∃ s ∈ event.transformations, s.from = v.version ∧ s.to = v.version := by
  let Stays (v w : Version) : Prop :=
    v.version = w.version → ∃ s ∈ event.transformations, s.from = v.version ∧ s.to = v.version
  have hchain : (versionsAscending event).Pairwise fun v w => v.version ≤ w.version ∧ Stays v w := by
    refine pairwise_of_neighbours (fun a b c hab hbc => ?_) fun pair hpair => ?_
    · exact ⟨hab.1.trans hbc.1, fun hac => hab.2 (le_antisymm hab.1 (hac ▸ hbc.1))⟩
    · obtain ⟨s, hs, hfrom, hto⟩ :=
        upcast_of_neighbours (h.versions ns hns event hevent) (h.upcasts ns hns event hevent) hpair
      have hle := rel_of_neighbours pairwise_versionsAscending hpair
      exact ⟨hle, fun heq => ⟨s, hs, hfrom, hto.trans heq.symm⟩⟩
  have : Std.Symm Stays := ⟨fun a b hab hba => hba ▸ hab hba.symm⟩
  exact (hchain.imp And.right).forall (mem_versionsAscending.mpr hv) (mem_versionsAscending.mpr hw) hne heq

/-- Nothing comes between the versions of a missing step, which leads down. -/
theorem between_of_downcast (h : Accepted tools project) (hns : ns ∈ project.namespaces)
    (hevent : event ∈ ns.events) {pair : Version × Version}
    (hpair : pair ∈ calculateDowncastTransformations event) : pair.2.version < pair.1.version ∧
      ∀ u ∈ event.versions, pair.1.version ≤ u.version ∨ u.version ≤ pair.2.version := by
  have hversions := h.versions ns hns event hevent
  obtain ⟨hneighbours, hmissing⟩ := (mem_calculateDowncastTransformations hversions).mp hpair
  obtain ⟨hv, hw⟩ := mem_of_downcast hpair
  have hne : pair.1 ≠ pair.2 :=
    rel_of_neighbours ((List.perm_insertionSort _ _).nodup_iff.mpr hversions) hneighbours
  have hle := rel_of_neighbours pairwise_versionsDescending hneighbours
  refine ⟨lt_of_le_of_ne hle fun heq => ?_, fun u hu => ?_⟩
  · obtain ⟨s, hs, hfrom, hto⟩ := transformation_of_shared h hns hevent hv hw hne heq.symm
    exact hmissing s hs ⟨hfrom, hto.trans heq.symm⟩
  · rcases outside_of_neighbours pairwise_versionsDescending hneighbours (mem_versionsDescending.mpr hu) with
      (rfl | hbefore) | rfl | hafter
    · exact .inl le_rfl
    · exact .inl hbefore
    · exact .inr le_rfl
    · exact .inr hafter

/-- Versions with none between them are neighbours, or others stand for them. -/
theorem downcast_of_between (h : Accepted tools project) (hns : ns ∈ project.namespaces)
    (hevent : event ∈ ns.events) (hv : v ∈ event.versions) (hw : w ∈ event.versions)
    (hlt : w.version < v.version)
    (hbetween : ∀ u ∈ event.versions, v.version ≤ u.version ∨ u.version ≤ w.version)
    (hmissing : ∀ s ∈ event.transformations, ¬ (s.from = v.version ∧ s.to = w.version)) :
    ∃ pair ∈ calculateDowncastTransformations event,
      pair.1.version = v.version ∧ pair.2.version = w.version := by
  obtain ⟨a, b, hneighbours, ⟨hva, hav⟩, hwb, hbw⟩ := exists_neighbours
    (r := fun a b => b.version ≤ a.version) (fun a => le_rfl) (fun a b c hab hbc => hbc.trans hab) pairwise_versionsDescending
    ⟨v, mem_versionsDescending.mpr hv, le_rfl, le_rfl⟩ (mem_versionsDescending.mpr hw) hlt.not_ge
    fun u hu => hbetween u (mem_versionsDescending.mp hu)
  have ha : a.version = v.version := le_antisymm hav hva
  have hb : b.version = w.version := le_antisymm hbw hwb
  refine ⟨(a, b), (mem_calculateDowncastTransformations (h.versions ns hns event hevent)).mpr
    ⟨hneighbours, ?_⟩, ha, hb⟩
  simpa [ha, hb] using hmissing

/-- Names tell namespaces, and types tell events. -/
theorem downcast_of_synthetic (h : Accepted tools project)
    (ht : t ∈ (calculateIndex createSchemaHash createMd5Hash project).transformations) (hhash : t.hash = none)
    (hns : ns ∈ project.namespaces) (hevent : event ∈ ns.events) (hname : ns.name = t.ns)
    (htype : event.type = t.type) :
    ∃ pair ∈ calculateDowncastTransformations event, pair.1.version = t.from ∧ pair.2.version = t.to := by
  rcases mem_transformations.mp ht with ⟨ns', hns', event', hevent', s, hs, rfl⟩ |
    ⟨ns', hns', event', hevent', pair, hpair, rfl⟩
  · cases hhash
  · obtain rfl := List.inj_on_of_nodup_map h.names hns hns' hname
    obtain rfl := List.inj_on_of_nodup_map (h.types ns hns) hevent hevent' htype
    exact ⟨pair, hpair, rfl, rfl⟩

theorem takenOver_of_unambiguous (h : Accepted tools project) (hproject : Unambiguous tools project)
    (hns : ns ∈ project.namespaces) (hevent : event ∈ ns.events) {pair : Version × Version}
    (hpair : pair ∈ calculateDowncastTransformations event) (hv : v ∈ event.versions) (hw : w ∈ event.versions)
    (hfrom : v.version = pair.1.version) (hto : w.version = pair.2.version) : TakenOver tools v w := by
  obtain ⟨hfirst, hsecond⟩ := mem_of_downcast hpair
  obtain ⟨hlt, hbetween⟩ := between_of_downcast h hns hevent hpair
  obtain ⟨-, hmissing⟩ := (mem_calculateDowncastTransformations (h.versions ns hns event hevent)).mp hpair
  rw [← hfrom, ← hto] at hlt hmissing
  have hbetween' : ∀ u ∈ event.versions, v.version ≤ u.version ∨ u.version ≤ w.version := by
    rw [hfrom, hto]
    exact hbetween
  by_cases hsame : v = pair.1 ∧ w = pair.2
  · rw [hsame.1, hsame.2]
    exact h.downcasts ns hns event hevent pair hpair
  · have hshared : Shared event v ∨ Shared event w := by
      rcases not_and_or.mp hsame with hne | hne
      · exact .inl ⟨pair.1, hfirst, Ne.symm hne, hfrom.symm⟩
      · exact .inr ⟨pair.2, hsecond, Ne.symm hne, hto.symm⟩
    exact hproject ns hns event hevent v hv w hw hlt hbetween' hmissing hshared

/-- Versions with different numbers are no matter. -/
theorem unambiguous_of_distinct (h : ∀ ns ∈ project.namespaces, ∀ event ∈ ns.events,
    (event.versions.map Version.version).Nodup) : Unambiguous tools project := by
  intro ns hns event hevent v hv w hw _ _ _ hshared
  have hdistinct : ∀ u ∈ event.versions, ¬ Shared event u := by
    rintro u hu ⟨other, hother, hne, hversion⟩
    exact hne (List.inj_on_of_nodup_map (h ns hns event hevent) hother hu hversion)
  rcases hshared with hshared | hshared
  · exact absurd hshared (hdistinct v hv)
  · exact absurd hshared (hdistinct w hw)

end Proofs

/-- An index is complete if and only if examples of versions with several folders can
be taken over. -/
theorem complete_iff {J S ρ ε : Type} (tools : Tools J S ρ ε) (createSchemaHash createMd5Hash : Path → String)
    (folder : ProjectFolder) (project : Project) (h : validateProject tools folder = .ok project) :
    Complete tools project (calculateIndex createSchemaHash createMd5Hash project) ↔
      Unambiguous tools project := by
  have haccepted := accepted_of_validateProject h
  constructor
  · intro hcomplete ns hns event hevent v hv w hw hlt hbetween hmissing _
    obtain ⟨pair, hpair, hfrom, hto⟩ := downcast_of_between haccepted hns hevent hv hw hlt hbetween hmissing
    exact hcomplete.synthetic _ (mem_transformations.mpr (.inr ⟨ns, hns, event, hevent, pair, hpair, rfl⟩)) rfl
      ns hns event hevent rfl rfl v hv w hw hfrom.symm hto.symm
  · intro hproject
    refine ⟨fun ns hns event hevent v hv w hw => leads_of_accepted haccepted hns hevent hv hw,
      fun t ht version => versions_of_accepted haccepted ht,
      fun t ht hhash ns hns event hevent hname htype v hv w hw hfrom hto => ?_⟩
    obtain ⟨pair, hpair, hpairfrom, hpairto⟩ := downcast_of_synthetic haccepted ht hhash hns hevent hname htype
    exact takenOver_of_unambiguous haccepted hproject hns hevent hpair hv hw
      (hfrom.trans hpairfrom.symm) (hto.trans hpairto.symm)

/-! ### A shop -/

/-- Documents are the names of their fields, schemas the names that must be there, and a
script names the field that it adds. -/
def fieldTools (files : List (Path × List String)) : Tools (List String) (List String) Bool Unit where
  toInt name :=
    let digits := name.toList
    if digits.isEmpty || !digits.all Char.isDigit then none
    else some (digits.foldl (fun n digit => 10 * n + (digit.toNat - '0'.toNat)) 0 : Nat)
  readToJsonNode path := (files.find? fun file => file.1 == path).map Prod.snd
  readToString _ := "name"
  getJsonSchema := some
  validate schema json := schema.all json.contains
  isSuccess := id
  transform _ _ script data := .ok (script :: data)

def placed (names : List String) : Path := ["shop", "Placed"] ++ names

def versionFolder (name : String) : EventVersionFolder where
  path := placed [name]
  schema := some (placed [name, "schema.json"])
  description := some (placed [name, "index.md"])
  examples := [placed [name, "simple.json"]]
  schema_path _ h := (Option.some.inj h).symm

def transformationFolder (name : String) : TransformationFolder :=
  ⟨placed ["transformations", name], some (placed ["transformations", name, "transform.js"])⟩

def shopFolder (versions transformations : List String)
    (h : ((versions.map versionFolder).map EventVersionFolder.path).Nodup) : ProjectFolder where
  path := []
  description := some ["index.md"]
  namespaces := [⟨["shop"], [⟨placed [], versions.map versionFolder, some (placed ["index.md"]),
    transformations.map transformationFolder, h⟩], some ["shop", "index.md"], List.nodup_singleton _⟩]
  distinct := List.nodup_singleton _

def shopVersion (name : String) (version : Int) : Version :=
  ⟨version, placed [name, "schema.json"], placed [name, "index.md"],
    [⟨"simple.json", placed [name, "simple.json"]⟩]⟩

def shopTransformation (name : String) («from» «to» : Int) : Transformation :=
  ⟨«from», «to», placed ["transformations", name, "transform.js"]⟩

def shopProject (versions : List Version) (transformations : List Transformation) : Project :=
  ⟨some ["index.md"],
    [⟨"shop", ["shop", "index.md"], [⟨"Placed", placed ["index.md"], versions, transformations⟩]⟩]⟩

/-- The example in folder `02` has no `id`. -/
def shopFiles : List (Path × List String) :=
  [(placed ["1", "schema.json"], ["id"]), (placed ["1", "simple.json"], ["id"]),
    (placed ["2", "schema.json"], ["name"]), (placed ["2", "simple.json"], ["id", "name"]),
    (placed ["02", "schema.json"], ["name"]), (placed ["02", "simple.json"], ["name"])]

theorem complete_shop :
    Complete (fieldTools shopFiles)
      (shopProject [shopVersion "1" 1, shopVersion "2" 2] [shopTransformation "1-2" 1 2])
      (calculateIndex fileName fileName
        (shopProject [shopVersion "1" 1, shopVersion "2" 2] [shopTransformation "1-2" 1 2])) :=
  (complete_iff (fieldTools shopFiles) fileName fileName
    (shopFolder ["1", "2"] ["1-2"] (by decide +kernel)) _ (by decide +kernel)).mpr
    (unambiguous_of_distinct (by decide +kernel))

/-- The step from version 2 to version 1 is synthetic, but not all examples can take it. -/
theorem shared_version_not_taken_over :
    ¬ ∀ (J S ρ ε : Type) (tools : Tools J S ρ ε) (createSchemaHash createMd5Hash : Path → String)
      (folder : ProjectFolder) (project : Project), validateProject tools folder = .ok project →
        Complete tools project (calculateIndex createSchemaHash createMd5Hash project) := by
  intro hall
  have hcomplete := hall _ _ _ _ (fieldTools shopFiles) fileName fileName
    (shopFolder ["02", "1", "2"] ["1-2", "2-2"] (by decide +kernel))
    (shopProject [shopVersion "02" 2, shopVersion "1" 1, shopVersion "2" 2]
      [shopTransformation "1-2" 1 2, shopTransformation "2-2" 2 2]) (by decide +kernel)
  have htaken : TakenOver (fieldTools shopFiles) (shopVersion "02" 2) (shopVersion "1" 1) :=
    hcomplete.synthetic ⟨"synthetic/shop/Placed/2-1/transform.js", "shop", "Placed", 2, 1, none⟩
      (by decide +kernel) rfl _ (List.mem_singleton_self _) _ (List.mem_singleton_self _) rfl rfl
      _ (by decide +kernel) _ (by decide +kernel) rfl rfl
  obtain ⟨schema, hschema, hexamples⟩ := htaken
  obtain ⟨json, hjson, hvalid⟩ := hexamples _ (List.mem_singleton_self _)
  have hrequired : loadSchema (fieldTools shopFiles) (shopVersion "1" 1).schemaPath = .ok ["id"] := by
    decide +kernel
  have hfields : (fieldTools shopFiles).readToJsonNode (placed ["02", "simple.json"]) = some ["name"] := by
    decide +kernel
  cases hrequired.symm.trans hschema
  cases hfields.symm.trans hjson
  exact absurd hvalid (by decide)

end FactCast.SchemaRegistryCli
