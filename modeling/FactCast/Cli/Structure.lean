import FactCast.Cli.IndexFile

/-! What the structure of a project guarantees.

Names of folders are numbers. That of a version is parsed to see if it is valid, so
what is valid can be parsed. That of a transformation is matched against a pattern,
which asks for digits only: a number that has too many of them is valid, and is no
`Int`. For every other project in which nothing is missing the conversion succeeds
(`structure_iff`). -/
namespace FactCast.SchemaRegistryCli

/-! ### Numbers -/

/-- Where the decimal digits begin in the Basic Multilingual Plane, ten in a row. -/
def decimalZeros : List Nat :=
  [0x30, 0x660, 0x6F0, 0x7C0, 0x966, 0x9E6, 0xA66, 0xAE6, 0xB66, 0xBE6, 0xC66, 0xCE6, 0xD66, 0xDE6, 0xE50,
    0xED0, 0xF20, 0x1040, 0x1090, 0x17E0, 0x1810, 0x1946, 0x19D0, 0x1A80, 0x1A90, 0x1B50, 0x1BB0, 0x1C40,
    0x1C50, 0xA620, 0xA8D0, 0xA900, 0xA9D0, 0xA9F0, 0xAA50, 0xABF0, 0xFF10]

def digit (c : Char) : Option Nat :=
  (decimalZeros.find? fun first => decide (first ≤ c.toNat) && decide (c.toNat ≤ first + 9)).map (c.toNat - ·)

/-- The value of a digit at least. -/
def decimal (digits : List Char) : Option Nat :=
  if digits.isEmpty then none else digits.foldlM (fun n c => (digit c).map (n * 10 + ·)) 0

/-- Nothing if this throws. -/
def parseInt (s : String) : Option Int :=
  match s.toList with
  | '-' :: digits => (decimal digits).bind fun n => if n ≤ 2 ^ 31 then some (-n) else none
  | '+' :: digits => (decimal digits).bind fun n => if n < 2 ^ 31 then some n else none
  | digits => (decimal digits).bind fun n => if n < 2 ^ 31 then some n else none

/-! ### What is expected -/

section Structure
variable {J S ρ ε : Type}

/-- Numbers are parsed as `Int`s. -/
def Tools.parsing (tools : Tools J S ρ ε) : Tools J S ρ ε := { tools with toInt := parseInt }

/-- The answer is a list of errors that is not empty, or a project. Where there are no
violations, every folder can be converted. -/
structure Guarded (tools : Tools J S ρ ε) (folder : ProjectFolder) : Prop where
  answers : (∃ errors, errors ≠ [] ∧ validateProjectStructure tools folder = .error (.errors errors)) ∨
    ∃ project, validateProjectStructure tools folder = .ok project
  namespaces : folder.violations tools = [] → ∀ ns ∈ folder.namespaces, (ns.toNamespace tools).isSome = true
  events : folder.violations tools = [] → ∀ ns ∈ folder.namespaces, ∀ event ∈ ns.eventFolders,
    (event.toEvent tools).isSome = true
  versions : folder.violations tools = [] → ∀ ns ∈ folder.namespaces, ∀ event ∈ ns.eventFolders,
    ∀ version ∈ event.versionFolders, (version.toEventVersion tools).isSome = true
  transformations : folder.violations tools = [] → ∀ ns ∈ folder.namespaces, ∀ event ∈ ns.eventFolders,
    ∀ transformation ∈ event.transformationFolders, (transformation.toTransformation tools).isSome = true

/-- The numbers in the name are `Int`s. -/
def TransformationFolder.fits (folder : TransformationFolder) : Bool :=
  ((fileName folder.path).toList.splitOn '-').all fun digits => decide (Json.digitsValue digits < 2 ^ 31)

/-! ### Conversions -/

theorem digit_of_isDigit {c : Char} (h : c.isDigit = true) : digit c = some (c.toNat - '0'.toNat) := by
  have hrange : 0x30 ≤ c.toNat ∧ c.toNat ≤ 0x30 + 9 := by
    simp only [Char.isDigit, Bool.and_eq_true, decide_eq_true_iff] at h
    exact h
  unfold digit decimalZeros
  rw [List.find?_cons_of_pos (by simpa using hrange)]
  rfl

theorem decimal_of_isDigit {digits : List Char} (hne : digits.isEmpty = false)
    (h : digits.all Char.isDigit = true) : decimal digits = some (Json.digitsValue digits) := by
  have hfold : ∀ n, digits.foldlM (fun n c => (digit c).map (n * 10 + ·)) n =
      some (digits.foldl (fun n d => n * 10 + (d.toNat - '0'.toNat)) n) := by
    clear hne
    induction digits with
    | nil => exact fun n => rfl
    | cons c rest ih =>
      intro n
      rw [List.all_cons, Bool.and_eq_true] at h
      rw [List.foldlM_cons, digit_of_isDigit h.1, Option.map_some]
      exact ih h.2 _
  rw [decimal, hne]
  exact hfold 0

/-- Digits are an `Int` if their value is one. -/
theorem parseInt_of_isDigit {digits : List Char} (hne : digits.isEmpty = false)
    (h : digits.all Char.isDigit = true) :
    (parseInt (String.ofList digits)).isSome = true ↔ Json.digitsValue digits < 2 ^ 31 := by
  have hparse : parseInt (String.ofList digits) =
      (decimal digits).bind fun n => if n < 2 ^ 31 then some (n : Int) else none := by
    unfold parseInt
    rw [String.toList_ofList]
    split
    · simp at h
    · simp at h
    · rfl
  rw [hparse, decimal_of_isDigit hne h, Option.bind_some]
  split
  · exact iff_of_true rfl ‹_›
  · exact iff_of_false (by simp) ‹_›

section Folders
variable {tools : Tools J S ρ ε}

theorem mapM_isSome {α β : Type} {f : α → Option β} {l : List α} :
    (l.mapM f).isSome = true ↔ ∀ a ∈ l, (f a).isSome = true := by
  induction l with
  | nil => exact iff_of_true rfl (fun a ha => absurd ha List.not_mem_nil)
  | cons a rest ih =>
    rw [List.mapM_cons, List.forall_mem_cons, ← ih]
    cases f a with
    | none => simp
    | some b =>
      cases rest.mapM f with
      | none => simp
      | some bs => simp

theorem required_eq_nil {β γ : Type} {value : Option β} {error : γ} :
    required value error = [] ↔ ∃ a, value = some a := by
  cases value with
  | none => simp [required]
  | some a => simp [required]

/-- A valid folder of a transformation can be converted if its numbers are not too big. -/
theorem toTransformation_isSome {folder : TransformationFolder}
    (h : (folder.violations : List (ProjectError ρ ε)) = []) :
    (folder.toTransformation tools.parsing).isSome = true ↔ folder.fits = true := by
  obtain ⟨hname, hfile⟩ := List.append_eq_nil_iff.mp h
  obtain ⟨file, hfile⟩ := required_eq_nil.mp hfile
  have hvalid : validTransformationFolder (fileName folder.path) = true := by
    by_contra hinvalid
    rw [if_neg hinvalid] at hname
    cases hname
  unfold validTransformationFolder at hvalid
  split at hvalid
  · rename_i source target hsplit
    simp only [List.all_cons, List.all_nil, Bool.and_eq_true, Bool.and_true, Bool.not_eq_true'] at hvalid
    obtain ⟨⟨hsource, hsourceDigits⟩, htarget, htargetDigits⟩ := hvalid
    have hfits : folder.fits = true ↔
        (parseInt (String.ofList source)).isSome = true ∧ (parseInt (String.ofList target)).isSome = true := by
      rw [parseInt_of_isDigit hsource hsourceDigits, parseInt_of_isDigit htarget htargetDigits]
      simp [TransformationFolder.fits, hsplit]
    rw [hfits]
    unfold TransformationFolder.toTransformation Tools.parsing
    rw [hsplit, hfile]
    cases ha : parseInt (String.ofList source) with
    | none => simp [ha]
    | some a =>
      cases hb : parseInt (String.ofList target) with
      | none => simp [ha, hb]
      | some b => simp [ha, hb]
  · cases hvalid

theorem toEventVersion_isSome {folder : EventVersionFolder} (h : folder.violations tools = []) :
    (folder.toEventVersion tools).isSome = true := by
  obtain ⟨hfront, -⟩ := List.append_eq_nil_iff.mp h
  obtain ⟨hfront, hdescription⟩ := List.append_eq_nil_iff.mp hfront
  obtain ⟨hversion, hschema⟩ := List.append_eq_nil_iff.mp hfront
  obtain ⟨version, hversion⟩ := required_eq_nil.mp hversion
  obtain ⟨schema, hschema⟩ := required_eq_nil.mp hschema
  obtain ⟨description, hdescription⟩ := required_eq_nil.mp hdescription
  simp [EventVersionFolder.toEventVersion, hversion, hschema, hdescription]

/-- What is reported of an event's folders is reported of the event. -/
theorem event_violations {folder : EventFolder} (h : folder.violations tools = []) :
    (∀ version ∈ folder.versionFolders, version.violations tools = []) ∧
      (∃ description, folder.description = some description) ∧
      ∀ t ∈ folder.transformationFolders, (t.violations : List (ProjectError ρ ε)) = [] := by
  obtain ⟨hfront, htransformations⟩ := List.append_eq_nil_iff.mp h
  obtain ⟨hfront, hdescription⟩ := List.append_eq_nil_iff.mp hfront
  obtain ⟨-, hversions⟩ := List.append_eq_nil_iff.mp hfront
  exact ⟨List.flatMap_eq_nil_iff.mp hversions, required_eq_nil.mp hdescription,
    List.flatMap_eq_nil_iff.mp htransformations⟩

theorem namespace_violations {folder : NamespaceFolder} (h : folder.violations tools = []) :
    (∀ event ∈ folder.eventFolders, event.violations tools = []) ∧
      ∃ description, folder.description = some description := by
  obtain ⟨hfront, hdescription⟩ := List.append_eq_nil_iff.mp h
  obtain ⟨-, hevents⟩ := List.append_eq_nil_iff.mp hfront
  exact ⟨List.flatMap_eq_nil_iff.mp hevents, required_eq_nil.mp hdescription⟩

theorem project_violations {folder : ProjectFolder} (h : folder.violations tools = []) :
    ∀ ns ∈ folder.namespaces, ns.violations tools = [] := by
  obtain ⟨hfront, -⟩ := List.append_eq_nil_iff.mp h
  obtain ⟨-, hnamespaces⟩ := List.append_eq_nil_iff.mp hfront
  exact List.flatMap_eq_nil_iff.mp hnamespaces

theorem toEvent_isSome {folder : EventFolder} (h : folder.violations tools.parsing = []) :
    (folder.toEvent tools.parsing).isSome = true ↔ ∀ t ∈ folder.transformationFolders, t.fits = true := by
  obtain ⟨hversions, ⟨description, hdescription⟩, htransformations⟩ := event_violations h
  obtain ⟨versions, hconverted⟩ := Option.isSome_iff_exists.mp
    (mapM_isSome.mpr fun version hversion => toEventVersion_isSome (hversions version hversion))
  have hall : (∀ t ∈ folder.transformationFolders, t.fits = true) ↔
      (folder.transformationFolders.mapM (TransformationFolder.toTransformation tools.parsing)).isSome = true := by
    rw [mapM_isSome]
    exact forall₂_congr fun t ht => (toTransformation_isSome (htransformations t ht)).symm
  rw [hall]
  unfold EventFolder.toEvent
  rw [hdescription, hconverted]
  cases folder.transformationFolders.mapM (TransformationFolder.toTransformation tools.parsing) with
  | none => simp
  | some transformations => simp

theorem toNamespace_isSome {folder : NamespaceFolder} (h : folder.violations tools.parsing = []) :
    (folder.toNamespace tools.parsing).isSome = true ↔
      ∀ event ∈ folder.eventFolders, ∀ t ∈ event.transformationFolders, t.fits = true := by
  obtain ⟨hevents, description, hdescription⟩ := namespace_violations h
  have hall : (∀ event ∈ folder.eventFolders, ∀ t ∈ event.transformationFolders, t.fits = true) ↔
      (folder.eventFolders.mapM (EventFolder.toEvent tools.parsing)).isSome = true := by
    rw [mapM_isSome]
    exact forall₂_congr fun event hevent => (toEvent_isSome (hevents event hevent)).symm
  rw [hall]
  unfold NamespaceFolder.toNamespace
  rw [hdescription]
  cases folder.eventFolders.mapM (EventFolder.toEvent tools.parsing) with
  | none => simp
  | some events => simp

theorem toProject_isSome {folder : ProjectFolder} (h : folder.violations tools.parsing = []) :
    (folder.toProject tools.parsing).isSome = true ↔ ∀ ns ∈ folder.namespaces, ∀ event ∈ ns.eventFolders,
      ∀ t ∈ event.transformationFolders, t.fits = true := by
  have hnamespaces := project_violations h
  have hall : (∀ ns ∈ folder.namespaces, ∀ event ∈ ns.eventFolders, ∀ t ∈ event.transformationFolders,
        t.fits = true) ↔
      (folder.namespaces.mapM (NamespaceFolder.toNamespace tools.parsing)).isSome = true := by
    rw [mapM_isSome]
    exact forall₂_congr fun ns hns => (toNamespace_isSome (hnamespaces ns hns)).symm
  rw [hall]
  unfold ProjectFolder.toProject
  cases folder.namespaces.mapM (NamespaceFolder.toNamespace tools.parsing) with
  | none => simp
  | some namespaces => simp

end Folders

/-- Nothing is thrown just if something is reported, or all numbers in the names of
transformations are `Int`s. -/
theorem structure_iff (tools : Tools J S ρ ε) (folder : ProjectFolder) :
    Guarded tools.parsing folder ↔ folder.violations tools.parsing ≠ [] ∨
      ∀ ns ∈ folder.namespaces, ∀ event ∈ ns.eventFolders, ∀ t ∈ event.transformationFolders,
        t.fits = true := by
  by_cases h : folder.violations tools.parsing = []
  · have hnamespaces := project_violations h
    have hevents : ∀ ns ∈ folder.namespaces, ∀ event ∈ ns.eventFolders,
        event.violations tools.parsing = [] := fun ns hns => (namespace_violations (hnamespaces ns hns)).1
    have htransformations : ∀ ns ∈ folder.namespaces, ∀ event ∈ ns.eventFolders,
        ∀ t ∈ event.transformationFolders, (t.violations : List (ProjectError ρ ε)) = [] :=
      fun ns hns event hevent => (event_violations (hevents ns hns event hevent)).2.2
    constructor
    · intro hguarded
      exact .inr fun ns hns event hevent t ht =>
        (toTransformation_isSome (htransformations ns hns event hevent t ht)).mp
          (hguarded.transformations h ns hns event hevent t ht)
    · intro hfits
      replace hfits := hfits.resolve_left fun hne => hne h
      obtain ⟨project, hproject⟩ := Option.isSome_iff_exists.mp ((toProject_isSome h).mpr hfits)
      refine ⟨.inr ⟨project, ?_⟩, fun _ ns hns => ?_, fun _ ns hns event hevent => ?_,
        fun _ ns hns event hevent version hversion => ?_, fun _ ns hns event hevent t ht => ?_⟩
      · simp only [validateProjectStructure, h, List.isEmpty_nil, if_true, hproject]
      · exact (toNamespace_isSome (hnamespaces ns hns)).mpr (hfits ns hns)
      · exact (toEvent_isSome (hevents ns hns event hevent)).mpr (hfits ns hns event hevent)
      · exact toEventVersion_isSome ((event_violations (hevents ns hns event hevent)).1 version hversion)
      · exact (toTransformation_isSome (htransformations ns hns event hevent t ht)).mpr
          (hfits ns hns event hevent t ht)
  · have hreported : validateProjectStructure tools.parsing folder =
        .error (.errors (folder.violations tools.parsing)) := by
      simp [validateProjectStructure, h]
    refine iff_of_true ?_ (.inl h)
    exact ⟨.inl ⟨_, h, hreported⟩, fun hnil => absurd hnil h, fun hnil => absurd hnil h,
      fun hnil => absurd hnil h, fun hnil => absurd hnil h⟩

end Structure

/-- A transformation from version 3000000000. -/
theorem far_version_thrown : ¬ ∀ (J S ρ ε : Type) (tools : Tools J S ρ ε) (folder : ProjectFolder),
    Guarded tools.parsing folder := by
  intro hall
  have hguarded := hall _ _ _ _ (fieldTools []) (shopFolder ["1"] ["3000000000-1"] (by decide +kernel))
  have hnothing : (shopFolder ["1"] ["3000000000-1"] (by decide +kernel)).violations
      (fieldTools []).parsing = [] := by decide +kernel
  have hconverted := hguarded.transformations hnothing _ (List.mem_singleton_self _) _
    (List.mem_singleton_self _) (transformationFolder "3000000000-1") (List.mem_singleton_self _)
  revert hconverted
  decide +kernel

end FactCast.SchemaRegistryCli
