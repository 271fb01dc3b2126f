import FactCast.Machine.Neighbours
import FactCast.Store.Transformation
import Mathlib.Data.List.Sort

/-! Validating a registry project.

A project is a directory with a folder for each namespace, in it one for each event,
and in that folders for its versions and its transformations. A version has a schema and examples;
their names are those of the folders, and the version is the number its name stands
for. Validation checks that the folders are complete, that the examples of a version
have its schema, that every version is followed by a transformation to the next one,
and that every transformation has its two versions and makes of examples of the one
examples of the other. Where there is none from a version to the one before, the
examples must have that version's schema as they are.

How files are read, schemas are built and checked, scripts are run and numbers are
parsed are parameters. -/
namespace FactCast.SchemaRegistryCli

abbrev Path := List String

/-- The last name of a path. -/
def fileName (path : Path) : String := path.getLastD ""

/-! ### Folders -/

structure TransformationFolder where
  path : Path
  transformation : Option Path

structure EventVersionFolder where
  path : Path
  schema : Option Path
  description : Option Path
  examples : List Path
  schema_path : ∀ file, schema = some file → file = path ++ ["schema.json"]

structure EventFolder where
  path : Path
  versionFolders : List EventVersionFolder
  description : Option Path
  transformationFolders : List TransformationFolder
  distinct : (versionFolders.map EventVersionFolder.path).Nodup

/-- Folders in one folder have different names. -/
structure NamespaceFolder where
  path : Path
  eventFolders : List EventFolder
  description : Option Path
  distinct : (eventFolders.map fun folder => fileName folder.path).Nodup

structure ProjectFolder where
  path : Path
  description : Option Path
  namespaces : List NamespaceFolder
  distinct : (namespaces.map fun folder => fileName folder.path).Nodup

/-! ### Projects -/

structure Example where
  name : String
  exampleFilePath : Path
deriving DecidableEq

structure Version where
  version : Int
  schemaPath : Path
  descriptionPath : Path
  examples : List Example
deriving DecidableEq

structure Transformation where
  «from» : Int
  «to» : Int
  transformationPath : Path
deriving DecidableEq

structure Event where
  type : String
  descriptionPath : Path
  versions : List Version
  transformations : List Transformation
deriving DecidableEq

structure Namespace where
  name : String
  descriptionPath : Path
  events : List Event
deriving DecidableEq

structure Project where
  description : Option Path
  namespaces : List Namespace
deriving DecidableEq

/-- `ρ` are reports, `ε` exceptions. -/
inductive ProjectError (ρ ε : Type) where
  | noDescription (descriptionPath : Path)
  | noEvents (namespacePath : Path)
  | noEventVersions (eventVersionsPath : Path)
  | noSchema (path : Path)
  | noExamples (path : Path)
  | noNamespaces (projectPath : Path)
  | noSuchFile (filePath : Path)
  | corruptedSchema (schemaPath : Path)
  | validationError (examplePath : Path) (result : ρ)
  | wrongVersionFormat (version : String) (path : Path)
  | noUpcastForVersion (fromVersion toVersion : Int) (type : String)
  | transformationValidationError (type : String) (fromVersion toVersion : Int) (result : ρ)
  | transformationError (type : String) (fromVersion toVersion : Int) (exception : ε)
  | noDowncastForVersion (fromVersion toVersion : Int) (type : String) (result : ρ)
  | missingVersionForTransformation (fromVersion toVersion : Int) (transformationPath : Path)
deriving DecidableEq

/-- Documents `J`, schemas `S`, reports `ρ` and exceptions `ε`. -/
structure Tools (J S ρ ε : Type) where
  toInt : String → Option Int
  readToJsonNode : Path → Option J
  readToString : Path → String
  /-- Nothing if the document is no schema. -/
  getJsonSchema : J → Option S
  validate : S → J → ρ
  isSuccess : ρ → Bool
  /-- The script of a step, applied to a document. -/
  transform : TransformationKey → Edge → String → J → Except ε J

/-- Validation ends with errors, or is left with an exception. -/
inductive Failure (ρ ε : Type) where
  | errors (errors : List (ProjectError ρ ε))
  | thrown
deriving DecidableEq

namespace Project
variable {α : Type}

def mapEvents (project : Project) (fn : Namespace → Event → α) : List α :=
  project.namespaces.flatMap fun ns => ns.events.map fun event => fn ns event

def mapEventVersions (project : Project) (fn : Namespace → Event → Version → α) : List α :=
  project.namespaces.flatMap fun ns => ns.events.flatMap fun event => event.versions.map fun version =>
    fn ns event version

def mapEventTransformations (project : Project) (fn : Namespace → Event → Transformation → α) : List α :=
  project.namespaces.flatMap fun ns => ns.events.flatMap fun event =>
    event.transformations.map fun transformation => fn ns event transformation

end Project

/-! ### Missing transformations -/

namespace MissingTransformationCalculator

/-- Each version but the last, with the next one, unless there is a transformation. -/
def calculateMissingTransformations (sortedByVersion : List Version) (transformations : List Transformation) :
    List (Version × Version) :=
  ((neighbours sortedByVersion).filter fun pair =>
      decide (sortedByVersion.getLast? ≠ some pair.1)).filter fun pair =>
    transformations.all fun t => !(t.from == pair.1.version && t.to == pair.2.version)

def calculateDowncastTransformations (event : Event) : List (Version × Version) :=
  calculateMissingTransformations (event.versions.insertionSort fun v w => w.version ≤ v.version)
    event.transformations

def calculateUpcastTransformations (event : Event) : List (Version × Version) :=
  calculateMissingTransformations (event.versions.insertionSort fun v w => v.version ≤ w.version)
    event.transformations

end MissingTransformationCalculator

open MissingTransformationCalculator

section Validation
variable {J S ρ ε : Type} (tools : Tools J S ρ ε)

/-! ### Structure -/

def required {β γ : Type} (value : Option β) (error : γ) : List γ := if value.isSome then [] else [error]

/-- Two numbers with a dash between them. -/
def validTransformationFolder (name : String) : Bool :=
  match name.toList.splitOn '-' with
  | [source, target] => [source, target].all fun digits => !digits.isEmpty && digits.all Char.isDigit
  | _ => false

namespace TransformationFolder

def violations (folder : TransformationFolder) : List (ProjectError ρ ε) :=
  (if validTransformationFolder (fileName folder.path) then []
    else [.wrongVersionFormat (fileName folder.path) folder.path]) ++
  required folder.transformation (.noSuchFile folder.path)

/-- Nothing if this throws. -/
def toTransformation (folder : TransformationFolder) : Option Transformation := do
  let versions ← (((fileName folder.path).toList.splitOn '-').map String.ofList).mapM tools.toInt
  match versions with
  | source :: target :: _ => return ⟨source, target, ← folder.transformation⟩
  | _ => none

end TransformationFolder

namespace EventVersionFolder

def violations (folder : EventVersionFolder) : List (ProjectError ρ ε) :=
  required (tools.toInt (fileName folder.path)) (.wrongVersionFormat (fileName folder.path) folder.path) ++
  required folder.schema (.noSchema folder.path) ++
  required folder.description (.noDescription folder.path) ++
  if folder.examples.isEmpty then [.noExamples folder.path] else []

def toEventVersion (folder : EventVersionFolder) : Option Version := do
  return ⟨← tools.toInt (fileName folder.path), ← folder.schema, ← folder.description,
    folder.examples.map fun path => ⟨fileName path, path⟩⟩

end EventVersionFolder

namespace EventFolder

def violations (folder : EventFolder) : List (ProjectError ρ ε) :=
  (if folder.versionFolders.isEmpty then [.noEventVersions folder.path] else []) ++
  folder.versionFolders.flatMap (EventVersionFolder.violations tools) ++
  required folder.description (.noDescription folder.path) ++
  folder.transformationFolders.flatMap TransformationFolder.violations

def toEvent (folder : EventFolder) : Option Event := do
  return ⟨fileName folder.path, ← folder.description,
    ← folder.versionFolders.mapM (EventVersionFolder.toEventVersion tools),
    ← folder.transformationFolders.mapM (TransformationFolder.toTransformation tools)⟩

end EventFolder

namespace NamespaceFolder

def violations (folder : NamespaceFolder) : List (ProjectError ρ ε) :=
  (if folder.eventFolders.isEmpty then [.noEvents folder.path] else []) ++
  folder.eventFolders.flatMap (EventFolder.violations tools) ++
  required folder.description (.noDescription folder.path)

def toNamespace (folder : NamespaceFolder) : Option Namespace := do
  return ⟨fileName folder.path, ← folder.description, ← folder.eventFolders.mapM (EventFolder.toEvent tools)⟩

end NamespaceFolder

namespace ProjectFolder

def violations (folder : ProjectFolder) : List (ProjectError ρ ε) :=
  required folder.description (.noDescription folder.path) ++
  folder.namespaces.flatMap (NamespaceFolder.violations tools) ++
  if folder.namespaces.isEmpty then [.noNamespaces folder.path] else []

def toProject (folder : ProjectFolder) : Option Project := do
  return ⟨folder.description, ← folder.namespaces.mapM (NamespaceFolder.toNamespace tools)⟩

end ProjectFolder

def validateProjectStructure (projectFolder : ProjectFolder) : Except (Failure ρ ε) Project :=
  let errors : List (ProjectError ρ ε) := projectFolder.violations tools
  if errors.isEmpty then
    match projectFolder.toProject tools with
    | some project => .ok project
    | none => .error .thrown
  else .error (.errors errors)

/-! ### Examples and transformations -/

def loadSchema (path : Path) : Except (ProjectError ρ ε) S :=
  match tools.readToJsonNode path with
  | none => .error (.noSuchFile path)
  | some jsonNode =>
    match tools.getJsonSchema jsonNode with
    | some schema => .ok schema
    | none => .error (.corruptedSchema path)

def validateExamples (project : Project) : List (ProjectError ρ ε) :=
  (project.mapEventVersions fun _ _ version =>
    match loadSchema tools version.schemaPath with
    | .error error => [error]
    | .ok schema => version.examples.filterMap fun e =>
      match tools.readToJsonNode e.exampleFilePath with
      | none => some (.noSuchFile e.exampleFilePath)
      | some json =>
        let result := tools.validate schema json
        if tools.isSuccess result then none else some (.validationError e.exampleFilePath result)).flatten

/-- Nothing if the transformation is not to be considered. -/
def evaluate (ns : Namespace) (event : Event) (transformation : Transformation) (data : J) :
    Except ε (Option J) :=
  let transformationAsString := tools.readToString transformation.transformationPath
  if "/*CLI IGNORE*/".isPrefixOf transformationAsString then .ok none
  else (tools.transform ⟨ns.name, event.type⟩ ⟨transformation.from, transformation.to⟩
    transformationAsString data).map some

/-- The examples that can be read. -/
def examplesOf (version : Version) : List J :=
  version.examples.filterMap fun e => tools.readToJsonNode e.exampleFilePath

def calculateValidationErrors (project : Project) : List (ProjectError ρ ε) :=
  (project.mapEventTransformations fun ns event transformation =>
    match event.versions.find? (fun v => v.version == transformation.from),
      event.versions.find? (fun v => v.version == transformation.to) with
    | some fromVersion, some toVersion =>
      match loadSchema tools toVersion.schemaPath with
      | .error error => [error]
      | .ok schema => (examplesOf tools fromVersion).filterMap fun data =>
        match evaluate tools ns event transformation data with
        | .error e => some (.transformationError event.type fromVersion.version toVersion.version e)
        | .ok none => none
        | .ok (some transformed) =>
          let result := tools.validate schema transformed
          if tools.isSuccess result then none
          else some (.transformationValidationError event.type fromVersion.version toVersion.version result)
    | _, _ => [.missingVersionForTransformation transformation.from transformation.to
        transformation.transformationPath]).flatten

def calculateMissingUpcastTransformations (project : Project) : List (ProjectError ρ ε) :=
  (project.mapEvents fun _ event => (calculateUpcastTransformations event).map fun pair =>
    .noUpcastForVersion pair.1.version pair.2.version event.type).flatten

def calculateNoopDowncastErrors (project : Project) : List (ProjectError ρ ε) :=
  (project.mapEvents fun _ event => (calculateDowncastTransformations event).flatMap fun pair =>
    match loadSchema tools pair.2.schemaPath with
    | .error error => [error]
    | .ok schema => (examplesOf tools pair.1).filterMap fun data =>
      let result := tools.validate schema data
      if tools.isSuccess result then none
      else some (.noDowncastForVersion pair.1.version pair.2.version event.type result)).flatten

def validateTransformations (project : Project) : List (ProjectError ρ ε) :=
  calculateNoopDowncastErrors tools project ++ calculateMissingUpcastTransformations project ++
    calculateValidationErrors tools project

def validateProject (projectFolder : ProjectFolder) : Except (Failure ρ ε) Project :=
  match validateProjectStructure tools projectFolder with
  | .error failure => .error failure
  | .ok project =>
    let errors := validateExamples tools project ++ validateTransformations tools project
    if errors.isEmpty then .ok project else .error (.errors errors)

end Validation

end FactCast.SchemaRegistryCli
