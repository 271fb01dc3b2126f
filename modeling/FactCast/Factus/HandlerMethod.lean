import FactCast.Factus.Dispatch

/-! Handler methods and their annotations.

A method handles facts if it is marked as a handler. Which facts is said by its
annotations: `@HandlerFor`, or else the `@Specification` of the one event class
among its parameters, whose namespace the method, the projection's class or one
of its superclasses may override. Further annotations filter by entries and keys
of `meta`, by aggregate ids and by a script. The specifications that are made of
all this are what a projection asks the server for. -/
namespace FactCast

/-- What is thrown while handlers are looked for. -/
inductive DiscoveryException where
  | invalidHandlerDefinition (message : String)
  | illegalArgumentException (message : String)
deriving DecidableEq

/-! ### Annotations -/

/-- `@Specification` -/
structure Specification where
  ns : String
  type : String := ""
  version : Int := 0

/-- A class of events, by its name. -/
structure EventObjectType where
  name : String
  simpleName : String
  specification : Option Specification

/-- `@HandlerFor` -/
structure HandlerFor where
  ns : String
  type : String
  version : Int := 0

/-- `@OverrideNamespace`, for a class of events. -/
structure OverrideNamespace where
  ns : String
  type : String

/-- The class that stands for none given. -/
def OverrideNamespace.DISCOVER : String :=
  "org.factcast.factus.OverrideNamespace$DiscoverFromMethodParameter"

/-- `@FilterByMeta` -/
structure FilterByMeta where
  key : String
  value : String

/-- An annotation that may be repeated: several come in a container. -/
structure Repeatable (α : Type) where
  container : Option (List α) := none
  single : Option α := none

def Repeatable.all {α : Type} (r : Repeatable α) : List α := r.container.getD [] ++ r.single.toList

/-- What a parameter is declared to be. -/
inductive ParameterType where
  | eventObject (type : EventObjectType)
  | other (name : String)

/-- A method of a projection's class, or of an inner one. -/
structure Method where
  toString : String
  declaringClass : String
  returnType : String := "void"
  parameterTypes : List ParameterType
  /-- Marked with `@Handler`. -/
  handler : Bool := false
  handlerFor : Option HandlerFor := none
  overrideNamespace : Repeatable OverrideNamespace := {}
  filterByMeta : Repeatable FilterByMeta := {}
  filterByMetaExists : Repeatable String := {}
  filterByMetaDoesNotExist : Repeatable String := {}
  filterByAggId : Option (List String) := none
  filterByScript : Option String := none

/-- What annotations say about the namespaces of a class or an interface. -/
structure TypeAnnotations where
  name : String
  /-- Whether it is a projection at all. -/
  projection : Bool := true
  overrideNamespace : Repeatable OverrideNamespace := {}

/-- A class with its superclasses, the nearest first, and its own interfaces. -/
structure ProjectionType where
  name : String
  classes : List TypeAnnotations
  interfaces : List TypeAnnotations

/-! ### Building specifications -/

namespace FactSpec

/-- A specification of a namespace, which must be given. -/
def ns_ (ns : String) : Except DiscoveryException FactSpec :=
  if h : blank ns = false then .ok { ns := ns, ns_given := h }
  else .error (.illegalArgumentException "Namespace must not be empty")

def coordinates (spec : FactSpec) : FactSpecCoordinates := ⟨spec.ns, spec.type, spec.version⟩

def addMeta (spec : FactSpec) (k v : String) : FactSpec := { spec with «meta» := spec.meta.put k v }

def metaExists (spec : FactSpec) (k : String) : FactSpec :=
  { spec with metaKeyExists := spec.metaKeyExists.put k true }

def metaDoesNotExist (spec : FactSpec) (k : String) : FactSpec :=
  { spec with metaKeyExists := spec.metaKeyExists.put k false }

/-- Here, too, the keys are left behind. -/
def withNs (spec : FactSpec) (newNs : String) : Except DiscoveryException FactSpec := do
  let fs ← ns_ newNs
  return { fs with
    type := spec.type
    version := spec.version
    filterScript := spec.filterScript
    aggId := spec.aggId
    aggIds := spec.aggIds
    «meta» := fs.meta.putAll spec.meta.entries }

end FactSpec

/-- The coordinates of a class of events. Its name stands in for a type. -/
def FactSpecCoordinates.from_ (clazz : EventObjectType) : Except DiscoveryException FactSpecCoordinates :=
  match clazz.specification with
  | none => .error (.illegalArgumentException ("@Specification missing on class " ++ clazz.name))
  | some spec =>
    if blank spec.ns then
      .error (.illegalArgumentException ("Empty namespace encountered on class class " ++ clazz.name))
    else .ok ⟨spec.ns, some (if blank spec.type then clazz.simpleName else spec.type), spec.version⟩

def FactSpec.from_ (clazz : EventObjectType) : Except DiscoveryException FactSpec := do
  let coords ← FactSpecCoordinates.from_ clazz
  let spec ← FactSpec.ns_ coords.ns
  return { spec with type := coords.type, version := coords.version }

namespace ReflectionTools

/-! ### Filters -/

def filterByMeta (m : Method) (spec : FactSpec) : FactSpec :=
  m.filterByMeta.all.foldl (fun spec a => spec.addMeta a.key a.value) spec

def filterByMetaExists (m : Method) (spec : FactSpec) : FactSpec :=
  m.filterByMetaExists.all.foldl FactSpec.metaExists spec

def filterByMetaDoesNotExist (m : Method) (spec : FactSpec) : FactSpec :=
  m.filterByMetaDoesNotExist.all.foldl FactSpec.metaDoesNotExist spec

/-- Identifiers are added one after another, until one cannot be read. -/
def addAggIds (reader : UuidReader) (spec : FactSpec) : List String → Except DiscoveryException FactSpec
  | [] => .ok spec
  | s :: rest =>
    match reader.read s with
    | none => .error (.illegalArgumentException ("Invalid UUID string: " ++ s))
    | some id => addAggIds reader (spec.addAggId id) rest

def filterByAggIds (reader : UuidReader) (m : Method) (spec : FactSpec) :
    Except DiscoveryException FactSpec :=
  addAggIds reader spec (m.filterByAggId.getD [])

def filterByScript (m : Method) (spec : FactSpec) : FactSpec :=
  match m.filterByScript with
  | none => spec
  | some source => { spec with filterScript := some ⟨"js", source⟩ }

def addOptionalFilterInfo (reader : UuidReader) (m : Method) (spec : FactSpec) :
    Except DiscoveryException FactSpec := do
  let spec ← filterByAggIds reader m
    (filterByMetaDoesNotExist m (filterByMetaExists m (filterByMeta m spec)))
  return filterByScript m spec

/-! ### Namespaces -/

/-- What a class overrides goes over what its superclasses do. -/
def buildNamespaceOverrides : List TypeAnnotations → LinkedMap String
  | [] => .empty
  | p :: superclasses =>
    if p.projection then
      (buildNamespaceOverrides superclasses).putAll
        ((p.overrideNamespace.single.toList ++ p.overrideNamespace.container.getD []).map
          fun s => (s.type, s.ns))
    else .empty

def overrideNamespaceFromTypeAnnotation (p : ProjectionType) (eventPojoType : EventObjectType)
    (fromTargetType : FactSpec) : Except DiscoveryException FactSpec :=
  match p.interfaces.find? fun i => i.overrideNamespace.single.isSome || i.overrideNamespace.container.isSome with
  | some i => .error (.invalidHandlerDefinition
      ("@OverrideNamespace(s) is only allowed on non-interface types class " ++ p.name ++
        " implementing interface " ++ i.name))
  | none =>
    match (buildNamespaceOverrides p.classes).entries.lookup eventPojoType.name with
    | some override => fromTargetType.withNs override
    | none => .ok fromTargetType

def overrideNamespaceFromMethodAnnotation (reader : UuidReader) (m : Method)
    (declared : OverrideNamespace) (eventPojoType : EventObjectType) (fromTargetType : FactSpec) :
    Except DiscoveryException FactSpec :=
  if declared.ns = "" then .error (.invalidHandlerDefinition
    ("A valid namespace must be provided for a @OverrideNamespace annotation on " ++ m.toString))
  else if declared.type ≠ OverrideNamespace.DISCOVER ∧ declared.type ≠ eventPojoType.name then
    .error (.invalidHandlerDefinition
      ("@OverrideNamespace defined for a different type than what the parameter suggests " ++ m.toString))
  else do
    let spec ← fromTargetType.withNs declared.ns
    addOptionalFilterInfo reader m spec

/-! ### Discovering handlers -/

def eventPojoTypes (m : Method) : List EventObjectType :=
  m.parameterTypes.filterMap fun
    | .eventObject type => some type
    | .other _ => none

/-- The specification of a handler method. -/
def discoverFactSpec (reader : UuidReader) (p : ProjectionType) (m : Method) :
    Except DiscoveryException FactSpec :=
  match m.handlerFor with
  | some handlerFor => do
    let spec ← FactSpec.ns_ handlerFor.ns
    addOptionalFilterInfo reader m
      { spec with type := some handlerFor.type, version := handlerFor.version }
  | none =>
    match eventPojoTypes m with
    | [] => .error (.invalidHandlerDefinition ("Cannot introspect FactSpec from " ++ m.toString ++
        ". Either use @HandlerFor or pass an EventPojo as a parameter."))
    | [eventPojoType] => do
      let fromTargetType ← FactSpec.from_ eventPojoType
      match m.overrideNamespace.container, m.overrideNamespace.single with
      | some _, _ => .error (.illegalArgumentException
          "Only one single @OverrideNamespace is allowed on method level")
      | none, some overrideOnMethod =>
        overrideNamespaceFromMethodAnnotation reader m overrideOnMethod eventPojoType fromTargetType
      | none, none =>
        let spec ← overrideNamespaceFromTypeAnnotation p eventPojoType fromTargetType
        addOptionalFilterInfo reader m spec
    | _ => .error (.invalidHandlerDefinition
        ("Multiple EventPojo Parameters. Cannot introspect FactSpec from " ++ m.toString))

end ReflectionTools

/-- Whether a text has another one somewhere inside. -/
def hasInside (s part : String) : Bool := s.toList.tails.any fun rest => part.toList.isPrefixOf rest

/-- A handler returns nothing and takes something. Those of mocks do not count. -/
def Method.isEventHandlerMethod (m : Method) : Except DiscoveryException Bool :=
  if m.handler || m.handlerFor.isSome then
    if m.returnType ≠ "void" then .error (.invalidHandlerDefinition
      ("Handler methods must return void, but \n " ++ m.toString ++ "\n returns '" ++ m.returnType ++ "'"))
    else if m.parameterTypes.isEmpty then .error (.invalidHandlerDefinition
      ("Handler methods must have at least one parameter: " ++ m.toString))
    else .ok (!hasInside m.declaringClass "$MockitoMock")
  else .ok false

structure Dispatcher where
  dispatchMethod : Method
  spec : FactSpec

/-- The dispatchers of a class, by the coordinates of their specifications. -/
structure Dispatchers where
  values : List Dispatcher
  keyed : (values.map fun d => d.spec.coordinates).Nodup

namespace Dispatchers

def empty : Dispatchers := ⟨[], List.nodup_nil⟩

def get (map : Dispatchers) (key : FactSpecCoordinates) : Option Dispatcher :=
  map.values.find? fun d => d.spec.coordinates == key

def put (map : Dispatchers) (d : Dispatcher) (hnew : map.get d.spec.coordinates = none) : Dispatchers where
  values := map.values ++ [d]
  keyed := by
    rw [List.map_append, List.map_singleton]
    refine List.nodup_append.mpr ⟨map.keyed, List.nodup_singleton _, fun a ha b hb hab => ?_⟩
    obtain ⟨other, hother, rfl⟩ := List.mem_map.mp ha
    rw [List.mem_singleton.mp hb] at hab
    exact List.find?_eq_none.mp hnew other hother (beq_iff_eq.mpr hab)

/-- The methods, one after another. -/
def collect (reader : UuidReader) (p : ProjectionType) (map : Dispatchers) :
    List Method → Except DiscoveryException Dispatchers
  | [] => .ok map
  | m :: rest =>
    match m.isEventHandlerMethod with
    | .error e => .error e
    | .ok false => collect reader p map rest
    | .ok true =>
      match ReflectionTools.discoverFactSpec reader p m with
      | .error e => .error e
      | .ok fs =>
        match h : map.get fs.coordinates with
        | some before => .error (.invalidHandlerDefinition
            ("Duplicate Handler method found for spec '" ++ fs.coordinates.toString ++ "':\n " ++
              m.toString ++ "\n clashes with\n " ++ before.dispatchMethod.toString))
        | none => collect reader p (map.put ⟨m, fs⟩ h) rest

/-- Of the methods of a projection's class, superclasses and inner classes. -/
def discoverDispatchInfo (reader : UuidReader) (p : ProjectionType) (methods : List Method) :
    Except DiscoveryException Dispatchers :=
  match collect reader p .empty methods with
  | .error e => .error e
  | .ok map =>
    if map.values.isEmpty then
      .error (.invalidHandlerDefinition ("No handler methods discovered on class " ++ p.name))
    else .ok map

/-- What a projection asks for, before its own postprocessing. -/
def createFactSpecs (map : Dispatchers) (aggregateId : Option UUID) : List FactSpec :=
  let discovered := map.values.map fun d => d.spec.copy
  match aggregateId with
  | some id => discovered.map fun spec => spec.addAggId id
  | none => discovered

end Dispatchers
end FactCast
