import FactCast.Store.RequestedVersions
import FactCast.Store.StreamOrder

/-! Handlers, what they ask the server for, and what they are given.

A projector finds the handler methods of a projection class and makes of each a
specification: its event's namespace, type and version, and the filters that its
annotations declare. Copies of the specifications go to the server. A fact that
comes back is given to the handler of its namespace, type and version, or else to
the one of its namespace and type with version zero. -/
namespace FactCast

/-- What is thrown for a projection class that cannot be used. -/
structure InvalidHandlerDefinition where
  message : String
deriving DecidableEq

structure FactSpecCoordinates where
  ns : String
  type : Option String
  version : Int
deriving DecidableEq

def FactSpecCoordinates.toString (coords : FactSpecCoordinates) : String :=
  "FactSpecCoordinates(ns=" ++ coords.ns ++ ", type=" ++ coords.type.getD "null" ++ ", version=" ++
    ToString.toString coords.version ++ ")"

/-- A handler method and its annotations. -/
structure Handler where
  method : String
  ns : String
  ns_given : blank ns = false
  type : String
  version : Int := 0
  filterByMeta : List (String × String) := []
  filterByMetaExists : List String := []
  filterByMetaDoesNotExist : List String := []
  filterByAggId : List UUID := []

/-! ### Building specifications -/

namespace LinkedMap
variable {β : Type}

/-- A key keeps its place, a new one comes last. -/
def put (m : LinkedMap β) (key : String) (value : β) : LinkedMap β :=
  if h : key ∈ m.entries.map Prod.fst then
    { entries := m.entries.map fun e => if e.1 = key then (key, value) else e
      nodup := by
        have hkeys : (m.entries.map fun e => if e.1 = key then (key, value) else e).map Prod.fst =
            m.entries.map Prod.fst := by
          rw [List.map_map]
          refine List.map_congr_left fun e _ => ?_
          by_cases he : e.1 = key
          · simp [he]
          · simp [he]
        rw [hkeys]
        exact m.nodup }
  else
    { entries := m.entries ++ [(key, value)]
      nodup := by
        rw [List.map_append, List.map_singleton]
        refine List.nodup_append.mpr ⟨m.nodup, List.nodup_singleton _, fun a ha b hb hab => ?_⟩
        rw [hab, List.mem_singleton.mp hb] at ha
        exact h ha }

/-- The entries of a list, put in one after another. -/
def putAll (m : LinkedMap β) (entries : List (String × β)) : LinkedMap β :=
  entries.foldl (fun m e => m.put e.1 e.2) m

end LinkedMap

namespace FactSpec

def addAggId (spec : FactSpec) (id : UUID) : FactSpec :=
  { spec with aggIds := if id ∈ spec.aggIds then spec.aggIds else spec.aggIds ++ [id] }

/-- The keys that `meta` must or must not have are not copied. -/
def copy (spec : FactSpec) : FactSpec where
  ns := spec.ns
  ns_given := spec.ns_given
  type := spec.type
  version := spec.version
  aggId := spec.aggId
  aggIds := spec.aggIds
  «meta» := LinkedMap.empty.putAll spec.meta.entries
  filterScript := spec.filterScript

end FactSpec

namespace Handler
variable (h : Handler)

def coordinates : FactSpecCoordinates := ⟨h.ns, some h.type, h.version⟩

/-- The specification of a handler, with its filters in the order in which they
are added. -/
def discoverFactSpec : FactSpec :=
  let keys := (LinkedMap.empty.putAll (h.filterByMetaExists.map fun k => (k, true))).putAll
    (h.filterByMetaDoesNotExist.map fun k => (k, false))
  let spec : FactSpec :=
    { ns := h.ns, ns_given := h.ns_given, type := some h.type, version := h.version
      «meta» := LinkedMap.empty.putAll h.filterByMeta, metaKeyExists := keys }
  h.filterByAggId.foldl FactSpec.addAggId spec

/-- Every filter that is declared on the handler is met. -/
structure Admits (header : Header) : Prop where
  filterByMeta : ∀ e ∈ h.filterByMeta, header.meta? e.1 = some (.str e.2)
  filterByMetaExists : ∀ key ∈ h.filterByMetaExists, (header.meta? key).isSome = true
  filterByMetaDoesNotExist : ∀ key ∈ h.filterByMetaDoesNotExist, (header.meta? key).isSome = false
  filterByAggId : ∀ id ∈ h.filterByAggId,
    ∃ items, header.json.get? "aggIds" = some (.arr items) ∧ .str id.toString ∈ items

end Handler

/-! ### Dispatching -/

/-- The handlers of a projection class, by their coordinates. -/
structure DispatchInfo where
  handlers : List Handler
  keyed : (handlers.map Handler.coordinates).Nodup

namespace DispatchInfo

def empty : DispatchInfo := ⟨[], List.nodup_nil⟩

def get (info : DispatchInfo) (coords : FactSpecCoordinates) : Option Handler :=
  info.handlers.find? fun h => h.coordinates == coords

def put (info : DispatchInfo) (h : Handler) (hnew : info.get h.coordinates = none) : DispatchInfo where
  handlers := info.handlers ++ [h]
  keyed := by
    rw [List.map_append, List.map_singleton]
    refine List.nodup_append.mpr ⟨info.keyed, List.nodup_singleton _, fun a ha b hb hab => ?_⟩
    obtain ⟨other, hother, rfl⟩ := List.mem_map.mp ha
    rw [List.mem_singleton.mp hb] at hab
    exact List.find?_eq_none.mp hnew other hother (beq_iff_eq.mpr hab)

end DispatchInfo

namespace ProjectorImpl

/-- Handlers are collected one after another; no two may have the same coordinates. -/
def collect (info : DispatchInfo) : List Handler → Except InvalidHandlerDefinition DispatchInfo
  | [] => .ok info
  | m :: rest =>
    match h : info.get m.coordinates with
    | some before => .error ⟨"Duplicate Handler method found for spec '" ++ m.coordinates.toString ++
        "':\n " ++ m.method ++ "\n clashes with\n " ++ before.method⟩
    | none => collect (info.put m h) rest

def discoverDispatchInfo (className : String) (methods : List Handler) :
    Except InvalidHandlerDefinition DispatchInfo :=
  match collect .empty methods with
  | .error e => .error e
  | .ok info =>
    if info.handlers.isEmpty then .error ⟨"No handler methods discovered on " ++ className⟩
    else .ok info

/-- What the server is asked for. An aggregate asks for what is about itself. -/
def createFactSpecs (info : DispatchInfo) (aggregateId : Option UUID) : List FactSpec :=
  let discovered := info.handlers.map fun h => h.discoverFactSpec.copy
  match aggregateId with
  | some id => discovered.map fun spec => spec.addAggId id
  | none => discovered

/-- The handler that a fact is given to. -/
def callHandlerFor (info : DispatchInfo) (f : PgFact) : Except InvalidHandlerDefinition Handler :=
  let coords : FactSpecCoordinates := ⟨f.ns, f.type, f.version⟩
  match info.get coords with
  | some dispatch => .ok dispatch
  | none =>
    match info.get { coords with version := 0 } with
    | some dispatch => .ok dispatch
    | none => .error ⟨"Unexpected Fact coordinates: '" ++ coords.toString ++ "'"⟩

end ProjectorImpl
end FactCast
