import FactCast.Store.Pipeline
import Mathlib.Data.List.MinMax

/-! Which facts are transformed, and how.

A subscription collects the versions its specifications request, by namespace and
type (`RequestedVersions`). A fact whose version is not among those requested for
its own namespace and type is to be brought to one of them (`FactTransformers`).
The service looks for a chain of transformations that ends at a requested version
(`TransformationChains`) and runs it, unless the result is cached
(`FactTransformerService`).

How paths are found in the graph of transformations, what the scripts make of a
payload, and what the cache holds are parameters; a cache holds nothing but what
was made of facts of the table. -/
namespace FactCast

/-! ### Requested versions -/

/-- The versions by namespace and type. -/
def RequestedVersions := String → String → List Int

namespace RequestedVersions

def empty : RequestedVersions := fun _ _ => []

def add (c : RequestedVersions) (ns type : String) (version : Int) : RequestedVersions :=
  fun n t => if n = ns ∧ t = type then (c n t).insert version else c n t

def matches_ (c : RequestedVersions) (ns type : String) (version : Int) : Bool :=
  (c ns type).contains 0 || (c ns type).contains version

end RequestedVersions

namespace FactTransformers

/-- Specifications without a type request nothing. -/
def createFor (specs : List FactSpec) : RequestedVersions :=
  specs.foldl (fun c s =>
    match s.type with
    | some type => c.add s.ns type s.version
    | none => c) .empty

/-- The fact with what was requested for its namespace and type, unless that is
met or nothing was. -/
def prepareTransformation (requested : RequestedVersions) (e : PgFact) :
    Option TransformationRequest :=
  match e.type with
  | none => none
  | some type =>
    if requested.matches_ e.ns type e.version then none
    else if (requested e.ns type).isEmpty then none
    else some ⟨e, requested e.ns type⟩

end FactTransformers

/-! ### Chains of transformations -/

structure TransformationKey where
  ns : String
  type : String
deriving DecidableEq

def TransformationKey.toString (key : TransformationKey) : String :=
  "TransformationKey(ns=" ++ key.ns ++ ", type=" ++ key.type ++ ")"

structure Edge where
  fromVersion : Int
  toVersion : Int
deriving DecidableEq

structure TransformationChain where
  id : String
  key : TransformationKey
  fromVersion : Int
  toVersion : Int
  /-- Whose scripts run, one after the other. -/
  steps : List Edge
deriving DecidableEq

def TransformationChain.toString (chain : TransformationChain) : String :=
  "TransformationChain(id=" ++ chain.id ++ ", key=" ++ chain.key.toString ++ ", fromVersion=" ++
    ToString.toString chain.fromVersion ++ ", toVersion=" ++ ToString.toString chain.toVersion ++ ")"

/-- The header with another version. -/
def Header.withVersion (h : Header) (version : Int) : Header where
  members := Jsonb.setMember h.members "version" (.num ⟨version, 0⟩)
  ns_given := by
    unfold nsOf
    rw [Jsonb.lookup_setMember]
    exact h.ns_given
  meta_no_array := by
    intro items
    rw [Jsonb.lookup_setMember]
    exact h.meta_no_array items

/-- The fact in another version, with another payload. -/
def PgFact.transformed (e : PgFact) (version : Int) (payload : Jsonb) : PgFact :=
  { e with version, jsonHeader := e.jsonHeader.withVersion version, jsonPayload := payload }

/-- What was transformed before, by identifier, version and chain: facts of the
table in the versions they are filed under. -/
structure TransformationCache (table : UUID → Option PgFact) where
  find : UUID → Int → String → Option PgFact
  made : ∀ id version chainId g, find id version chainId = some g →
    ∃ e payload, table id = some e ∧ g = e.transformed version payload

def TransformationCache.empty (table : UUID → Option PgFact) : TransformationCache table :=
  ⟨fun _ _ _ => none, by simp⟩

/-- The service for the facts of a table. -/
structure FactTransformerService (table : UUID → Option PgFact) where
  registry : TransformationKey → List Edge
  /-- A shortest path between two versions. -/
  search : List Edge → Int → Int → Option (List Edge)
  trans : TransformationChain → Jsonb → Option Jsonb
  /-- The cache at the `n`-th call. -/
  cache : Nat → TransformationCache table

namespace FactTransformerService

abbrev Throwable := BufferedTransformingServerPipeline.Throwable

def versions (vs : List Int) : String := "[" ++ ", ".intercalate (vs.map ToString.toString) ++ "]"

/-- The sum of the versions a path passes, in 32 bits. -/
def versionSum (path : List Edge) : Int := (path.map Edge.toVersion).sum.bmod (2 ^ 32)

/-- The shortest, and of these the first with the highest sum. -/
def pickFinalPath (possiblePaths : List (List Edge)) : Option (List Edge) :=
  let shortest := possiblePaths.filter fun l => possiblePaths.all fun m => decide (l.length ≤ m.length)
  @List.argmax (List Edge) Int Int.instLinearOrder.toPreorder inferInstance versionSum shortest

variable {table : UUID → Option PgFact} (service : FactTransformerService table)

/-- The paths found that lead from the version to a requested one. -/
def possiblePaths (all : List Edge) (version : Int) (requested : List Int) : List (List Edge) :=
  requested.filterMap fun targetVersion =>
    (service.search all version targetVersion).filter fun path =>
      match path.head?, path.getLast? with
      | some first, some last => requested.contains last.toVersion && first.fromVersion == version
      | _, _ => false

def build (key : TransformationKey) (version : Int) (requested : List Int) :
    Except Throwable TransformationChain :=
  if requested.isEmpty then .error (.illegalState "")
  else if (service.registry key).isEmpty then
    .error (.transformationException ("No Transformations for " ++ key.toString ++ " from version " ++
      toString version ++ " to " ++ versions requested))
  else
    match pickFinalPath (service.possiblePaths (service.registry key) version requested) with
    | some (first :: rest) =>
      .ok ⟨versions (first.fromVersion :: (first :: rest).map Edge.toVersion), key, first.fromVersion,
        ((first :: rest).getLast (by simp)).toVersion, first :: rest⟩
    | _ =>
      .error (.transformationException ("Cannot reach any version in " ++ versions requested ++
        " from version " ++ toString version ++ " for " ++ key.toString))

def toChain (request : TransformationRequest) : Except Throwable TransformationChain :=
  let e := request.toTransform
  service.build ⟨e.ns, e.type.getD ""⟩ e.version request.targetVersions

def doTransform (e : PgFact) (chain : TransformationChain) : Except Throwable PgFact :=
  match service.trans chain e.jsonPayload with
  | some payload => .ok (e.transformed chain.toVersion payload)
  | none => .error (.transformationException ("Failed to transform " ++ chain.toString))

/-- What a transformed fact is filed under. -/
abbrev Key := UUID × Int × String

def keyOf (p : TransformationRequest × TransformationChain) : Key :=
  (p.1.toTransform.id, p.2.toVersion, p.2.id)

/-- What the cache has for some keys. Of the facts with one identifier, which are
equal to each other, the first counts. -/
def findAll (n : Nat) (keys : List Key) : List PgFact :=
  keys.filterMap fun k => (service.cache n).find k.1 k.2.1 k.2.2

/-- The fact from the cache, or made. -/
def resolve (found : List PgFact) (p : TransformationRequest × TransformationChain) :
    Except Throwable PgFact :=
  match found.find? fun f => f.id == p.1.toTransform.id with
  | some cached => .ok cached
  | none => service.doTransform p.1.toTransform p.2

/-- All chains are looked up first, then the cache, for a set of keys that is gone
through in some order, and then the rest is done. -/
def transformIn (n : Nat) (enumerate : List Key → List Key) (requests : List TransformationRequest) :
    Except Throwable (List PgFact) :=
  if requests.isEmpty then .ok []
  else
    match requests.mapM fun r => (service.toChain r).map fun chain => (r, chain) with
    | .error e => .error e
    | .ok pairs => pairs.mapM (service.resolve (service.findAll n (enumerate (pairs.map keyOf).dedup)))

def transform (n : Nat) (requests : List TransformationRequest) : Except Throwable (List PgFact) :=
  service.transformIn n id requests

end FactTransformerService

/-- The stage of a subscription. -/
def BufferedTransformingServerPipeline.create {table : UUID → Option PgFact} (specs : List FactSpec)
    (service : FactTransformerService table) (maxBufferSize : Nat) (admitted : 2 < maxBufferSize) : BufferedTransformingServerPipeline where
  prepareTransformation := FactTransformers.prepareTransformation (FactTransformers.createFor specs)
  transform := service.transform
  maxBufferSize := maxBufferSize
  admitted := admitted

end FactCast
