import FactCast.Factus.Snapshot
import Mathlib.Logic.Function.Basic

/-! Snapshots in Redis.

A snapshot lies under a key that is made of its class and, for an aggregate, of its
identifier. Where nothing lies there, the cache looks under the key that was in use
before, and what it finds there it puts under the new key, too. The old key names the
revision of the class and the serializer. -/
namespace FactCast

/-! ### What an application declares -/

structure ProjectionMetaData where
  name : String := ""
  revision : Int := 0

structure Declaration (β α : Type) where
  /-- If the class is annotated. -/
  metaData : Option ProjectionMetaData
  /-- The name of the class, or of the class that it enhances. -/
  nameFor : String
  snapshots : SnapshotProjection β α

/-- A version of an application is what it declares for its classes. -/
abbrev ApplicationVersion (β α : Type) := ClassName → Declaration β α

variable {β α : Type}

def Declaration.name (d : Declaration β α) (metaData : ProjectionMetaData) : String :=
  if metaData.name = "" then d.nameFor else metaData.name

/-! ### Keys of old -/

namespace ScopedName

def fromProjectionMetaData (d : Declaration β α) (clazz : ClassName) :
    Except ProjectorImpl.Throwable String :=
  match d.metaData with
  | none => .error (.runtime
      (clazz.name ++ " must be annotated by org.factcast.factus.serializer.ProjectionMetaData"))
  | some metaData =>
    .ok (d.name metaData ++ "_" ++ toString metaData.revision)

def with_ (key suffix : String) : Except ProjectorImpl.Throwable String :=
  if blank suffix then .error (.runtime "postfix must not be empty") else .ok (key ++ "_" ++ suffix)

end ScopedName

namespace LegacySnapshotKeys

inductive RepoType where
  | snapshot
  | aggregate

def RepoType.id : RepoType → String
  | snapshot => "ProjectionSnapshotRepositoryImpl"
  | aggregate => "AggregateSnapshotRepositoryImpl"

def defaultUuid : UUID := ⟨0⟩

def createKeyForRepoType (repoType : RepoType) (d : Declaration β α) (type : ClassName)
    (serId : String) (aggregateUUID : Option UUID) : Except ProjectorImpl.Throwable String := do
  let revised ← ScopedName.fromProjectionMetaData d type
  let repo ← ScopedName.with_ revised repoType.id
  let classLevelKey ← ScopedName.with_ repo serId
  .ok (classLevelKey ++ (aggregateUUID.getD defaultUuid).toString)

def createKeyForType (d : Declaration β α) (id : SnapshotIdentifier) (serId : String) :
    Except ProjectorImpl.Throwable String :=
  match id.aggregateId with
  | some aggregateId => createKeyForRepoType .aggregate d id.projectionClass serId (some aggregateId)
  | none => createKeyForRepoType .snapshot d id.projectionClass serId none

end LegacySnapshotKeys

/-! ### Redis -/

structure LegacySnapshot (β : Type) where
  bytes : β
  lastFact : UUID

structure Stored (β : Type) extends SnapshotData β where
  /-- Under which it was stored, or would have been. It is not kept in Redis. -/
  revision : Option Int

/-- Buckets are read with the codec that they were written with. -/
structure Redis (β : Type) where
  buckets : String → Option (Stored β)
  legacyBuckets : String → Option (LegacySnapshot β)

namespace RedissonSnapshotCache
variable (app : ApplicationVersion β α) (id : SnapshotIdentifier)

def createKeyFor : String :=
  let sb := "sc_" ++ id.projectionClass.name
  match id.aggregateId with
  | some aggregateId => sb ++ ";" ++ aggregateId.toString
  | none => sb

def createLegacyKeyFor : Except ProjectorImpl.Throwable String :=
  let d := app id.projectionClass
  LegacySnapshotKeys.createKeyForType d id d.snapshots.serializer.id

def store (snapshot : Stored β) (redis : Redis β) : Redis β :=
  { redis with buckets := Function.update redis.buckets (createKeyFor id) (some snapshot) }

/-- A snapshot of old is taken for one by the serializer of today. -/
def migrated (s : LegacySnapshot β) : Stored β :=
  let d := app id.projectionClass
  { serializedProjection := s.bytes
    snapshotSerializerId := d.snapshots.serializer.id
    lastFactId := s.lastFact
    revision := d.metaData.map ProjectionMetaData.revision }

def find (redis : Redis β) : Except ProjectorImpl.Throwable (Option (Stored β)) × Redis β :=
  match redis.buckets (createKeyFor id) with
  | some snapshot => (.ok (some snapshot), redis)
  | none =>
    match createLegacyKeyFor app id with
    | .error e => (.error e, redis)
    | .ok legacyKey =>
      match redis.legacyBuckets legacyKey with
      | some s => (.ok (some (migrated app id s)), store id (migrated app id s) redis)
      | none => (.ok none, redis)

/-- Both buckets are deleted, if there is a key of old. -/
def remove (redis : Redis β) : Redis β :=
  let redis := { redis with buckets := Function.update redis.buckets (createKeyFor id) none }
  match createLegacyKeyFor app id with
  | .error _ => redis
  | .ok legacyKey => { redis with legacyBuckets := Function.update redis.legacyBuckets legacyKey none }

end RedissonSnapshotCache

/-! ### Repositories -/

namespace SnapshotRepository
variable (app : ApplicationVersion β α) (id : SnapshotIdentifier)

def store (projection : α) (state : UUID) (redis : Redis β) : Redis β :=
  let d := app id.projectionClass
  RedissonSnapshotCache.store id
    { toSnapshotData := (AbstractSnapshotRepository.serialize d.snapshots projection state).2
      revision := d.metaData.map ProjectionMetaData.revision } redis

def findLatest (redis : Redis β) : Except ProjectorImpl.Throwable (Option (α × UUID)) × Redis β :=
  match RedissonSnapshotCache.find app id redis with
  | (.ok (some sd), redis) =>
    ((AbstractSnapshotRepository.deserialize (app id.projectionClass).snapshots
      sd.serializedProjection).map fun projection => some (projection, sd.lastFactId), redis)
  | (.ok none, redis) => (.ok none, redis)
  | (.error e, redis) => (.error e, redis)

end SnapshotRepository
end FactCast
