import FactCast.Factus.Apply

/-! Snapshots of projections.

A snapshot is what a serializer makes of a projection, together with the
serializer's identifier and that of the last fact. It is stored under the class and,
for an aggregate, its identifier. -/
namespace FactCast

/-- A binary name, in which no semicolon occurs. -/
structure ClassName where
  name : String
  binary : ';' ∉ name.toList
deriving DecidableEq

/-- Identifiers of aggregates have an `aggregateId`, and no others. -/
structure SnapshotIdentifier where
  projectionClass : ClassName
  aggregateId : Option UUID
deriving DecidableEq

/-- `β` are the bytes. -/
structure SnapshotData (β : Type) where
  serializedProjection : β
  snapshotSerializerId : String
  lastFactId : UUID

structure SnapshotSerializer (β α : Type) where
  id : String
  serialize : α → β
  deserialize : β → Except ProjectorImpl.Throwable α

/-- A class of projections, with the serializer that is selected for it. -/
structure SnapshotProjection (β α : Type) where
  serializer : SnapshotSerializer β α
  onBeforeSnapshot : α → α := id
  onAfterRestore : α → α := id

namespace AbstractSnapshotRepository
variable {β α : Type} (type : SnapshotProjection β α)

/-- The instance as it is after it has been serialized, and its snapshot. -/
def serialize (projection : α) (state : UUID) : α × SnapshotData β :=
  let projection := type.onBeforeSnapshot projection
  (projection, ⟨type.serializer.serialize projection, type.serializer.id, state⟩)

def deserialize (bytes : β) : Except ProjectorImpl.Throwable α :=
  (type.serializer.deserialize bytes).map type.onAfterRestore

end AbstractSnapshotRepository

/-- What is stored is what is restored, hooks included, and storing it does not change it. -/
structure SnapshotProjection.Restores {β α : Type} (type : SnapshotProjection β α) : Prop where
  serialize : ∀ p state, (AbstractSnapshotRepository.serialize type p state).1 = p
  deserialize : ∀ p state, AbstractSnapshotRepository.deserialize type
    (AbstractSnapshotRepository.serialize type p state).2.serializedProjection = .ok p

end FactCast
