import FactCast.Core.Spec

/-! Positions in the fact stream, and what is announced of a stream. -/
namespace FactCast

/-- The identifier refers to a state, the serial is there to compare. -/
structure FactStreamPosition where
  factId : Option UUID
  serial : Int
deriving DecidableEq

/-- Anything is after no position. -/
def FactStreamPosition.isAfter (p : FactStreamPosition) : Option FactStreamPosition → Bool
  | none => true
  | some q => decide (q.serial < p.serial)

/-- From where a stream starts, and where the log ended then. -/
structure FactStreamInfo where
  startSerial : Int
  horizonSerial : Int
deriving DecidableEq

end FactCast
