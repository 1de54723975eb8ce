/-!
# Limits and costs of the pathfinder

A pathfinder is only created from settings that pass
`SearchConfig.check`.
-/

namespace TileWorld

/-- Limits and step costs of every search of a pathfinder. -/
structure SearchConfig where
  /-- Number of nodes that one search may allocate. -/
  nodeCapacity : Nat := 512
  /-- Number of closed nodes at which a search without a limit of distance
  stops. -/
  closedBudget : Nat := 100
  /-- Cost of a step along a row or a column. -/
  straightCost : UInt32 := 10
  /-- Cost of a diagonal step. -/
  diagonalCost : UInt32 := 25
  /-- Extra cost of a cell whose top occupant stands in the way. -/
  blockingCost : UInt32 := 30
  /-- Extra cost of a cell covered by a harmful field. -/
  hazardCost : UInt32 := 180
  deriving DecidableEq, Repr, Inhabited

/-- Why settings of a pathfinder are refused. -/
inductive SearchConfigError where
  | nodeCapacity (capacity : Nat)
  | zeroClosedBudget
  | zeroStepCost
  deriving DecidableEq, Repr

/-- Largest node capacity that a pathfinder accepts. -/
def maxNodeCapacity : Nat := 65536

namespace SearchConfigError

def message : SearchConfigError → String
  | nodeCapacity capacity =>
    s!"node capacity must lie within 1..={maxNodeCapacity}, got {capacity}"
  | zeroClosedBudget => "closed node budget must be positive"
  | zeroStepCost => "step costs must be positive"

end SearchConfigError

namespace SearchConfig

/-- Refuses a capacity without room for the start or beyond the largest one,
then a budget without a single node, then steps that are free. -/
def check (c : SearchConfig) : Except SearchConfigError Unit :=
  if c.nodeCapacity = 0 ∨ maxNodeCapacity < c.nodeCapacity then
    .error (.nodeCapacity c.nodeCapacity)
  else if c.closedBudget = 0 then .error .zeroClosedBudget
  else if c.straightCost = 0 ∨ c.diagonalCost = 0 then .error .zeroStepCost
  else .ok ()

end SearchConfig

end TileWorld
