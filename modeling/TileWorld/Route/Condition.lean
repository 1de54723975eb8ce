import TileWorld.Route.Params
import TileWorld.Route.Saturating
import TileWorld.Sight.Visibility

/-!
# Where a route may end

A search asks its condition about each cell that it selects. The condition
keeps the quality of the best match from one question to the next and
answers with a `Verdict`. An accepted cell of quality zero is an exact
match and ends the search; any other accepted cell is remembered while the
search goes on.

`TargetCondition` seeks the cells at a band of distances around a target.
-/

namespace TileWorld

/-- A condition's answer about one cell. -/
structure Verdict where
  /-- The search may end on the cell. -/
  accepted : Bool
  /-- Quality of the best match after the answer, zero for an exact one. -/
  best : Int
  deriving DecidableEq, Repr

/-- Decides which cells may end a search from a start. -/
structure PathCondition where
  /-- The cell lies in the area considered around the goal. -/
  isInRange : (start candidate : Position) → SearchParams → Bool
  /-- The verdict on a cell, given the quality of the best match so far. -/
  judge : World → (start candidate : Position) → SearchParams → (best : Int) → Verdict

/-- Seeks cells at a band of Chebyshev distances around a target. A cell at
the largest distance is an exact match; failing that, the farthest cell of
the band is preferred. -/
structure TargetCondition where
  target : Position
  deriving DecidableEq, Repr

namespace TargetCondition

/-- The cell lies within the largest distance of the target along both
axes, and unless all sides count, not on the side of the target away from
the start. -/
def isInRange (c : TargetCondition) (start candidate : Position) (params : SearchParams) :
    Bool :=
  let reach := params.maxTarget.toInt
  let targetX : Int := c.target.x.toNat
  let targetY : Int := c.target.y.toNat
  let x : Int := candidate.x.toNat
  let y : Int := candidate.y.toNat
  let offsetX := (start.x.toNat : Int) - targetX
  let offsetY := (start.y.toNat : Int) - targetY
  let full := params.fullSearch
  let east := if full || 0 ≤ offsetX then reach else 0
  let west := if full || offsetX ≤ 0 then reach else 0
  let south := if full || 0 ≤ offsetY then reach else 0
  let north := if full || offsetY ≤ 0 then reach else 0
  x ≤ saturate (targetX + east) && saturate (targetX - west) ≤ x &&
    y ≤ saturate (targetY + south) && saturate (targetY - north) ≤ y

/-- The verdict on a cell. Next to the target, at the largest distance of
one, all cells of the band match alike and the quality stays as it was. -/
def judge (c : TargetCondition) (w : World) (start candidate : Position)
    (params : SearchParams) (best : Int) : Verdict :=
  let distance : Int := candidate.chebyshev c.target
  let smallest := params.minTarget.toInt
  let largest := params.maxTarget.toInt
  if !c.isInRange start candidate params then ⟨false, best⟩
  else if params.clearSight && !w.isSightClear candidate c.target true then ⟨false, best⟩
  else if largest = 1 then ⟨smallest ≤ distance && distance ≤ largest, best⟩
  else if largest < distance || distance < smallest then ⟨false, best⟩
  else if distance = largest then ⟨true, 0⟩
  else if best < distance then ⟨true, distance⟩
  else ⟨false, best⟩

def toPathCondition (c : TargetCondition) : PathCondition where
  isInRange := c.isInRange
  judge := c.judge

end TargetCondition

end TileWorld
