import TileWorld.Sight.Line
import TileWorld.World.Basic

/-!
# Sight

What stands on floor `z` stands on the ground of the cell at `z`, and the
ground of the cell at `z - 1` is its ceiling. A sight line changes floors
only where there is no ground between them. Missing cells hide nothing.

`World.canSee` follows one line through the floors, `World.isSightClear`
tests a line on one floor in both directions, and `World.canThrowTo`
bounds the reach of a throw.
-/

namespace TileWorld.World

/-- Largest number of floors that a sight line may bridge. -/
def maxFloorDelta : Nat := 2

def hasGround (w : World) (p : Position) : Bool :=
  (w.cell? p).any (·.hasGround)

def stopsProjectiles (w : World) (p : Position) : Bool :=
  (w.cell? p).any (·.hasFlag Flags.blocksProjectile)

/-- Highest and lowest floor on the same side of the surface as a position. -/
def bandLimits (p : Position) : UInt8 × UInt8 :=
  if p.isUnderground then (surfaceFloor + 1, lastFloor) else (0, surfaceFloor)

/-- A position moved one floor toward another floor, if nothing lies
between the two floors there. -/
def stepToward (w : World) (p : Position) (z : UInt8) : Position :=
  if p.z < z then
    if w.hasGround p then p else p.onFloor (p.z + 1)
  else if z < p.z then
    let above := p.onFloor (p.z - 1)
    if w.hasGround above then p else above
  else p

/-- A position after at most so many steps toward another floor. -/
def settle (w : World) (z : UInt8) : Nat → Position → Position
  | 0, p => p
  | steps + 1, p => settle w z steps (w.stepToward p z)

/-- A position sunk by at most so many floors, through holes and not below
the lowest floor given. -/
def sink (w : World) (lowest : UInt8) : Nat → Position → Position
  | 0, p => p
  | floors + 1, p =>
    if p.z < lowest && !w.hasGround p then sink w lowest floors (p.onFloor (p.z + 1)) else p

/-- The position one floor above a blocked one, for a line that rises
through the open ceiling of the column it leaves. There is none above the
ceiling given, or if that position is blocked too. -/
def climbOver? (w : World) (cursor blocked : Position) (ceiling : UInt8) : Option Position :=
  if cursor.z ≤ ceiling || w.hasGround (cursor.onFloor (cursor.z - 1)) then none
  else
    let raised := blocked.onFloor (cursor.z - 1)
    if w.stopsProjectiles raised then none else some raised

/-- Where a sight line stands after one more point, if it gets there. The
line first changes floors toward its target as far as it can. The target's
own column is never blocked. -/
def advance? (w : World) (target : Position) (ceiling : UInt8) (cursor : Position)
    (point : UInt16 × UInt16) : Option Position :=
  let cursor := w.stepToward cursor target.z
  let next : Position := ⟨point.1, point.2, cursor.z⟩
  if point ≠ (target.x, target.y) && w.stopsProjectiles next then
    w.climbOver? cursor next ceiling
  else some next

/-- Some sight line connects two positions. An eye over a hole may sink by
the floor penalty, and a line may climb by as much above the eye to pass
over an obstacle. -/
def canSee (w : World) (source target : Position) (floorPenalty : UInt8) : Bool :=
  if source = target then true
  else if maxFloorDelta < source.distanceZ target ||
      source.isUnderground != target.isUnderground then false
  else
    let (top, bottom) := bandLimits source
    let ceiling := max (UInt8.ofNat (source.z.toNat - floorPenalty.toNat)) top
    let eye := w.sink bottom floorPenalty.toNat source
    match (Line.between source target).points.foldlM (w.advance? target ceiling) eye with
    | none => false
    | some reached => w.settle target.z (reached.distanceZ target) reached == target

/-- No point of the line before its target stops projectiles, on the floor
of the source. -/
def isLineClear (w : World) (source target : Position) : Bool :=
  (Line.between source target).points.all fun point =>
    point == (target.x, target.y) || !w.stopsProjectiles ⟨point.1, point.2, source.z⟩

/-- A straight line on one floor connects two positions in one direction
or the other. With the floor check, positions on different floors never
connect; without it, the line runs on the floor of the source. -/
def isSightClear (w : World) (source target : Position) (floorCheck : Bool) : Bool :=
  if floorCheck && source.z != target.z then false
  else
    let target := target.onFloor source.z
    w.isLineClear source target || w.isLineClear target source

/-- An item thrown from one position can land on another. The reach along
each axis shrinks by one cell per floor of difference. -/
def canThrowTo (w : World) (source target : Position) (checkLine : Bool)
    (rangeX rangeY : UInt16) : Bool :=
  let floors := source.distanceZ target
  if source.isUnderground != target.isUnderground then false
  else if maxFloorDelta < floors then false
  else if rangeX.toNat < source.distanceX target - floors ||
      rangeY.toNat < source.distanceY target - floors then false
  else !checkLine || w.canSee source target (UInt8.ofNat maxFloorDelta)

end TileWorld.World
