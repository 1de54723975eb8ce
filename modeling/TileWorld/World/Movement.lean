import TileWorld.World.Occupancy
import TileWorld.World.View

/-!
# Moving occupants

A move is a walk if it leads onto ground one step away on the same floor,
and a teleport otherwise. The spectators of both cells learn of it. The
players among them get the place of the moved occupant in the stacks of
both cells, before the move in the one and after it in the other.
-/

namespace TileWorld.World

/-- Facing after a way from one position to another. A walk turns toward
the change of row first, a teleport toward the change of column. Without
any change the facing stays. -/
def facingAfter (source target : Position) (teleport : Bool) (current : Direction) :
    Direction :=
  let vertical : Option Direction :=
    if target.y < source.y then some .north
    else if source.y < target.y then some .south
    else none
  let horizontal : Option Direction :=
    if target.x < source.x then some .west
    else if source.x < target.x then some .east
    else none
  let turn := if teleport then horizontal <|> vertical else vertical <|> horizontal
  turn.getD current

/-- Everybody within the viewport around either of two positions, those
around the first one first. -/
def witnesses (w : World) (source target : Position) : Gathering :=
  let viewport := w.config.viewport
  (w.spectators source true false viewport).merge (w.spectators target true false viewport)

def isPlayer (w : World) (id : OccupantId) : Bool :=
  (w.occupant? id).any (·.isPlayer)

/-- Moves an occupant onto the cell at a position, as a teleport if
demanded. -/
def move (w : World) (id : OccupantId) (target : Position) (forceTeleport : Bool) :
    Effect (Except PlacementError MoveOutcome) :=
  if !target.hasValidFloor then ⟨w, [], .error .outOfBounds⟩
  else
    match w.resident? id with
    | none => ⟨w, [], .error .unknownOccupant⟩
    | some r =>
      match w.cell? target with
      | none => ⟨w, [], .error .missingCell⟩
      | some cell =>
        let source := r.position
        let teleport := forceTeleport || !cell.hasGround || !source.isAdjacent target
        let facing := facingAfter source target teleport r.facing
        let crossedLeaf := w.crossesLeaf source target
        let spectators := (w.witnesses source target).ids
        let before := (spectators.filter w.isPlayer).map fun observer =>
          (observer, w.stackIndex? source id observer)
        let w := w.transfer id { r with facing } target
        let observers := before.map fun (observer, oldStack) =>
          { observer, oldStack, newStack := w.stackIndex? target id observer }
        ⟨w, [.moved id source target teleport facing observers spectators],
          .ok { teleport, facing, crossedLeaf }⟩

end TileWorld.World
