import TileWorld.World.Basic

/-!
# How a cell is drawn

A client draws the stack of a cell bottom to top: its ground, the items
that are always on top, then the occupants that its viewer perceives, from
the newest to the oldest.
-/

namespace TileWorld.World

/-- The newest occupant of a cell that a viewer perceives. -/
def topVisible? (w : World) (p : Position) (viewer : Occupant) :
    Option (OccupantId × Occupant) := do
  let cell ← w.cell? p
  cell.occupants.reverse.findSome? fun id => do
    let target ← w.occupant? id
    if viewer.perceives target then some (id, target) else none

/-- The observer sees an occupant: it is the observer itself or a
registered occupant that it perceives. -/
def sees (w : World) (observer : OccupantId) (viewer : Occupant) (id : OccupantId) : Bool :=
  id == observer || (w.occupant? id).any viewer.perceives

/-- Index of an occupant in the stack of a cell as drawn for an observer.
There is none if the observer does not see it or it stands elsewhere. -/
def stackIndex? (w : World) (p : Position) (id observer : OccupantId) : Option UInt32 := do
  let cell ← w.cell? p
  let viewer ← w.occupant? observer
  if !w.sees observer viewer id then none
  else
    let slot ← cell.occupants.idxOf? id
    let newer := (cell.occupants.drop (slot + 1)).countP (w.sees observer viewer)
    let below := cell.hasGround.toNat + cell.topItemCount
    return UInt32.ofNat (min (below + newer) 4294967295)

end TileWorld.World
