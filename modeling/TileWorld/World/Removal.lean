import TileWorld.World.Occupancy

/-!
# Removing cells

A cell is removed after everybody on it has gone. Players go to a fallback
cell if there is one, all others leave the world.
-/

namespace TileWorld

/-- What the removal of a cell set free. -/
structure RemovedCell where
  /-- Players that went to a fallback cell. -/
  relocated : List OccupantId
  /-- Occupants that left the world. -/
  evicted : List OccupantId
  /-- Ground and items of the cell, bottom to top. -/
  items : List Item
  deriving DecidableEq, Repr

namespace World

/-- Where an occupant of a removed cell goes: for a player, the first of
its own fallback and the world's that is another position holding a cell. -/
def fallback? (w : World) (r : Resident) (removed : Position) : Option Position :=
  if r.occupant.isPlayer then
    (r.occupant.fallback.toList ++ w.config.fallback.toList).find? fun p =>
      p ≠ removed && (w.cell? p).isSome
  else none

/-- Progress of clearing a cell of its occupants. -/
structure Clearing where
  world : World
  /-- Events so far, in order. -/
  events : List Event := []
  relocated : List OccupantId := []
  evicted : List OccupantId := []

/-- Sends one occupant away from a cell that is to be removed. -/
def sendAway (removed : Position) (c : Clearing) (id : OccupantId) : Clearing :=
  match c.world.resident? id with
  | none =>
    { c with events := c.events ++ [.evicted id removed], evicted := c.evicted ++ [id] }
  | some r =>
    match c.world.fallback? r removed with
    | some target =>
      { c with
        world := c.world.transfer id r target
        events := c.events ++ [.relocated id removed target]
        relocated := c.relocated ++ [id] }
    | none =>
      { c with
        world := c.world.detach id r
        events := c.events ++ [.evicted id removed]
        evicted := c.evicted ++ [id] }

/-- Removes the cell at a position. Its occupants are sent away in the
order of their arrival, then its items are released. -/
def removeCell (w : World) (p : Position) : Effect (Option RemovedCell) :=
  match w.cell? p with
  | none => ⟨w, [], none⟩
  | some cell =>
    let cleared := cell.occupants.foldl (sendAway p) { world := w }
    match cleared.world.cell? p with
    | none => ⟨cleared.world, cleared.events, none⟩
    | some rest =>
      ⟨{ cleared.world with grid := cleared.world.grid.modifyAt p (·.put p none) },
        cleared.events ++ [.cellRemoved p rest.contents.length],
        some ⟨cleared.relocated, cleared.evicted, rest.contents⟩⟩

end World

end TileWorld
