import TileWorld.World.Movement
import TileWorld.World.Removal
import TileWorld.World.Store

/-!
# Histories

An action is one operation with its arguments, and a history is a list of
actions. `World.run` performs a history and gathers the events of all its
actions, those refused included. The worlds that arise from an empty one
in this way are the reachable worlds.
-/

namespace TileWorld

/-- An operation on the world with its arguments. -/
inductive Action where
  | ensureLeaf (x y : UInt16)
  | setCell (position : Position) (cell : Cell) (policy : StorePolicy)
  | removeCell (position : Position)
  | place (occupant : Occupant) (position : Position)
  | remove (occupant : OccupantId)
  | move (occupant : OccupantId) (target : Position) (forceTeleport : Bool)
  deriving DecidableEq, Repr

/-- The world after an effect and the events reported, without the answer. -/
def Effect.outcome {α : Type} (e : Effect α) : World × List Event :=
  (e.world, e.events)

namespace World

/-- The world after an action, and the events that it reports. -/
def perform (w : World) : Action → World × List Event
  | .ensureLeaf x y => ((w.ensureLeaf x y).2, [])
  | .setCell p c policy => (w.setCell p c policy).outcome
  | .removeCell p => (w.removeCell p).outcome
  | .place o p => (w.place o p).outcome
  | .remove id => (w.remove id).outcome
  | .move id target force => (w.move id target force).outcome

/-- The world after a history, and the events that it reports in order. -/
def run (w : World) : List Action → World × List Event
  | [] => (w, [])
  | action :: rest =>
    let (next, events) := w.perform action
    let (last, later) := next.run rest
    (last, events ++ later)

end World

end TileWorld
