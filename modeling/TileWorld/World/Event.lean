import TileWorld.Occupant

/-!
# Events

Every operation that changes the world reports what happened as a list of
events, in the order in which it happened.
-/

namespace TileWorld

/-- What happens to a cell stored where there already is one. -/
inductive StorePolicy where
  /-- The contents of the incoming cell are folded into the present one. -/
  | merge
  /-- The present cell stays as it is and the incoming one is dropped. -/
  | keepExisting
  deriving DecidableEq, Repr, Inhabited

namespace StorePolicy

def all : List StorePolicy := [merge, keepExisting]

def name : StorePolicy → String
  | merge => "Merge"
  | keepExisting => "KeepExisting"

end StorePolicy

/-- What became of a cell that was to be stored. -/
inductive StoreOutcome where
  | inserted
  | merged
  | discarded
  deriving DecidableEq, Repr

/-- Why an occupant cannot be placed or moved. -/
inductive PlacementError where
  | outOfBounds
  | missingCell
  | unknownOccupant
  deriving DecidableEq, Repr

namespace PlacementError

def all : List PlacementError := [outOfBounds, missingCell, unknownOccupant]

def name : PlacementError → String
  | outOfBounds => "OutOfBounds"
  | missingCell => "MissingCell"
  | unknownOccupant => "UnknownOccupant"

def message : PlacementError → String
  | outOfBounds => "floor index is outside the tracked layers"
  | missingCell => "no cell exists at the requested position"
  | unknownOccupant => "occupant is not registered with the world"

end PlacementError

/-- A moved occupant as drawn for one player that watched the move. -/
structure Observation where
  observer : OccupantId
  /-- Index in the stack of the cell left, if the observer saw it there. -/
  oldStack : Option UInt32
  /-- Index in the stack of the cell entered, if the observer sees it there. -/
  newStack : Option UInt32
  deriving DecidableEq, Repr

/-- How a move went. -/
structure MoveOutcome where
  /-- The move was a teleport and not a walk. -/
  teleport : Bool
  /-- Facing after the move. -/
  facing : Direction
  /-- The occupant changed leaves. -/
  crossedLeaf : Bool
  deriving DecidableEq, Repr

/-- A report of one change of the world. -/
inductive Event where
  /-- A request to store a cell was answered. -/
  | cellSet (position : Position) (outcome : StoreOutcome)
  /-- A cell was removed, releasing so many items, its ground included. -/
  | cellRemoved (position : Position) (itemsReleased : Nat)
  /-- An occupant entered the world. -/
  | placed (occupant : OccupantId) (position : Position)
  /-- An occupant moved, watched by the spectators of both cells; the
  players among them observed its place in the stacks. -/
  | moved (occupant : OccupantId) (source target : Position) (teleport : Bool)
      (facing : Direction) (observers : List Observation) (spectators : List OccupantId)
  /-- An occupant was taken out of the world. -/
  | removed (occupant : OccupantId) (source : Position)
  /-- A player went elsewhere because its cell was removed. -/
  | relocated (occupant : OccupantId) (source target : Position)
  /-- An occupant left the world because its cell was removed. -/
  | evicted (occupant : OccupantId) (source : Position)
  deriving DecidableEq, Repr

end TileWorld
