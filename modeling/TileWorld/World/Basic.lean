import Std.Data.TreeMap
import TileWorld.Grid
import TileWorld.Spectator.Query
import TileWorld.World.Config
import TileWorld.World.Event

/-!
# The world

A world holds the leaves of the map and a register of its occupants. The
register keeps for each occupant its capabilities, its position and its
facing; the cells and leaves list the same occupants by id. This module
has the state and the queries that read it; the modules beside it have the
operations, each of which answers with an `Effect`.
-/

namespace TileWorld

/-- A registered occupant. -/
structure Resident where
  occupant : Occupant
  position : Position
  facing : Direction
  deriving DecidableEq, Repr

/-- The state of the map and of everybody on it. -/
structure World where
  config : WorldConfig := {}
  grid : Grid := .empty
  residents : Std.TreeMap OccupantId Resident := ∅
  /-- The number that the next occupant placed will get. -/
  nextNumber : UInt32 := 1

/-- What an operation leaves behind: the world after it, the events that
it reports and its answer. -/
structure Effect (α : Type) where
  world : World
  events : List Event
  answer : α

namespace World

/-- The world without cells under given settings. -/
def empty (config : WorldConfig) : World := { config }

/-- The world without cells, if the settings pass their check. -/
def create (config : WorldConfig) : Except WorldConfigError World := do
  config.check
  return empty config

/-- The cell at a position. Positions on floors that the map does not have
hold none. -/
def cell? (w : World) (p : Position) : Option Cell :=
  if p.hasValidFloor then w.grid.cell? p else none

/-- The register's entry for an occupant. -/
def resident? (w : World) (id : OccupantId) : Option Resident :=
  w.residents[id]?

def occupant? (w : World) (id : OccupantId) : Option Occupant :=
  (w.resident? id).map (·.occupant)

def position? (w : World) (id : OccupantId) : Option Position :=
  (w.resident? id).map (·.position)

def facing? (w : World) (id : OccupantId) : Option Direction :=
  (w.resident? id).map (·.facing)

def occupantCount (w : World) : Nat :=
  w.residents.size

def leafCount (w : World) : Nat :=
  w.grid.size

def leafAt? (w : World) (x y : UInt16) : Option Leaf :=
  w.grid.leafAt? x y

/-- The leaf with a serial number, as named by the links of its neighbours. -/
def leaf? (w : World) (id : LeafId) : Option Leaf :=
  w.grid.leaves[id]?

/-- Occupants within a range around a center, in the order in which the
leaves list them. Nobody watches a center on a floor that the map does not
have. -/
def spectators (w : World) (center : Position) (multiFloor playersOnly : Bool)
    (range : SpectatorRange) : Gathering :=
  if center.hasValidFloor then
    SpectatorQuery.collect { center, multiFloor, playersOnly, range } w.grid w.position?
  else .empty

end World

end TileWorld
