import TileWorld.Layout.Tile
import TileWorld.World.Config
import TileWorld.World.Event

/-!
# Layouts

A layout is a drawing of a world: tiles at their positions, in reading
order. It is read from a text (`TileWorld.Layout.Reader`) and made into a
world (`TileWorld.Layout.Build`).
-/

namespace TileWorld

/-- A tile drawn at a position. -/
structure Placement where
  position : Position
  tile : Tile
  deriving DecidableEq, Repr

/-- The tiles of a drawing in reading order. -/
structure Layout where
  tiles : List Placement
  deriving DecidableEq, Repr

/-- Why a layout cannot be read or made into a world. -/
inductive LayoutError where
  /-- There is no tile at all. -/
  | empty
  /-- A character draws no tile. Lines and columns count from one. -/
  | unknownGlyph (glyph : Char) (line column : Nat)
  /-- A header names a floor that the map does not have. -/
  | invalidFloor (value : String) (line : Nat)
  /-- A line leads out of the map. -/
  | tooLarge (line : Nat)
  /-- The settings of the world are refused. -/
  | config (error : WorldConfigError)
  /-- An occupant cannot be placed. -/
  | placement (position : Position) (error : PlacementError)
  deriving DecidableEq, Repr

namespace LayoutError

def message : LayoutError → String
  | empty => "layout contains no cells"
  | unknownGlyph glyph line column =>
    s!"unknown glyph '{glyph}' at line {line}, column {column}"
  | invalidFloor value line => s!"invalid floor '{value}' at line {line}"
  | tooLarge line => s!"layout exceeds the coordinate space at line {line}"
  | config error => error.message
  | placement position _ => s!"could not place occupant at {position.text}"

/-- Texts of the refusal and of what lies behind it, the first one first. -/
def chain : LayoutError → List String
  | placement position error => [message (placement position error), error.message]
  | error => [error.message]

end LayoutError

namespace Layout

def cellCount (l : Layout) : Nat :=
  l.tiles.length

end Layout

end TileWorld
