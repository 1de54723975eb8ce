import TileWorld.Cell

/-!
# Tiles of a layout

A layout draws each cell as one character. The tile is what the character
stands for: a cell, and perhaps an occupant standing on it.
-/

namespace TileWorld

/-- What one character of a layout stands for. -/
inductive Tile where
  | ground
  | wall
  | fire
  | sanctuary
  | hole
  | player
  | creature
  | pushable
  deriving DecidableEq, Repr, Inhabited

namespace Tile

def all : List Tile :=
  [ground, wall, fire, sanctuary, hole, player, creature, pushable]

/-- The character that draws a tile. -/
def glyph : Tile → Char
  | ground => '.'
  | wall => '#'
  | fire => '~'
  | sanctuary => 'z'
  | hole => 'o'
  | player => '@'
  | creature => 'c'
  | pushable => 'p'

/-- The tile that a character draws. -/
def ofGlyph? (c : Char) : Option Tile :=
  all.find? (·.glyph == c)

def soil : Item := { kind := 102 }

def masonry : Item :=
  { kind := 1284, flags := Flags.blocksPath.union Flags.blocksProjectile }

def flames : Item := { kind := 1487, hazard := some .fire }

def cell : Tile → Cell
  | wall => (Cell.onGround soil).addItem masonry
  | fire => (Cell.onGround soil).addItem flames
  | sanctuary => (Cell.onGround soil).addZone Flags.protectionZone
  | hole => Cell.empty
  | ground | player | creature | pushable => Cell.onGround soil

def occupant? : Tile → Option Occupant
  | player => some Occupant.player
  | creature => some Occupant.creature
  | pushable => some { Occupant.creature with isPushable := true }
  | ground | wall | fire | sanctuary | hole => none

/-- A character is read as the tile that it draws. -/
theorem ofGlyph?_glyph (t : Tile) : ofGlyph? t.glyph = some t := by
  cases t <;> rfl

end Tile

end TileWorld
