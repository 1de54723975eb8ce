/-!
# Compass directions

The eight directions in which an occupant can face or step. Rows grow
southward and columns grow eastward, so north is toward smaller rows. A
direction is determined by the unit step it takes (`ofOffset?_offset`),
and its place in `Direction.all` is its serial number.
-/

namespace TileWorld

/-- A compass direction an occupant can face or step toward. -/
inductive Direction where
  | north
  | east
  | south
  | west
  | southWest
  | southEast
  | northWest
  | northEast
  deriving DecidableEq, Repr, Inhabited

namespace Direction

def all : List Direction :=
  [north, east, south, west, southWest, southEast, northWest, northEast]

/-- Change of column and of row made by one step. -/
def offset : Direction → Int × Int
  | north => (0, -1)
  | east => (1, 0)
  | south => (0, 1)
  | west => (-1, 0)
  | southWest => (-1, 1)
  | southEast => (1, 1)
  | northWest => (-1, -1)
  | northEast => (1, -1)

/-- A step that changes both column and row is diagonal. -/
def isDiagonal (d : Direction) : Bool :=
  d.offset.1 ≠ 0 && d.offset.2 ≠ 0

/-- The direction of a unit step; the zero step and longer steps have none. -/
def ofOffset? (dx dy : Int) : Option Direction :=
  all.find? fun d => d.offset = (dx, dy)

/-- Place of the direction in `Direction.all`. -/
def index : Direction → Nat
  | north => 0
  | east => 1
  | south => 2
  | west => 3
  | southWest => 4
  | southEast => 5
  | northWest => 6
  | northEast => 7

def name : Direction → String
  | north => "North"
  | east => "East"
  | south => "South"
  | west => "West"
  | southWest => "SouthWest"
  | southEast => "SouthEast"
  | northWest => "NorthWest"
  | northEast => "NorthEast"

/-- A unit step determines its direction. -/
theorem ofOffset?_offset (d : Direction) : ofOffset? d.offset.1 d.offset.2 = some d := by
  cases d <;> rfl

/-- The serial number counts the directions in the order of `Direction.all`. -/
theorem getElem?_all_index (d : Direction) : all[d.index]? = some d := by
  cases d <;> rfl

end Direction

end TileWorld
