import TileWorld.Occupant

/-!
# Cells

A cell is the content of one position: ground, items stacked on it from
bottom to top, flags of its own, and the occupants standing on it in the
order of their arrival. Only the world attaches occupants to a cell.
-/

namespace TileWorld

/-- Ground, stacked items, occupants and flags of one position. -/
structure Cell where
  ground : Option Item := none
  /-- Stacked items, bottom to top. -/
  items : List Item := []
  /-- Occupants in the order of their arrival. -/
  occupants : List OccupantId := []
  /-- Flags of the cell itself, without those of its items. -/
  zone : Flags := Flags.none
  deriving DecidableEq, Repr, Inhabited

namespace Cell

def empty : Cell := {}

/-- A cell with ground and nothing else. -/
def onGround (i : Item) : Cell := { ground := some i }

def hasGround (c : Cell) : Bool :=
  c.ground.isSome

def addItem (c : Cell) (i : Item) : Cell :=
  { c with items := c.items ++ [i] }

/-- The cell without its topmost stacked item, and that item. -/
def popItem (c : Cell) : Cell × Option Item :=
  ({ c with items := c.items.dropLast }, c.items.getLast?)

/-- The cell on new ground, and the ground it had. -/
def setGround (c : Cell) (i : Item) : Cell × Option Item :=
  ({ c with ground := some i }, c.ground)

def addZone (c : Cell) (z : Flags) : Cell :=
  { c with zone := c.zone.union z }

def contents (c : Cell) : List Item :=
  c.ground.toList ++ c.items

def flags (c : Cell) : Flags :=
  c.contents.foldl (fun acc i => acc.union i.flags) c.zone

def hasFlag (c : Cell) (f : Flags) : Bool :=
  c.flags.intersects f

/-- The damaging field lying topmost, ground included. -/
def hazard (c : Cell) : Option Hazard :=
  c.contents.reverse.findSome? Item.hazard

/-- Number of stacked items drawn above occupants. -/
def topItemCount (c : Cell) : Nat :=
  c.items.countP Item.isAlwaysOnTop

/-- The cell after an occupant has arrived. -/
def arrive (c : Cell) (id : OccupantId) : Cell :=
  { c with occupants := c.occupants ++ [id] }

/-- The cell after an occupant has left; those behind it move up. -/
def depart (c : Cell) (id : OccupantId) : Cell :=
  { c with occupants := c.occupants.erase id }

/-- The cell without occupants. A copy of a stored cell lists occupants
that stand elsewhere, so a cell is stored in this form. -/
def vacated (c : Cell) : Cell :=
  { c with occupants := [] }

/-- The cell with the contents of another folded in: new ground replaces
the old, new items land on top in their order, and zones join. Occupants
stay those of the cell. -/
def absorb (c incoming : Cell) : Cell :=
  { c with
    ground := incoming.ground <|> c.ground
    items := c.items ++ incoming.items
    zone := c.zone.union incoming.zone }

end Cell

end TileWorld
