import TileWorld.Cell

/-!
# Leaves

A leaf holds the cells of one block of the map, eight columns by eight
rows on every floor. A floor of the block takes up room only once a cell
has been stored on it. The leaf also lists who stands in the block, players
a second time in a list of their own, and links to the leaves directly
south and east of it.
-/

namespace TileWorld

/-- Serial number of a leaf, in order of creation. -/
abbrev LeafId := Nat

/-- The first coordinate of the leaf that covers a coordinate. -/
def leafOrigin (v : UInt16) : UInt16 :=
  v - v % 8

/-- One floor of a leaf: a slot for each of its positions. -/
structure Floor where
  slots : Vector (Option Cell) 64
  deriving Repr, DecidableEq

namespace Floor

def bare : Floor := ⟨Vector.replicate 64 none⟩

/-- The slot of a position, counted column by column. -/
def slot (p : Position) : Fin 64 :=
  ⟨p.x.toNat % 8 * 8 + p.y.toNat % 8, by omega⟩

def cell? (f : Floor) (p : Position) : Option Cell :=
  f.slots[slot p]

/-- The floor with the slot of a position filled or emptied. -/
def put (f : Floor) (p : Position) (c : Option Cell) : Floor :=
  ⟨f.slots.set (slot p) c⟩

end Floor

/-- The cells of one block of the map, and who stands there. -/
structure Leaf where
  /-- Column and row of the north-western corner. -/
  origin : UInt16 × UInt16
  floors : Vector (Option Floor) 16 := Vector.replicate 16 none
  /-- Everybody standing in the block, in no particular order. -/
  occupants : List OccupantId := []
  /-- The players among the occupants. -/
  players : List OccupantId := []
  /-- The leaf directly south. -/
  south : Option LeafId := none
  /-- The leaf directly east. -/
  east : Option LeafId := none
  deriving Repr, DecidableEq

namespace Leaf

def covering (x y : UInt16) : Leaf :=
  { origin := (leafOrigin x, leafOrigin y) }

def cell? (l : Leaf) (p : Position) : Option Cell :=
  match l.floors[p.z.toNat]? with
  | some (some floor) => floor.cell? p
  | _ => none

/-- The leaf with the slot of a position filled or emptied. A floor that
the map does not have is left out. -/
def put (l : Leaf) (p : Position) (c : Option Cell) : Leaf :=
  if h : p.z.toNat < 16 then
    let floor := l.floors[p.z.toNat].getD Floor.bare
    { l with floors := l.floors.set p.z.toNat (some (floor.put p c)) }
  else l

/-- The leaf with the cell of a position changed, if there is one. -/
def modifyCell (l : Leaf) (p : Position) (f : Cell → Cell) : Leaf :=
  match l.cell? p with
  | some c => l.put p (some (f c))
  | none => l

/-- Takes an id out of a list by moving the last entry into its place. -/
def dropId (id : OccupantId) (ids : List OccupantId) : List OccupantId :=
  match ids.idxOf? id, ids.getLast? with
  | some i, some last => (ids.set i last).dropLast
  | _, _ => ids

def enter (l : Leaf) (id : OccupantId) (isPlayer : Bool) : Leaf :=
  { l with
    occupants := l.occupants ++ [id]
    players := if isPlayer then l.players ++ [id] else l.players }

def leave (l : Leaf) (id : OccupantId) (isPlayer : Bool) : Leaf :=
  { l with
    occupants := dropId id l.occupants
    players := if isPlayer then dropId id l.players else l.players }

end Leaf

end TileWorld
