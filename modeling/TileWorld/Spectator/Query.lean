import TileWorld.Grid
import TileWorld.Spectator.Gathering
import TileWorld.Spectator.Range

/-!
# Spectator queries

A query watches a rectangle around its center on a band of floors. Seen in
perspective, a floor above the center is shifted south-east by one cell
per floor and a floor below it north-west, and `SpectatorQuery.covers`
tests a position against the shifted rectangle.

`SpectatorQuery.leaves` finds the leaves that a covered position can lie
in. It walks the block rows from north to south and each row from west to
east along the links of the grid, and looks a leaf up only where the chain
of links is broken.
-/

namespace TileWorld

/-- Who is watched: a rectangle around a center, on one floor or a band. -/
structure SpectatorQuery where
  center : Position
  multiFloor : Bool
  playersOnly : Bool
  range : SpectatorRange
  deriving DecidableEq, Repr

namespace SpectatorQuery

/-- Westernmost column covered on the floor of the center. -/
def minX (q : SpectatorQuery) : Int := q.center.x.toNat - q.range.west.toNat

/-- Easternmost column covered on the floor of the center. -/
def maxX (q : SpectatorQuery) : Int := q.center.x.toNat + q.range.east.toNat

/-- Northernmost row covered on the floor of the center. -/
def minY (q : SpectatorQuery) : Int := q.center.y.toNat - q.range.north.toNat

/-- Southernmost row covered on the floor of the center. -/
def maxY (q : SpectatorQuery) : Int := q.center.y.toNat + q.range.south.toNat

/-- The floors watched, highest and lowest. -/
def band (q : SpectatorQuery) : UInt8 × UInt8 := floorBand q.center q.multiFloor

/-- Shift of the covered rectangle on a floor, south-eastward. -/
def shift (q : SpectatorQuery) (z : UInt8) : Int := q.center.z.toNat - z.toNat

/-- The position lies on a watched floor, inside the rectangle as shifted
on that floor. -/
def covers (q : SpectatorQuery) (p : Position) : Bool :=
  let d := q.shift p.z
  q.band.1 ≤ p.z && p.z ≤ q.band.2 &&
    q.minX + d ≤ p.x.toNat && (p.x.toNat : Int) ≤ q.maxX + d &&
    q.minY + d ≤ p.y.toNat && (p.y.toNat : Int) ≤ q.maxY + d

/-- The first coordinate of the block that holds the nearest coordinate on
the map. -/
def blockStart (v : Int) : Nat :=
  let nearest := min v.toNat 65535
  nearest - nearest % 8

/-- Number of blocks from one block origin to another, both included. -/
def blockCount (first last : Nat) : Nat :=
  if first ≤ last then (last - first) / 8 + 1 else 0

/-- Adds the leaves of one block row to those found so far, latest first.
The walk stands at column `x` on the leaf `here`, if there is one, and has
the given number of blocks to go. -/
def walkRow (g : Grid) (y : Nat) : (blocks x : Nat) → Option LeafId → List Leaf → List Leaf
  | 0, _, _, found => found
  | blocks + 1, x, here, found =>
    match here.bind (g.leaves[·]?) with
    | some leaf => walkRow g y blocks (x + 8) leaf.east (leaf :: found)
    | none => walkRow g y blocks (x + 8) (g.leafNear? (x + 8) y) found

/-- Adds the leaves of the given number of block rows to those found so
far, latest first. Each row starts at column `x`, the first one at row `y`
on the leaf `start`, if there is one. -/
def walkRows (g : Grid) (x width : Nat) : (rows y : Nat) → Option LeafId → List Leaf → List Leaf
  | 0, _, _, found => found
  | rows + 1, y, start, found =>
    let found := walkRow g y width x start found
    match start.bind (g.leaves[·]?) with
    | some leaf => walkRows g x width rows (y + 8) leaf.south found
    | none => walkRows g x width rows (y + 8) (g.leafNear? x (y + 8)) found

/-- The leaves that a covered position can lie in, row by row from the
north and each row from the west. -/
def leaves (q : SpectatorQuery) (g : Grid) : List Leaf :=
  match g.extent with
  | none => []
  | some e =>
    let west := max (blockStart (q.minX + q.shift q.band.2)) e.minX.toNat
    let north := max (blockStart (q.minY + q.shift q.band.2)) e.minY.toNat
    let east := min (blockStart (q.maxX + q.shift q.band.1)) e.maxX.toNat
    let south := min (blockStart (q.maxY + q.shift q.band.1)) e.maxY.toNat
    (walkRows g west (blockCount west east) (blockCount north south) north
      (g.leafNear? west north) []).reverse

/-- Those a leaf lists for the query. -/
def candidates (q : SpectatorQuery) (l : Leaf) : List OccupantId :=
  if q.playersOnly then l.players else l.occupants

/-- Everybody at a covered position, leaf by leaf. -/
def collect (q : SpectatorQuery) (g : Grid) (position? : OccupantId → Option Position) :
    Gathering :=
  (q.leaves g).foldl
    (fun found leaf =>
      found.addAll ((q.candidates leaf).filter fun id => (position? id).any q.covers))
    .empty

end SpectatorQuery

end TileWorld
