import TileWorld.Route.Pool

/-!
# Neighbors to expand

The start expands all eight neighbors. Any other node expands those that
lead away from its parent; the rest are reached at no greater cost by way
of the parent. The straight neighbors come first in every list, and where
diagonal steps are forbidden only they are taken.
-/

namespace TileWorld

/-- Offsets of all neighbors, in the order in which the start expands them. -/
def allNeighbors : List (Int × Int) :=
  [(-1, 0), (0, 1), (1, 0), (0, -1), (-1, -1), (1, -1), (1, 1), (-1, 1)]

/-- Offsets of the neighbors of a node whose parent lies on the given side. -/
def awayFrom : Direction → List (Int × Int)
  | .north => [(-1, 0), (0, 1), (1, 0), (1, 1), (-1, 1)]
  | .east => [(-1, 0), (0, 1), (0, -1), (-1, -1), (-1, 1)]
  | .south => [(-1, 0), (1, 0), (0, -1), (-1, -1), (1, -1)]
  | .west => [(0, 1), (1, 0), (0, -1), (1, -1), (1, 1)]
  | .southWest => [(1, 0), (0, -1), (-1, -1), (1, -1), (1, 1)]
  | .southEast => [(-1, 0), (0, -1), (-1, -1), (1, -1), (-1, 1)]
  | .northWest => [(0, 1), (1, 0), (1, -1), (1, 1), (-1, 1)]
  | .northEast => [(-1, 0), (0, 1), (-1, -1), (1, 1), (-1, 1)]

/-- The side on which a parent lies, given its offset from the node. Where
diagonal steps are forbidden, a diagonal parent counts as lying north or
south. -/
def parentSide (dx dy : Int) (allowDiagonal : Bool) : Direction :=
  if dy = 0 then if dx = -1 then .west else .east
  else if !allowDiagonal || dx = 0 then if dy = -1 then .north else .south
  else if dy = -1 then if dx = -1 then .northWest else .northEast
  else if dx = -1 then .southWest else .southEast

namespace Pool

/-- Offsets of the neighbors that a node expands. -/
def neighbors (p : Pool) (n : Node) (allowDiagonal : Bool) : List (Int × Int) :=
  match n.parent.bind (p.nodes[·]?) with
  | none => allNeighbors
  | some parent =>
    let dx := (parent.x.toNat : Int) - n.x.toNat
    let dy := (parent.y.toNat : Int) - n.y.toNat
    (awayFrom (parentSide dx dy allowDiagonal)).take (if allowDiagonal then 5 else 3)

end Pool

end TileWorld
