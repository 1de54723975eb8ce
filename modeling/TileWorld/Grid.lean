import TileWorld.Leaf
import TileWorld.QuadTree

/-!
# The grid of leaves

The grid holds the leaves that exist. Its index is a quadrant tree, which
resolves a column and row to a leaf. Each
leaf is linked to its southern and eastern neighbours, whichever of two
neighbours came first, and the extent bounds the leaves that exist.
-/

namespace TileWorld

/-- Inclusive bounds of a set of leaf origins. -/
structure Extent where
  minX : UInt16
  minY : UInt16
  maxX : UInt16
  maxY : UInt16
  deriving DecidableEq, Repr

namespace Extent

def point (x y : UInt16) : Extent := ⟨x, y, x, y⟩

def widen (e : Extent) (x y : UInt16) : Extent :=
  ⟨min e.minX x, min e.minY y, max e.maxX x, max e.maxY y⟩

end Extent

/-- The leaves of the map. -/
structure Grid where
  /-- Serial numbers of the leaves. -/
  index : QuadTree := .empty
  /-- The leaves in order of creation. -/
  leaves : Array Leaf := #[]
  /-- Bounds of the origins of all leaves. -/
  extent : Option Extent := none

namespace Grid

def empty : Grid := {}

def size (g : Grid) : Nat :=
  g.leaves.size

def leafId? (g : Grid) (x y : UInt16) : Option LeafId :=
  g.index.find? x y

/-- The leaf covering a column and row. -/
def leafAt? (g : Grid) (x y : UInt16) : Option Leaf :=
  (g.leafId? x y).bind (g.leaves[·]?)

/-- Serial number of the leaf covering a point that may lie off the map. -/
def leafNear? (g : Grid) (x y : Int) : Option LeafId := do
  g.leafId? (← coordinate? x) (← coordinate? y)

/-- The cell stored at a position. -/
def cell? (g : Grid) (p : Position) : Option Cell :=
  (g.leafAt? p.x p.y).bind (·.cell? p)

def modifyLeaf (g : Grid) (id : LeafId) (f : Leaf → Leaf) : Grid :=
  { g with leaves := g.leaves.modify id f }

/-- The grid with one leaf changed, if there is one. -/
def modifyLeaf? (g : Grid) (id : Option LeafId) (f : Leaf → Leaf) : Grid :=
  match id with
  | some id => g.modifyLeaf id f
  | none => g

/-- The grid with the leaf covering a position changed, if there is one. -/
def modifyAt (g : Grid) (p : Position) (f : Leaf → Leaf) : Grid :=
  g.modifyLeaf? (g.leafId? p.x p.y) f

/-- Links a new leaf, covering the given column and row, with its four
neighbours as far as they exist. -/
def link (g : Grid) (id : LeafId) (x y : UInt16) : Grid :=
  let north := g.leafNear? x.toNat (y.toNat - 8)
  let west := g.leafNear? (x.toNat - 8) y.toNat
  let south := g.leafNear? x.toNat (y.toNat + 8)
  let east := g.leafNear? (x.toNat + 8) y.toNat
  g.modifyLeaf? north (fun l => { l with south := some id })
    |>.modifyLeaf? west (fun l => { l with east := some id })
    |>.modifyLeaf id (fun l => { l with south, east })

/-- The grid with a new leaf covering a column and row, to which its index
leads already. -/
def addLeaf (g : Grid) (x y : UInt16) : Grid :=
  let id := g.leaves.size
  let extent :=
    match g.extent with
    | some e => e.widen (leafOrigin x) (leafOrigin y)
    | none => .point (leafOrigin x) (leafOrigin y)
  let grown : Grid :=
    { index := g.index
      leaves := g.leaves.push (.covering x y)
      extent := some extent }
  grown.link id x y

/-- The leaf covering a column and row, which is created unless it exists,
and the grid. -/
def ensureLeaf (g : Grid) (x y : UInt16) : LeafId × Grid :=
  match g.index.plant g.leaves.size x y with
  | (some id, index) => (id, { g with index })
  | (none, index) => (g.leaves.size, { g with index }.addLeaf x y)

end Grid

end TileWorld
