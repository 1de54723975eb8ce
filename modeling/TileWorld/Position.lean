import TileWorld.Direction

/-!
# Positions

A position names one cell of the map by column, row and floor. Columns
and rows fill sixteen bits. Floors grow downward: floor 7 is ground level
and floor 8 is the first floor underground. A floor number above 15 is a
legal value that no cell can have (`Position.hasValidFloor`).
-/

namespace TileWorld

/-- Lowest floor of the map, the largest valid floor number. -/
def lastFloor : UInt8 := 15

/-- Ground level. Floors with a larger number lie underground. -/
def surfaceFloor : UInt8 := 7

/-- The coordinate with the given value, if it lies on the map. -/
def coordinate? (v : Int) : Option UInt16 :=
  if 0 ≤ v ∧ v ≤ 65535 then some (UInt16.ofNat v.toNat) else none

/-- Column, row and floor of a cell. -/
structure Position where
  x : UInt16
  y : UInt16
  z : UInt8
  deriving DecidableEq, Repr, Inhabited

namespace Position

def hasValidFloor (p : Position) : Bool :=
  p.z ≤ lastFloor

def isUnderground (p : Position) : Bool :=
  surfaceFloor < p.z

def onFloor (p : Position) (z : UInt8) : Position :=
  { p with z }

/-- The position moved by whole columns and rows, unless that leaves the map. -/
def offset? (p : Position) (dx dy : Int) : Option Position := do
  let x ← coordinate? (p.x.toNat + dx)
  let y ← coordinate? (p.y.toNat + dy)
  return { p with x, y }

/-- The position one step away, unless that leaves the map. -/
def step? (p : Position) (d : Direction) : Option Position :=
  p.offset? d.offset.1 d.offset.2

def distanceX (p q : Position) : Nat :=
  Int.natAbs ((p.x.toNat : Int) - q.x.toNat)

def distanceY (p q : Position) : Nat :=
  Int.natAbs ((p.y.toNat : Int) - q.y.toNat)

def distanceZ (p q : Position) : Nat :=
  Int.natAbs ((p.z.toNat : Int) - q.z.toNat)

/-- The larger of the column and row distances. -/
def chebyshev (p q : Position) : Nat :=
  max (p.distanceX q) (p.distanceY q)

/-- Both positions share a floor and touch, corners included. A position
is adjacent to itself. -/
def isAdjacent (p q : Position) : Bool :=
  p.z == q.z && p.distanceX q ≤ 1 && p.distanceY q ≤ 1

/-- Column and row in one word, the column in the high half. -/
def packed (p : Position) : UInt32 :=
  (p.x.toUInt32 <<< 16) ||| p.y.toUInt32

/-- Order by column, then row, then floor. -/
def compareTo (p q : Position) : Ordering :=
  (compare p.x q.x).then ((compare p.y q.y).then (compare p.z q.z))

/-- Text of a position in messages, as in `(4, 5, 7)`. -/
def text (p : Position) : String :=
  s!"({p.x.toNat}, {p.y.toNat}, {p.z.toNat})"

end Position

end TileWorld
