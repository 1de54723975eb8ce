import TileWorld.Position

/-!
# Straight lines

A line runs from the column and row of one position to those of another in
steps of at most one cell along each axis. It takes as many steps as the
longer axis has cells, and each point is the nearest one to the exact line,
a tie going away from the start.
-/

namespace TileWorld

/-- A quotient rounded to the nearest integer, halves away from zero. -/
def roundedQuotient (numerator denominator : Int) : Int :=
  if 0 ≤ numerator then (2 * numerator + denominator) / (2 * denominator)
  else -((-(2 * numerator) + denominator) / (2 * denominator))

/-- A straight line between two columns. -/
structure Line where
  originX : Int
  originY : Int
  deltaX : Int
  deltaY : Int
  deriving DecidableEq, Repr

namespace Line

/-- The line from one position to another, on no particular floor. -/
def between (source target : Position) : Line where
  originX := source.x.toNat
  originY := source.y.toNat
  deltaX := target.x.toNat - source.x.toNat
  deltaY := target.y.toNat - source.y.toNat

def steps (l : Line) : Nat :=
  max l.deltaX.natAbs l.deltaY.natAbs

/-- The column and row reached after the given number of steps. -/
def point? (l : Line) (i : Nat) : Option (UInt16 × UInt16) := do
  let x ← coordinate? (l.originX + roundedQuotient (l.deltaX * i) l.steps)
  let y ← coordinate? (l.originY + roundedQuotient (l.deltaY * i) l.steps)
  return (x, y)

/-- The points reached by the next steps, the first of them numbered `i`.
A line that left the map would end there. -/
def pointsFrom (l : Line) : (remaining i : Nat) → List (UInt16 × UInt16)
  | 0, _ => []
  | remaining + 1, i =>
    match l.point? i with
    | some point => point :: pointsFrom l remaining (i + 1)
    | none => []

/-- The points of the line in order, without its start. -/
def points (l : Line) : List (UInt16 × UInt16) :=
  l.pointsFrom l.steps 1

end Line

end TileWorld
