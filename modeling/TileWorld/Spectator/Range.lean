import TileWorld.Position

/-!
# Ranges of a spectator query

A spectator query asks who watches a center. `SpectatorRange` says how far
the watched rectangle reaches in each direction, and `floorBand` which
floors are watched.
-/

namespace TileWorld

/-- Number of cells covered in each direction around a center. -/
structure SpectatorRange where
  west : UInt16
  east : UInt16
  north : UInt16
  south : UInt16
  deriving DecidableEq, Repr

namespace SpectatorRange

/-- The nearest reach that makes sense: none for negative numbers, and the
width of the map for numbers beyond it. -/
def reach (n : Int) : UInt16 :=
  UInt16.ofNat (min n.toNat 65535)

/-- The range with the given reaches, each brought to the nearest one that
makes sense. -/
def clamped (west east north south : Int) : SpectatorRange :=
  ⟨reach west, reach east, reach north, reach south⟩

/-- The range with the same reach east and west, and north and south. -/
def symmetric (x y : Int) : SpectatorRange :=
  clamped x x y y

/-- The range that covers the center's column and row only. -/
def point : SpectatorRange := ⟨0, 0, 0, 0⟩

end SpectatorRange

/-- Highest and lowest floor watched from a center, both included. From
underground one sees two floors up and down. From the surface one sees all
surface floors, and from its two lowest floors also the first floors
underground. -/
def floorBand (center : Position) (multiFloor : Bool) : UInt8 × UInt8 :=
  let z := center.z
  if !multiFloor then (z, z)
  else if surfaceFloor < z then
    (z - 2, if z.toNat + 2 ≤ lastFloor.toNat then z + 2 else lastFloor)
  else if z == surfaceFloor - 1 then (0, surfaceFloor + 1)
  else if z == surfaceFloor then (0, surfaceFloor + 2)
  else (0, surfaceFloor)

end TileWorld
