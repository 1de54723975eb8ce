/-!
# Parameters of one search

How far from its start a route may lead, and which cells may end it. The
distances to a target are signed, and the defaults are negative, so that
no cell can end a search whose caller sets none.
-/

namespace TileWorld

/-- Parameters of one search. -/
structure SearchParams where
  /-- Largest distance of columns and of rows from the start. Zero sets no
  such limit and leaves the search to the closed-node budget. -/
  maxSearch : UInt16 := 0
  /-- Smallest distance to the target at which a route may end. -/
  minTarget : Int32 := -1
  /-- Largest distance to the target at which a route may end. -/
  maxTarget : Int32 := -1
  /-- Later steps than the first may be diagonal. -/
  allowDiagonal : Bool := true
  /-- Cells out of range of the target are not entered. -/
  keepDistance : Bool := false
  /-- Cells on all sides of the target count as in range, and not only those
  on the side of the start. -/
  fullSearch : Bool := true
  /-- Only a cell with a clear line to the target may end the route. -/
  clearSight : Bool := true
  deriving DecidableEq, Repr, Inhabited

end TileWorld
