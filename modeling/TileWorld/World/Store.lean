import TileWorld.World.Basic

/-!
# Creating leaves and storing cells

A stored cell never brings occupants along: those it lists were copied
from a cell where they still stand.
-/

namespace TileWorld.World

/-- The leaf covering a column and row, which is created unless it exists,
and the world. -/
def ensureLeaf (w : World) (x y : UInt16) : LeafId × World :=
  let (id, grid) := w.grid.ensureLeaf x y
  (id, { w with grid })

/-- Stores a cell. An empty position takes it without its occupants; at an
occupied one the policy decides. Nothing happens on a floor that the map
does not have. -/
def setCell (w : World) (p : Position) (c : Cell) (policy : StorePolicy) : Effect Unit :=
  if !p.hasValidFloor then ⟨w, [], ()⟩
  else
    let (_, w) := w.ensureLeaf p.x p.y
    match w.grid.cell? p, policy with
    | none, _ =>
      ⟨{ w with grid := w.grid.modifyAt p (·.put p (some c.vacated)) },
        [.cellSet p .inserted], ()⟩
    | some _, .merge =>
      ⟨{ w with grid := w.grid.modifyAt p (·.modifyCell p (·.absorb c.vacated)) },
        [.cellSet p .merged], ()⟩
    | some _, .keepExisting => ⟨w, [.cellSet p .discarded], ()⟩

end TileWorld.World
