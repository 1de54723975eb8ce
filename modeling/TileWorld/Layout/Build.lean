import TileWorld.Layout.Basic
import TileWorld.World.Occupancy
import TileWorld.World.Store

/-!
# Worlds from layouts

The cells of a layout are stored first, in reading order, where the first
tile of a position wins. Its occupants are placed after that, in reading
order too, so they get their ids in this order.
-/

namespace TileWorld.Layout

/-- The world with the cell of a tile stored, unless there is one already. -/
def storeTile (w : World) (t : Placement) : World :=
  (w.setCell t.position t.tile.cell .keepExisting).world

/-- The world with the occupant of a tile placed, if it has one. -/
def placeOccupant (w : World) (t : Placement) : Except LayoutError World :=
  match t.tile.occupant? with
  | none => .ok w
  | some o =>
    let e := w.place o t.position
    match e.answer with
    | .ok _ => .ok e.world
    | .error error => .error (.placement t.position error)

def build (l : Layout) (config : WorldConfig) : Except LayoutError World := do
  let bare ← (World.create config).mapError .config
  l.tiles.foldlM placeOccupant (l.tiles.foldl storeTile bare)

end TileWorld.Layout
