import TileWorld.World.Basic

/-!
# Placing and removing occupants

An occupant is listed three times: by its cell, by its leaf and by the
register. `place`, `detach` and `transfer` keep the three in step, and
every other operation changes occupancy through them.
-/

namespace TileWorld.World

/-- Registers an occupant standing on the cell at a position. It faces
south and stands behind those already there. -/
def place (w : World) (o : Occupant) (p : Position) :
    Effect (Except PlacementError OccupantId) :=
  if !p.hasValidFloor then ⟨w, [], .error .outOfBounds⟩
  else
    match w.grid.cell? p with
    | none => ⟨w, [], .error .missingCell⟩
    | some _ =>
      let id : OccupantId := ⟨w.nextNumber⟩
      ⟨{ w with
          grid := w.grid.modifyAt p fun leaf =>
            (leaf.modifyCell p (·.arrive id)).enter id o.isPlayer
          residents := w.residents.insert id ⟨o, p, .south⟩
          nextNumber := w.nextNumber + 1 },
        [.placed id p], .ok id⟩

/-- The world without an occupant: its cell, its leaf and the register
forget it. -/
def detach (w : World) (id : OccupantId) (r : Resident) : World :=
  { w with
    grid := w.grid.modifyAt r.position fun leaf =>
      (leaf.modifyCell r.position (·.depart id)).leave id r.occupant.isPlayer
    residents := w.residents.erase id }

/-- Takes an occupant out of the world and hands its capabilities back. -/
def remove (w : World) (id : OccupantId) : Effect (Option Occupant) :=
  match w.resident? id with
  | none => ⟨w, [], none⟩
  | some r => ⟨w.detach id r, [.removed id r.position], some r.occupant⟩

/-- The way from one position to another leads into another leaf. -/
def crossesLeaf (w : World) (source target : Position) : Bool :=
  w.grid.leafId? source.x source.y ≠ w.grid.leafId? target.x target.y

/-- The world after an occupant has gone to another cell, where it stands
behind those already there. The leaves' lists change only if it enters
another leaf. -/
def transfer (w : World) (id : OccupantId) (r : Resident) (target : Position) : World :=
  let crosses := w.crossesLeaf r.position target
  let isPlayer := r.occupant.isPlayer
  { w with
    grid :=
      w.grid.modifyAt r.position (fun leaf =>
          let leaf := leaf.modifyCell r.position (·.depart id)
          if crosses then leaf.leave id isPlayer else leaf)
        |>.modifyAt target (fun leaf =>
          let leaf := leaf.modifyCell target (·.arrive id)
          if crosses then leaf.enter id isPlayer else leaf)
    residents := w.residents.insert id { r with position := target } }

end TileWorld.World
