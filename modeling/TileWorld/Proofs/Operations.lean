import TileWorld.Proofs.Bookkeeping
import TileWorld.World.History

/-!
# What the operations do

One lemma for each operation says everything that it can do: which
requests it refuses and leaves the world alone, and what world and events
any other request leads to (`setCell_cases`, `place_cases`,
`remove_cases`, `move_cases`, `sendAway_cases`). The worlds they lead to
are described by their register and their cells.
-/

namespace TileWorld

namespace World

/-! ## Cells and register -/

/-- The floor test of a look-up is made by the grid as well. -/
theorem cell?_eq_grid (w : World) (p : Position) : w.cell? p = w.grid.cell? p := by
  unfold cell?
  split
  · rfl
  · rename_i hz
    cases h : w.grid.cell? p with
    | none => rfl
    | some c => exact absurd (Position.hasValidFloor_iff.mpr (Grid.floor_lt_of_cell? h)) hz

theorem hasValidFloor_of_cell? {w : World} {p : Position} {c : Cell} (h : w.cell? p = some c) :
    p.hasValidFloor = true := by
  rw [cell?_eq_grid] at h
  exact Position.hasValidFloor_iff.mpr (Grid.floor_lt_of_cell? h)

theorem leafId?_of_cell? {w : World} {p : Position} {c : Cell} (h : w.cell? p = some c) :
    (w.grid.leafId? p.x p.y).isSome := by
  rw [cell?_eq_grid] at h
  obtain ⟨l, hl, -⟩ := Grid.cell?_eq_some_iff.mp h
  obtain ⟨i, hi, -⟩ := Grid.leafAt?_eq_some_iff.mp hl
  exact Option.isSome_iff_exists.mpr ⟨i, hi⟩

theorem cell?_empty (config : WorldConfig) (p : Position) : (empty config).cell? p = none := by
  rw [cell?_eq_grid]
  show Grid.empty.cell? p = none
  rw [Grid.cell?, Grid.leafAt?, Grid.leafId?_eq_leafNear?, Grid.leafNear?_empty]
  rfl

theorem resident?_insert {w w' : World} {id : OccupantId} {r : Resident}
    (h : w'.residents = w.residents.insert id r) :
    w'.resident? = Register.enroll w.resident? id r := by
  funext i
  unfold resident?
  rw [h, Std.TreeMap.getElem?_insert]
  by_cases hi : i = id
  · subst hi
    simp
  · rw [if_neg (fun hc => hi (Std.LawfulEqCmp.eq_of_compare hc).symm), Register.enroll_of_ne hi]

theorem resident?_erase {w w' : World} {id : OccupantId}
    (h : w'.residents = w.residents.erase id) :
    w'.resident? = Register.strike w.resident? id := by
  funext i
  unfold resident?
  rw [h, Std.TreeMap.getElem?_erase]
  by_cases hi : i = id
  · subst hi
    simp
  · rw [if_neg (fun hc => hi (Std.LawfulEqCmp.eq_of_compare hc).symm), Register.strike_of_ne hi]

/-! ## Storing cells -/

/-- The world with a cell in the slot of a position. -/
def fill (w : World) (p : Position) (c : Cell) : World :=
  { w with grid := w.grid.modifyAt p (·.put p (some c.vacated)) }

/-- The world with the contents of a cell folded into the one at a position. -/
def foldIn (w : World) (p : Position) (c : Cell) : World :=
  { w with grid := w.grid.modifyAt p (·.modifyCell p (·.absorb c.vacated)) }

theorem wellFormed_ensureLeaf {w : World} (hg : w.grid.WellFormed) (x y : UInt16) :
    (w.ensureLeaf x y).2.grid.WellFormed :=
  hg.ensureLeaf x y

/-- Afterwards a look-up finds the leaf that was asked for. -/
theorem leafId?_ensureLeaf (w : World) (x y : UInt16) :
    (w.ensureLeaf x y).2.grid.leafId? x y = some (w.ensureLeaf x y).1 :=
  w.grid.leafId?_ensureLeaf x y

theorem cell?_ensureLeaf {w : World} (hg : w.grid.WellFormed) (x y : UInt16) (p : Position) :
    (w.ensureLeaf x y).2.cell? p = w.cell? p := by
  rw [cell?_eq_grid, cell?_eq_grid]
  exact Grid.cell?_ensureLeaf hg x y p

/-- A store is refused beyond the floors of the map, fills an empty slot,
or follows the policy at a full one. -/
theorem setCell_cases {w : World} (hg : w.grid.WellFormed) (p : Position) (c : Cell)
    (policy : StorePolicy) :
    (p.hasValidFloor = false ∧ w.setCell p c policy = ⟨w, [], ()⟩) ∨
    (p.hasValidFloor = true ∧ w.cell? p = none ∧
      w.setCell p c policy =
        ⟨(w.ensureLeaf p.x p.y).2.fill p c, [.cellSet p .inserted], ()⟩) ∨
    ((w.cell? p).isSome ∧ policy = .merge ∧
      w.setCell p c policy = ⟨w.foldIn p c, [.cellSet p .merged], ()⟩) ∨
    ((w.cell? p).isSome ∧ policy = .keepExisting ∧
      w.setCell p c policy = ⟨w, [.cellSet p .discarded], ()⟩) := by
  cases hz : p.hasValidFloor with
  | false => exact Or.inl ⟨rfl, by simp [setCell, hz]⟩
  | true =>
      have hcell : (w.ensureLeaf p.x p.y).2.grid.cell? p = w.cell? p := by
        rw [cell?_eq_grid]
        exact Grid.cell?_ensureLeaf hg p.x p.y p
      cases hc : w.cell? p with
      | none =>
          rw [hc] at hcell
          exact Or.inr (Or.inl ⟨rfl, rfl, by simp [setCell, hz, hcell, fill]⟩)
      | some c' =>
          -- a full slot lies in a leaf, and none is created
          have hleaf : (w.ensureLeaf p.x p.y).2 = w := by
            obtain ⟨i, hi⟩ := Option.isSome_iff_exists.mp (leafId?_of_cell? hc)
            rw [World.ensureLeaf, Grid.ensureLeaf_of_some hi]
          rw [hc, hleaf] at hcell
          cases policy with
          | merge =>
              exact Or.inr (Or.inr (Or.inl
                ⟨rfl, rfl, by simp [setCell, hz, hleaf, hcell, foldIn]⟩))
          | keepExisting =>
              exact Or.inr (Or.inr (Or.inr ⟨rfl, rfl, by simp [setCell, hz, hleaf, hcell]⟩))

theorem cell?_fill {w : World} (hg : w.grid.WellFormed) {p : Position}
    (hz : p.hasValidFloor = true) (hleaf : (w.grid.leafId? p.x p.y).isSome) (c : Cell)
    (q : Position) :
    (w.fill p c).cell? q = if q = p then some c.vacated else w.cell? q := by
  rw [cell?_eq_grid, cell?_eq_grid]
  exact Grid.cell?_modifyAt_put hg (Position.hasValidFloor_iff.mp hz) hleaf _ q

theorem cell?_foldIn {w : World} (hg : w.grid.WellFormed) (p : Position) (c : Cell)
    (q : Position) :
    (w.foldIn p c).cell? q = if q = p then (w.cell? p).map (·.absorb c.vacated) else w.cell? q := by
  rw [cell?_eq_grid, cell?_eq_grid, cell?_eq_grid]
  exact Grid.cell?_modifyAt_map hg (fun _ _ => rfl) q

theorem wellFormed_fill {w : World} (hg : w.grid.WellFormed) (p : Position) (c : Cell) :
    (w.fill p c).grid.WellFormed :=
  hg.modifyAt p (by simp) (by simp) (by simp)

theorem wellFormed_foldIn {w : World} (hg : w.grid.WellFormed) (p : Position) (c : Cell) :
    (w.foldIn p c).grid.WellFormed :=
  hg.modifyAt p (by simp) (by simp) (by simp)

/-! ## Placing and removing -/

/-- The world with an occupant registered on the cell at a position. -/
def receive (w : World) (o : Occupant) (p : Position) : World :=
  { w with
    grid := w.grid.modifyAt p fun leaf =>
      (leaf.modifyCell p (·.arrive ⟨w.nextNumber⟩)).enter ⟨w.nextNumber⟩ o.isPlayer
    residents := w.residents.insert ⟨w.nextNumber⟩ ⟨o, p, .south⟩
    nextNumber := w.nextNumber + 1 }

theorem place_cases (w : World) (o : Occupant) (p : Position) :
    (p.hasValidFloor = false ∧ w.place o p = ⟨w, [], .error .outOfBounds⟩) ∨
    (p.hasValidFloor = true ∧ w.cell? p = none ∧
      w.place o p = ⟨w, [], .error .missingCell⟩) ∨
    ((w.cell? p).isSome ∧
      w.place o p = ⟨w.receive o p, [.placed ⟨w.nextNumber⟩ p], .ok ⟨w.nextNumber⟩⟩) := by
  cases hz : p.hasValidFloor with
  | false => exact Or.inl ⟨rfl, by simp [place, hz]⟩
  | true =>
      cases hc : w.cell? p with
      | none =>
          rw [cell?_eq_grid] at hc
          exact Or.inr (Or.inl ⟨rfl, rfl, by simp [place, hz, hc]⟩)
      | some c =>
          rw [cell?_eq_grid] at hc
          exact Or.inr (Or.inr ⟨rfl, by simp [place, hz, hc, receive]⟩)

theorem place_of_cell {w : World} {p : Position} (h : (w.cell? p).isSome) (o : Occupant) :
    w.place o p = ⟨w.receive o p, [.placed ⟨w.nextNumber⟩ p], .ok ⟨w.nextNumber⟩⟩ := by
  obtain ⟨c, hc⟩ := Option.isSome_iff_exists.mp h
  rcases place_cases w o p with ⟨hz, -⟩ | ⟨-, hnone, -⟩ | ⟨-, hplace⟩
  · rw [hasValidFloor_of_cell? hc] at hz
    cases hz
  · rw [hc] at hnone
    cases hnone
  · exact hplace

theorem resident?_receive (w : World) (o : Occupant) (p : Position) :
    (w.receive o p).resident? = Register.enroll w.resident? ⟨w.nextNumber⟩ ⟨o, p, .south⟩ :=
  resident?_insert rfl

theorem cell?_receive {w : World} (hg : w.grid.WellFormed) (o : Occupant) (p q : Position) :
    (w.receive o p).cell? q =
      if q = p then (w.cell? p).map (·.arrive ⟨w.nextNumber⟩) else w.cell? q := by
  rw [cell?_eq_grid, cell?_eq_grid, cell?_eq_grid]
  exact Grid.cell?_modifyAt_map hg (fun l q =>
    Leaf.cell?_enter (l.modifyCell p (·.arrive ⟨w.nextNumber⟩)) ⟨w.nextNumber⟩ o.isPlayer q) q

theorem wellFormed_receive {w : World} (hg : w.grid.WellFormed) (o : Occupant) (p : Position) :
    (w.receive o p).grid.WellFormed :=
  hg.modifyAt p (by simp [Leaf.enter]) (by simp [Leaf.enter]) (by simp [Leaf.enter])

theorem remove_cases (w : World) (id : OccupantId) :
    (w.resident? id = none ∧ w.remove id = ⟨w, [], none⟩) ∨
    ∃ r, w.resident? id = some r ∧
      w.remove id = ⟨w.detach id r, [.removed id r.position], some r.occupant⟩ := by
  cases hr : w.resident? id with
  | none => exact Or.inl ⟨rfl, by simp [remove, hr]⟩
  | some r => exact Or.inr ⟨r, rfl, by simp [remove, hr]⟩

theorem resident?_detach (w : World) (id : OccupantId) (r : Resident) :
    (w.detach id r).resident? = Register.strike w.resident? id :=
  resident?_erase rfl

theorem cell?_detach {w : World} (hg : w.grid.WellFormed) (id : OccupantId) (r : Resident)
    (q : Position) :
    (w.detach id r).cell? q =
      if q = r.position then (w.cell? r.position).map (·.depart id) else w.cell? q := by
  rw [cell?_eq_grid, cell?_eq_grid, cell?_eq_grid]
  exact Grid.cell?_modifyAt_map hg (fun l q =>
    Leaf.cell?_leave (l.modifyCell r.position (·.depart id)) id r.occupant.isPlayer q) q

theorem wellFormed_detach {w : World} (hg : w.grid.WellFormed) (id : OccupantId) (r : Resident) :
    (w.detach id r).grid.WellFormed :=
  hg.modifyAt _ (by simp [Leaf.leave]) (by simp [Leaf.leave]) (by simp [Leaf.leave])

/-! ## Going elsewhere -/

theorem resident?_transfer (w : World) (id : OccupantId) (r : Resident) (target : Position) :
    (w.transfer id r target).resident? =
      Register.enroll w.resident? id { r with position := target } :=
  resident?_insert rfl

/-- The leaf of the source as a way to another cell leaves it. -/
def leaveSource (id : OccupantId) (r : Resident) (crosses : Bool) (l : Leaf) : Leaf :=
  let l := l.modifyCell r.position (·.depart id)
  if crosses then l.leave id r.occupant.isPlayer else l

/-- The leaf of the target as a way from another cell finds it. -/
def enterTarget (id : OccupantId) (r : Resident) (target : Position) (crosses : Bool)
    (l : Leaf) : Leaf :=
  let l := l.modifyCell target (·.arrive id)
  if crosses then l.enter id r.occupant.isPlayer else l

theorem grid_transfer (w : World) (id : OccupantId) (r : Resident) (target : Position) :
    (w.transfer id r target).grid =
      (w.grid.modifyAt r.position (leaveSource id r (w.crossesLeaf r.position target))).modifyAt
        target (enterTarget id r target (w.crossesLeaf r.position target)) := rfl

theorem cell?_leaveSource (id : OccupantId) (r : Resident) (crosses : Bool) (l : Leaf)
    (q : Position) :
    (leaveSource id r crosses l).cell? q = (l.modifyCell r.position (·.depart id)).cell? q := by
  cases crosses <;> rfl

theorem cell?_enterTarget (id : OccupantId) (r : Resident) (target : Position) (crosses : Bool)
    (l : Leaf) (q : Position) :
    (enterTarget id r target crosses l).cell? q =
      (l.modifyCell target (·.arrive id)).cell? q := by
  cases crosses <;> rfl

@[simp] theorem origin_leaveSource (id : OccupantId) (r : Resident) (crosses : Bool) (l : Leaf) :
    (leaveSource id r crosses l).origin = l.origin := by
  cases crosses <;> simp [leaveSource, Leaf.leave]

@[simp] theorem south_leaveSource (id : OccupantId) (r : Resident) (crosses : Bool) (l : Leaf) :
    (leaveSource id r crosses l).south = l.south := by
  cases crosses <;> simp [leaveSource, Leaf.leave]

@[simp] theorem east_leaveSource (id : OccupantId) (r : Resident) (crosses : Bool) (l : Leaf) :
    (leaveSource id r crosses l).east = l.east := by
  cases crosses <;> simp [leaveSource, Leaf.leave]

@[simp] theorem origin_enterTarget (id : OccupantId) (r : Resident) (target : Position)
    (crosses : Bool) (l : Leaf) : (enterTarget id r target crosses l).origin = l.origin := by
  cases crosses <;> simp [enterTarget, Leaf.enter]

@[simp] theorem south_enterTarget (id : OccupantId) (r : Resident) (target : Position)
    (crosses : Bool) (l : Leaf) : (enterTarget id r target crosses l).south = l.south := by
  cases crosses <;> simp [enterTarget, Leaf.enter]

@[simp] theorem east_enterTarget (id : OccupantId) (r : Resident) (target : Position)
    (crosses : Bool) (l : Leaf) : (enterTarget id r target crosses l).east = l.east := by
  cases crosses <;> simp [enterTarget, Leaf.enter]

/-- The grid between the two halves of a way, the source left and the
target not yet entered, is well formed. -/
theorem wellFormed_leaveSource {g : Grid} (hg : g.WellFormed) (id : OccupantId) (r : Resident)
    (crosses : Bool) : (g.modifyAt r.position (leaveSource id r crosses)).WellFormed :=
  hg.modifyAt _ (by simp) (by simp) (by simp)

theorem wellFormed_transfer {w : World} (hg : w.grid.WellFormed) (id : OccupantId)
    (r : Resident) (target : Position) : (w.transfer id r target).grid.WellFormed := by
  rw [grid_transfer]
  exact (wellFormed_leaveSource hg id r _).modifyAt _ (by simp) (by simp) (by simp)

/-- The cell left loses the occupant, then the cell entered gets it, the
same cell or another. -/
theorem cell?_transfer {w : World} (hg : w.grid.WellFormed) (id : OccupantId) (r : Resident)
    (target q : Position) :
    (w.transfer id r target).cell? q =
      (w.cell? q).map fun c =>
        let left := if q = r.position then c.depart id else c
        if q = target then left.arrive id else left := by
  rw [cell?_eq_grid, cell?_eq_grid, grid_transfer,
    Grid.cell?_modifyAt_map (wellFormed_leaveSource hg id r _) (cell?_enterTarget id r target _)]
  rw [Grid.cell?_modifyAt_map hg (cell?_leaveSource id r _),
    Grid.cell?_modifyAt_map hg (cell?_leaveSource id r _)]
  by_cases hqt : q = target <;> by_cases hqs : q = r.position
  · subst hqt
    simp [hqs, Function.comp_def]
  · subst hqt
    simp [hqs]
  · subst hqs
    simp [hqt]
  · simp [hqt, hqs]

def moveEvent (w : World) (id : OccupantId) (r : Resident) (target : Position) (teleport : Bool) :
    Event :=
  let facing := facingAfter r.position target teleport r.facing
  let spectators := (w.witnesses r.position target).ids
  .moved id r.position target teleport facing
    (((spectators.filter w.isPlayer).map fun observer =>
        (observer, w.stackIndex? r.position id observer)).map fun (observer, oldStack) =>
      { observer, oldStack,
        newStack := (w.transfer id { r with facing } target).stackIndex? target id observer })
    spectators

/-- A move onto a cell is a teleport if demanded or if it is no step onto ground. -/
def teleports (source target : Position) (forceTeleport : Bool) (c : Cell) : Bool :=
  forceTeleport || !c.hasGround || !source.isAdjacent target

theorem move_cases (w : World) (id : OccupantId) (target : Position) (force : Bool) :
    (target.hasValidFloor = false ∧ w.move id target force = ⟨w, [], .error .outOfBounds⟩) ∨
    (target.hasValidFloor = true ∧ w.resident? id = none ∧
      w.move id target force = ⟨w, [], .error .unknownOccupant⟩) ∨
    (target.hasValidFloor = true ∧ (w.resident? id).isSome ∧ w.cell? target = none ∧
      w.move id target force = ⟨w, [], .error .missingCell⟩) ∨
    ∃ r c, w.resident? id = some r ∧ w.cell? target = some c ∧
      let teleport := teleports r.position target force c
      let facing := facingAfter r.position target teleport r.facing
      w.move id target force =
        ⟨w.transfer id { r with facing } target, [w.moveEvent id r target teleport],
          .ok ⟨teleport, facing, w.crossesLeaf r.position target⟩⟩ := by
  cases hz : target.hasValidFloor with
  | false => exact Or.inl ⟨rfl, by simp [move, hz]⟩
  | true =>
      cases hr : w.resident? id with
      | none => exact Or.inr (Or.inl ⟨rfl, rfl, by simp [move, hz, hr]⟩)
      | some r =>
          cases hc : w.cell? target with
          | none => exact Or.inr (Or.inr (Or.inl ⟨rfl, rfl, rfl, by simp [move, hz, hr, hc]⟩))
          | some c =>
              refine Or.inr (Or.inr (Or.inr ⟨r, c, rfl, rfl, ?_⟩))
              simp only [move, hz, hr, hc, Bool.not_true, Bool.false_eq_true, if_false]
              rfl

/-! ## Clearing a cell -/

theorem sendAway_cases (p : Position) (c : Clearing) (id : OccupantId) :
    (c.world.resident? id = none ∧ sendAway p c id =
      { c with events := c.events ++ [.evicted id p], evicted := c.evicted ++ [id] }) ∨
    ∃ r, c.world.resident? id = some r ∧
      ((∃ target, c.world.fallback? r p = some target ∧ sendAway p c id =
          { c with
            world := c.world.transfer id r target
            events := c.events ++ [.relocated id p target]
            relocated := c.relocated ++ [id] }) ∨
        c.world.fallback? r p = none ∧ sendAway p c id =
          { c with
            world := c.world.detach id r
            events := c.events ++ [.evicted id p]
            evicted := c.evicted ++ [id] }) := by
  cases hr : c.world.resident? id with
  | none => exact Or.inl ⟨rfl, by simp [sendAway, hr]⟩
  | some r =>
      refine Or.inr ⟨r, rfl, ?_⟩
      cases hf : c.world.fallback? r p with
      | none => exact Or.inr ⟨rfl, by simp [sendAway, hr, hf]⟩
      | some target => exact Or.inl ⟨target, rfl, by simp [sendAway, hr, hf]⟩

/-- The world with the slot of a position emptied. -/
def clearSlot (w : World) (p : Position) : World :=
  { w with grid := w.grid.modifyAt p (·.put p none) }

theorem wellFormed_clearSlot {w : World} (hg : w.grid.WellFormed) (p : Position) :
    (w.clearSlot p).grid.WellFormed :=
  hg.modifyAt p (by simp) (by simp) (by simp)

theorem cell?_clearSlot {w : World} (hg : w.grid.WellFormed) {p : Position}
    (hp : (w.cell? p).isSome) (q : Position) :
    (w.clearSlot p).cell? q = if q = p then none else w.cell? q := by
  obtain ⟨c, hc⟩ := Option.isSome_iff_exists.mp hp
  rw [cell?_eq_grid, cell?_eq_grid]
  exact Grid.cell?_modifyAt_put hg (Position.hasValidFloor_iff.mp (hasValidFloor_of_cell? hc))
    (leafId?_of_cell? hc) none q

/-- A removal finds no cell, or clears the cell and empties its slot. -/
theorem removeCell_cases (w : World) (p : Position) :
    (w.cell? p = none ∧ w.removeCell p = ⟨w, [], none⟩) ∨
    ∃ cell, w.cell? p = some cell ∧
      let cleared := cell.occupants.foldl (sendAway p) { world := w }
      (cleared.world.cell? p = none ∧
          w.removeCell p = ⟨cleared.world, cleared.events, none⟩) ∨
        ∃ rest, cleared.world.cell? p = some rest ∧
          w.removeCell p = ⟨cleared.world.clearSlot p,
            cleared.events ++ [.cellRemoved p rest.contents.length],
            some ⟨cleared.relocated, cleared.evicted, rest.contents⟩⟩ := by
  unfold removeCell
  cases w.cell? p with
  | none => exact Or.inl ⟨rfl, rfl⟩
  | some cell =>
      refine Or.inr ⟨cell, rfl, ?_⟩
      dsimp only
      cases (cell.occupants.foldl (sendAway p) { world := w }).world.cell? p with
      | none => exact Or.inl ⟨rfl, rfl⟩
      | some rest => exact Or.inr ⟨rest, rfl, rfl⟩

theorem fallback?_spec {w : World} {r : Resident} {p target : Position}
    (h : w.fallback? r p = some target) : target ≠ p ∧ (w.cell? target).isSome := by
  unfold fallback? at h
  split at h
  · have := List.find?_some h
    simpa using this
  · cases h

end World

end TileWorld
