import TileWorld.Proofs.Operations

/-!
# Coherence of the world

A world is coherent if its grid is well formed and the lists of cells and
leaves agree with its register. Every operation keeps a world coherent.
Receiving a newcomer is the one with a condition, that the number to be
given is not that of somebody registered (`Coherent.receive`). Removing a
cell clears it first, and `Clears.step` follows the clearing occupant by
occupant.
-/

namespace TileWorld.World

/-- Grid, lists and register of a world describe one state of affairs. -/
structure Coherent (w : World) : Prop where
  grid : w.grid.WellFormed
  cells : w.grid.CellsAgree w.resident?
  leaves : w.grid.LeavesAgree w.resident?

theorem resident?_empty (config : WorldConfig) (id : OccupantId) :
    (empty config).resident? id = none := by
  simp [empty, resident?]

theorem coherent_empty (config : WorldConfig) : (empty config).Coherent := by
  have hnobody : ∀ id r, (empty config).resident? id ≠ some r := by
    intro id r h
    rw [resident?_empty] at h
    cases h
  have hnoLeaf : ∀ (i : LeafId) (l : Leaf), (empty config).grid.leaves[i]? ≠ some l := by
    simp [empty, Grid.empty]
  refine ⟨Grid.wellFormed_empty, ⟨?_, ?_⟩, ⟨?_, ?_⟩⟩
  · intro p c hc
    rw [← cell?_eq_grid, cell?_empty] at hc
    cases hc
  · exact fun id r hr => absurd hr (hnobody id r)
  · exact fun i l hl => absurd hl (hnoLeaf i l)
  · exact fun i l hl => absurd hl (hnoLeaf i l)

namespace Coherent

variable {w : World}

/-! ## Lists -/

theorem names_cell (hw : w.Coherent) {p : Position} {c : Cell} (hc : w.cell? p = some c) :
    Names c.occupants (Register.Has w.resident? (·.position = p)) :=
  hw.cells.names p c (by rwa [← cell?_eq_grid])

theorem cell_of_resident? (hw : w.Coherent) {id : OccupantId} {r : Resident}
    (hr : w.resident? id = some r) : ∃ c, w.cell? r.position = some c ∧ id ∈ c.occupants := by
  obtain ⟨c, hc⟩ := Option.isSome_iff_exists.mp (hw.cells.stands id r hr)
  exact ⟨c, by rwa [cell?_eq_grid], ((hw.cells.names _ c hc).mem_iff id).mpr ⟨r, hr, rfl⟩⟩

theorem hasValidFloor (hw : w.Coherent) {id : OccupantId} {r : Resident}
    (hr : w.resident? id = some r) : r.position.hasValidFloor = true := by
  obtain ⟨c, hc, -⟩ := hw.cell_of_resident? hr
  exact hasValidFloor_of_cell? hc

theorem leaf_of_resident? (hw : w.Coherent) {id : OccupantId} {r : Resident}
    (hr : w.resident? id = some r) : ∃ (i : LeafId) (l : Leaf),
      w.grid.Houses i r ∧ w.grid.leaves[i]? = some l ∧ id ∈ l.occupants ∧
        (r.occupant.isPlayer = true → id ∈ l.players) := by
  obtain ⟨c, hc, -⟩ := hw.cell_of_resident? hr
  obtain ⟨i, hi⟩ := Option.isSome_iff_exists.mp (leafId?_of_cell? hc)
  obtain ⟨l, hl, -⟩ := hw.grid.leaf_of_leafId? hi
  exact ⟨i, l, hi, hl, ((hw.leaves.occupants i l hl).mem_iff id).mpr ⟨r, hr, hi⟩,
    fun hplayer => ((hw.leaves.players i l hl).mem_iff id).mpr ⟨r, hr, hi, hplayer⟩⟩

/-! ## Storing -/

theorem ensureLeaf (hw : w.Coherent) (x y : UInt16) : (w.ensureLeaf x y).2.Coherent where
  grid := wellFormed_ensureLeaf hw.grid x y
  cells := by
    have hcell := Grid.cell?_ensureLeaf hw.grid x y
    exact hw.cells.of_cells (fun p hp => (hcell p).symm ▸ hp)
      (fun p c hc => Or.inl ⟨c, hcell p ▸ hc, rfl⟩)
  leaves := hw.leaves.ensureLeaf hw.grid hw.cells x y

theorem fill (hw : w.Coherent) {p : Position} (hz : p.hasValidFloor = true)
    (hleaf : (w.grid.leafId? p.x p.y).isSome) (hfree : w.cell? p = none) (c : Cell) :
    (w.fill p c).Coherent where
  grid := wellFormed_fill hw.grid p c
  cells := by
    have hcell := Grid.cell?_modifyAt_put hw.grid (Position.hasValidFloor_iff.mp hz) hleaf
      (some c.vacated)
    refine hw.cells.of_cells ?_ ?_
    · intro q hq
      rw [World.fill, hcell]
      split
      · rfl
      · exact hq
    · intro q c' hc'
      rw [World.fill, hcell] at hc'
      split at hc'
      · rename_i hqp
        obtain rfl := Option.some.inj hc'
        exact Or.inr ⟨by rw [hqp, ← cell?_eq_grid]; exact hfree, rfl⟩
      · exact Or.inl ⟨c', hc', rfl⟩
  leaves := hw.leaves.modifyAt p (by simp)

/-- Contents folded into a cell leave its occupants alone. -/
theorem foldIn (hw : w.Coherent) (p : Position) (c : Cell) : (w.foldIn p c).Coherent where
  grid := wellFormed_foldIn hw.grid p c
  cells := by
    have hcell : ∀ q, (w.foldIn p c).grid.cell? q =
        if q = p then (w.grid.cell? p).map (·.absorb c.vacated) else w.grid.cell? q :=
      Grid.cell?_modifyAt_map hw.grid (fun _ _ => rfl)
    refine hw.cells.of_cells ?_ ?_
    · intro q hq
      rw [hcell]
      split
      · rename_i hqp
        rw [Option.isSome_map, ← hqp]
        exact hq
      · exact hq
    · intro q c' hc'
      rw [hcell] at hc'
      split at hc'
      · rename_i hqp
        obtain ⟨c₀, hc₀, rfl⟩ := Option.map_eq_some_iff.mp hc'
        exact Or.inl ⟨c₀, hqp ▸ hc₀, rfl⟩
      · exact Or.inl ⟨c', hc', rfl⟩
  leaves := hw.leaves.modifyAt p (by simp)

theorem setCell (hw : w.Coherent) (p : Position) (c : Cell) (policy : StorePolicy) :
    (w.setCell p c policy).world.Coherent := by
  rcases setCell_cases hw.grid p c policy with
    ⟨-, h⟩ | ⟨hz, hfree, h⟩ | ⟨-, -, h⟩ | ⟨-, -, h⟩ <;> rw [h]
  · exact hw
  · exact (hw.ensureLeaf p.x p.y).fill hz (Option.isSome_of_eq_some (w.leafId?_ensureLeaf p.x p.y))
      (by rw [cell?_ensureLeaf hw.grid]; exact hfree) c
  · exact hw.foldIn p c
  · exact hw

/-! ## Occupants -/

theorem receive (hw : w.Coherent) (hfresh : w.resident? ⟨w.nextNumber⟩ = none) (o : Occupant)
    {p : Position} (hp : (w.cell? p).isSome) : (w.receive o p).Coherent where
  grid := wellFormed_receive hw.grid o p
  cells := by
    rw [resident?_receive]
    refine hw.cells.arrive hfresh (by rwa [← cell?_eq_grid]) fun q => ?_
    have hcell := cell?_receive hw.grid o p q
    rw [cell?_eq_grid, cell?_eq_grid, cell?_eq_grid] at hcell
    exact hcell
  leaves := by
    rw [resident?_receive]
    exact Grid.LeavesAgree.enter (r := ⟨o, p, .south⟩) hw.leaves hfresh
      (fun l => by simp [Leaf.enter])

theorem detach (hw : w.Coherent) {id : OccupantId} {r : Resident}
    (hr : w.resident? id = some r) : (w.detach id r).Coherent where
  grid := wellFormed_detach hw.grid id r
  cells := by
    rw [resident?_detach]
    refine hw.cells.depart hr fun q => ?_
    have hcell := cell?_detach hw.grid id r q
    rw [cell?_eq_grid, cell?_eq_grid, cell?_eq_grid] at hcell
    exact hcell
  leaves := by
    rw [resident?_detach]
    exact hw.leaves.leave hr (fun l => by simp [Leaf.leave])

/-- A registered occupant goes to another cell, turning on the way. -/
theorem transfer (hw : w.Coherent) {id : OccupantId} {r : Resident}
    (hr : w.resident? id = some r) (facing : Direction) {target : Position}
    (ht : (w.cell? target).isSome) : (w.transfer id { r with facing } target).Coherent where
  grid := wellFormed_transfer hw.grid ..
  cells := by
    rw [resident?_transfer, grid_transfer, ← Register.enroll_strike]
    -- between its two cells the occupant is on none and not registered
    have hleft := Grid.cell?_modifyAt_map hw.grid
      (cell?_leaveSource id { r with facing } (w.crossesLeaf r.position target))
    have hmid := hw.cells.depart hr hleft
    refine hmid.arrive Register.strike_self ?_ (Grid.cell?_modifyAt_map
      (wellFormed_leaveSource hw.grid id { r with facing } _) (cell?_enterTarget id _ target _))
    rw [hleft]
    rw [cell?_eq_grid] at ht
    split
    · rename_i htp
      rw [Option.isSome_map, ← htp]
      exact ht
    · exact ht
  leaves := by
    rw [resident?_transfer, grid_transfer]
    cases hcross : w.crossesLeaf r.position target with
    | true =>
        rw [← Register.enroll_strike]
        have hmid := hw.leaves.leave hr (f := leaveSource id { r with facing } true)
          (fun l => by simp [leaveSource, Leaf.leave])
        exact Grid.LeavesAgree.enter (r := { r with facing, position := target }) hmid
          Register.strike_self (fun l => by simp [enterTarget, Leaf.enter])
    | false =>
        have hsame : w.grid.leafId? r.position.x r.position.y =
            w.grid.leafId? target.x target.y := by
          simpa [crossesLeaf] using hcross
        have hmid := (hw.leaves.modifyAt r.position (f := leaveSource id { r with facing } false)
          (fun l => by simp [leaveSource])).modifyAt target
          (f := enterTarget id { r with facing } target false) (fun l => by simp [enterTarget])
        exact hmid.reenroll hr rfl (by simp [hsame])

theorem remove (hw : w.Coherent) (id : OccupantId) : (w.remove id).world.Coherent := by
  rcases remove_cases w id with ⟨-, h⟩ | ⟨r, hr, h⟩ <;> rw [h]
  · exact hw
  · exact hw.detach hr

theorem move (hw : w.Coherent) (id : OccupantId) (target : Position) (force : Bool) :
    (w.move id target force).world.Coherent := by
  rcases move_cases w id target force with ⟨-, h⟩ | ⟨-, -, h⟩ | ⟨-, -, -, h⟩ | ⟨r, c, hr, hc, h⟩
    <;> rw [h]
  · exact hw
  · exact hw
  · exact hw
  · exact hw.transfer hr _ (Option.isSome_iff_exists.mpr ⟨c, hc⟩)

end Coherent

/-! ## Removing cells -/

/-- Halfway through clearing a cell: the world is coherent, and the cell
holds those that are still to be sent away, in their order. -/
structure Clears (p : Position) (c : Clearing) (rest : List OccupantId) : Prop where
  coherent : c.world.Coherent
  holds : ∃ cell, c.world.cell? p = some cell ∧ cell.occupants = rest

theorem Clears.step {p : Position} {c : Clearing} {id : OccupantId} {rest : List OccupantId}
    (h : Clears p c (id :: rest)) : Clears p (sendAway p c id) rest := by
  obtain ⟨hw, cell, hcell, hids⟩ := h
  have hmem : id ∈ cell.occupants := hids ▸ List.mem_cons_self ..
  obtain ⟨r, hr, hp⟩ := ((hw.names_cell hcell).mem_iff id).mp hmem
  subst hp
  have hdepart : (cell.depart id).occupants = rest := by
    rw [Cell.depart, hids, List.erase_cons_head]
  rcases sendAway_cases r.position c id with ⟨hnone, -⟩ | ⟨r', hr', hway⟩
  · rw [hr] at hnone
    cases hnone
  · obtain rfl := Option.some.inj (hr.symm.trans hr')
    rcases hway with ⟨target, hf, h⟩ | ⟨-, h⟩ <;> rw [h]
    · obtain ⟨hne, ht⟩ := fallback?_spec hf
      refine ⟨hw.transfer hr r.facing ht, cell.depart id, ?_, hdepart⟩
      show (c.world.transfer id r target).cell? r.position = _
      rw [cell?_transfer hw.grid, hcell]
      simp [Ne.symm hne]
    · refine ⟨hw.detach hr, cell.depart id, ?_, hdepart⟩
      show (c.world.detach id r).cell? r.position = _
      rw [cell?_detach hw.grid, if_pos rfl, hcell]
      rfl

/-- After all have been sent away the cell is there, and nobody is on it. -/
theorem Clears.foldl {p : Position} {ids : List OccupantId} {c : Clearing} (h : Clears p c ids) :
    Clears p (ids.foldl (sendAway p) c) [] := by
  induction ids generalizing c with
  | nil => exact h
  | cons id rest ih => exact ih h.step

/-- In a coherent world a removal finds no cell, or sends everybody away
from the cell and then empties its slot. -/
theorem Coherent.removeCell_cases {w : World} (hw : w.Coherent) (p : Position) :
    (w.cell? p = none ∧ w.removeCell p = ⟨w, [], none⟩) ∨
    ∃ cell rest, w.cell? p = some cell ∧
      let cleared := cell.occupants.foldl (sendAway p) { world := w }
      cleared.world.Coherent ∧ cleared.world.cell? p = some rest ∧ rest.occupants = [] ∧
        w.removeCell p = ⟨cleared.world.clearSlot p,
          cleared.events ++ [.cellRemoved p rest.contents.length],
          some ⟨cleared.relocated, cleared.evicted, rest.contents⟩⟩ := by
  rcases World.removeCell_cases w p with hnone | ⟨cell, hcell, hcleared⟩
  · exact Or.inl hnone
  · have hstart : Clears p { world := w } cell.occupants := ⟨hw, cell, hcell, rfl⟩
    obtain ⟨hw', rest, hrest, hnobody⟩ := hstart.foldl
    rcases hcleared with ⟨hgone, -⟩ | ⟨rest', hrest', h⟩
    · rw [hrest] at hgone
      cases hgone
    · obtain rfl := Option.some.inj (hrest.symm.trans hrest')
      exact Or.inr ⟨cell, rest, hcell, hw', hrest, hnobody, h⟩

theorem Coherent.clearSlot {w : World} (hw : w.Coherent) {p : Position} {c : Cell}
    (hc : w.cell? p = some c) (hnobody : c.occupants = []) : (w.clearSlot p).Coherent where
  grid := wellFormed_clearSlot hw.grid p
  cells := by
    refine hw.cells.removeCell (p := p) ?_ fun q => ?_
    · intro i r hr hp
      have hmem := ((hw.names_cell hc).mem_iff i).mpr ⟨r, hr, hp⟩
      rw [hnobody] at hmem
      cases hmem
    · have hcell := cell?_clearSlot hw.grid (Option.isSome_iff_exists.mpr ⟨c, hc⟩) q
      rwa [cell?_eq_grid, cell?_eq_grid] at hcell
  leaves := hw.leaves.modifyAt p (by simp)

theorem Coherent.removeCell {w : World} (hw : w.Coherent) (p : Position) :
    (w.removeCell p).world.Coherent := by
  rcases hw.removeCell_cases p with ⟨-, h⟩ | ⟨cell, rest, -, hw', hrest, hnobody, h⟩ <;> rw [h]
  · exact hw
  · exact hw'.clearSlot hrest hnobody

end TileWorld.World
