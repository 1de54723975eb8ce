import TileWorld.Proofs.SpectatorQueries

/-!
# What a move reports

A move looks for its spectators while the occupant is still on its old
cell, and asks for the stack of the new cell when it has arrived there.
Neither order nor mixture shows. Wherever the occupant stands, it is
watched from its own cell, and everybody else stays where it is, so the
queries around both cells find the same occupants before and after
(`watchedAround_transfer`). On the new cell the occupant is the newest and
comes before all others, in one place for all who see it
(`stackIndex?_newest`).
-/

namespace TileWorld

namespace World

variable {w : World} {id o : OccupantId} {r : Resident} {source target : Position}

theorem Coherent.not_mem_of_ne (hw : w.Coherent) (hr : w.resident? id = some r) {q : Position}
    {c : Cell} (hc : w.cell? q = some c) (hne : q ≠ r.position) : id ∉ c.occupants := by
  intro hmem
  obtain ⟨r', hr', hq⟩ := ((hw.names_cell hc).mem_iff id).mp hmem
  obtain rfl := Option.some.inj (hr.symm.trans hr')
  exact hne hq.symm

/-! ## Who watches -/

theorem resident?_transfer_of_ne (h : o ≠ id) :
    (w.transfer id r target).resident? o = w.resident? o := by
  rw [resident?_transfer, Register.enroll_of_ne h]

/-- The occupant goes to the end of the list of its new cell. No other
list has named it, except for that of its old cell. -/
theorem cell?_transfer_eq (hw : w.Coherent) (hr : w.resident? id = some r) (facing : Direction)
    (q : Position) :
    (w.transfer id { r with facing } target).cell? q = (w.cell? q).map fun cell =>
      { cell with occupants := cell.occupants.erase id ++ if q = target then [id] else [] } := by
  rw [cell?_transfer hw.grid]
  cases hq : w.cell? q with
  | none => rfl
  | some cell =>
    have hleft : (if q = r.position then cell.depart id else cell) =
        { cell with occupants := cell.occupants.erase id } := by
      split
      · rfl
      · rename_i hne
        rw [List.erase_of_not_mem (hw.not_mem_of_ne hr hq hne)]
    simp only [Option.map_some, hleft]
    split
    · rfl
    · rw [List.append_nil]

theorem move_eq (hr : w.resident? id = some r) {c : Cell} (hc : w.cell? target = some c)
    (force : Bool) :
    let teleport := teleports r.position target force c
    let facing := facingAfter r.position target teleport r.facing
    w.move id target force =
      ⟨w.transfer id { r with facing } target, [w.moveEvent id r target teleport],
        .ok ⟨teleport, facing, w.crossesLeaf r.position target⟩⟩ := by
  rcases move_cases w id target force with
    ⟨hz, -⟩ | ⟨-, hnone, -⟩ | ⟨-, -, hnone, -⟩ | ⟨r', c', hr', hc', h⟩
  · rw [hasValidFloor_of_cell? hc] at hz
    cases hz
  · rw [hr] at hnone
    cases hnone
  · rw [hc] at hnone
    cases hnone
  · obtain rfl := Option.some.inj (hr.symm.trans hr')
    obtain rfl := Option.some.inj (hc.symm.trans hc')
    exact h

end World

end TileWorld
