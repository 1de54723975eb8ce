import TileWorld.Proofs.CellStore

/-!
# Refused requests

An operation may create leaves, give out ids and send occupants away
before it answers. Still no refusal leaves anything behind: the requests
refused are exactly those that `PlacementFault` and `MoveFault` describe,
or that ask for somebody or something that is not there, and they are
refused before the first change. Only the removal of a cell looks at the
cell a second time when everybody on it has gone, and finds it, since
nobody takes a cell along (`removeCell_answer_eq_none_iff`).

`refusals_run` collects this for the worlds of all histories, however many
occupants they place.
-/

namespace TileWorld

theorem Position.hasValidFloor_eq_false_iff {p : Position} :
    p.hasValidFloor = false ↔ 15 < p.z.toNat := by
  rw [← Bool.not_eq_true, Position.hasValidFloor_iff]
  omega

/-- The operation has changed nothing in the world and reported nothing. -/
def Effect.Idle {α : Type} (e : Effect α) (w : World) : Prop :=
  e.world = w ∧ e.events = []

namespace World

variable {w : World} {o : Occupant} {p target : Position} {id : OccupantId} {force : Bool}
  {e : PlacementError} {c : Cell} {policy : StorePolicy}

/-! ## Occupants -/

/-- What is wrong with placing somebody on a position. -/
def PlacementFault (w : World) (p : Position) : PlacementError → Prop
  | .outOfBounds => 15 < p.z.toNat
  | .missingCell => p.z.toNat ≤ 15 ∧ w.cell? p = none
  | .unknownOccupant => False

/-- What is wrong with moving an occupant onto a position. -/
def MoveFault (w : World) (id : OccupantId) (target : Position) : PlacementError → Prop
  | .outOfBounds => 15 < target.z.toNat
  | .unknownOccupant => target.z.toNat ≤ 15 ∧ w.resident? id = none
  | .missingCell => target.z.toNat ≤ 15 ∧ (w.resident? id).isSome ∧ w.cell? target = none

theorem place_answer_eq_error_iff :
    (w.place o p).answer = .error e ↔ w.PlacementFault p e := by
  rcases place_cases w o p with ⟨hz, h⟩ | ⟨hz, hc, h⟩ | ⟨hc, h⟩ <;> rw [h]
  · have hlow := Position.hasValidFloor_eq_false_iff.mp hz
    cases e <;> simp [PlacementFault, hlow]
  · have hfloor := Position.hasValidFloor_iff.mp hz
    cases e <;> simp [PlacementFault, hc] <;> omega
  · obtain ⟨c, hc⟩ := Option.isSome_iff_exists.mp hc
    have hfloor := Position.hasValidFloor_iff.mp (hasValidFloor_of_cell? hc)
    cases e <;> simp [PlacementFault, hc]
    omega

theorem place_idle (h : (w.place o p).answer = .error e) : (w.place o p).Idle w := by
  rcases place_cases w o p with ⟨-, hplace⟩ | ⟨-, -, hplace⟩ | ⟨-, hplace⟩ <;> rw [hplace] at h ⊢
  · exact ⟨rfl, rfl⟩
  · exact ⟨rfl, rfl⟩
  · cases h

theorem move_answer_eq_error_iff :
    (w.move id target force).answer = .error e ↔ w.MoveFault id target e := by
  rcases move_cases w id target force with
    ⟨hz, h⟩ | ⟨hz, hr, h⟩ | ⟨hz, hr, hc, h⟩ | ⟨r, c, hr, hc, h⟩ <;> rw [h]
  · have hlow := Position.hasValidFloor_eq_false_iff.mp hz
    cases e <;> simp [MoveFault, hlow]
  · have hfloor := Position.hasValidFloor_iff.mp hz
    cases e <;> simp [MoveFault, hr] <;> omega
  · have hfloor := Position.hasValidFloor_iff.mp hz
    obtain ⟨r, hr⟩ := Option.isSome_iff_exists.mp hr
    cases e <;> simp [MoveFault, hr, hc] <;> omega
  · have hfloor := Position.hasValidFloor_iff.mp (hasValidFloor_of_cell? hc)
    cases e <;> simp [MoveFault, hr, hc]
    omega

theorem move_idle (h : (w.move id target force).answer = .error e) :
    (w.move id target force).Idle w := by
  rcases move_cases w id target force with
    ⟨-, hmove⟩ | ⟨-, -, hmove⟩ | ⟨-, -, -, hmove⟩ | ⟨r, c, -, -, hmove⟩ <;> rw [hmove] at h ⊢
  · exact ⟨rfl, rfl⟩
  · exact ⟨rfl, rfl⟩
  · exact ⟨rfl, rfl⟩
  · cases h

theorem remove_answer_eq_none_iff : (w.remove id).answer = none ↔ w.resident? id = none := by
  rcases remove_cases w id with ⟨hr, h⟩ | ⟨r, hr, h⟩ <;> simp [h, hr]

theorem remove_idle (h : (w.remove id).answer = none) : (w.remove id).Idle w := by
  rcases remove_cases w id with ⟨-, hremove⟩ | ⟨r, -, hremove⟩ <;> rw [hremove] at h ⊢
  · exact ⟨rfl, rfl⟩
  · cases h

/-! ## Cells -/

/-- A cell that is there when its removal begins is there when everybody
has gone, so the removal succeeds. -/
theorem removeCell_answer_eq_none_iff (hg : w.grid.WellFormed) :
    (w.removeCell p).answer = none ↔ w.cell? p = none := by
  have hitems := (stock?_removeCell hg p).2.2
  rw [← Option.map_eq_none_iff (f := RemovedCell.items), hitems, Option.map_eq_none_iff, stock?,
    Option.map_eq_none_iff]

theorem removeCell_idle (hg : w.grid.WellFormed) (h : (w.removeCell p).answer = none) :
    (w.removeCell p).Idle w := by
  have hcell := (removeCell_answer_eq_none_iff hg).mp h
  rcases removeCell_cases w p with ⟨-, hremove⟩ | ⟨cell, hcell', -⟩
  · rw [hremove]
    exact ⟨rfl, rfl⟩
  · rw [hcell] at hcell'
    cases hcell'

theorem setCell_events_eq_nil_iff (hg : w.grid.WellFormed) :
    (w.setCell p c policy).events = [] ↔ 15 < p.z.toNat := by
  rw [← Position.hasValidFloor_eq_false_iff]
  rcases setCell_cases hg p c policy with ⟨hz, h⟩ | ⟨hz, -, h⟩ | ⟨hc, -, h⟩ | ⟨hc, -, h⟩ <;> rw [h]
  · simp [hz]
  · simp [hz]
  all_goals
    obtain ⟨c₀, hc₀⟩ := Option.isSome_iff_exists.mp hc
    simp [hasValidFloor_of_cell? hc₀]

theorem setCell_idle (hg : w.grid.WellFormed) (h : 15 < p.z.toNat) :
    (w.setCell p c policy).Idle w := by
  have hevents : (w.setCell p c policy).events = [] := (setCell_events_eq_nil_iff hg).mpr h
  rcases setCell_cases hg p c policy with ⟨-, hset⟩ | ⟨-, -, hset⟩ | ⟨-, -, hset⟩ | ⟨-, -, hset⟩ <;>
    rw [hset] at hevents ⊢
  · exact ⟨rfl, rfl⟩
  all_goals cases hevents

/-- A cell that is dropped leaves no trace but the event that says so. -/
theorem setCell_world_of_discarded (hg : w.grid.WellFormed)
    (h : .cellSet p .discarded ∈ (w.setCell p c policy).events) :
    (w.setCell p c policy).world = w := by
  rcases setCell_cases hg p c policy with ⟨-, hset⟩ | ⟨-, -, hset⟩ | ⟨-, -, hset⟩ | ⟨-, -, hset⟩ <;>
    rw [hset] at h ⊢
  all_goals simp at h

/-! ## Histories -/

/-- Every operation refuses exactly the requests that it cannot serve, and
leaves the world alone when it does. -/
structure RefusesCleanly (w : World) : Prop where
  place : ∀ o p e, (w.place o p).answer = .error e ↔ w.PlacementFault p e
  place_idle : ∀ o p e, (w.place o p).answer = .error e → (w.place o p).Idle w
  move : ∀ id target force e,
    (w.move id target force).answer = .error e ↔ w.MoveFault id target e
  move_idle : ∀ id target force e,
    (w.move id target force).answer = .error e → (w.move id target force).Idle w
  remove : ∀ id, (w.remove id).answer = none ↔ w.resident? id = none
  remove_idle : ∀ id, (w.remove id).answer = none → (w.remove id).Idle w
  removeCell : ∀ p, (w.removeCell p).answer = none ↔ w.cell? p = none
  removeCell_idle : ∀ p, (w.removeCell p).answer = none → (w.removeCell p).Idle w
  setCell : ∀ p c policy, (w.setCell p c policy).events = [] ↔ 15 < p.z.toNat
  setCell_idle : ∀ p c policy,
    (w.setCell p c policy).events = [] → (w.setCell p c policy).Idle w
  /-- A store may also be answered by dropping the cell. -/
  setCell_discarded : ∀ p c policy,
    .cellSet p .discarded ∈ (w.setCell p c policy).events → (w.setCell p c policy).world = w

theorem refusals_run (config : WorldConfig) (actions : List Action) :
    ((empty config).run actions).1.RefusesCleanly := by
  obtain ⟨hg, -⟩ := stock?_history (w := empty config) Grid.wellFormed_empty actions
  constructor
  case place => exact fun _ _ _ => place_answer_eq_error_iff
  case place_idle => exact fun _ _ _ => place_idle
  case move => exact fun _ _ _ _ => move_answer_eq_error_iff
  case move_idle => exact fun _ _ _ _ => move_idle
  case remove => exact fun _ => remove_answer_eq_none_iff
  case remove_idle => exact fun _ => remove_idle
  case removeCell => exact fun _ => removeCell_answer_eq_none_iff hg
  case removeCell_idle => exact fun _ => removeCell_idle hg
  case setCell => exact fun _ _ _ => setCell_events_eq_nil_iff hg
  case setCell_idle =>
    exact fun _ _ _ h => setCell_idle hg ((setCell_events_eq_nil_iff hg).mp h)
  case setCell_discarded => exact fun _ _ _ => setCell_world_of_discarded hg

end World

end TileWorld
