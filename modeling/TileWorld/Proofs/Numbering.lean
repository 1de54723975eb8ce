import TileWorld.Proofs.CellStore
import TileWorld.Proofs.Reachability

/-!
# Numbering beyond the last id

Ids are numbers of 32 bits, and a world goes on counting when they are used
up. `place_answer_run` follows the numbering through histories of any
length: a newcomer gets the number next to that of the last one, modulo
`idCount`, and meets somebody who bears that number only if this one has
stayed while all the numbers were given once.

`number_given_twice` is such a history. A player stays on its cell while
others come and go one at a time, and in the end somebody else takes its
number and its entry in the register.
-/

namespace TileWorld.World

variable {w : World} {p : Position} {r : Resident}

theorem Numbered.run {placed : List (OccupantId × Occupant)} (h : w.Numbered placed)
    (hg : w.grid.WellFormed) (actions : List Action) :
    (w.run actions).1.Numbered (placed ++ w.placements actions) := by
  induction actions generalizing w placed with
  | nil =>
      rw [show w.placements [] = [] from rfl, List.append_nil]
      exact h
  | cons a rest ih =>
      rw [placements, ← List.append_assoc]
      exact ih (h.perform hg a) (stock?_perform hg a).1

/-- A placement that succeeds gives the number after those of all earlier
placements, modulo the number of ids, and writes no other entry. Whoever
has that number already was placed at least `idCount` placements before,
and nobody has it while fewer have been made. -/
theorem place_answer_run (config : WorldConfig) (actions : List Action) (o : Occupant)
    (p : Position) :
    let w := ((empty config).run actions).1
    let placed := (empty config).placements actions
    ∀ id, (w.place o p).answer = .ok id →
      id.val.toNat = (placed.length + 1) % idCount ∧
      (∀ r, w.resident? id = some r →
        ∃ k, k + idCount ≤ placed.length ∧ placed[k]? = some (id, r.occupant)) ∧
      (placed.length < idCount → w.resident? id = none) ∧
      (w.place o p).world.resident? id = some ⟨o, p, .south⟩ ∧
      ∀ i, i ≠ id → (w.place o p).world.resident? i = w.resident? i := by
  intro w placed id hid
  have h : w.Numbered placed := (numbered_empty config).run Grid.wellFormed_empty actions
  rcases place_cases w o p with ⟨-, hplace⟩ | ⟨-, -, hplace⟩ | ⟨-, hplace⟩ <;>
    rw [hplace] at hid ⊢ <;> cases hid
  refine ⟨h.nextNumber, fun r => h.of_resident, h.fresh, ?_, fun i hi => ?_⟩
  · rw [resident?_receive, Register.enroll_self]
  · rw [resident?_receive, Register.enroll_of_ne hi]

/-- The third placement gives the third number, though the first occupant
has left and the second attempt failed. -/
theorem place_answer_run_third :
    let actions : List Action :=
      [.setCell ⟨0, 0, 7⟩ .empty .merge, .place .player ⟨0, 0, 7⟩, .place .player ⟨9, 9, 9⟩,
        .place .creature ⟨0, 0, 7⟩, .remove ⟨1⟩]
    let w := ((empty {}).run actions).1
    (w.place .creature ⟨0, 0, 7⟩).answer = .ok ⟨3⟩ ∧
      ((empty {}).placements actions).length < idCount ∧ w.resident? ⟨3⟩ = none := by
  intro actions w
  have hanswer : (w.place .creature ⟨0, 0, 7⟩).answer = .ok ⟨3⟩ := by decide +kernel
  have hroom : ((empty {}).placements actions).length < idCount :=
    (length_placements_le _ actions).trans_lt (by decide)
  exact ⟨hanswer, hroom, (place_answer_run {} actions .creature ⟨0, 0, 7⟩ _ hanswer).2.2.1 hroom⟩

/-! ## A long history -/

/-- One creature after another is placed on a position and taken out again. -/
def comingsAndGoings (p : Position) (n : Nat) : List Action :=
  (List.range n).flatMap fun k => [.place .creature p, .remove ⟨UInt32.ofNat (k + 2)⟩]

theorem run_append (w : World) (actions later : List Action) :
    (w.run (actions ++ later)).1 = ((w.run actions).1.run later).1 := by
  induction actions generalizing w with
  | nil => rfl
  | cons a rest ih => exact ih _

/-- The first occupant stays on a cell while the numbers after its own are given. -/
structure Outstays (w : World) (p : Position) (r : Resident) (n : Nat) : Prop where
  grid : w.grid.WellFormed
  cell : (w.cell? p).isSome
  nextNumber : w.nextNumber = UInt32.ofNat (n + 2)
  first : w.resident? ⟨1⟩ = some r

/-- Somebody comes and goes again, and gets another number than the first. -/
theorem Outstays.step {n : Nat} (h : w.Outstays p r n) (hn : n + 1 < idCount) :
    (w.run [.place .creature p, .remove ⟨UInt32.ofNat (n + 2)⟩]).1.Outstays p r (n + 1) := by
  have hother : (⟨1⟩ : OccupantId) ≠ ⟨w.nextNumber⟩ := by
    rw [h.nextNumber, ne_eq, OccupantId.mk.injEq, ← UInt32.toNat_inj, UInt32.toNat_ofNat']
    simp only [idCount] at hn
    simp only [UInt32.reduceToNat]
    omega
  have hremove : ((w.receive .creature p).remove ⟨w.nextNumber⟩).world =
      (w.receive .creature p).detach ⟨w.nextNumber⟩ ⟨.creature, p, .south⟩ := by
    rw [remove, resident?_receive, Register.enroll_self]
  show (((w.place .creature p).world).remove ⟨UInt32.ofNat (n + 2)⟩).world.Outstays p r (n + 1)
  rw [place_of_cell h.cell, ← h.nextNumber, hremove]
  have hg := wellFormed_receive h.grid .creature p
  constructor
  case grid => exact wellFormed_detach hg _ _
  case cell =>
    rw [cell?_detach hg, if_pos rfl, cell?_receive h.grid, if_pos rfl]
    simpa using h.cell
  case nextNumber =>
    show w.nextNumber + 1 = _
    rw [h.nextNumber, ← UInt32.toNat_inj]
    simp only [UInt32.toNat_add, UInt32.toNat_ofNat', UInt32.reduceToNat]
    omega
  case first =>
    rw [resident?_detach, Register.strike_of_ne hother, resident?_receive,
      Register.enroll_of_ne hother]
    exact h.first

theorem Outstays.run (h : w.Outstays p r 0) {n : Nat} (hn : n < idCount) :
    (w.run (comingsAndGoings p n)).1.Outstays p r n := by
  induction n with
  | zero => exact h
  | succ n ih =>
      rw [comingsAndGoings, List.range_succ, List.flatMap_append, run_append]
      exact (ih (by omega)).step hn

/-- A player is still on its cell when its number is given to another, who
takes over its entry. -/
theorem number_given_twice :
    let p : Position := ⟨0, 0, 7⟩
    let w := ((empty {}).run ([.setCell p .empty .merge, .place .player p] ++
      comingsAndGoings p (idCount - 1))).1
    w.resident? ⟨1⟩ = some ⟨.player, p, .south⟩ ∧ (w.place .creature p).answer = .ok ⟨1⟩ ∧
      (w.place .creature p).world.resident? ⟨1⟩ = some ⟨.creature, p, .south⟩ := by
  intro p w
  have hstart : ((empty {}).run [.setCell p .empty .merge, .place .player p]).1.Outstays p
      ⟨.player, p, .south⟩ 0 := by
    constructor
    case grid => exact (stock?_history Grid.wellFormed_empty _).1
    all_goals decide +kernel
  have hw : w.Outstays p ⟨.player, p, .south⟩ (idCount - 1) := by
    show ((empty {}).run (_ ++ _)).1.Outstays _ _ _
    rw [run_append]
    exact hstart.run (by decide)
  have hnext : w.nextNumber = 1 := hw.nextNumber.trans (by decide)
  rw [place_of_cell hw.cell]
  refine ⟨hw.first, by rw [hnext], ?_⟩
  rw [resident?_receive, hnext, Register.enroll_self]

end TileWorld.World
