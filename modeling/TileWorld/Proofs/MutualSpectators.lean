import TileWorld.Proofs.SpectatorRanges

/-!
# Spectators of each other

The floors watched from a center are listed case by case, with exceptions
at the surface and right above it. All cases come to one rule, in which
the two floors play the same part: neither is underground, or they are two
floors apart at most (`inBand_iff`). The shift between the floors changes
its sign with the center. So where a range reaches as far in opposite
directions, whoever watches is watched (`spectators_mutual`).
-/

namespace TileWorld

namespace Position

variable {p q : Position}

theorem distanceZ_comm (p q : Position) : p.distanceZ q = q.distanceZ p := by
  unfold distanceZ
  omega

theorem shiftedDistanceX_comm (p q : Position) :
    p.shiftedDistanceX q = q.shiftedDistanceX p := by
  unfold shiftedDistanceX
  omega

theorem shiftedDistanceY_comm (p q : Position) :
    p.shiftedDistanceY q = q.shiftedDistanceY p := by
  unfold shiftedDistanceY
  omega

/-- All floors above ground are in sight of each other, and so are any two
floors that are close enough. -/
theorem inBand_iff (hp : p.hasValidFloor = true) (hq : q.hasValidFloor = true) :
    p.InBand q true ↔
      p.isUnderground = false ∧ q.isUnderground = false ∨ p.distanceZ q ≤ 2 := by
  obtain ⟨htop, hbottom⟩ := toNat_floorBand hq
  rw [hasValidFloor_iff] at hp hq
  rw [← Bool.not_eq_true, ← Bool.not_eq_true, isUnderground_iff, isUnderground_iff]
  unfold InBand distanceZ
  rw [UInt8.le_iff_toNat_le, UInt8.le_iff_toNat_le, htop, hbottom]
  by_cases hunder : 7 < q.z.toNat
  · rw [if_pos hunder, if_pos hunder]
    omega
  · rw [if_neg hunder, if_neg hunder]
    split <;> omega

theorem inBand_false_iff : p.InBand q false ↔ p.z = q.z :=
  ⟨fun h => UInt8.le_antisymm h.2 h.1, fun h => ⟨UInt8.le_of_eq h.symm, UInt8.le_of_eq h⟩⟩

theorem inBand_comm (hp : p.hasValidFloor = true) (hq : q.hasValidFloor = true)
    (multiFloor : Bool) : p.InBand q multiFloor ↔ q.InBand p multiFloor := by
  cases multiFloor with
  | false => rw [inBand_false_iff, inBand_false_iff, eq_comm]
  | true => rw [inBand_iff hp hq, inBand_iff hq hp, distanceZ_comm, and_comm]

theorem watchedFrom_symmetric_comm (hp : p.hasValidFloor = true) (hq : q.hasValidFloor = true)
    (multiFloor : Bool) (x y : Int) :
    p.WatchedFrom q multiFloor (.symmetric x y) ↔ q.WatchedFrom p multiFloor (.symmetric x y) := by
  rw [watchedFrom_symmetric_iff, watchedFrom_symmetric_iff, inBand_comm hp hq,
    shiftedDistanceX_comm, shiftedDistanceY_comm]

end Position

namespace World

/-- Two registered occupants find each other or neither the other, if each
is looked for around the position of the other, over the same floors and
as far west as east and north as south. -/
theorem spectators_mutual {w : World} (hw : w.Reachable) {a b : OccupantId} {r s : Resident}
    (ha : w.resident? a = some r) (hb : w.resident? b = some s) (multiFloor : Bool) (x y : Int) :
    b ∈ (w.spectators r.position multiFloor false (.symmetric x y)).ids ↔
      a ∈ (w.spectators s.position multiFloor false (.symmetric x y)).ids := by
  have hp := hw.coherent.hasValidFloor ha
  have hq := hw.coherent.hasValidFloor hb
  rw [mem_spectators_iff hw.coherent hp, mem_spectators_iff hw.coherent hq]
  constructor
  · rintro ⟨s', hb', -, hwatched⟩
    obtain rfl := Option.some.inj (hb.symm.trans hb')
    exact ⟨r, ha, nofun, (Position.watchedFrom_symmetric_comm hq hp ..).mp hwatched⟩
  · rintro ⟨r', ha', -, hwatched⟩
    obtain rfl := Option.some.inj (ha.symm.trans ha')
    exact ⟨s, hb, nofun, (Position.watchedFrom_symmetric_comm hp hq ..).mp hwatched⟩

/-- From underground, a creature is seen two floors up, in another leaf and
two cells further south-east, and it sees whoever is there. -/
theorem spectators_mutual_two_floors_up :
    let w := ((empty {}).run
      [.setCell ⟨7, 7, 8⟩ .empty .merge, .setCell ⟨9, 9, 6⟩ .empty .merge,
        .place .player ⟨7, 7, 8⟩, .place .creature ⟨9, 9, 6⟩]).1
    w.Reachable ∧ w.resident? ⟨1⟩ = some ⟨.player, ⟨7, 7, 8⟩, .south⟩ ∧
      w.resident? ⟨2⟩ = some ⟨.creature, ⟨9, 9, 6⟩, .south⟩ ∧
      ⟨2⟩ ∈ (w.spectators ⟨7, 7, 8⟩ true false (.symmetric 0 (-3))).ids ∧
      ⟨1⟩ ∈ (w.spectators ⟨9, 9, 6⟩ true false (.symmetric 0 (-3))).ids := by
  intro w
  have hw : w.Reachable := reachable_run _ (by decide)
  have ha : w.resident? ⟨1⟩ = some ⟨.player, ⟨7, 7, 8⟩, .south⟩ := by decide +kernel
  have hb : w.resident? ⟨2⟩ = some ⟨.creature, ⟨9, 9, 6⟩, .south⟩ := by decide +kernel
  have hseen : ⟨2⟩ ∈ (w.spectators ⟨7, 7, 8⟩ true false (.symmetric 0 (-3))).ids := by
    decide +kernel
  exact ⟨hw, ha, hb, hseen, (spectators_mutual hw ha hb true 0 (-3)).mp hseen⟩

end World

end TileWorld
