import TileWorld.Proofs.SpectatorQueries

/-!
# How far the widest range reaches

No reach of a spectator query is longer than the map is wide. On the floor
of the center such a range covers the whole map. On any other floor the
covered rectangle is shifted, and the shift counts against the reach:
`unbounded_exact` says who is found, and `unbounded_misses_east_edge` that
somebody at one edge of the map is not found from the other edge a single
floor above.
-/

namespace TileWorld

namespace SpectatorRange

/-- The range with the largest reaches that can be asked for, those of 32
bits with a sign, in every direction. -/
def unbounded : SpectatorRange :=
  .clamped 2147483647 2147483647 2147483647 2147483647

end SpectatorRange

namespace Position

/-- The floor of the position is watched from the center. -/
def InBand (p center : Position) (multiFloor : Bool) : Prop :=
  (floorBand center multiFloor).1 ≤ p.z ∧ p.z ≤ (floorBand center multiFloor).2

/-- Columns from the center to the position, once the center has been
shifted by as many cells as the position is floors above it. -/
def shiftedDistanceX (p center : Position) : Nat :=
  Int.natAbs ((p.x.toNat : Int) - (center.x.toNat + (center.z.toNat - p.z.toNat)))

def shiftedDistanceY (p center : Position) : Nat :=
  Int.natAbs ((p.y.toNat : Int) - (center.y.toNat + (center.z.toNat - p.z.toNat)))

/-- A range with the same reach in opposite directions bounds the distances. -/
theorem watchedFrom_symmetric_iff {p center : Position} {multiFloor : Bool} {x y : Int} :
    p.WatchedFrom center multiFloor (.symmetric x y) ↔ p.InBand center multiFloor ∧
      p.shiftedDistanceX center ≤ (SpectatorRange.reach x).toNat ∧
        p.shiftedDistanceY center ≤ (SpectatorRange.reach y).toNat := by
  unfold shiftedDistanceX shiftedDistanceY
  constructor
  · rintro ⟨hfloor, hx, hy⟩
    simp only [SpectatorRange.symmetric, SpectatorRange.clamped] at hx hy
    exact ⟨hfloor, by omega, by omega⟩
  · rintro ⟨hfloor, hx, hy⟩
    constructor
    case floor => exact hfloor
    all_goals
      simp only [SpectatorRange.symmetric, SpectatorRange.clamped]
      omega

theorem watchedFrom_unbounded_iff {p center : Position} {multiFloor : Bool} :
    p.WatchedFrom center multiFloor .unbounded ↔ p.InBand center multiFloor ∧
      p.shiftedDistanceX center ≤ 65535 ∧ p.shiftedDistanceY center ≤ 65535 :=
  watchedFrom_symmetric_iff

theorem inBand_of_sameFloor {p center : Position} (hcenter : center.hasValidFloor = true)
    (multiFloor : Bool) (hz : p.z = center.z) : p.InBand center multiFloor := by
  unfold InBand
  rw [hz]
  cases multiFloor with
  | false => exact ⟨UInt8.le_refl _, UInt8.le_refl _⟩
  | true => exact (watchedFrom_self hcenter .point).floor

/-- On the floor of the center no distance is longer than the map is wide. -/
theorem shiftedDistance_le {p center : Position} (hz : p.z = center.z) :
    p.shiftedDistanceX center ≤ 65535 ∧ p.shiftedDistanceY center ≤ 65535 := by
  have hpx := p.x.toNat_lt
  have hpy := p.y.toNat_lt
  have hcx := center.x.toNat_lt
  have hcy := center.y.toNat_lt
  unfold shiftedDistanceX shiftedDistanceY
  rw [hz]
  omega

end Position

namespace World

/-- A query with the widest range finds everybody of those asked for whose
floor is watched and whose column and row are no more than the width of the
map away from the center, the shift between the floors counted in, and
nobody else. On the floor of the center it misses nobody. -/
theorem unbounded_exact {w : World} (hw : w.Reachable) {center : Position}
    (hz : center.hasValidFloor = true) (multiFloor playersOnly : Bool) :
    let found := (w.spectators center multiFloor playersOnly .unbounded).ids
    (∀ id, id ∈ found ↔ ∃ r, w.resident? id = some r ∧
      (playersOnly = true → r.occupant.isPlayer = true) ∧
        r.position.InBand center multiFloor ∧
          r.position.shiftedDistanceX center ≤ 65535 ∧
            r.position.shiftedDistanceY center ≤ 65535) ∧
    ∀ id r, w.resident? id = some r → (playersOnly = true → r.occupant.isPlayer = true) →
      r.position.z = center.z → id ∈ found := by
  intro found
  refine ⟨fun id => ?_, fun id r hr hplayer hsame => ?_⟩ <;> rw [mem_spectators_iff hw.coherent hz]
  · simp only [Position.watchedFrom_unbounded_iff]
  · exact ⟨r, hr, hplayer, Position.watchedFrom_unbounded_iff.mpr
      ⟨Position.inBand_of_sameFloor hz multiFloor hsame, Position.shiftedDistance_le hsame⟩⟩

/-- From the western edge, a creature at the eastern edge is found one
floor up. -/
theorem unbounded_exact_one_floor_up :
    let w := ((empty {}).run
      [.setCell ⟨65535, 65535, 6⟩ .empty .merge, .place .creature ⟨65535, 65535, 6⟩]).1
    w.Reachable ∧ Position.hasValidFloor ⟨0, 0, 7⟩ = true ∧
      w.resident? ⟨1⟩ = some ⟨.creature, ⟨65535, 65535, 6⟩, .south⟩ ∧
      ⟨1⟩ ∈ (w.spectators ⟨0, 0, 7⟩ true false .unbounded).ids := by
  intro w
  have hw : w.Reachable := reachable_run _ (by decide)
  have hz : Position.hasValidFloor ⟨0, 0, 7⟩ = true := by decide
  have hr : w.resident? ⟨1⟩ = some ⟨.creature, ⟨65535, 65535, 6⟩, .south⟩ := by decide +kernel
  have hband : Position.InBand ⟨65535, 65535, 6⟩ ⟨0, 0, 7⟩ true := by
    unfold Position.InBand
    decide
  have hfound := ((unbounded_exact hw hz true false).1 ⟨1⟩).mpr
    ⟨_, hr, nofun, hband, by decide, by decide⟩
  exact ⟨hw, hz, hr, hfound⟩

/-- From the western edge, a creature at the eastern edge is missed one
floor down, though its floor is watched. -/
theorem unbounded_misses_east_edge :
    let w := ((empty {}).run
      [.setCell ⟨65535, 0, 8⟩ .empty .merge, .place .creature ⟨65535, 0, 8⟩]).1
    w.Reachable ∧ Position.hasValidFloor ⟨0, 0, 7⟩ = true ∧
      w.resident? ⟨1⟩ = some ⟨.creature, ⟨65535, 0, 8⟩, .south⟩ ∧
      Position.InBand ⟨65535, 0, 8⟩ ⟨0, 0, 7⟩ true ∧
      ⟨1⟩ ∉ (w.spectators ⟨0, 0, 7⟩ true false .unbounded).ids := by
  intro w
  have hw : w.Reachable := reachable_run _ (by decide)
  have hband : Position.InBand ⟨65535, 0, 8⟩ ⟨0, 0, 7⟩ true := by
    unfold Position.InBand
    decide
  exact ⟨hw, by decide, by decide +kernel, hband, by decide +kernel⟩

end World

end TileWorld
