import TileWorld.Proofs.SightPaths

/-!
# Sight under larger penalties

A larger penalty moves two bounds: the line may climb higher, and an eye
over a hole sinks further. The first never hinders a line. A cursor that
gets to a point below some ceiling gets to the same position below a higher
one (`foldlM_advance?_of_le`), so the two lines run together up to the
target. An eye on ground does not sink at all, and then a larger penalty
hides nothing (`canSee_of_penalty_le`). Over a hole it may
(`exists_canSee_lost_over_hole`).
-/

namespace TileWorld.World

variable {w : World} {source target p q : Position} {penalty penalty' ceiling ceiling' : UInt8}

/-! ## Ceilings -/

theorem sightCeiling_le_of_le (h : penalty ≤ penalty') :
    sightCeiling source penalty' ≤ sightCeiling source penalty := by
  rw [UInt8.le_iff_toNat_le] at h ⊢
  rw [toNat_sightCeiling, toNat_sightCeiling]
  omega

/-! ## A line below a higher ceiling -/

theorem climbOver?_of_le {blocked : Position} (hle : ceiling' ≤ ceiling)
    (h : w.climbOver? p blocked ceiling = some q) : w.climbOver? p blocked ceiling' = some q := by
  unfold climbOver? at h ⊢
  split at h
  · cases h
  · rename_i hclimb
    simp only [Bool.or_eq_true, decide_eq_true_eq, not_or, UInt8.not_le] at hclimb
    obtain ⟨hbelow, hopen⟩ := hclimb
    have hbelow' : ¬ p.z ≤ ceiling' := by
      rw [UInt8.lt_iff_toNat_lt] at hbelow
      rw [UInt8.le_iff_toNat_le] at hle ⊢
      omega
    rw [if_neg (by simp [hbelow', hopen])]
    exact h

theorem advance?_of_le {point : UInt16 × UInt16} (hle : ceiling' ≤ ceiling)
    (h : w.advance? target ceiling p point = some q) :
    w.advance? target ceiling' p point = some q := by
  unfold advance? at h ⊢
  dsimp only at h ⊢
  split at h
  · rename_i hblocked
    rw [if_pos hblocked]
    exact climbOver?_of_le hle h
  · rename_i hfree
    rw [if_neg hfree]
    exact h

/-- The cursor stands where it stood below the lower ceiling after every
point, as long as it got there. -/
theorem foldlM_advance?_of_le {points : List (UInt16 × UInt16)} (hle : ceiling' ≤ ceiling)
    (h : points.foldlM (w.advance? target ceiling) p = some q) :
    points.foldlM (w.advance? target ceiling') p = some q := by
  induction points generalizing p with
  | nil => exact h
  | cons point points ih =>
    rw [List.foldlM_cons, Option.bind_eq_bind, Option.bind_eq_some_iff] at h
    obtain ⟨next, hnext, hrest⟩ := h
    rw [List.foldlM_cons, advance?_of_le hle hnext]
    exact ih hrest

/-! ## An eye on ground -/

theorem sink_of_ground {lowest : UInt8} (h : w.hasGround p = true) (floors : Nat) :
    w.sink lowest floors p = p := by
  cases floors with
  | zero => rfl
  | succ floors => rw [sink, h, Bool.not_true, Bool.and_false, if_neg Bool.false_ne_true]

/-- What it takes to be seen from a position on ground. -/
theorem canSee_iff_of_ground (h : w.hasGround source = true) :
    w.canSee source target penalty = true ↔ source = target ∨
      source.distanceZ target ≤ maxFloorDelta ∧ source.isUnderground = target.isUnderground ∧
        ∃ reached, (Line.between source target).points.foldlM
            (w.advance? target (sightCeiling source penalty)) source = some reached ∧
          w.settle target.z (reached.distanceZ target) reached = target := by
  unfold canSee
  by_cases heq : source = target
  · simp only [heq, if_true, true_or]
  by_cases hnear : source.distanceZ target ≤ maxFloorDelta
  case neg => simp [heq, hnear, Nat.lt_of_not_le hnear]
  by_cases hside : source.isUnderground = target.isUnderground
  case neg => simp [heq, hside]
  have hpass : (decide (maxFloorDelta < source.distanceZ target) ||
      source.isUnderground != target.isUnderground) = false := by
    rw [decide_eq_false (Nat.not_lt.mpr hnear), hside, bne_self_eq_false]
    rfl
  rw [if_neg heq, hpass, if_neg Bool.false_ne_true]
  dsimp only
  rw [sink_of_ground h, ← sightCeiling]
  cases (Line.between source target).points.foldlM
      (w.advance? target (sightCeiling source penalty)) source with
  | none => simp [heq]
  | some reached => simp [heq, hnear, hside]

/-- A position on ground sees under a larger penalty what it sees under a
smaller one. So what it sees under a penalty of two floors at most, a throw
reaches as soon as its ranges allow it. -/
theorem canSee_of_penalty_le (w : World) (source target : Position)
    (hground : w.hasGround source = true) :
    (∀ penalty penalty', penalty ≤ penalty' → w.canSee source target penalty = true →
      w.canSee source target penalty' = true) ∧
    ∀ penalty rangeX rangeY, penalty ≤ 2 →
      (source.distanceX target : Int) - source.distanceZ target ≤ rangeX.toNat →
      (source.distanceY target : Int) - source.distanceZ target ≤ rangeY.toNat →
      w.canSee source target penalty = true →
      w.canThrowTo source target true rangeX rangeY = true := by
  have hmono : ∀ penalty penalty', penalty ≤ penalty' → w.canSee source target penalty = true →
      w.canSee source target penalty' = true := by
    intro penalty penalty' hle hsee
    rw [canSee_iff_of_ground hground] at hsee ⊢
    refine hsee.imp_right fun ⟨hnear, hside, reached, hline, hsettle⟩ => ?_
    exact ⟨hnear, hside, reached, foldlM_advance?_of_le (sightCeiling_le_of_le hle) hline, hsettle⟩
  refine ⟨hmono, fun penalty rangeX rangeY hle hx hy hsee => ?_⟩
  have hfloors : source.distanceZ target ≤ maxFloorDelta ∧
      source.isUnderground = target.isUnderground := by
    rcases (canSee_iff_of_ground hground).mp hsee with rfl | ⟨hnear, hside, -⟩
    · exact ⟨by simp [Position.distanceZ], rfl⟩
    · exact ⟨hnear, hside⟩
  have hreach : (decide (rangeX.toNat < source.distanceX target - source.distanceZ target) ||
      decide (rangeY.toNat < source.distanceY target - source.distanceZ target)) = false := by
    rw [Bool.or_eq_false_iff, decide_eq_false_iff_not, decide_eq_false_iff_not]
    omega
  unfold canThrowTo
  dsimp only
  rw [hfloors.2, bne_self_eq_false, if_neg Bool.false_ne_true,
    if_neg (Nat.not_lt.mpr hfloors.1), hreach, if_neg Bool.false_ne_true]
  exact hmono penalty 2 hle hsee

/-- An eye behind a wall that looks over it under a penalty of one floor
also does so under any larger one, and may throw over it. -/
theorem canSee_of_penalty_le_over_wall :
    let floor := Cell.onGround ⟨1, .none, none⟩
    let w := ((empty {}).run
      [.setCell ⟨0, 0, 7⟩ floor .merge, .setCell ⟨2, 0, 7⟩ floor .merge,
        .setCell ⟨1, 0, 7⟩ (floor.addItem ⟨2, .blocksProjectile, none⟩) .merge]).1
    w.hasGround ⟨0, 0, 7⟩ = true ∧ w.canSee ⟨0, 0, 7⟩ ⟨2, 0, 7⟩ 0 = false ∧
      w.canSee ⟨0, 0, 7⟩ ⟨2, 0, 7⟩ 1 = true ∧ w.canSee ⟨0, 0, 7⟩ ⟨2, 0, 7⟩ 200 = true ∧
      w.canThrowTo ⟨0, 0, 7⟩ ⟨2, 0, 7⟩ true 2 0 = true := by
  intro floor w
  have hground : w.hasGround ⟨0, 0, 7⟩ = true := by decide +kernel
  have hsee : w.canSee ⟨0, 0, 7⟩ ⟨2, 0, 7⟩ 1 = true := by decide +kernel
  obtain ⟨hmono, hthrow⟩ := canSee_of_penalty_le w ⟨0, 0, 7⟩ ⟨2, 0, 7⟩ hground
  exact ⟨hground, by decide +kernel, hsee, hmono 1 200 (by decide) hsee,
    hthrow 1 2 0 (by decide) (by decide) (by decide) hsee⟩

/-- An eye over a hole may sink too far under a larger penalty: it does not
get back up to a target that stands on ground. -/
theorem exists_canSee_lost_over_hole :
    ∃ (w : World) (source target : Position), w.hasGround source = false ∧
      w.canSee source target 0 = true ∧ w.canSee source target 2 = false :=
  ⟨((empty {}).run [.setCell ⟨1, 0, 5⟩ (.onGround ⟨1, .none, none⟩) .merge]).1, ⟨0, 0, 5⟩,
    ⟨1, 0, 5⟩, by decide +kernel, by decide +kernel, by decide +kernel⟩

end TileWorld.World
