import TileWorld.Proofs.LineGeometry
import TileWorld.Proofs.SightPaths

/-!
# Sight on one floor

Without a penalty, a line between two positions on one floor has no floor
to turn to and none to climb to. Its cursor goes from point to point as
long as nothing blocks them (`foldlM_advance?_of_sameFloor`), and what
connects the positions is a clear line on their floor and nothing else
(`canSee_eq_isLineClear`).
-/

namespace TileWorld.World

variable {w : World} {source target p : Position} {ceiling : UInt8}

theorem stepToward_of_sameFloor (h : p.z = target.z) : w.stepToward p target.z = p := by
  unfold stepToward
  rw [h, if_neg (UInt8.lt_irrefl _), if_neg (UInt8.lt_irrefl _)]

theorem settle_of_sameFloor (h : p.z = target.z) (steps : Nat) :
    w.settle target.z steps p = p := by
  induction steps with
  | zero => rfl
  | succ steps ih => rw [settle, stepToward_of_sameFloor h, ih]

/-- A cursor at its ceiling gets to the next point on its own floor, if it
gets there at all. -/
theorem advance?_of_sameFloor (h : p.z = target.z) (hceiling : p.z ≤ ceiling)
    (point : UInt16 × UInt16) :
    w.advance? target ceiling p point =
      if point == (target.x, target.y) || !w.stopsProjectiles ⟨point.1, point.2, p.z⟩ then
        some ⟨point.1, point.2, p.z⟩
      else none := by
  have hclimb : w.climbOver? p ⟨point.1, point.2, p.z⟩ ceiling = none := by
    unfold climbOver?
    rw [decide_eq_true hceiling]
    rfl
  unfold advance?
  dsimp only
  rw [stepToward_of_sameFloor h, hclimb]
  by_cases hpoint : point = (target.x, target.y)
  · simp [hpoint]
  · cases w.stopsProjectiles ⟨point.1, point.2, p.z⟩ <;> simp [hpoint]

theorem foldlM_advance?_of_sameFloor (h : p.z = target.z) (hceiling : p.z ≤ ceiling)
    (points : List (UInt16 × UInt16)) :
    points.foldlM (w.advance? target ceiling) p =
      if points.all fun point =>
          point == (target.x, target.y) || !w.stopsProjectiles ⟨point.1, point.2, p.z⟩ then
        some (points.getLast?.elim p fun point => ⟨point.1, point.2, p.z⟩)
      else none := by
  induction points generalizing p with
  | nil => rfl
  | cons point points ih =>
    rw [List.foldlM_cons, advance?_of_sameFloor h hceiling, List.all_cons, List.getLast?_cons]
    cases point == (target.x, target.y) || !w.stopsProjectiles ⟨point.1, point.2, p.z⟩ with
    | false => rfl
    | true =>
      refine (ih (p := ⟨point.1, point.2, p.z⟩) h hceiling).trans ?_
      rw [Bool.true_and]
      cases points.getLast? <;> rfl

/-- The ceiling of a line that may not climb lies no higher than the eye. -/
theorem le_ceiling (p : Position) :
    p.z ≤ max (UInt8.ofNat (p.z.toNat - 0)) (bandLimits p).1 := by
  show p.z ≤ sightCeiling p 0
  rw [UInt8.le_iff_toNat_le, toNat_sightCeiling]
  exact Nat.le_max_left _ _

/-- The cursor of a line to another column reaches the target if the line
is clear, and gets stuck if it is not. -/
theorem line_of_sameFloor (h : source.z = target.z) (hceiling : source.z ≤ ceiling)
    (hcolumn : (source.x, source.y) ≠ (target.x, target.y)) :
    (Line.between source target).points.foldlM (w.advance? target ceiling) source =
      if w.isLineClear source target then some target else none := by
  rw [foldlM_advance?_of_sameFloor h hceiling, Line.getLast?_points hcolumn, Option.elim_some, h]
  unfold isLineClear
  rw [h]

/-- On one floor a line without a penalty sees as far as the floor is
clear. -/
theorem canSee_eq_isLineClear (h : source.z = target.z) :
    w.canSee source target 0 = w.isLineClear source target := by
  unfold canSee
  by_cases hcolumn : (source.x, source.y) = (target.x, target.y)
  · obtain ⟨hx, hy⟩ := Prod.mk.inj hcolumn
    have hsame : source = target := by
      cases source
      cases target
      simp_all
    have hpoints : (Line.between source target).points = [] := by
      rw [← List.length_eq_zero_iff, Line.length_points]
      exact Nat.eq_zero_of_not_pos fun hpos => Line.steps_pos_iff.mp hpos hcolumn
    rw [if_pos hsame, isLineClear, hpoints]
    rfl
  have hnear : (decide (maxFloorDelta < source.distanceZ target) ||
      source.isUnderground != target.isUnderground) = false := by
    unfold Position.distanceZ Position.isUnderground
    rw [h, Int.sub_self, bne_self_eq_false]
    rfl
  rw [if_neg fun hsame => hcolumn (by rw [hsame]), hnear]
  dsimp only
  rw [show (0 : UInt8).toNat = 0 from rfl, sink, line_of_sameFloor h (le_ceiling source) hcolumn]
  cases w.isLineClear source target with
  | false => rfl
  | true => exact beq_iff_eq.mpr (settle_of_sameFloor rfl _)

/-- The sight on one floor is clear if the line there or the line back is. -/
theorem isSightClear_of_sameFloor (h : source.z = target.z) :
    w.isSightClear source target true =
      (w.isLineClear source target || w.isLineClear target source) := by
  have htarget : target.onFloor source.z = target := by rw [h]; rfl
  unfold isSightClear
  dsimp only
  rw [htarget, h, bne_self_eq_false, Bool.and_false, if_neg Bool.false_ne_true]

/-- What connects two positions on one floor are the points of the line
before its target: none of them stops projectiles there. Grounds and other
floors have no part in it. Hence a sight line in one direction or the other
is what makes the sight clear. -/
theorem canSee_iff_of_sameFloor (w : World) (source target : Position)
    (h : source.z = target.z) :
    (w.canSee source target 0 = true ↔ ∀ point ∈ (Line.between source target).points,
      point ≠ (target.x, target.y) →
        w.stopsProjectiles ⟨point.1, point.2, source.z⟩ = false) ∧
    (w.isSightClear source target true = true ↔
      w.canSee source target 0 = true ∨ w.canSee target source 0 = true) := by
  constructor
  · rw [canSee_eq_isLineClear h, isLineClear, List.all_eq_true]
    refine forall₂_congr fun point _ => ?_
    rw [Bool.or_eq_true, beq_iff_eq, Bool.not_eq_true']
    exact ⟨Or.resolve_left, Decidable.or_iff_not_imp_left.mpr⟩
  · rw [canSee_eq_isLineClear h, canSee_eq_isLineClear h.symm, isSightClear_of_sameFloor h,
      Bool.or_eq_true]

/-- A wall beside the middle of a slanting line is in the way from one end
only, since the middle is rounded away from the end where the line starts. -/
theorem canSee_iff_of_sameFloor_slanting :
    let wall := (Cell.onGround ⟨1, .none, none⟩).addItem ⟨2, .blocksProjectile, none⟩
    let w := ((empty {}).run [.setCell ⟨11, 11, 7⟩ wall .merge]).1
    w.canSee ⟨10, 10, 7⟩ ⟨12, 11, 7⟩ 0 = false ∧ w.canSee ⟨12, 11, 7⟩ ⟨10, 10, 7⟩ 0 = true ∧
      w.isSightClear ⟨10, 10, 7⟩ ⟨12, 11, 7⟩ true = true := by
  intro wall w
  have hthere : (Line.between ⟨10, 10, 7⟩ ⟨12, 11, 7⟩).points = [(11, 11), (12, 11)] := by decide
  have hback : (Line.between ⟨12, 11, 7⟩ ⟨10, 10, 7⟩).points = [(11, 10), (10, 10)] := by decide
  have hwall : w.stopsProjectiles ⟨11, 11, 7⟩ = true := by decide +kernel
  have hopen : w.stopsProjectiles ⟨11, 10, 7⟩ = false := by decide +kernel
  have hone := canSee_iff_of_sameFloor w ⟨10, 10, 7⟩ ⟨12, 11, 7⟩ rfl
  have hother := canSee_iff_of_sameFloor w ⟨12, 11, 7⟩ ⟨10, 10, 7⟩ rfl
  rw [hthere] at hone
  rw [hback] at hother
  have hsees : w.canSee ⟨12, 11, 7⟩ ⟨10, 10, 7⟩ 0 = true := by
    refine hother.1.mpr fun point hpoint hbefore => ?_
    simp only [List.mem_cons, List.not_mem_nil, or_false] at hpoint
    rcases hpoint with rfl | rfl
    · exact hopen
    · exact absurd rfl hbefore
  refine ⟨Bool.eq_false_iff.mpr fun hclear => ?_, hsees, hone.2.mpr (.inr hsees)⟩
  have hfree := hone.1.mp hclear (11, 11) (List.mem_cons_self ..) (by decide)
  exact absurd hwall (Bool.eq_false_iff.mp hfree)

end TileWorld.World
