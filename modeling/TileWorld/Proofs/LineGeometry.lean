import TileWorld.Proofs.PositionLaws
import TileWorld.Sight.Line

/-!
# Where lines lead

A rounded quotient is within half a unit of the exact one
(`two_mul_roundedQuotient`), so it stays between any two integers between
which the exact one lies. A line therefore keeps to the rectangle that its
ends span (`Line.inRectangle_of_mem`). It never leaves the map, is never
cut short (`Line.getElem?_points`), and ends at its target
(`Line.getLast?_points`). Each step covers a whole cell along the longer
axis (`Line.major_point?`), so no earlier point is the target.
-/

namespace TileWorld

/-! ## Rounded quotients -/

section Rounding

variable {n d m : Int}

/-- Rounding moves a quotient by at most half a unit. -/
theorem two_mul_roundedQuotient (n : Int) (hd : 0 < d) :
    2 * n - d ≤ 2 * (d * roundedQuotient n d) ∧ 2 * (d * roundedQuotient n d) ≤ 2 * n + d := by
  unfold roundedQuotient
  split
  · have hle := Int.mul_ediv_self_le (x := 2 * n + d) (k := 2 * d) (by omega)
    have hlt := Int.lt_mul_ediv_self_add (x := 2 * n + d) (k := 2 * d) (by omega)
    rw [Int.mul_assoc] at hle hlt
    omega
  · have hle := Int.mul_ediv_self_le (x := -(2 * n) + d) (k := 2 * d) (by omega)
    have hlt := Int.lt_mul_ediv_self_add (x := -(2 * n) + d) (k := 2 * d) (by omega)
    rw [Int.mul_assoc] at hle hlt
    rw [Int.mul_neg]
    omega

theorem le_roundedQuotient (hd : 0 < d) (h : m * d ≤ n) : m ≤ roundedQuotient n d := by
  have hnear := (two_mul_roundedQuotient n hd).1
  have hlt : d * (m - 1) < d * roundedQuotient n d := by
    rw [Int.mul_sub, Int.mul_one, Int.mul_comm d m]
    omega
  have hless := Int.lt_of_mul_lt_mul_left hlt (Int.le_of_lt hd)
  omega

theorem roundedQuotient_le (hd : 0 < d) (h : n ≤ m * d) : roundedQuotient n d ≤ m := by
  have hnear := (two_mul_roundedQuotient n hd).2
  have hlt : d * roundedQuotient n d < d * (m + 1) := by
    rw [Int.mul_add, Int.mul_one, Int.mul_comm d m]
    omega
  have hless := Int.lt_of_mul_lt_mul_left hlt (Int.le_of_lt hd)
  omega

theorem roundedQuotient_mul_self (m : Int) (hd : 0 < d) : roundedQuotient (m * d) d = m :=
  Int.le_antisymm (roundedQuotient_le hd (Int.le_refl _)) (le_roundedQuotient hd (Int.le_refl _))

/-- A part of a way along an axis leads neither back nor beyond its end. -/
theorem roundedQuotient_between (delta : Int) {i steps : Nat} (hsteps : 0 < steps)
    (hi : i ≤ steps) :
    min 0 delta ≤ roundedQuotient (delta * i) steps ∧
      roundedQuotient (delta * i) steps ≤ max 0 delta := by
  have hd : (0 : Int) < steps := Int.natCast_pos.mpr hsteps
  have hi' : (i : Int) ≤ steps := Int.ofNat_le.mpr hi
  rcases Int.le_total 0 delta with hdelta | hdelta
  · rw [Int.min_eq_left hdelta, Int.max_eq_right hdelta]
    refine ⟨le_roundedQuotient hd ?_, roundedQuotient_le hd ?_⟩
    · rw [Int.zero_mul]
      exact Int.mul_nonneg hdelta (Int.natCast_nonneg i)
    · exact Int.mul_le_mul_of_nonneg_left hi' hdelta
  · rw [Int.min_eq_right hdelta, Int.max_eq_left hdelta]
    refine ⟨le_roundedQuotient hd ?_, roundedQuotient_le hd ?_⟩
    · exact Int.mul_le_mul_of_nonpos_left hdelta hi'
    · rw [Int.zero_mul]
      exact Int.mul_nonpos_of_nonpos_of_nonneg hdelta (Int.natCast_nonneg i)

end Rounding

/-- The column and row lie in the rectangle that two positions span. -/
structure InRectangle (source target : Position) (point : UInt16 × UInt16) : Prop where
  column : min source.x.toNat target.x.toNat ≤ point.1.toNat ∧
    point.1.toNat ≤ max source.x.toNat target.x.toNat
  row : min source.y.toNat target.y.toNat ≤ point.2.toNat ∧
    point.2.toNat ≤ max source.y.toNat target.y.toNat

theorem inRectangle_source (source target : Position) :
    InRectangle source target (source.x, source.y) :=
  ⟨⟨Nat.min_le_left .., Nat.le_max_left ..⟩, ⟨Nat.min_le_left .., Nat.le_max_left ..⟩⟩

namespace Line

variable {source target : Position} {i : Nat}

/-! ## Points -/

theorem exists_coordinate? (c c' : UInt16) {steps : Nat} (hpos : 0 < i) (hi : i ≤ steps) :
    ∃ e : UInt16,
      coordinate? (c.toNat + roundedQuotient (((c'.toNat : Int) - c.toNat) * i) steps) = some e ∧
        min c.toNat c'.toNat ≤ e.toNat ∧ e.toNat ≤ max c.toNat c'.toNat := by
  have hbetween := roundedQuotient_between ((c'.toNat : Int) - c.toNat)
    (Nat.lt_of_lt_of_le hpos hi) hi
  have hc := c.toNat_lt
  have hc' := c'.toNat_lt
  have he : coordinate? (c.toNat + roundedQuotient (((c'.toNat : Int) - c.toNat) * i) steps) =
      some (UInt16.ofNat _) := if_pos (by omega)
  refine ⟨_, he, ?_⟩
  have hvalue := coordinate?_eq_some_iff.mp he
  omega

theorem exists_point? (source target : Position) (hpos : 0 < i)
    (hi : i ≤ (between source target).steps) :
    ∃ point, (between source target).point? i = some point ∧ InRectangle source target point := by
  obtain ⟨x, hx, hcolumn⟩ := exists_coordinate? source.x target.x hpos hi
  obtain ⟨y, hy, hrow⟩ := exists_coordinate? source.y target.y hpos hi
  refine ⟨(x, y), ?_, hcolumn, hrow⟩
  simp only [between] at hx hy ⊢
  rw [point?, hx, hy]
  rfl

/-- After all its steps a line stands at its target. -/
theorem point?_steps (h : 0 < (between source target).steps) :
    (between source target).point? (between source target).steps = some (target.x, target.y) := by
  have hd : (0 : Int) < (between source target).steps := Int.natCast_pos.mpr h
  rw [point?, roundedQuotient_mul_self _ hd, roundedQuotient_mul_self _ hd]
  simp only [between]
  rw [Int.add_comm, Int.sub_add_cancel, Int.add_comm, Int.sub_add_cancel, coordinate?_toNat,
    coordinate?_toNat]
  rfl

/-- A line takes steps unless it stays in its column. -/
theorem steps_pos_iff :
    0 < (between source target).steps ↔ (source.x, source.y) ≠ (target.x, target.y) := by
  rw [ne_eq, Prod.mk.injEq, ← UInt16.toNat_inj, ← UInt16.toNat_inj]
  simp only [steps, between]
  omega

theorem getElem?_pointsFrom {l : Line} {remaining : Nat}
    (h : ∀ j, i ≤ j → j < i + remaining → (l.point? j).isSome) (k : Nat) :
    (l.pointsFrom remaining i)[k]? = if k < remaining then l.point? (i + k) else none := by
  induction remaining generalizing i k with
  | zero => rfl
  | succ remaining ih =>
    obtain ⟨point, hpoint⟩ := Option.isSome_iff_exists.mp (h i (Nat.le_refl i) (by omega))
    rw [pointsFrom, hpoint]
    cases k with
    | zero => exact hpoint.symm
    | succ k =>
      rw [List.getElem?_cons_succ, ih (fun j hj hj' => h j (by omega) (by omega))]
      simp only [Nat.add_lt_add_iff_right]
      rw [Nat.add_right_comm, Nat.add_assoc]

/-- A line has as many points as it takes steps, one for each. -/
theorem getElem?_points (source target : Position) (k : Nat) :
    (between source target).points[k]? =
      if k < (between source target).steps then (between source target).point? (k + 1)
      else none := by
  rw [points, getElem?_pointsFrom, Nat.add_comm]
  intro j hj hj'
  obtain ⟨point, hpoint, -⟩ := exists_point? source target (i := j) (by omega) (by omega)
  rw [hpoint]
  rfl

theorem length_points (source target : Position) :
    (between source target).points.length = (between source target).steps := by
  rcases Nat.lt_trichotomy (between source target).points.length (between source target).steps
    with hlt | heq | hlt
  · have hnone := List.getElem?_eq_none (Nat.le_refl (between source target).points.length)
    obtain ⟨point, hpoint, -⟩ := exists_point? source target (Nat.succ_pos _) hlt
    rw [getElem?_points, if_pos hlt, hpoint] at hnone
    cases hnone
  · exact heq
  · have hsome := List.getElem?_eq_getElem hlt
    rw [getElem?_points, if_neg (Nat.lt_irrefl _)] at hsome
    cases hsome

theorem inRectangle_of_mem {point : UInt16 × UInt16}
    (h : point ∈ (between source target).points) : InRectangle source target point := by
  obtain ⟨k, hk⟩ := List.mem_iff_getElem?.mp h
  rw [getElem?_points] at hk
  split at hk
  · rename_i hlt
    obtain ⟨point', hpoint, hin⟩ := exists_point? source target (Nat.succ_pos k) hlt
    obtain rfl := Option.some.inj (hpoint.symm.trans hk)
    exact hin
  · cases hk

theorem getLast?_points (h : (source.x, source.y) ≠ (target.x, target.y)) :
    (between source target).points.getLast? = some (target.x, target.y) := by
  have hpos := steps_pos_iff.mpr h
  rw [List.getLast?_eq_getElem?, length_points, getElem?_points, if_pos (by omega),
    Nat.sub_add_cancel hpos, point?_steps hpos]

/-! ## Axes -/

/-- The line covers more rows than columns. -/
def IsSteep (l : Line) : Prop :=
  l.deltaX.natAbs < l.deltaY.natAbs

instance (l : Line) : Decidable l.IsSteep :=
  inferInstanceAs (Decidable (_ < _))

/-- What a line covers along its longer axis. Axes of the same length count
as column and row, in this order. -/
def majorDelta (l : Line) : Int :=
  if l.IsSteep then l.deltaY else l.deltaX

/-- What a line covers along its shorter axis. -/
def minorDelta (l : Line) : Int :=
  if l.IsSteep then l.deltaX else l.deltaY

/-- The coordinate of a point along the longer axis. -/
def major (l : Line) (point : UInt16 × UInt16) : UInt16 :=
  if l.IsSteep then point.2 else point.1

/-- The coordinate of a point along the shorter axis. -/
def minor (l : Line) (point : UInt16 × UInt16) : UInt16 :=
  if l.IsSteep then point.1 else point.2

theorem natAbs_majorDelta (l : Line) : l.majorDelta.natAbs = l.steps := by
  by_cases h : l.IsSteep
  · rw [majorDelta, if_pos h]
    exact (Nat.max_eq_right (Nat.le_of_lt h)).symm
  · rw [majorDelta, if_neg h]
    exact (Nat.max_eq_left (Nat.le_of_not_lt h)).symm

theorem point?_eq_some_iff {l : Line} {point : UInt16 × UInt16} :
    l.point? i = some point ↔
      l.originX + roundedQuotient (l.deltaX * i) l.steps = point.1.toNat ∧
        l.originY + roundedQuotient (l.deltaY * i) l.steps = point.2.toNat := by
  simp only [point?, Option.bind_eq_bind, Option.bind_eq_some_iff, Option.pure_def,
    Option.some.injEq, coordinate?_eq_some_iff]
  constructor
  · rintro ⟨x, hx, y, hy, rfl⟩
    exact ⟨hx, hy⟩
  · rintro ⟨hx, hy⟩
    exact ⟨point.1, hx, point.2, hy, rfl⟩

/-- Along the longer axis each step covers one cell. -/
theorem roundedQuotient_majorDelta {l : Line} (h : 0 < l.steps) (i : Nat) :
    roundedQuotient (l.majorDelta * i) l.steps = l.majorDelta.sign * i := by
  have hdelta : l.majorDelta * i = l.majorDelta.sign * i * l.steps := by
    rw [Int.mul_right_comm, ← natAbs_majorDelta, Int.sign_mul_natAbs]
  rw [hdelta, roundedQuotient_mul_self _ (Int.natCast_pos.mpr h)]

theorem major_point? {point : UInt16 × UInt16} (h : 0 < (between source target).steps)
    (hpoint : (between source target).point? i = some point) :
    (((between source target).major point).toNat : Int) =
      ((between source target).major (source.x, source.y)).toNat +
        (between source target).majorDelta.sign * i := by
  obtain ⟨hx, hy⟩ := point?_eq_some_iff.mp hpoint
  rw [← roundedQuotient_majorDelta h]
  by_cases hsteep : (between source target).IsSteep
  · rw [major, if_pos hsteep, major, if_pos hsteep, majorDelta, if_pos hsteep]
    exact hy.symm
  · rw [major, if_neg hsteep, major, if_neg hsteep, majorDelta, if_neg hsteep]
    exact hx.symm

/-- A line does not come to its target before its last step. -/
theorem point?_ne_target {point : UInt16 × UInt16} (hi : i < (between source target).steps)
    (hpoint : (between source target).point? i = some point) : point ≠ (target.x, target.y) := by
  rintro rfl
  have hsteps : 0 < (between source target).steps := Nat.zero_lt_of_lt hi
  have hearly := major_point? hsteps hpoint
  have hlate := major_point? hsteps (point?_steps hsteps)
  have hturn := Int.natAbs_sign_of_ne_zero
    (show (between source target).majorDelta ≠ 0 by
      have := natAbs_majorDelta (between source target)
      omega)
  rcases Int.natAbs_eq (between source target).majorDelta.sign with hsign | hsign <;>
    rw [hturn] at hsign <;> rw [hsign] at hearly hlate <;> omega

end Line

end TileWorld
