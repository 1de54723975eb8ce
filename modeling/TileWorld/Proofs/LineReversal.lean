import TileWorld.Proofs.FloorSight

/-!
# Lines there and back

A point is rounded away from the end where its line starts, so a line and
the line back go through different cells where the exact line runs halfway
between two of them (`Line.Tie`), and only there (`Line.point?_back`). This
is settled for one axis at a time: an integer nearest to a quotient is the
only one unless the quotient is a half (`eq_roundedQuotient_of_not_half`),
and a half goes up or down by its sign (`roundedQuotient_of_half`).

A line is clear if its interior points are (`World.isLineClear_iff`), and
without ties these are the same there and back (`World.isLineClear_back`).
So sight on one floor is then mutual (`line_there_and_back`).
-/

namespace TileWorld

/-! ## Halves -/

/-- The quotient lies halfway between two integers. -/
def IsHalf (n d : Int) : Prop :=
  ∃ k : Int, 2 * n = (2 * k + 1) * d

section Rounding

variable {n d m k : Int}

/-- Any integer other than the nearest one is more than half a unit off. -/
theorem eq_roundedQuotient_of_not_half (hd : 0 < d) (h : ¬ IsHalf n d)
    (hlow : 2 * n - d ≤ 2 * (d * m)) (hhigh : 2 * (d * m) ≤ 2 * n + d) :
    m = roundedQuotient n d := by
  have hstrict : ∀ r : Int, 2 * n - d ≤ 2 * (d * r) → 2 * (d * r) ≤ 2 * n + d →
      2 * n - d < 2 * (d * r) ∧ 2 * (d * r) < 2 * n + d := by
    intro r hr hr'
    have habove : 2 * n - d ≠ 2 * (d * r) := fun heq => h ⟨r, by grind⟩
    have hbelow : 2 * (d * r) ≠ 2 * n + d := fun heq => h ⟨r - 1, by grind⟩
    omega
  obtain ⟨hm, hm'⟩ := hstrict m hlow hhigh
  obtain ⟨hr, hr'⟩ := hstrict _ (two_mul_roundedQuotient n hd).1 (two_mul_roundedQuotient n hd).2
  have hless : d * m < d * (roundedQuotient n d + 1) := by
    rw [Int.mul_add, Int.mul_one]
    omega
  have hmore : d * roundedQuotient n d < d * (m + 1) := by
    rw [Int.mul_add, Int.mul_one]
    omega
  have hle := Int.lt_of_mul_lt_mul_left hless (Int.le_of_lt hd)
  have hge := Int.lt_of_mul_lt_mul_left hmore (Int.le_of_lt hd)
  omega

/-- Unless it rounds a half, rounding commutes with taking off whole units. -/
theorem roundedQuotient_sub_mul (hd : 0 < d) (h : ¬ IsHalf n d) (m : Int) :
    roundedQuotient (n - m * d) d + m = roundedQuotient n d := by
  obtain ⟨hlow, hhigh⟩ := two_mul_roundedQuotient (n - m * d) hd
  refine eq_roundedQuotient_of_not_half hd h ?_ ?_ <;>
    rw [Int.mul_add, Int.mul_comm d m] <;> omega

/-- A half goes up if it is not negative, and down if it is. -/
theorem roundedQuotient_of_half (hd : 0 < d) (h : 2 * n = (2 * k + 1) * d) :
    roundedQuotient n d = if 0 ≤ n then k + 1 else k := by
  have hd' : 2 * d ≠ 0 := by omega
  unfold roundedQuotient
  split
  · rw [show 2 * n + d = (k + 1) * (2 * d) by grind, Int.mul_ediv_cancel _ hd']
  · rw [show -(2 * n) + d = -k * (2 * d) by grind, Int.mul_ediv_cancel _ hd',
      Int.neg_neg]

theorem IsHalf.sub_mul (h : IsHalf n d) (m : Int) : IsHalf (n - m * d) d := by
  obtain ⟨k, hk⟩ := h
  exact ⟨k - m, by grind⟩

theorem IsHalf.ne_zero (hd : 0 < d) (h : IsHalf n d) : n ≠ 0 := by
  rintro rfl
  obtain ⟨k, hk⟩ := h
  have hodd := Int.mul_eq_zero.mp hk.symm
  omega

/-- Taking off whole units so that its sign changes makes a half go the
other way. -/
theorem IsHalf.roundedQuotient_sub_mul (hd : 0 < d) (h : IsHalf n d) (hn : 0 ≤ n)
    (hm : n - m * d < 0) : roundedQuotient (n - m * d) d + m + 1 = roundedQuotient n d := by
  obtain ⟨k, hk⟩ := h
  have hk' : 2 * (n - m * d) = (2 * (k - m) + 1) * d := by grind
  rw [roundedQuotient_of_half hd hk, roundedQuotient_of_half hd hk', if_pos hn,
    if_neg (Int.not_le.mpr hm)]
  omega

end Rounding

/-! ## One axis -/

section Axis

variable {c c' : Int} {i steps : Nat}

theorem back_eq (hi : i ≤ steps) :
    (c - c') * ((steps - i : Nat) : Int) = (c' - c) * i - (c' - c) * steps := by
  rw [Int.ofNat_sub hi]
  grind

/-- The ways there and back meet where the way there is not halfway
between two cells. -/
theorem back_eq_there (hi : i < steps) (h : ¬ IsHalf ((c' - c) * i) steps) :
    c' + roundedQuotient ((c - c') * ((steps - i : Nat) : Int)) steps =
      c + roundedQuotient ((c' - c) * i) steps := by
  rw [back_eq (Nat.le_of_lt hi), ← roundedQuotient_sub_mul (by omega) h (c' - c)]
  omega

/-- Halfway between two cells, one way goes through the one and the other
way through the other. -/
theorem back_near_there (hpos : 0 < i) (hi : i < steps) (h : IsHalf ((c' - c) * i) steps) :
    Int.natAbs (c + roundedQuotient ((c' - c) * i) steps -
      (c' + roundedQuotient ((c - c') * ((steps - i : Nat) : Int)) steps)) = 1 := by
  have hd : (0 : Int) < steps := by omega
  have hleft : (0 : Int) < i := by omega
  have hright : (i : Int) < steps := by omega
  rw [back_eq (Nat.le_of_lt hi)]
  -- the displacements left and made have different signs
  rcases Int.lt_trichotomy (c' - c) 0 with hneg | hzero | hnonneg
  · have hmade : (c' - c) * i < 0 := Int.mul_neg_of_neg_of_pos hneg hleft
    have hleft : 0 < (c' - c) * i - (c' - c) * steps := by
      have := Int.mul_lt_mul_of_neg_left hright hneg
      omega
    have hturn := (h.sub_mul (c' - c)).roundedQuotient_sub_mul (m := -(c' - c)) hd
      (Int.le_of_lt hleft) (by rw [Int.neg_mul]; omega)
    rw [Int.neg_mul, Int.sub_neg, Int.sub_add_cancel] at hturn
    omega
  · rw [hzero, Int.zero_mul] at h
    exact absurd rfl (h.ne_zero hd)
  · have hmade : 0 < (c' - c) * i := Int.mul_pos hnonneg hleft
    have hleft : (c' - c) * i - (c' - c) * steps < 0 := by
      have := Int.mul_lt_mul_of_pos_left hright hnonneg
      omega
    have hturn := h.roundedQuotient_sub_mul hd (Int.le_of_lt hmade) hleft
    omega

end Axis

/-! ## Points -/

namespace Line

variable {source target : Position} {i : Nat}

/-- After so many steps the exact line runs halfway between two cells. -/
def Tie (l : Line) (i : Nat) : Prop :=
  IsHalf (l.minorDelta * i) l.steps

theorem steps_back (source target : Position) :
    (between target source).steps = (between source target).steps := by
  simp only [steps, between]
  omega

/-- Along the longer axis there are no ties. -/
theorem not_isHalf_majorDelta {l : Line} (h : 0 < l.steps) (i : Nat) :
    ¬ IsHalf (l.majorDelta * i) l.steps := by
  rintro ⟨k, hk⟩
  have hd : (0 : Int) < l.steps := Int.natCast_pos.mpr h
  have hdelta : l.majorDelta * i = l.majorDelta.sign * i * l.steps := by
    rw [Int.mul_right_comm, ← natAbs_majorDelta, Int.sign_mul_natAbs]
  rw [hdelta, ← Int.mul_assoc] at hk
  have hparity := Int.eq_of_mul_eq_mul_right (Int.ne_of_gt hd) hk
  omega

theorem isHalf_deltaX (h : 0 < (between source target).steps) :
    IsHalf ((between source target).deltaX * i) (between source target).steps ↔
      (between source target).IsSteep ∧ (between source target).Tie i := by
  by_cases hsteep : (between source target).IsSteep
  · rw [Tie, minorDelta, if_pos hsteep, and_iff_right hsteep]
  · have hmajor := not_isHalf_majorDelta h i
    rw [majorDelta, if_neg hsteep] at hmajor
    simp [hsteep, hmajor]

theorem isHalf_deltaY (h : 0 < (between source target).steps) :
    IsHalf ((between source target).deltaY * i) (between source target).steps ↔
      ¬ (between source target).IsSteep ∧ (between source target).Tie i := by
  by_cases hsteep : (between source target).IsSteep
  · have hmajor := not_isHalf_majorDelta h i
    rw [majorDelta, if_pos hsteep] at hmajor
    simp [hsteep, hmajor]
  · rw [Tie, minorDelta, if_neg hsteep, and_iff_right hsteep]

/-- The coordinates of the two ways are the same, unless the exact line is
halfway between two cells. -/
theorem coordinate_back {c c' e e' : UInt16} {steps : Nat} (hpos : 0 < i) (hi : i < steps)
    (he : c.toNat + roundedQuotient (((c'.toNat : Int) - c.toNat) * i) steps = e.toNat)
    (he' : c'.toNat +
      roundedQuotient (((c.toNat : Int) - c'.toNat) * ((steps - i : Nat) : Int)) steps = e'.toNat) :
    (¬ IsHalf (((c'.toNat : Int) - c.toNat) * i) steps → e = e') ∧
      (IsHalf (((c'.toNat : Int) - c.toNat) * i) steps →
        Int.natAbs ((e.toNat : Int) - e'.toNat) = 1) := by
  rw [← UInt16.toNat_inj, ← he, ← he']
  refine ⟨fun h => ?_, back_near_there hpos hi⟩
  rw [back_eq_there hi h] at he'
  omega

/-- After the same part of the way, the points of the ways there and back
are the same, or they are neighbours along the shorter axis if the exact
line is halfway between the two. -/
theorem point?_back {point point' : UInt16 × UInt16} (hpos : 0 < i)
    (hi : i < (between source target).steps)
    (hpoint : (between source target).point? i = some point)
    (hback : (between target source).point? ((between source target).steps - i) = some point') :
    (¬ (between source target).Tie i → point = point') ∧
      ((between source target).Tie i →
        (between source target).major point = (between source target).major point' ∧
          Int.natAbs (((between source target).minor point).toNat -
            ((between source target).minor point').toNat) = 1) := by
  have hsteps := Nat.zero_lt_of_lt hi
  rw [point?_eq_some_iff] at hpoint hback
  rw [steps_back source target] at hback
  obtain ⟨hcolumn, hcolumn'⟩ := coordinate_back hpos hi hpoint.1 hback.1
  obtain ⟨hrow, hrow'⟩ := coordinate_back hpos hi hpoint.2 hback.2
  have hx := isHalf_deltaX (i := i) hsteps
  have hy := isHalf_deltaY (i := i) hsteps
  constructor
  · intro htie
    exact Prod.ext (hcolumn fun h => htie (hx.mp h).2) (hrow fun h => htie (hy.mp h).2)
  · intro htie
    by_cases hsteep : (between source target).IsSteep
    · simp only [major, minor, if_pos hsteep]
      exact ⟨hrow fun h => (hy.mp h).1 hsteep, hcolumn' (hx.mpr ⟨hsteep, htie⟩)⟩
    · simp only [major, minor, if_neg hsteep]
      exact ⟨hcolumn fun h => hsteep (hx.mp h).1, hrow' (hy.mpr ⟨hsteep, htie⟩)⟩

/-- The points of the two ways, those at the ends apart. -/
theorem exists_point?_back (hpos : 0 < i) (hi : i < (between source target).steps) :
    ∃ point point', (between source target).point? i = some point ∧
      (between target source).point? ((between source target).steps - i) = some point' := by
  obtain ⟨point, hpoint, -⟩ := exists_point? source target hpos (Nat.le_of_lt hi)
  obtain ⟨point', hpoint', -⟩ := exists_point? target source
    (i := (between source target).steps - i) (by omega)
    (by rw [steps_back source target]; omega)
  exact ⟨point, point', hpoint, hpoint'⟩

end Line

/-! ## Sight -/

namespace World

variable {w : World} {source target : Position}

/-- A line is clear if nothing stops projectiles between its ends. -/
theorem isLineClear_iff :
    w.isLineClear source target = true ↔
      ∀ i, 0 < i → i < (Line.between source target).steps → ∀ point,
        (Line.between source target).point? i = some point →
          w.stopsProjectiles ⟨point.1, point.2, source.z⟩ = false := by
  simp only [isLineClear, List.all_eq_true, Bool.or_eq_true, beq_iff_eq, Bool.not_eq_true',
    List.mem_iff_getElem?, Line.getElem?_points]
  constructor
  · intro h i hpos hi point hpoint
    refine (h point ⟨i - 1, ?_⟩).resolve_left (Line.point?_ne_target hi hpoint)
    rw [if_pos (by omega), Nat.sub_add_cancel hpos, hpoint]
  · rintro h point ⟨k, hk⟩
    split at hk
    · rename_i hlt
      rcases Nat.lt_or_eq_of_le (Nat.succ_le_of_lt hlt) with hinner | hlast
      · exact .inr (h (k + 1) (Nat.succ_pos k) hinner point hk)
      · rw [← Nat.succ_eq_add_one, hlast, Line.point?_steps (Nat.zero_lt_of_lt hlt)] at hk
        exact .inl (Option.some.inj hk).symm
    · cases hk

/-- Without ties, a line is clear if and only if the line back is. -/
theorem isLineClear_back (hz : source.z = target.z)
    (htie : ∀ i, 0 < i → i < (Line.between source target).steps →
      ¬ (Line.between source target).Tie i) :
    w.isLineClear target source = w.isLineClear source target := by
  have hsame : ∀ i, 0 < i → i < (Line.between source target).steps →
      (Line.between target source).point? ((Line.between source target).steps - i) =
        (Line.between source target).point? i := by
    intro i hpos hi
    obtain ⟨point, point', hpoint, hpoint'⟩ := Line.exists_point?_back hpos hi
    rw [hpoint, hpoint', (Line.point?_back hpos hi hpoint hpoint').1 (htie i hpos hi)]
  rw [Bool.eq_iff_iff, isLineClear_iff, isLineClear_iff, Line.steps_back source target, hz]
  constructor
  · intro h i hpos hi point hpoint
    exact h _ (by omega) (by omega) point ((hsame i hpos hi).trans hpoint)
  · intro h i hpos hi point hpoint
    refine h ((Line.between source target).steps - i) (by omega) (by omega) point ?_
    rw [← hsame _ (by omega) (by omega), Nat.sub_sub_self (Nat.le_of_lt hi), hpoint]

end World

/-- The points of a line and of the line back are the same, taken in the
opposite order, but for those where the exact line is halfway between two
cells. There the two lines go through neighbours along the shorter axis.
So on one floor, and without such ties, the ends of a line see each other
or neither sees the other, and a clear sight asks for no more. -/
theorem line_there_and_back (source target : Position) :
    let there := Line.between source target
    let back := Line.between target source
    (∀ i, 0 < i → i < there.steps → ∃ point point',
      there.points[i - 1]? = some point ∧ back.points[there.steps - i - 1]? = some point' ∧
        (¬ there.Tie i → point = point') ∧
        (there.Tie i → there.major point = there.major point' ∧
          Int.natAbs ((there.minor point).toNat - (there.minor point').toNat) = 1)) ∧
    ∀ w : World, source.z = target.z → (∀ i, 0 < i → i < there.steps → ¬ there.Tie i) →
      w.canSee source target 0 = w.canSee target source 0 ∧
        w.canSee source target 0 = w.isSightClear source target true := by
  intro there back
  constructor
  · intro i hpos (hi : i < (Line.between source target).steps)
    obtain ⟨point, point', hpoint, hpoint'⟩ := Line.exists_point?_back hpos hi
    refine ⟨point, point', ?_, ?_, Line.point?_back hpos hi hpoint hpoint'⟩
    · rw [Line.getElem?_points, if_pos (by omega), Nat.sub_add_cancel hpos, hpoint]
    · show (Line.between target source).points[(Line.between source target).steps - i - 1]? = _
      rw [Line.getElem?_points, Line.steps_back source target, if_pos (by omega),
        Nat.sub_add_cancel (by omega), hpoint']
  · intro w hz htie
    have hback : w.isLineClear target source = w.isLineClear source target :=
      World.isLineClear_back hz htie
    rw [World.canSee_eq_isLineClear hz, World.canSee_eq_isLineClear hz.symm,
      World.isSightClear_of_sameFloor hz, hback, Bool.or_self]
    exact ⟨rfl, rfl⟩

/-- A line of slope one half has a tie at its first step, where the lines
there and back go through two cells of one column. A line of slope one
third has no tie, so a wall on it hides both ends from each other. -/
theorem line_there_and_back_slanting :
    let half := Line.between ⟨10, 10, 7⟩ ⟨14, 12, 7⟩
    let third := Line.between ⟨10, 10, 7⟩ ⟨13, 11, 7⟩
    let wall := (Cell.onGround ⟨1, .none, none⟩).addItem ⟨2, .blocksProjectile, none⟩
    let w := ((World.empty {}).run [.setCell ⟨11, 10, 7⟩ wall .merge]).1
    half.Tie 1 ∧ (∃ point point', half.points[0]? = some point ∧
        (Line.between ⟨14, 12, 7⟩ ⟨10, 10, 7⟩).points[2]? = some point' ∧
        half.major point = half.major point' ∧
          Int.natAbs ((half.minor point).toNat - (half.minor point').toNat) = 1) ∧
      (∀ i, 0 < i → i < third.steps → ¬ third.Tie i) ∧
      w.canSee ⟨10, 10, 7⟩ ⟨13, 11, 7⟩ 0 = false ∧ w.canSee ⟨13, 11, 7⟩ ⟨10, 10, 7⟩ 0 = false ∧
      w.isSightClear ⟨10, 10, 7⟩ ⟨13, 11, 7⟩ true = false := by
  intro half third wall w
  have htie : half.Tie 1 := ⟨0, by decide⟩
  have hnone : ∀ i, 0 < i → i < third.steps → ¬ third.Tie i := by
    rintro i hpos hi ⟨k, hk⟩
    rw [show third.steps = 3 by decide] at hi hk
    rw [show third.minorDelta = 1 by decide] at hk
    omega
  have hhidden : w.canSee ⟨10, 10, 7⟩ ⟨13, 11, 7⟩ 0 = false := by decide +kernel
  obtain ⟨point, point', hpoint, hpoint', -, happart⟩ :=
    (line_there_and_back ⟨10, 10, 7⟩ ⟨14, 12, 7⟩).1 1 (by decide) (by decide)
  obtain ⟨hback, hclear⟩ := (line_there_and_back ⟨10, 10, 7⟩ ⟨13, 11, 7⟩).2 w rfl hnone
  exact ⟨htie, ⟨point, point', hpoint, hpoint', happart htie⟩, hnone, hhidden,
    hback.symm.trans hhidden, hclear.symm.trans hhidden⟩

end TileWorld
