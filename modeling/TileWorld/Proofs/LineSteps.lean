import Mathlib.Algebra.Group.Int.Defs
import TileWorld.Proofs.LineGeometry

/-!
# The steps of a line

A rounded quotient of a growing numerator grows with it, by one unit at
most while the numerator grows by no more than the denominator
(`roundedQuotient_add`). So from point to point a line covers one cell
along its longer axis and none or one along the other, toward its target
(`Line.advances_point?`), and it stays within half a cell of the exact line
(`Line.near_point?`).

The points are those that signed words of 32 and 64 bits compute.
`Line.wordPoint?` follows such a computation operation by operation and
gives up where a result leaves its width, which never happens
(`Line.wordPoint?_eq`).
-/

namespace TileWorld

/-! ## Growing quotients -/

section Rounding

variable {n m d : Int}

theorem roundedQuotient_zero (hd : 0 ≤ d) : roundedQuotient 0 d = 0 := by
  unfold roundedQuotient
  rw [if_pos (Int.le_refl 0), Int.mul_zero, Int.zero_add]
  rcases Int.lt_or_eq_of_le hd with hpos | rfl
  · exact Int.ediv_eq_zero_of_lt hd (by omega)
  · rfl

/-- Rounding treats both directions alike. -/
theorem roundedQuotient_neg (n : Int) (hd : 0 < d) :
    roundedQuotient (-n) d = -roundedQuotient n d := by
  rcases Int.lt_trichotomy n 0 with hn | rfl | hn
  · unfold roundedQuotient
    rw [if_pos (by omega), if_neg (by omega), Int.neg_neg, Int.mul_neg]
  · rw [Int.neg_zero, roundedQuotient_zero (Int.le_of_lt hd), Int.neg_zero]
  · unfold roundedQuotient
    rw [if_neg (by omega), if_pos (by omega), Int.mul_neg, Int.neg_neg]

theorem roundedQuotient_add (hd : 0 < d) (hn : 0 ≤ n) (hm : 0 ≤ m) (hmd : m ≤ d) :
    roundedQuotient n d ≤ roundedQuotient (n + m) d ∧
      roundedQuotient (n + m) d ≤ roundedQuotient n d + 1 := by
  have hunit : (2 * n + d) / (2 * d) + 1 = (2 * n + d + 1 * (2 * d)) / (2 * d) :=
    (Int.add_mul_ediv_right _ _ (by omega)).symm
  unfold roundedQuotient
  rw [if_pos hn, if_pos (Int.add_nonneg hn hm), hunit]
  exact ⟨Int.ediv_le_ediv (by omega) (by omega), Int.ediv_le_ediv (by omega) (by omega)⟩

/-- A step along an axis that is no longer than the line covers no cell or
one, in the direction of the axis. -/
theorem roundedQuotient_succ {delta : Int} {steps : Nat} (hsteps : 0 < steps)
    (hdelta : delta.natAbs ≤ steps) (i : Nat) :
    roundedQuotient (delta * (i + 1 : Nat)) steps = roundedQuotient (delta * i) steps ∨
      roundedQuotient (delta * (i + 1 : Nat)) steps =
        roundedQuotient (delta * i) steps + delta.sign := by
  have hd : (0 : Int) < steps := Int.natCast_pos.mpr hsteps
  have hi : (0 : Int) ≤ i := Int.natCast_nonneg i
  rw [Int.natCast_add, Int.mul_add, Int.natCast_one, Int.mul_one]
  rcases Int.lt_trichotomy delta 0 with hneg | rfl | hpos
  · -- the way back along the axis, with all signs turned
    have hgrows := roundedQuotient_add hd (Int.mul_nonneg (by omega : 0 ≤ -delta) hi)
      (by omega : 0 ≤ -delta) (by omega)
    rw [Int.neg_mul, ← Int.neg_add, roundedQuotient_neg _ hd, roundedQuotient_neg _ hd] at hgrows
    rw [Int.sign_eq_neg_one_of_neg hneg]
    omega
  · exact .inl (by rw [Int.add_zero])
  · have hgrows := roundedQuotient_add hd (Int.mul_nonneg (Int.le_of_lt hpos) hi)
      (Int.le_of_lt hpos) (by omega)
    rw [Int.sign_eq_one_of_pos hpos]
    omega

end Rounding

namespace Line

/-! ## From point to point -/

/-- The next point of a line lies one cell on along the longer axis, and
there or one cell on along the shorter axis, each time toward the target. -/
structure Advances (l : Line) (point next : UInt16 × UInt16) : Prop where
  moves : l.majorDelta ≠ 0
  major : ((l.major next).toNat : Int) = (l.major point).toNat + l.majorDelta.sign
  minor : ((l.minor next).toNat : Int) = (l.minor point).toNat ∨
    ((l.minor next).toNat : Int) = (l.minor point).toNat + l.minorDelta.sign

/-- The point is within half a cell of the exact line after so many steps,
along both axes. -/
structure Near (l : Line) (i : Nat) (point : UInt16 × UInt16) : Prop where
  column : Int.natAbs (l.steps * ((point.1.toNat : Int) - l.originX) - l.deltaX * i) * 2 ≤ l.steps
  row : Int.natAbs (l.steps * ((point.2.toNat : Int) - l.originY) - l.deltaY * i) * 2 ≤ l.steps

variable {l : Line} {i : Nat} {point next : UInt16 × UInt16}

theorem natAbs_minorDelta_le (l : Line) : l.minorDelta.natAbs ≤ l.steps := by
  by_cases h : l.IsSteep
  · rw [minorDelta, if_pos h]
    exact Nat.le_max_left ..
  · rw [minorDelta, if_neg h]
    exact Nat.le_max_right ..

/-- Both axes advance by what their rounded quotients grow. -/
theorem advances_point? (h : 0 < l.steps) (hpoint : l.point? i = some point)
    (hnext : l.point? (i + 1) = some next) : l.Advances point next := by
  obtain ⟨hx, hy⟩ := point?_eq_some_iff.mp hpoint
  obtain ⟨hx', hy'⟩ := point?_eq_some_iff.mp hnext
  have hmajor : roundedQuotient (l.majorDelta * (i + 1 : Nat)) l.steps =
      roundedQuotient (l.majorDelta * i) l.steps + l.majorDelta.sign := by
    rw [roundedQuotient_majorDelta h, roundedQuotient_majorDelta h, Int.natCast_add,
      Int.natCast_one, Int.mul_add, Int.mul_one]
  have hminor := roundedQuotient_succ h l.natAbs_minorDelta_le i
  have hmoves : l.majorDelta ≠ 0 := by
    have := l.natAbs_majorDelta
    omega
  by_cases hsteep : l.IsSteep
  · simp only [majorDelta, minorDelta, if_pos hsteep] at hmajor hminor
    refine ⟨hmoves, ?_, ?_⟩ <;> simp only [major, minor, majorDelta, minorDelta, if_pos hsteep] <;>
      omega
  · simp only [majorDelta, minorDelta, if_neg hsteep] at hmajor hminor
    refine ⟨hmoves, ?_, ?_⟩ <;> simp only [major, minor, majorDelta, minorDelta, if_neg hsteep] <;>
      omega

theorem near_point? (hi : i ≤ l.steps) (hpoint : l.point? i = some point) : l.Near i point := by
  obtain ⟨hx, hy⟩ := point?_eq_some_iff.mp hpoint
  rcases Nat.eq_zero_or_pos l.steps with hnone | hsteps
  · obtain rfl : i = 0 := by omega
    constructor <;> rw [hnone, Int.natCast_zero, Int.zero_mul, Int.mul_zero] <;> decide
  have hd : (0 : Int) < l.steps := Int.natCast_pos.mpr hsteps
  have hcolumn := two_mul_roundedQuotient (l.deltaX * i) hd
  have hrow := two_mul_roundedQuotient (l.deltaY * i) hd
  constructor
  · rw [← hx, Int.add_comm, Int.add_sub_cancel]
    omega
  · rw [← hy, Int.add_comm, Int.add_sub_cancel]
    omega

/-- A line starts from its source. -/
theorem point?_zero (source target : Position) :
    (between source target).point? 0 = some (source.x, source.y) := by
  have hzero := roundedQuotient_zero (Int.natCast_nonneg (between source target).steps)
  rw [point?_eq_some_iff, Int.natCast_zero, Int.mul_zero, Int.mul_zero, hzero, Int.add_zero,
    Int.add_zero]
  exact ⟨rfl, rfl⟩

theorem getElem?_track (source target : Position) (i : Nat) :
    ((source.x, source.y) :: (between source target).points)[i]? =
      if i ≤ (between source target).steps then (between source target).point? i else none := by
  cases i with
  | zero => exact (point?_zero source target).symm
  | succ k =>
      rw [List.getElem?_cons_succ, getElem?_points]
      rfl

theorem getLast?_track (source target : Position) :
    ((source.x, source.y) :: (between source target).points).getLast? =
      some (target.x, target.y) := by
  rw [List.getLast?_cons]
  by_cases h : (source.x, source.y) = (target.x, target.y)
  · have hnone : (between source target).points = [] := by
      rw [← List.length_eq_zero_iff, length_points]
      exact Nat.eq_zero_of_not_pos fun hpos => steps_pos_iff.mp hpos h
    rw [hnone, h]
    rfl
  · rw [getLast?_points h]
    rfl

/-! ## Words -/

/-- The integer in a signed word of so many bits, if it fits. -/
def signed? (bits : Nat) (v : Int) : Option Int :=
  if -2 ^ (bits - 1) ≤ v ∧ v < 2 ^ (bits - 1) then some v else none

/-- The quotient of two words, unless the divisor is zero. -/
def quotient? (bits : Nat) (a b : Int) : Option Int :=
  if b = 0 then none else signed? bits (a.tdiv b)

/-- What a line covers along an axis in some of its steps, computed in 64
bits and handed over in 32. -/
def wordShift? (delta i steps : Int) : Option Int := do
  let doubled ← signed? 64 (2 * delta)
  let numerator ← signed? 64 (doubled * i)
  let divisor ← signed? 64 (2 * steps)
  if 0 ≤ numerator then
    let dividend ← signed? 64 (numerator + steps)
    let quotient ← quotient? 64 dividend divisor
    signed? 32 quotient
  else
    let opposite ← signed? 64 (-numerator)
    let dividend ← signed? 64 (opposite + steps)
    let quotient ← quotient? 64 dividend divisor
    let shift ← signed? 64 (-quotient)
    signed? 32 shift

/-- A coordinate of a point, computed in words from that of the start. -/
def wordCoordinate? (origin delta i steps : Int) : Option UInt16 := do
  let delta ← signed? 32 delta
  let shift ← wordShift? delta i steps
  let value ← signed? 32 (origin + shift)
  coordinate? value

/-- The point after so many steps, computed in words together with the
number of the next one. -/
def wordPoint? (l : Line) (i : Nat) : Option (UInt16 × UInt16) := do
  let steps ← signed? 32 l.steps
  let _ ← signed? 32 (i + 1)
  let x ← wordCoordinate? l.originX l.deltaX i steps
  let y ← wordCoordinate? l.originY l.deltaY i steps
  return (x, y)

section Words

theorem signed?_of_fits {bits : Nat} {v : Int} (h : -2 ^ (bits - 1) ≤ v ∧ v < 2 ^ (bits - 1)) :
    signed? bits v = some v :=
  if_pos h

theorem quotient?_of_fits {bits : Nat} {a b : Int} (ha : 0 ≤ a) (hb : b ≠ 0)
    (h : -2 ^ (bits - 1) ≤ a / b ∧ a / b < 2 ^ (bits - 1)) : quotient? bits a b = some (a / b) := by
  rw [quotient?, if_neg hb, Int.tdiv_eq_ediv_of_nonneg ha, signed?_of_fits h]

/-- On the map neither the products nor the quotients along an axis leave
their widths. -/
theorem wordShift?_eq {delta : Int} {steps i : Nat} (hpos : 0 < i) (hi : i ≤ steps)
    (hsteps : steps ≤ 65535) (hdelta : delta.natAbs ≤ steps) :
    wordShift? delta i steps = some (roundedQuotient (delta * i) steps) := by
  have hproduct : (delta * i).natAbs ≤ 65535 * 65535 := by
    rw [Int.natAbs_mul]
    exact Nat.mul_le_mul (Nat.le_trans hdelta hsteps) (Nat.le_trans hi hsteps)
  have hbetween := roundedQuotient_between delta (Nat.lt_of_lt_of_le hpos hi) hi
  have hshift : (-65535 : Int) ≤ roundedQuotient (delta * i) steps ∧
      roundedQuotient (delta * i) steps ≤ 65535 := by omega
  unfold wordShift?
  rw [signed?_of_fits (by omega), Option.bind_eq_bind, Option.bind_some, Int.mul_assoc]
  rw [signed?_of_fits (by omega), Option.bind_some, signed?_of_fits (by omega), Option.bind_some]
  by_cases hsign : 0 ≤ delta * i
  · have hvalue : roundedQuotient (delta * i) steps =
        (2 * (delta * i) + steps) / (2 * steps) := if_pos hsign
    rw [hvalue] at hshift ⊢
    rw [if_pos (by omega), signed?_of_fits (by omega), Option.bind_some,
      quotient?_of_fits (by omega) (by omega) (by omega), Option.bind_some,
      signed?_of_fits (by omega)]
  · have hvalue : roundedQuotient (delta * i) steps =
        -((-(2 * (delta * i)) + steps) / (2 * steps)) := if_neg hsign
    rw [hvalue] at hshift ⊢
    rw [if_neg (by omega), signed?_of_fits (by omega), Option.bind_some,
      signed?_of_fits (by omega), Option.bind_some,
      quotient?_of_fits (by omega) (by omega) (by omega), Option.bind_some,
      signed?_of_fits (by omega), Option.bind_some, signed?_of_fits (by omega)]

theorem wordCoordinate?_eq (c c' : UInt16) {steps i : Nat} (hpos : 0 < i) (hi : i ≤ steps)
    (hsteps : steps ≤ 65535) (hdelta : ((c'.toNat : Int) - c.toNat).natAbs ≤ steps) :
    wordCoordinate? c.toNat (c'.toNat - c.toNat) i steps =
      coordinate? (c.toNat + roundedQuotient (((c'.toNat : Int) - c.toNat) * i) steps) := by
  obtain ⟨e, he, -⟩ := exists_coordinate? c c' hpos hi
  have hvalue := coordinate?_eq_some_iff.mp he
  have hlt := e.toNat_lt
  unfold wordCoordinate?
  rw [signed?_of_fits (by omega), Option.bind_eq_bind, Option.bind_some,
    wordShift?_eq hpos hi hsteps hdelta, Option.bind_some, signed?_of_fits (by omega),
    Option.bind_some]

/-- Computed in words, a line on the map has the points that it has. -/
theorem wordPoint?_eq (source target : Position) {i : Nat} (hpos : 0 < i)
    (hi : i ≤ (between source target).steps) :
    (between source target).wordPoint? i = (between source target).point? i := by
  have hsx := source.x.toNat_lt
  have hsy := source.y.toNat_lt
  have htx := target.x.toNat_lt
  have hty := target.y.toNat_lt
  have hsteps : (between source target).steps ≤ 65535 := by
    simp only [steps, between]
    omega
  have hcolumn := wordCoordinate?_eq source.x target.x hpos hi hsteps (Nat.le_max_left ..)
  have hrow := wordCoordinate?_eq source.y target.y hpos hi hsteps (Nat.le_max_right ..)
  unfold wordPoint? point?
  rw [signed?_of_fits (by omega), Option.bind_eq_bind, Option.bind_some,
    signed?_of_fits (by omega), Option.bind_some]
  simp only [between] at hcolumn hrow ⊢
  rw [hcolumn, hrow]

end Words

/-! ## The whole line -/

theorem steps_eq_chebyshev (source target : Position) :
    (between source target).steps = source.chebyshev target := by
  simp only [steps, between, Position.chebyshev, Position.distanceX, Position.distanceY]
  omega

end Line

/-- A line has as many points as the longer of its axes has cells, which are
the points that words compute without leaving their widths. All lie in the
rectangle of its ends. The last one is the target, or else the start if that
is the target already, and none before it is. From the start on each point
advances one cell along the longer axis and none or one along the other,
toward the target, and is within half a cell of the exact line. -/
theorem line_geometry (source target : Position) :
    let l := Line.between source target
    let track := (source.x, source.y) :: l.points
    l.points.length = source.chebyshev target ∧
    (∀ i, 0 < i → i ≤ source.chebyshev target → ∃ point, l.points[i - 1]? = some point ∧
      l.wordPoint? i = some point) ∧
    (∀ point ∈ l.points, InRectangle source target point) ∧
    track.getLast? = some (target.x, target.y) ∧
    (∀ point ∈ track.dropLast, point ≠ (target.x, target.y)) ∧
    (∀ i point next, track[i]? = some point → track[i + 1]? = some next →
      l.Advances point next) ∧
    ∀ i point, track[i]? = some point → l.Near i point := by
  intro l track
  have hsteps := Line.steps_eq_chebyshev source target
  have hlength := Line.length_points source target
  have htrack := Line.getElem?_track source target
  refine ⟨hlength.trans hsteps, ?_, fun _ => Line.inRectangle_of_mem,
    Line.getLast?_track source target, ?_, ?_, ?_⟩
  · intro i hpos hi
    rw [← hsteps] at hi
    obtain ⟨point, hpoint, -⟩ := Line.exists_point? source target hpos hi
    refine ⟨point, ?_, (Line.wordPoint?_eq source target hpos hi).trans hpoint⟩
    rw [Line.getElem?_points, if_pos (by omega), Nat.sub_add_cancel hpos, hpoint]
  · intro point hpoint
    obtain ⟨i, hi⟩ := List.mem_iff_getElem?.mp hpoint
    rw [List.getElem?_dropLast, List.length_cons, Nat.add_sub_cancel, hlength] at hi
    split at hi
    · rename_i hlt
      rw [htrack, if_pos (Nat.le_of_lt hlt)] at hi
      exact Line.point?_ne_target hlt hi
    · cases hi
  · intro i point next hpoint hnext
    rw [htrack] at hpoint hnext
    split at hnext
    · rename_i hlt
      rw [if_pos (Nat.le_of_succ_le hlt)] at hpoint
      exact Line.advances_point? (Nat.zero_lt_of_lt hlt) hpoint hnext
    · cases hnext
  · intro i point hpoint
    rw [htrack] at hpoint
    split at hpoint
    · rename_i hle
      exact Line.near_point? hle hpoint
    · cases hpoint

/-- Up and to the left, the second step of a short line goes along both axes.
The longest line there is takes 65535 steps, and its last one is computed in
words like all others. -/
theorem line_geometry_up_left :
    let short := Line.between ⟨5, 5, 7⟩ ⟨2, 4, 7⟩
    let long := Line.between ⟨65535, 0, 7⟩ ⟨0, 65534, 7⟩
    (((5, 5) :: short.points)[1]? = some (4, 5) ∧ ((5, 5) :: short.points)[2]? = some (3, 4) ∧
      short.Advances (4, 5) (3, 4) ∧ short.Near 2 (3, 4)) ∧
      long.points.length = 65535 ∧ long.wordPoint? 65535 = long.points[65534]? := by
  intro short long
  have hfirst : ((5, 5) :: short.points)[1]? = some (4, 5) := by decide
  have hsecond : ((5, 5) :: short.points)[2]? = some (3, 4) := by decide
  obtain ⟨-, -, -, -, -, hadvances, hnear⟩ := line_geometry ⟨5, 5, 7⟩ ⟨2, 4, 7⟩
  obtain ⟨hlength, hword, -⟩ := line_geometry ⟨65535, 0, 7⟩ ⟨0, 65534, 7⟩
  obtain ⟨point, hpoint, hpoint'⟩ := hword 65535 (by decide) (by decide)
  exact ⟨⟨hfirst, hsecond, hadvances 1 _ _ hfirst hsecond, hnear 2 _ hsecond⟩, hlength,
    hpoint'.trans hpoint.symm⟩

end TileWorld
