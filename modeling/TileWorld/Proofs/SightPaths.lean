import TileWorld.Proofs.PositionLaws
import TileWorld.Sight.Visibility
import TileWorld.World.History

/-!
# The path behind a sight line

A sight line is followed by a cursor that four rules move: it sinks through
holes at the start, turns toward the floor of its target before each step,
rises over obstacles, and settles at the end. Every one of these moves is a
move of `World.SightPath`: up or down through an open floor, or forward to
the next point of the line. `World.Follows` puts moves together and keeps
all positions within `World.SightBand`, the floors that a line may visit.

A band is convex, so a move stays inside if it leads toward a floor that
belongs to it: the floor of the target, the ceiling of the line, or the
floor to which the eye may sink.
-/

namespace TileWorld

namespace World

variable {w : World}

/-! ## Paths -/

/-- Both positions lie in one column, one floor apart, and the upper of
the two has no ground. -/
structure Shaft (w : World) (p q : Position) : Prop where
  column : q.x = p.x ∧ q.y = p.y
  isOpen : q.z.toNat = p.z.toNat + 1 ∧ w.hasGround p = false ∨
    p.z.toNat = q.z.toNat + 1 ∧ w.hasGround q = false

/-- The positions lead from one to another in single moves: through an
open floor, or forward on one floor to the next of the points, which
nothing blocks outside the given column. -/
inductive SightPath (w : World) (column : UInt16 × UInt16) :
    Position → List Position → List (UInt16 × UInt16) → Position → Prop where
  | done (p : Position) : SightPath w column p [] [] p
  | vertical {p q r : Position} {path : List Position} {points : List (UInt16 × UInt16)} :
      w.Shaft p q → SightPath w column q path points r →
      SightPath w column p (q :: path) points r
  | forward {p q r : Position} {path : List Position} {points : List (UInt16 × UInt16)} :
      q.z = p.z → ((q.x, q.y) = column ∨ w.stopsProjectiles q = false) →
      SightPath w column q path points r →
      SightPath w column p (q :: path) ((q.x, q.y) :: points) r

theorem SightPath.trans {column : UInt16 × UInt16} {p q r : Position} {path path' : List Position}
    {points points' : List (UInt16 × UInt16)} (h : w.SightPath column p path points q)
    (h' : w.SightPath column q path' points' r) :
    w.SightPath column p (path ++ path') (points ++ points') r := by
  induction h with
  | done p => exact h'
  | vertical hshaft _ ih => exact .vertical hshaft (ih h')
  | forward hz hfree _ ih => exact .forward hz hfree (ih h')

theorem SightPath.end_mem {column : UInt16 × UInt16} {p q : Position} {path : List Position}
    {points : List (UInt16 × UInt16)} (h : w.SightPath column p path points q) :
    q ∈ p :: path := by
  induction h with
  | done p => exact List.mem_singleton_self p
  | vertical _ _ ih => exact List.mem_cons_of_mem _ ih
  | forward _ _ _ ih => exact List.mem_cons_of_mem _ ih

/-! ## The floors of a line -/

/-- The position lies on a floor that a line between two others may visit. -/
structure SightBand (source target : Position) (penalty : UInt8) (q : Position) : Prop where
  side : q.isUnderground = source.isUnderground
  highest : min target.z.toNat (source.z.toNat - penalty.toNat) ≤ q.z.toNat
  lowest : q.z.toNat ≤ max target.z.toNat (source.z.toNat + penalty.toNat)

section Band

variable {source target p q r : Position} {penalty : UInt8}

theorem sightBand_iff : SightBand source target penalty q ↔
    (7 < q.z.toNat ↔ 7 < source.z.toNat) ∧
      min target.z.toNat (source.z.toNat - penalty.toNat) ≤ q.z.toNat ∧
        q.z.toNat ≤ max target.z.toNat (source.z.toNat + penalty.toNat) := by
  rw [← Position.isUnderground_iff, ← Position.isUnderground_iff, ← Bool.eq_iff_iff]
  exact ⟨fun h => ⟨h.side, h.highest, h.lowest⟩, fun h => ⟨h.1, h.2.1, h.2.2⟩⟩

theorem sightBand_source : SightBand source target penalty source := by
  rw [sightBand_iff]
  omega

theorem sightBand_target (h : source.isUnderground = target.isUnderground) :
    SightBand source target penalty target := by
  rw [Bool.eq_iff_iff, Position.isUnderground_iff, Position.isUnderground_iff] at h
  rw [sightBand_iff]
  omega

/-- A floor between two of the band belongs to it. -/
theorem SightBand.between (hp : SightBand source target penalty p)
    (hr : SightBand source target penalty r)
    (hq : p.z.toNat ≤ q.z.toNat ∧ q.z.toNat ≤ r.z.toNat ∨
      r.z.toNat ≤ q.z.toNat ∧ q.z.toNat ≤ p.z.toNat) : SightBand source target penalty q := by
  rw [sightBand_iff] at *
  omega

end Band

/-- A path takes in the points and visits only positions with a property. -/
def Follows (w : World) (column : UInt16 × UInt16) (ok : Position → Prop) (p : Position)
    (points : List (UInt16 × UInt16)) (q : Position) : Prop :=
  ∃ path, w.SightPath column p path points q ∧ ∀ r ∈ path, ok r

namespace Follows

variable {column : UInt16 × UInt16} {ok : Position → Prop} {p q r : Position}
  {points points' : List (UInt16 × UInt16)}

theorem refl (p : Position) : w.Follows column ok p [] p := ⟨[], .done p, by simp⟩

theorem trans (h : w.Follows column ok p points q) (h' : w.Follows column ok q points' r) :
    w.Follows column ok p (points ++ points') r := by
  obtain ⟨path, hpath, hok⟩ := h
  obtain ⟨path', hpath', hok'⟩ := h'
  refine ⟨path ++ path', hpath.trans hpath', fun r hr => ?_⟩
  rcases List.mem_append.mp hr with hr | hr
  · exact hok r hr
  · exact hok' r hr

theorem vertical (h : w.Shaft p q) (hq : ok q) : w.Follows column ok p [] q :=
  ⟨[q], .vertical h (.done q), by simpa using hq⟩

theorem forward {point : UInt16 × UInt16} (hq : q = ⟨point.1, point.2, p.z⟩)
    (hfree : point = column ∨ w.stopsProjectiles q = false) (hok : ok q) :
    w.Follows column ok p [point] q := by
  subst hq
  refine ⟨[⟨point.1, point.2, p.z⟩], ?_, by simpa using hok⟩
  exact .forward (q := ⟨point.1, point.2, p.z⟩) rfl hfree (.done _)

theorem ok_end (h : w.Follows column ok p points q) (hp : ok p) : ok q := by
  obtain ⟨path, hpath, hok⟩ := h
  rcases List.mem_cons.mp hpath.end_mem with rfl | hq
  · exact hp
  · exact hok q hq

end Follows

/-! ## The rules that move the cursor -/

theorem toNat_floorBelow {z : UInt8} (h : z.toNat < 255) : (z + 1).toNat = z.toNat + 1 := by
  rw [UInt8.toNat_add, show (1 : UInt8).toNat = 1 from rfl, Nat.mod_eq_of_lt (by omega)]

theorem toNat_floorAbove {z : UInt8} (h : 0 < z.toNat) : (z - 1).toNat = z.toNat - 1 :=
  UInt8.toNat_sub_of_le z 1 (UInt8.le_iff_toNat_le.mpr h)

theorem shaft_below {p : Position} (hz : p.z.toNat < 255) (h : w.hasGround p = false) :
    w.Shaft p (p.onFloor (p.z + 1)) :=
  ⟨⟨rfl, rfl⟩, .inl ⟨toNat_floorBelow hz, h⟩⟩

theorem shaft_above {p : Position} (hz : 0 < p.z.toNat)
    (h : w.hasGround (p.onFloor (p.z - 1)) = false) : w.Shaft p (p.onFloor (p.z - 1)) := by
  have habove := toNat_floorAbove hz
  exact ⟨⟨rfl, rfl⟩, .inr ⟨by dsimp only [Position.onFloor]; omega, h⟩⟩

theorem stepToward_cases (w : World) (p : Position) (z : UInt8) :
    w.stepToward p z = p ∨ w.Shaft p (w.stepToward p z) ∧
      (p.z.toNat ≤ (w.stepToward p z).z.toNat ∧ (w.stepToward p z).z.toNat ≤ z.toNat ∨
        z.toNat ≤ (w.stepToward p z).z.toNat ∧ (w.stepToward p z).z.toNat ≤ p.z.toNat) := by
  have hlast := z.toNat_lt
  simp only [stepToward, UInt8.lt_iff_toNat_lt]
  split
  · rename_i hlt
    have hz := toNat_floorBelow (z := p.z) (by omega)
    split
    · exact .inl rfl
    · rename_i hopen
      refine .inr ⟨shaft_below (by omega) (by simpa using hopen), .inl ?_⟩
      dsimp only [Position.onFloor]
      omega
  · split
    · rename_i hlt
      have hz := toNat_floorAbove (z := p.z) (by omega)
      split
      · exact .inl rfl
      · rename_i hopen
        refine .inr ⟨shaft_above (by omega) (by simpa using hopen), .inr ?_⟩
        dsimp only [Position.onFloor]
        omega
    · exact .inl rfl

theorem bandLimits_top (p : Position) :
    (bandLimits p).1.toNat = if 7 < p.z.toNat then 8 else 0 := by
  rw [bandLimits, apply_ite Prod.fst, apply_ite UInt8.toNat]
  simp only [Position.isUnderground_iff]
  rfl

theorem bandLimits_bottom (p : Position) :
    (bandLimits p).2.toNat = if 7 < p.z.toNat then 15 else 7 := by
  rw [bandLimits, apply_ite Prod.snd, apply_ite UInt8.toNat]
  simp only [Position.isUnderground_iff]
  rfl

section Rules

variable {source target p q : Position} {penalty : UInt8} {column : UInt16 × UInt16}

theorem follows_stepToward (hside : source.isUnderground = target.isUnderground)
    (hp : SightBand source target penalty p) :
    w.Follows column (SightBand source target penalty) p [] (w.stepToward p target.z) := by
  rcases w.stepToward_cases p target.z with h | ⟨hshaft, hz⟩
  · rw [h]
    exact .refl p
  · exact .vertical hshaft (hp.between (sightBand_target hside) hz)

theorem follows_settle (hside : source.isUnderground = target.isUnderground) (steps : Nat)
    (hp : SightBand source target penalty p) :
    w.Follows column (SightBand source target penalty) p [] (w.settle target.z steps p) := by
  induction steps generalizing p with
  | zero => exact .refl p
  | succ steps ih =>
    have hstep : w.Follows column (SightBand source target penalty) p [] _ :=
      follows_stepToward hside hp
    exact hstep.trans (ih (hstep.ok_end hp))

/-- The floor below another one that is no further down than the penalty
allows, nor the lowest on its side of the surface. -/
theorem SightBand.below (hp : SightBand source target penalty p)
    (hlowest : p.z < (bandLimits source).2)
    (hpenalty : p.z.toNat < source.z.toNat + penalty.toNat) :
    (p.z + 1).toNat = p.z.toNat + 1 ∧ SightBand source target penalty (p.onFloor (p.z + 1)) := by
  rw [UInt8.lt_iff_toNat_lt, bandLimits_bottom] at hlowest
  have hz := toNat_floorBelow (z := p.z) (by split at hlowest <;> omega)
  refine ⟨hz, ?_⟩
  rw [sightBand_iff] at hp ⊢
  dsimp only [Position.onFloor]
  split at hlowest <;> omega

/-- Sinking keeps to the floors within the penalty and to the side of the
surface on which the eye started. -/
theorem follows_sink (floors : Nat) (hp : SightBand source target penalty p)
    (hfloors : p.z.toNat + floors ≤ source.z.toNat + penalty.toNat) :
    w.Follows column (SightBand source target penalty) p []
      (w.sink (bandLimits source).2 floors p) := by
  induction floors generalizing p with
  | zero => exact .refl p
  | succ floors ih =>
    rw [sink]
    split
    · rename_i h
      rw [Bool.and_eq_true, decide_eq_true_iff, Bool.not_eq_true'] at h
      obtain ⟨hlt, hopen⟩ := h
      obtain ⟨hz, hbelow⟩ := hp.below hlt (by omega)
      have hlast := (p.z + 1).toNat_lt
      refine (Follows.vertical (shaft_below (by omega) hopen) hbelow).trans (ih hbelow ?_)
      dsimp only [Position.onFloor]
      omega
    · exact .refl p

/-- The highest floor to which a line may climb. -/
def sightCeiling (source : Position) (penalty : UInt8) : UInt8 :=
  max (UInt8.ofNat (source.z.toNat - penalty.toNat)) (bandLimits source).1

theorem toNat_sightCeiling (source : Position) (penalty : UInt8) :
    (sightCeiling source penalty).toNat =
      max (source.z.toNat - penalty.toNat) (bandLimits source).1.toNat := by
  have hpenalty : (UInt8.ofNat (source.z.toNat - penalty.toNat)).toNat =
      source.z.toNat - penalty.toNat :=
    UInt8.toNat_ofNat_of_lt' (Nat.lt_of_le_of_lt (Nat.sub_le _ _) source.z.toNat_lt)
  rw [sightCeiling, show ∀ a b : UInt8, max a b = if a ≤ b then b else a from fun _ _ => rfl,
    apply_ite UInt8.toNat, Nat.max_def]
  simp only [UInt8.le_iff_toNat_le, hpenalty]

theorem sightBand_ceiling (p : Position) :
    SightBand source target penalty
      (p.onFloor (max (UInt8.ofNat (source.z.toNat - penalty.toNat)) (bandLimits source).1)) := by
  show SightBand source target penalty (p.onFloor (sightCeiling source penalty))
  rw [sightBand_iff]
  dsimp only [Position.onFloor]
  rw [toNat_sightCeiling, bandLimits_top]
  split <;> omega

/-- The floor to which a line rises lies between the floor that it leaves
and the ceiling below which it still is. -/
theorem SightBand.above {ceiling : UInt8} (hp : SightBand source target penalty p)
    (hceiling : SightBand source target penalty (q.onFloor ceiling)) (hbelow : ceiling < p.z)
    (r : Position) : SightBand source target penalty (r.onFloor (p.z - 1)) := by
  rw [UInt8.lt_iff_toNat_lt] at hbelow
  have hz := toNat_floorAbove (z := p.z) (by omega)
  exact hp.between hceiling (.inr (by dsimp only [Position.onFloor]; omega))

theorem follows_climbOver? {ceiling : UInt8} {blocked : Position}
    (hceiling : SightBand source target penalty (p.onFloor ceiling))
    (hp : SightBand source target penalty p) (h : w.climbOver? p blocked ceiling = some q) :
    w.Follows column (SightBand source target penalty) p [(blocked.x, blocked.y)] q := by
  unfold climbOver? at h
  split at h
  · cases h
  · rename_i hclimb
    simp only [Bool.or_eq_true, decide_eq_true_eq, not_or, Bool.not_eq_true, UInt8.not_le] at hclimb
    obtain ⟨hbelow, hopen⟩ := hclimb
    dsimp only at h
    split at h
    · cases h
    · rename_i hfree
      obtain rfl := Option.some.inj h
      have hraised := hp.above hceiling hbelow
      rw [UInt8.lt_iff_toNat_lt] at hbelow
      exact (Follows.vertical (shaft_above (by omega) hopen) (hraised p)).trans
        (.forward rfl (.inr (by simpa using hfree)) (hraised blocked))

theorem follows_advance? {ceiling : UInt8} {point : UInt16 × UInt16}
    (hside : source.isUnderground = target.isUnderground)
    (hceiling : ∀ p : Position, SightBand source target penalty (p.onFloor ceiling))
    (hp : SightBand source target penalty p) (h : w.advance? target ceiling p point = some q) :
    w.Follows (target.x, target.y) (SightBand source target penalty) p [point] q := by
  have hturn : w.Follows (target.x, target.y) (SightBand source target penalty) p [] _ :=
    follows_stepToward hside hp
  have hturned := hturn.ok_end hp
  refine hturn.trans ?_
  unfold advance? at h
  dsimp only at h
  split at h
  · exact follows_climbOver? (hceiling _) hturned h
  · rename_i hfree
    obtain rfl := Option.some.inj h
    refine .forward rfl ?_ (hturned.between hturned (.inl ⟨Nat.le_refl _, Nat.le_refl _⟩))
    simp only [Bool.and_eq_true, decide_eq_true_eq, not_and, Bool.not_eq_true] at hfree
    by_cases hpoint : point = (target.x, target.y)
    · exact .inl hpoint
    · exact .inr (hfree hpoint)

theorem follows_line {ceiling : UInt8} {points : List (UInt16 × UInt16)}
    (hside : source.isUnderground = target.isUnderground)
    (hceiling : ∀ p : Position, SightBand source target penalty (p.onFloor ceiling))
    (hp : SightBand source target penalty p)
    (h : points.foldlM (w.advance? target ceiling) p = some q) :
    w.Follows (target.x, target.y) (SightBand source target penalty) p points q := by
  induction points generalizing p with
  | nil =>
    obtain rfl := Option.some.inj h
    exact .refl p
  | cons point points ih =>
    rw [List.foldlM_cons, Option.bind_eq_bind, Option.bind_eq_some_iff] at h
    obtain ⟨next, hnext, hrest⟩ := h
    have hstep := follows_advance? hside hceiling hp hnext
    exact hstep.trans (ih (hstep.ok_end hp) hrest)

end Rules

/-- What is seen can be reached: a path through open floors and unblocked
cells takes in exactly the points of the line and stays on its floors. -/
theorem canSee_sound {source target : Position} {penalty : UInt8}
    (h : w.canSee source target penalty = true) :
    source.distanceZ target ≤ 2 ∧ ∃ path,
      w.SightPath (target.x, target.y) source path (Line.between source target).points target ∧
        ∀ q ∈ source :: path, SightBand source target penalty q := by
  unfold canSee at h
  split at h
  · rename_i heq
    subst heq
    have hpoints : (Line.between source source).points = [] := by
      simp [Line.points, Line.steps, Line.between, Line.pointsFrom]
    rw [hpoints]
    refine ⟨by simp [Position.distanceZ], [], .done source, ?_⟩
    simpa using sightBand_source
  · split at h
    · cases h
    · rename_i hnear
      simp only [Bool.or_eq_true, decide_eq_true_eq, not_or, Nat.not_lt, bne_iff_ne, ne_eq,
        Decidable.not_not] at hnear
      obtain ⟨hfloors, hside⟩ := hnear
      dsimp only at h
      split at h
      · cases h
      · rename_i reached hline
        refine ⟨hfloors, ?_⟩
        have hsink : w.Follows (target.x, target.y) (SightBand source target penalty) source [] _ :=
          follows_sink penalty.toNat sightBand_source (Nat.le_refl _)
        have hcross := follows_line hside sightBand_ceiling
          (hsink.ok_end sightBand_source) hline
        have hreached := hcross.ok_end (hsink.ok_end sightBand_source)
        have hsettle : w.Follows (target.x, target.y) (SightBand source target penalty) reached []
            (w.settle target.z (reached.distanceZ target) reached) :=
          follows_settle hside _ hreached
        rw [eq_of_beq h] at hsettle
        obtain ⟨path, hpath, hband⟩ := (hsink.trans hcross).trans hsettle
        rw [List.nil_append, List.append_nil] at hpath
        refine ⟨path, hpath, fun q hq => ?_⟩
        rcases List.mem_cons.mp hq with rfl | hq
        · exact sightBand_source
        · exact hband q hq

/-- An eye behind a wall looks over it. -/
theorem canSee_sound_over_wall :
    let floor := Cell.onGround ⟨1, .none, none⟩
    let w := ((empty {}).run
      [.setCell ⟨0, 0, 7⟩ floor .merge, .setCell ⟨2, 0, 7⟩ floor .merge,
        .setCell ⟨1, 0, 7⟩ (floor.addItem ⟨2, .blocksProjectile, none⟩) .merge]).1
    w.stopsProjectiles ⟨1, 0, 7⟩ = true ∧ w.canSee ⟨0, 0, 7⟩ ⟨2, 0, 7⟩ 1 = true ∧ ∃ path,
      w.SightPath (2, 0) ⟨0, 0, 7⟩ path [(1, 0), (2, 0)] ⟨2, 0, 7⟩ ∧
        ∀ q ∈ path, 6 ≤ q.z.toNat := by
  intro floor w
  have hsee : w.canSee ⟨0, 0, 7⟩ ⟨2, 0, 7⟩ 1 = true := by decide +kernel
  obtain ⟨-, path, hpath, hband⟩ := canSee_sound hsee
  rw [show (Line.between ⟨0, 0, 7⟩ ⟨2, 0, 7⟩).points = [(1, 0), (2, 0)] by decide] at hpath
  refine ⟨by decide +kernel, hsee, path, hpath, fun q hq => ?_⟩
  exact (hband q (List.mem_cons_of_mem _ hq)).highest

end World

end TileWorld
