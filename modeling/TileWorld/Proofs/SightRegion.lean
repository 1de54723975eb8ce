import TileWorld.Proofs.LineGeometry
import TileWorld.Proofs.SightPaths

/-!
# What a sight line reads

A line between two positions looks at cells of one region only: the
rectangle that the two positions span, on the floors that the line may
visit. Whatever moves the cursor leaves it in the region, and in two
worlds that look alike there every move is the same. So the worlds agree
on what is seen (`canSee_congr`).
-/

namespace TileWorld.World

/-- The cells that a line between two positions may look at. -/
structure SightRegion (source target : Position) (penalty : UInt8) (q : Position) : Prop where
  rectangle : InRectangle source target (q.x, q.y)
  band : SightBand source target penalty q

/-- The worlds look alike to a line at a position. A missing cell has no
ground and stops nothing. -/
structure LooksAlike (w w' : World) (q : Position) : Prop where
  ground : w.hasGround q = w'.hasGround q
  stops : w.stopsProjectiles q = w'.stopsProjectiles q

section Moves

variable {w w' : World} {source target p q : Position} {penalty ceiling : UInt8}
  {point : UInt16 × UInt16}

/-! ## Moves stay in the region -/

theorem sightRegion_source : SightRegion source target penalty source :=
  ⟨inRectangle_source .., sightBand_source⟩

theorem SightRegion.stepToward (hside : source.isUnderground = target.isUnderground)
    (hp : SightRegion source target penalty p) (w : World) :
    SightRegion source target penalty (w.stepToward p target.z) := by
  rcases w.stepToward_cases p target.z with h | ⟨hshaft, hz⟩
  · rw [h]
    exact hp
  · obtain ⟨hx, hy⟩ := hshaft.column
    exact ⟨hx.symm ▸ hy.symm ▸ hp.rectangle, hp.band.between (sightBand_target hside) hz⟩

theorem climbOver?_column {blocked : Position} (h : w.climbOver? p blocked ceiling = some q) :
    (q.x, q.y) = (blocked.x, blocked.y) := by
  unfold climbOver? at h
  split at h
  · cases h
  · dsimp only at h
    split at h
    · cases h
    · obtain rfl := Option.some.inj h
      rfl

theorem advance?_column (h : w.advance? target ceiling p point = some q) : (q.x, q.y) = point := by
  unfold advance? at h
  dsimp only at h
  split at h
  · exact climbOver?_column h
  · obtain rfl := Option.some.inj h
    rfl

theorem SightRegion.advance? (hside : source.isUnderground = target.isUnderground)
    (hceiling : ∀ p : Position, SightBand source target penalty (p.onFloor ceiling))
    (hp : SightRegion source target penalty p) (hpoint : InRectangle source target point)
    (h : w.advance? target ceiling p point = some q) : SightRegion source target penalty q :=
  ⟨advance?_column h ▸ hpoint, (follows_advance? hside hceiling hp.band h).ok_end hp.band⟩

/-! ## Moves agree -/

section Agreement

variable (h : ∀ q, SightRegion source target penalty q → w.LooksAlike w' q)

include h

theorem stepToward_congr (hside : source.isUnderground = target.isUnderground)
    (hp : SightRegion source target penalty p) :
    w.stepToward p target.z = w'.stepToward p target.z := by
  unfold stepToward
  by_cases hbelow : p.z < target.z
  · rw [if_pos hbelow, if_pos hbelow, (h p hp).ground]
  · rw [if_neg hbelow, if_neg hbelow]
    by_cases habove : target.z < p.z
    · have hin : SightRegion source target penalty (p.onFloor (p.z - 1)) :=
        ⟨hp.rectangle, hp.band.above (q := target) (sightBand_target hside) habove p⟩
      rw [if_pos habove, if_pos habove]
      dsimp only
      rw [(h _ hin).ground]
    · rw [if_neg habove, if_neg habove]

theorem settle_congr (hside : source.isUnderground = target.isUnderground) (steps : Nat)
    (hp : SightRegion source target penalty p) :
    w.settle target.z steps p = w'.settle target.z steps p := by
  induction steps generalizing p with
  | zero => rfl
  | succ steps ih =>
    rw [settle, settle, ← stepToward_congr h hside hp]
    exact ih (hp.stepToward hside w)

/-- An eye that sinks no further than the penalty allows sinks as far in
both worlds, and stays in the region. -/
theorem sink_congr (floors : Nat) (hp : SightRegion source target penalty p)
    (hfloors : p.z.toNat + floors ≤ source.z.toNat + penalty.toNat) :
    w.sink (bandLimits source).2 floors p = w'.sink (bandLimits source).2 floors p ∧
      SightRegion source target penalty (w.sink (bandLimits source).2 floors p) := by
  induction floors generalizing p with
  | zero => exact ⟨rfl, hp⟩
  | succ floors ih =>
    rw [sink, sink, ← (h p hp).ground]
    split
    · rename_i hopen
      rw [Bool.and_eq_true, decide_eq_true_iff] at hopen
      obtain ⟨hz, hbelow⟩ := hp.band.below hopen.1 (by omega)
      refine ih ⟨hp.rectangle, hbelow⟩ ?_
      dsimp only [Position.onFloor]
      omega
    · exact ⟨rfl, hp⟩

theorem climbOver?_congr {blocked : Position}
    (hceiling : ∀ p : Position, SightBand source target penalty (p.onFloor ceiling))
    (hp : SightRegion source target penalty p)
    (hblocked : InRectangle source target (blocked.x, blocked.y)) :
    w.climbOver? p blocked ceiling = w'.climbOver? p blocked ceiling := by
  unfold climbOver?
  by_cases hle : p.z ≤ ceiling
  · simp only [hle, decide_true, Bool.true_or, if_true]
  · have hraised := hp.band.above (hceiling p) (UInt8.not_le.mp hle)
    have hleft : SightRegion source target penalty (p.onFloor (p.z - 1)) :=
      ⟨hp.rectangle, hraised p⟩
    have hentered : SightRegion source target penalty (blocked.onFloor (p.z - 1)) :=
      ⟨hblocked, hraised blocked⟩
    dsimp only
    rw [(h _ hleft).ground, (h _ hentered).stops]

theorem advance?_congr (hside : source.isUnderground = target.isUnderground)
    (hceiling : ∀ p : Position, SightBand source target penalty (p.onFloor ceiling))
    (hp : SightRegion source target penalty p) (hpoint : InRectangle source target point) :
    w.advance? target ceiling p point = w'.advance? target ceiling p point := by
  have hturned := hp.stepToward hside w
  have hnext : SightRegion source target penalty
      ⟨point.1, point.2, (w.stepToward p target.z).z⟩ :=
    ⟨hpoint, hturned.band.between hturned.band (.inl ⟨Nat.le_refl _, Nat.le_refl _⟩)⟩
  unfold advance?
  dsimp only
  rw [← stepToward_congr h hside hp, ← (h _ hnext).stops, climbOver?_congr h hceiling hturned hpoint]

/-- A cursor goes the same way along a line in both worlds, and stays in
the region. -/
theorem foldlM_advance?_congr {points : List (UInt16 × UInt16)}
    (hside : source.isUnderground = target.isUnderground)
    (hceiling : ∀ p : Position, SightBand source target penalty (p.onFloor ceiling))
    (hp : SightRegion source target penalty p)
    (hpoints : ∀ point ∈ points, InRectangle source target point) :
    points.foldlM (w.advance? target ceiling) p = points.foldlM (w'.advance? target ceiling) p ∧
      ∀ q, points.foldlM (w.advance? target ceiling) p = some q →
        SightRegion source target penalty q := by
  induction points generalizing p with
  | nil =>
    refine ⟨rfl, ?_⟩
    rintro q ⟨⟩
    exact hp
  | cons point points ih =>
    have hpoint := hpoints point (List.mem_cons_self ..)
    rw [List.foldlM_cons, List.foldlM_cons, ← advance?_congr h hside hceiling hp hpoint]
    cases hnext : w.advance? target ceiling p point with
    | none => exact ⟨rfl, nofun⟩
    | some next =>
      exact ih (hp.advance? hside hceiling hpoint hnext)
        fun point hpoint => hpoints point (List.mem_cons_of_mem _ hpoint)

end Agreement

end Moves

/-- Worlds that look alike in the region of a line agree on whether the
target is seen: in the rectangle that eye and target span, and there on the
floors on the eye's side of the surface, no higher than both the target and
the highest floor that the line may climb to, and no lower than both the
target and the lowest floor that the eye may sink to. -/
theorem canSee_congr {w w' : World} {source target : Position} {penalty : UInt8}
    (h : ∀ q, SightRegion source target penalty q → w.LooksAlike w' q) :
    w.canSee source target penalty = w'.canSee source target penalty := by
  unfold canSee
  by_cases heq : source = target
  · rw [if_pos heq, if_pos heq]
  rw [if_neg heq, if_neg heq]
  split
  · rfl
  rename_i hnear
  simp only [Bool.or_eq_true, not_or, bne_iff_ne, ne_eq, Decidable.not_not] at hnear
  have hside := hnear.2
  obtain ⟨hsink, heye⟩ := sink_congr h penalty.toNat sightRegion_source (Nat.le_refl _)
  have hpoints : ∀ point ∈ (Line.between source target).points, InRectangle source target point :=
    fun point => Line.inRectangle_of_mem
  obtain ⟨hline, hreached⟩ := foldlM_advance?_congr h hside sightBand_ceiling heye hpoints
  dsimp only
  rw [← hsink, ← hline]
  split
  · rfl
  · rename_i reached hreach
    rw [settle_congr h hside _ (hreached reached hreach)]

/-- Walls beside a line, above it and underground do not change what is
seen over a wall. -/
theorem canSee_congr_over_wall :
    let floor := Cell.onGround ⟨1, .none, none⟩
    let wall := floor.addItem ⟨2, .blocksProjectile, none⟩
    let w := ((empty {}).run
      [.setCell ⟨0, 0, 7⟩ floor .merge, .setCell ⟨2, 0, 7⟩ floor .merge,
        .setCell ⟨1, 0, 7⟩ wall .merge]).1
    let w' := (w.run
      [.setCell ⟨1, 1, 7⟩ wall .merge, .setCell ⟨1, 0, 5⟩ wall .merge,
        .setCell ⟨2, 0, 8⟩ wall .merge]).1
    (∀ q, SightRegion ⟨0, 0, 7⟩ ⟨2, 0, 7⟩ 1 q → w.LooksAlike w' q) ∧
      w.canSee ⟨0, 0, 7⟩ ⟨2, 0, 7⟩ 1 = true ∧ w'.canSee ⟨0, 0, 7⟩ ⟨2, 0, 7⟩ 1 = true := by
  intro floor wall w w'
  have hregion : ∀ q, SightRegion ⟨0, 0, 7⟩ ⟨2, 0, 7⟩ 1 q → w.LooksAlike w' q := by
    rintro ⟨x, y, z⟩ ⟨⟨hcolumn, hrow⟩, hband⟩
    rw [sightBand_iff] at hband
    have hx : x = 0 ∨ x = 1 ∨ x = 2 := by
      simp only [← UInt16.toNat_inj, UInt16.reduceToNat] at hcolumn ⊢
      omega
    have hy : y = 0 := by
      simp only [← UInt16.toNat_inj, UInt16.reduceToNat] at hrow ⊢
      omega
    have hz : z = 6 ∨ z = 7 := by
      simp only [← UInt8.toNat_inj, UInt8.reduceToNat] at hband ⊢
      omega
    subst hy
    rcases hx with rfl | rfl | rfl <;> rcases hz with rfl | rfl <;>
      exact ⟨by decide +kernel, by decide +kernel⟩
  have hsee : w.canSee ⟨0, 0, 7⟩ ⟨2, 0, 7⟩ 1 = true := by decide +kernel
  exact ⟨hregion, hsee, (canSee_congr hregion).symm.trans hsee⟩

end TileWorld.World
