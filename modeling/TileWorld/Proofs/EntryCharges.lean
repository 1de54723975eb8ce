import TileWorld.Route.Search

/-!
# What a cell adds to the cost of a step

`Quest.charge` is the extra cost of entering a cell as a number without a
bound: the cost of the occupant in the way and the cost of the field, each
where it is due. A search adds the two as words, and has their sum exactly
if it is a word (`Quest.cellCost?_eq`).
-/

namespace TileWorld.Quest

/-- The top occupant that the mover sees stands in its way: it is not one to
be shoved aside. -/
def isObstructed (q : Quest) (p : Position) : Bool :=
  (q.world.topVisible? p q.mover).any fun top => !(top.2.isPushable && q.mover.pushes)

/-- The cell is covered by a field that harms the mover and that it does not
put up with. -/
def isHarmful (q : Quest) (c : Cell) : Bool :=
  c.hazard.any fun h => !q.mover.isImmuneTo h && !q.mover.tolerates h

/-- The exact sum of what is due for entering a cell. -/
def charge (q : Quest) (p : Position) (c : Cell) : Nat :=
  (if q.isObstructed p then q.config.blockingCost.toNat else 0) +
    (if q.isHarmful c then q.config.hazardCost.toNat else 0)

variable (q : Quest) (p : Position) (c : Cell)

theorem toNat_blockingCost :
    (q.blockingCost p).toNat = if q.isObstructed p then q.config.blockingCost.toNat else 0 := by
  unfold blockingCost isObstructed
  cases q.world.topVisible? p q.mover with
  | none => rfl
  | some top =>
      rw [Option.any_some]
      simp only [Bool.not_eq_true']
      cases top.2.isPushable && q.mover.pushes <;> rfl

theorem toNat_hazardCost :
    (q.hazardCost c).toNat = if q.isHarmful c then q.config.hazardCost.toNat else 0 := by
  unfold hazardCost isHarmful
  cases c.hazard with
  | none => rfl
  | some h =>
      rw [Option.any_some, ← Bool.not_or]
      simp only [Bool.not_eq_true']
      cases q.mover.isImmuneTo h || q.mover.tolerates h <;> rfl

/-- The extra cost of a cell is its charge, if that is a word. -/
theorem cellCost?_eq :
    q.cellCost? p c = if q.charge p c < 4294967296 then some (.ofNat (q.charge p c)) else none := by
  rw [cellCost?, checkedAdd_eq, toNat_blockingCost, toNat_hazardCost]
  rfl

theorem charge_le : q.charge p c ≤ q.config.blockingCost.toNat + q.config.hazardCost.toNat := by
  unfold charge
  split <;> split <;> omega

/-- What a cell adds to the cost of the step that enters it. There is nothing
to add where there is no cell. -/
def entryCost (q : Quest) (p : Position) : Nat :=
  (q.world.cell? p).elim 0 (q.charge p)

theorem entryCost_le : q.entryCost p ≤ q.config.blockingCost.toNat + q.config.hazardCost.toNat := by
  unfold entryCost
  cases q.world.cell? p with
  | none => exact Nat.zero_le _
  | some c => exact q.charge_le p c

variable {p c} in
theorem entryCost_of_cell (h : q.world.cell? p = some c) : q.entryCost p = q.charge p c := by
  rw [entryCost, h]
  rfl

/-- A search has the cost of arriving at a position if what is to be added
there is a word. -/
theorem arrivalCost?_eq (n : Node) (step : UInt32) :
    q.arrivalCost? n step p (q.world.cell? p) =
      if q.entryCost p < 4294967296 then
        some (saturatingAdd (saturatingAdd n.f step) (.ofNat (q.entryCost p)))
      else none := by
  have hextra : (q.world.cell? p).elim (some 0) (q.cellCost? p) =
      if q.entryCost p < 4294967296 then some (.ofNat (q.entryCost p)) else none := by
    unfold entryCost
    cases q.world.cell? p with
    | none => rfl
    | some c => exact q.cellCost?_eq p c
  rw [arrivalCost?, hextra]
  split <;> rfl

end TileWorld.Quest
