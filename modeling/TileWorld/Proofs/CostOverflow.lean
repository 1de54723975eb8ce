import TileWorld.Proofs.SearchBounds
import TileWorld.World.History

/-!
# Extra costs that are no word

A search adds the extra costs of a cell as words and fails where their sum
is none. It never goes on with another charge than the exact one. If both
extra costs of its settings together fit a word, no search fails
(`Pathfinder.InUse.isSome_find`). Otherwise there are cells whose charge is
no word, and searches that come upon one: a creature in a fire next to the
start is enough (`exists_find_eq_none`).

The check of the settings does not ask whether the costs fit
(`Quest.cellCost_exact_iff`).
-/

namespace TileWorld

namespace Search

variable {q : Quest} {s : Search} {current : NodeIndex} {n : Node}

/-! ## Charges that are words -/

section Words

variable (hwords : ∀ p, q.entryCost p < 4294967296)

include hwords

theorem reach_words (h : s.halt ≠ some .overflow) (step : UInt32) (p : Position) :
    (s.reach q current n step p).halt ≠ some .overflow := by
  rw [reach_eq, q.arrivalCost?_eq, if_pos (hwords p)]
  cases s.pool.find? p.x p.y with
  | some known =>
      dsimp only
      split <;> exact h
  | none =>
      dsimp only
      split
      · split
        · exact nofun
        · exact h
      · exact h

theorem examine_words (h : s.halt ≠ some .overflow) (offset : Int × Int) :
    (s.examine q current n offset).halt ≠ some .overflow := by
  unfold examine
  dsimp only
  split
  · exact h
  · split
    · exact reach_words (s := { s with examined := s.examined + 1 }) hwords h _ _
    · exact h

theorem expand_words (h : s.halt ≠ some .overflow) (offsets : List (Int × Int)) :
    (s.expand q current n offsets).halt ≠ some .overflow := by
  induction offsets generalizing s with
  | nil => exact h
  | cons offset rest ih =>
      have hfirst : (s.examine q current n offset).halt ≠ some .overflow :=
        examine_words hwords h offset
      rw [expand]
      split
      · exact hfirst
      · exact ih hfirst

/-- A turn comes upon no charge that is no word where there is none. -/
theorem turn_words (h : s.halt ≠ some .overflow) (hn : s.pool.nodes[current]? = some n) :
    (s.turn q current).halt ≠ some .overflow := by
  have hexpanded : (s.expandAll q current n).halt ≠ some .overflow :=
    expand_words (s := s.ask q current n) hwords h _
  rcases turn_cases q hn with ⟨-, hturn⟩ | ⟨-, ⟨-, hturn⟩ | ⟨-, hturn⟩⟩ <;> rw [hturn]
  · exact h
  · exact hexpanded
  · exact hexpanded

theorem run_words (h : s.halt ≠ some .overflow) (turns : Nat) :
    (run q turns s).halt ≠ some .overflow :=
  run_induction (fun _ _ _ hs _ hn => turn_words hwords hs hn) h turns

end Words

/-! ## Charges that are none -/

/-- A cell that may be entered at a charge that is no word breaks the search
off. -/
theorem reach_overflow (step : UInt32) {p : Position} (hwalkable : (q.walkable? p).isSome = true)
    (hlarge : 4294967296 ≤ q.entryCost p) :
    (s.reach q current n step p).halt = some .overflow := by
  rw [reach_eq, q.arrivalCost?_eq, if_neg (Nat.not_lt.mpr hlarge)]
  cases s.pool.find? p.x p.y with
  | some known => rfl
  | none =>
      dsimp only
      rw [if_pos hwalkable]

/-- A search that breaks off in its next turn stays there. -/
theorem run_of_halt {halt : Halt} (hselect : s.select? q = some current)
    (h : (s.turn q current).halt = some halt) (turns : Nat) :
    (run q (turns + 1) s).halt = some halt := by
  have hover : (s.turn q current).select? q = none := by
    rw [select?, h, Option.isSome_some, Bool.or_true, Bool.true_or]
    rfl
  rw [run_succ hselect, run_of_over hover, h]

end Search

/-- A piece of floor, and a creature in a fire west of it. -/
def World.withBurningCreature : World :=
  ((World.empty {}).run
    [.setCell ⟨10, 10, 7⟩ (.onGround { kind := 100 }) .merge,
      .setCell ⟨9, 10, 7⟩ (.onGround { kind := 100, hazard := some .fire }) .merge,
      .place .creature ⟨9, 10, 7⟩]).1

/-- To leave the floor for a place far away. -/
def Quest.pastBurningCreature (config : SearchConfig) : Quest where
  config
  world := .withBurningCreature
  mover := .player
  start := ⟨10, 10, 7⟩
  condition := TargetCondition.toPathCondition ⟨⟨20, 10, 7⟩⟩
  params := { maxSearch := 1, minTarget := 1, maxTarget := 1, clearSight := false }

namespace Quest

/-- Under whatever settings, both costs are due for the creature in the fire. -/
theorem charge_burningCreature (config : SearchConfig) :
    ∃ cell, (pastBurningCreature config).walkable? ⟨9, 10, 7⟩ = some cell ∧
      (pastBurningCreature config).charge ⟨9, 10, 7⟩ cell =
        config.blockingCost.toNat + config.hazardCost.toNat := by
  let cell : Cell := (Cell.onGround { kind := 100, hazard := some .fire }).arrive ⟨1⟩
  have hobstructed : (pastBurningCreature config).isObstructed ⟨9, 10, 7⟩ = true := by
    show (World.withBurningCreature.topVisible? ⟨9, 10, 7⟩ .player).any
      (fun top => !(top.2.isPushable && Occupant.player.pushes)) = true
    decide +kernel
  have hharmful : (pastBurningCreature config).isHarmful cell = true := rfl
  have hwalkable : (pastBurningCreature config).walkable? ⟨9, 10, 7⟩ = some cell := by
    show (World.withBurningCreature.cell? ⟨9, 10, 7⟩).filter (fun cell =>
      cell.hasGround && !cell.hasFlag Flags.blocksPath &&
        (Occupant.player.isPlayer ||
          !cell.hasFlag (Flags.protectionZone.union Flags.floorChange))) = some cell
    decide +kernel
  refine ⟨cell, hwalkable, ?_⟩
  rw [charge, hobstructed, hharmful]
  rfl

end Quest

namespace Pathfinder

/-- If the extra costs of the settings together fit a word, every search
has an answer. -/
theorem InUse.isSome_find {config : SearchConfig} {f : Pathfinder} (hf : f.InUse config)
    (hfits : config.blockingCost.toNat + config.hazardCost.toNat ≤ 4294967295) (w : World)
    (mover : Occupant) (start : Position) (condition : PathCondition) (params : SearchParams) :
    (f.find w mover start condition params).isSome = true := by
  obtain ⟨rfl, -⟩ := hf.ready
  cases hstart : start.hasValidFloor with
  | false =>
      unfold find
      rw [hstart]
      rfl
  | true =>
      let q : Quest := ⟨f.config, w, mover, start, condition, params⟩
      have hwords (p : Position) : q.entryCost p < 4294967296 :=
        Nat.lt_succ_of_le (Nat.le_trans (q.entryCost_le p) hfits)
      have hsearch : (f.search q).halt ≠ some .overflow :=
        Search.run_words (s := { pool := f.pool.restart start.x start.y }) hwords nofun _
      rw [Option.isSome_iff_ne_none, ne_eq, find_eq_none_iff hstart]
      exact hsearch

/-- If they do not, some search fails in its first turn. -/
theorem exists_find_eq_none {config : SearchConfig} (hcheck : config.check = .ok ())
    (hlarge : 4294967295 < config.blockingCost.toNat + config.hazardCost.toNat) :
    ∃ (f : Pathfinder) (w : World) (mover : Occupant) (start : Position) (c : TargetCondition)
      (params : SearchParams), f.InUse config ∧
      f.find w mover start c.toPathCondition params = none := by
  let q : Quest := .pastBurningCreature config
  have hf : (fresh config).InUse config := .created (by rw [create, hcheck]; rfl)
  obtain ⟨-, hready⟩ := hf.ready
  refine ⟨fresh config, q.world, q.mover, q.start, ⟨⟨20, 10, 7⟩⟩, q.params, hf, ?_⟩
  let s : Search := { pool := (Pool.empty config.nodeCapacity).add ⟨10, 10, 0, none⟩ }
  have hrestart : ({ pool := (fresh config).pool.restart 10 10 } : Search) = s := by
    have hroom := hready.isFull_empty
    unfold Pool.restart
    dsimp only
    rw [hroom]
    rfl
  have hselect : s.select? q = some 0 := rfl
  obtain ⟨cell, hwalkable, hcharge⟩ := Quest.charge_burningCreature config
  have hentry : 4294967296 ≤ q.entryCost ⟨9, 10, 7⟩ := by
    rw [q.entryCost_of_cell (Option.filter_eq_some_iff.mp hwalkable).1, hcharge]
    exact hlarge
  -- the first neighbor of the start is the cell of the creature
  have hexamined (s' : Search) :
      (s'.examine q 0 ⟨10, 10, 0, none⟩ (-1, 0)).halt = some .overflow := by
    have hwalkable' : (q.walkable? ⟨9, 10, 7⟩).isSome = true := Option.isSome_of_eq_some hwalkable
    exact Search.reach_overflow (s := { s' with examined := s'.examined + 1 }) _ hwalkable' hentry
  have hexpanded : (s.expandAll q 0 ⟨10, 10, 0, none⟩).halt = some .overflow := by
    have hneighbors : s.pool.neighbors ⟨10, 10, 0, none⟩ q.params.allowDiagonal =
        (-1, 0) :: allNeighbors.tail := rfl
    rw [Search.expandAll, hneighbors, Search.expand, if_pos]
    · exact hexamined _
    · exact Option.isSome_of_eq_some (hexamined _)
  have hunfinished : (s.ask q 0 ⟨10, 10, 0, none⟩).finished = false := rfl
  have hturn : (s.turn q 0).halt = some .overflow := by
    rw [Search.turn_eq q (n := ⟨10, 10, 0, none⟩) rfl, hunfinished, hexpanded]
    exact hexpanded
  have hstart : q.start.hasValidFloor = true := rfl
  obtain ⟨turns, hturns⟩ := Nat.exists_eq_add_one_of_ne_zero (Nat.ne_of_gt hready.room.1)
  rw [find_eq_none_iff hstart, search, hturns]
  exact hrestart ▸ Search.run_of_halt hselect hturn turns

end Pathfinder

/-- The extra cost of a cell is its exact charge, or none where that is no
word: it is never another one. Whether the settings rule the second case
out, at whatever cell of whatever world and for whatever mover, depends on
their two extra costs together, and so does whether all searches have
answers. The check of the settings has no part in it. -/
theorem Quest.cellCost_exact_iff (config : SearchConfig) :
    (∀ (q : Quest) (p : Position) (c : Cell), q.config = config →
      q.cellCost? p c =
        if q.charge p c ≤ 4294967295 then some (.ofNat (q.charge p c)) else none) ∧
    ((∀ (q : Quest) (p : Position) (c : Cell), q.config = config → q.world.cell? p = some c →
        ∃ cost, q.cellCost? p c = some cost ∧ cost.toNat = q.charge p c) ↔
      config.blockingCost.toNat + config.hazardCost.toNat ≤ 4294967295) ∧
    (config.check = .ok () →
      ((∀ (f : Pathfinder) (w : World) (mover : Occupant) (start : Position)
          (condition : PathCondition) (params : SearchParams), f.InUse config →
          (f.find w mover start condition params).isSome = true) ↔
        config.blockingCost.toNat + config.hazardCost.toNat ≤ 4294967295)) := by
  refine ⟨?_, ⟨?_, ?_⟩, fun hcheck => ⟨?_, ?_⟩⟩
  · rintro q p c -
    simp only [q.cellCost?_eq, Nat.lt_succ_iff]
  · intro hexact
    obtain ⟨cell, hwalkable, hcharge⟩ := charge_burningCreature config
    obtain ⟨cost, -, hcost⟩ := hexact (pastBurningCreature config) ⟨9, 10, 7⟩ cell rfl
      (Option.filter_eq_some_iff.mp hwalkable).1
    rw [← hcharge, ← hcost]
    exact Nat.le_of_lt_succ cost.toNat_lt
  · rintro hfits q p c rfl -
    have hword := Nat.lt_succ_of_le (Nat.le_trans (q.charge_le p c) hfits)
    exact ⟨_, (q.cellCost?_eq p c).trans (if_pos hword), UInt32.toNat_ofNat_of_lt' hword⟩
  · intro hanswers
    by_contra hlarge
    obtain ⟨f, w, mover, start, c, params, hf, hnone⟩ :=
      Pathfinder.exists_find_eq_none hcheck (Nat.not_le.mp hlarge)
    have hanswer := hanswers f w mover start c.toPathCondition params hf
    rw [hnone] at hanswer
    cases hanswer
  · exact fun hfits f w mover start condition params hf =>
      hf.isSome_find hfits w mover start condition params

/-- Two costs of 2³¹ pass the check of the settings. A creature in a fire has
no extra cost then, and a search fails that comes upon it. With one unit
less for the creature the search leads round them. -/
theorem Pathfinder.find_fails_at_fire :
    let config : SearchConfig := { blockingCost := 2147483648, hazardCost := 2147483648 }
    let floor : Cell := .onGround { kind := 100 }
    let fire : Cell := .onGround { kind := 100, hazard := some .fire }
    let w := ((World.empty {}).run
      [.setCell ⟨10, 10, 7⟩ floor .merge, .setCell ⟨11, 10, 7⟩ fire .merge,
        .setCell ⟨12, 10, 7⟩ floor .merge, .setCell ⟨10, 11, 7⟩ floor .merge,
        .setCell ⟨11, 11, 7⟩ floor .merge, .setCell ⟨12, 11, 7⟩ floor .merge,
        .place .creature ⟨11, 10, 7⟩]).1
    let c : TargetCondition := ⟨⟨13, 9, 7⟩⟩
    let params : SearchParams := { minTarget := 1, maxTarget := 1, clearSight := false }
    let q : Quest := ⟨config, w, .player, ⟨10, 10, 7⟩, c.toPathCondition, params⟩
    let find (config : SearchConfig) :=
      (fresh config).find w .player ⟨10, 10, 7⟩ c.toPathCondition params
    config.check = .ok () ∧ w.cell? ⟨11, 10, 7⟩ = some (fire.arrive ⟨1⟩) ∧
      q.charge ⟨11, 10, 7⟩ (fire.arrive ⟨1⟩) = 4294967296 ∧
      q.cellCost? ⟨11, 10, 7⟩ (fire.arrive ⟨1⟩) = none ∧ (find config).isNone = true ∧
      (find { config with blockingCost := 2147483647 }).bind (·.2.route) =
        some ⟨[.south, .east, .east, .north], ⟨12, 10, 7⟩, 40⟩ := by
  intro config floor fire w c params q find
  exact ⟨rfl, by decide +kernel, by decide +kernel, by decide +kernel, by decide +kernel,
    by decide +kernel⟩

end TileWorld
