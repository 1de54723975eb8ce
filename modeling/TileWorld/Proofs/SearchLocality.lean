import TileWorld.Proofs.CellStore
import TileWorld.Proofs.SearchBounds

/-!
# What a search depends on

A search asks the world what it costs to enter a cell and whether the
mover may, and its condition asks for sight lines. All of these questions
are about the floor of the start, and the first two only about positions
that the search allows. `World.scene?` is what they can learn about a
position. So in two worlds that show the same scenes a search takes the
same turns (`Search.run_inWorld`), whatever else there is in them, and
since every search starts from a cleared pool, whatever the pathfinder was
used for before (`Pathfinder.find_sameFloor`).
-/

namespace TileWorld

/-! ## Scenes -/

/-- What a cell holds apart from its occupants, and the capabilities of
those registered on it, in the order of their arrival. -/
def World.scene? (w : World) (p : Position) : Option (Stock × List Occupant) :=
  (w.cell? p).map fun c => (c.stock, c.occupants.filterMap w.occupant?)

/-- What can be told of a cell without its occupants can be told of its
stock. -/
theorem Cell.sameContents {c c' : Cell} (h : c.stock = c'.stock) :
    c.hasGround = c'.hasGround ∧ c.flags = c'.flags ∧ c.hazard = c'.hazard := by
  obtain ⟨hground, hitems, hzone⟩ := Stock.mk.inj h
  unfold hasGround flags hazard contents
  rw [hground, hitems, hzone]
  exact ⟨rfl, rfl, rfl⟩

namespace World

variable {w w' : World} {p : Position}

/-- Worlds that show the same scene have cells there of the same stock,
occupied by the same capabilities, or no cell. -/
theorem scene?_cases (h : w.scene? p = w'.scene? p) :
    (w.cell? p = none ∧ w'.cell? p = none) ∨
      ∃ c c', w.cell? p = some c ∧ w'.cell? p = some c' ∧ c.stock = c'.stock ∧
        c.occupants.filterMap w.occupant? = c'.occupants.filterMap w'.occupant? := by
  unfold scene? at h
  cases hc : w.cell? p with
  | none =>
      rw [hc] at h
      exact Or.inl ⟨rfl, Option.map_eq_none_iff.mp h.symm⟩
  | some c =>
      rw [hc] at h
      obtain ⟨c', hc', hsame⟩ := Option.map_eq_some_iff.mp h.symm
      obtain ⟨hstock, hoccupants⟩ := Prod.mk.inj hsame
      exact Or.inr ⟨c, c', rfl, hc', hstock.symm, hoccupants.symm⟩

/-- The occupant in the way is the newest one perceived. -/
theorem topVisible?_capabilities {c : Cell} (hc : w.cell? p = some c) (viewer : Occupant) :
    (w.topVisible? p viewer).map (·.2) =
      (c.occupants.filterMap w.occupant?).reverse.find? viewer.perceives := by
  unfold topVisible?
  rw [hc, Option.bind_eq_bind, Option.bind_some, ← List.filterMap_reverse]
  induction c.occupants.reverse with
  | nil => rfl
  | cons id ids ih =>
      rw [List.findSome?_cons, List.filterMap_cons]
      cases w.occupant? id with
      | none => exact ih
      | some target =>
          rw [List.find?_cons, Option.bind_eq_bind, Option.bind_some]
          cases viewer.perceives target with
          | false => exact ih
          | true => rfl

theorem stopsProjectiles_congr (h : w.scene? p = w'.scene? p) :
    w.stopsProjectiles p = w'.stopsProjectiles p := by
  unfold stopsProjectiles
  rcases scene?_cases h with ⟨hc, hc'⟩ | ⟨c, c', hc, hc', hstock, -⟩
  · rw [hc, hc']
  · rw [hc, hc', Option.any_some, Option.any_some, Cell.hasFlag, Cell.hasFlag,
      (Cell.sameContents hstock).2.1]

/-- A clear sight is a matter of one floor. -/
theorem isSightClear_congr
    (h : ∀ r : Position, r.z = p.z → w.stopsProjectiles r = w'.stopsProjectiles r)
    (target : Position) (floorCheck : Bool) :
    w.isSightClear p target floorCheck = w'.isSightClear p target floorCheck := by
  have hline (source target : Position) (hz : source.z = p.z) :
      w.isLineClear source target = w'.isLineClear source target := by
    unfold isLineClear
    refine congrArg _ (funext fun point => ?_)
    rw [h ⟨point.1, point.2, source.z⟩ hz]
  unfold isSightClear
  dsimp only
  rw [hline p (target.onFloor p.z) rfl, hline (target.onFloor p.z) p rfl]

end World

theorem TargetCondition.judge_congr {c : TargetCondition} {w w' : World} {start p : Position}
    {params : SearchParams} (h : params.clearSight = true →
      ∀ r : Position, r.z = p.z → w.stopsProjectiles r = w'.stopsProjectiles r) (best : Int) :
    c.judge w start p params best = c.judge w' start p params best := by
  have hsight : (params.clearSight && !w.isSightClear p c.target true) =
      (params.clearSight && !w'.isSightClear p c.target true) := by
    cases hclear : params.clearSight with
    | false => rfl
    | true => rw [World.isSightClear_congr (h hclear)]
  unfold judge
  dsimp only
  rw [hsight]

/-! ## Quests in two worlds -/

namespace Quest

/-- The quest in another world. -/
def inWorld (q : Quest) (w : World) : Quest :=
  { q with world := w }

variable {q : Quest} {w : World} {p : Position}

theorem walkable?_inWorld (h : w.scene? p = q.world.scene? p) :
    ((q.inWorld w).walkable? p).isSome = (q.walkable? p).isSome := by
  unfold walkable? inWorld
  rcases World.scene?_cases h with ⟨hc, hc'⟩ | ⟨c, c', hc, hc', hstock, -⟩
  · rw [hc, hc']
  · obtain ⟨hground, hflags, -⟩ := Cell.sameContents hstock
    rw [hc, hc', Option.isSome_filter, Option.isSome_filter, Option.any_some, Option.any_some,
      hground]
    unfold Cell.hasFlag
    rw [hflags]

theorem isObstructed_eq (q : Quest) (p : Position) :
    q.isObstructed p = ((q.world.topVisible? p q.mover).map (·.2)).any fun top =>
      !(top.isPushable && q.mover.pushes) := by
  rw [Option.any_map]
  rfl

theorem entryCost_inWorld (h : w.scene? p = q.world.scene? p) :
    (q.inWorld w).entryCost p = q.entryCost p := by
  rcases World.scene?_cases h with ⟨hc, hc'⟩ | ⟨c, c', hc, hc', hstock, hoccupants⟩
  · rw [entryCost, entryCost, hc', show (q.inWorld w).world.cell? p = none from hc]
    rfl
  · have hobstructed : (q.inWorld w).isObstructed p = q.isObstructed p := by
      rw [isObstructed_eq, isObstructed_eq, World.topVisible?_capabilities hc',
        World.topVisible?_capabilities (w := (q.inWorld w).world) hc, ← hoccupants]
      rfl
    have hharmful : (q.inWorld w).isHarmful c = q.isHarmful c' := by
      unfold isHarmful
      rw [(Cell.sameContents hstock).2.2]
      rfl
    rw [(q.inWorld w).entryCost_of_cell hc, q.entryCost_of_cell hc', charge, charge, hobstructed,
      hharmful]
    rfl

/-- The answers that a search for the quest may ask for are the same in the
other world. -/
structure ReadsAlike (q : Quest) (w : World) : Prop where
  entryCost : ∀ p, p.z = q.start.z → q.isAllowed p = true →
    (q.inWorld w).entryCost p = q.entryCost p
  walkable : ∀ p, p.z = q.start.z → q.isAllowed p = true →
    ((q.inWorld w).walkable? p).isSome = (q.walkable? p).isSome
  judge : ∀ p best, p.z = q.start.z →
    q.condition.judge w q.start p q.params best =
      q.condition.judge q.world q.start p q.params best

end Quest

/-! ## Turns in two worlds -/

namespace Search

variable {q : Quest} {w : World} {s : Search} {current : NodeIndex} {n : Node}

section Lockstep

variable (h : q.ReadsAlike w)

include h

theorem reach_inWorld (step : UInt32) {p : Position} (hz : p.z = q.start.z)
    (hallowed : q.isAllowed p = true) :
    s.reach (q.inWorld w) current n step p = s.reach q current n step p := by
  rw [reach_eq, reach_eq, Quest.arrivalCost?_eq, Quest.arrivalCost?_eq,
    h.entryCost p hz hallowed, h.walkable p hz hallowed]

theorem examine_inWorld (offset : Int × Int) :
    s.examine (q.inWorld w) current n offset = s.examine q current n offset := by
  have hstart : (q.inWorld w).start = q.start := rfl
  have hisAllowed : (q.inWorld w).isAllowed = q.isAllowed := rfl
  have hstepCost : (q.inWorld w).stepCost = q.stepCost := rfl
  unfold examine
  rw [hstart, hisAllowed, hstepCost]
  dsimp only
  cases hnext : (n.position q.start.z).offset? offset.1 offset.2 with
  | none => rfl
  | some next =>
      have hz : next.z = q.start.z := (Position.offset?_eq_some_iff.mp hnext).2.2
      dsimp only
      split
      · rename_i hallowed
        exact reach_inWorld h _ hz hallowed
      · rfl

theorem expand_inWorld (offsets : List (Int × Int)) :
    s.expand (q.inWorld w) current n offsets = s.expand q current n offsets := by
  induction offsets generalizing s with
  | nil => rfl
  | cons offset rest ih => rw [expand, expand, examine_inWorld h, ih]

theorem ask_inWorld : s.ask (q.inWorld w) current n = s.ask q current n := by
  unfold ask
  dsimp only [Quest.inWorld]
  rw [h.judge (n.position q.start.z) s.best rfl]

/-- A turn is the same in both worlds. -/
theorem turn_inWorld : s.turn (q.inWorld w) current = s.turn q current := by
  unfold turn
  cases s.pool.nodes[current]? with
  | none => rfl
  | some n =>
      dsimp only
      rw [ask_inWorld h, expand_inWorld h]
      rfl

theorem run_inWorld (turns : Nat) : run (q.inWorld w) turns s = run q turns s := by
  induction turns generalizing s with
  | zero => rfl
  | succ turns ih =>
      have hselect : s.select? (q.inWorld w) = s.select? q := rfl
      rw [run, run, hselect]
      cases s.select? q with
      | none => rfl
      | some current =>
          dsimp only
          rw [turn_inWorld h, ih]

end Lockstep

end Search

/-! ## Searches in two worlds -/

/-- A pool is cleared before it is used again. -/
theorem Pool.restart_congr {p p' : Pool} (h : p.capacity = p'.capacity) (x y : UInt16) :
    p.restart x y = p'.restart x y := by
  unfold restart
  rw [h]

namespace Pathfinder

variable {config : SearchConfig} {f f' : Pathfinder} {w w' : World} {mover : Occupant}
  {start : Position} {params : SearchParams}

theorem InUse.find_congr (hf : f.InUse config) (hf' : f'.InUse config) {condition : PathCondition}
    (h : Quest.ReadsAlike ⟨config, w, mover, start, condition, params⟩ w') :
    ((f'.find w' mover start condition params).map fun answer =>
        (answer.2, answer.1.lastSearch)) =
      (f.find w mover start condition params).map fun answer =>
        (answer.2, answer.1.lastSearch) := by
  obtain ⟨hconfig, hready⟩ := hf.ready
  obtain ⟨hconfig', hready'⟩ := hf'.ready
  have hcapacity : f'.pool.capacity = f.pool.capacity := by
    rw [hready.capacity, hready'.capacity, hconfig, hconfig']
  have hsearch : f'.search ⟨config, w', mover, start, condition, params⟩ =
      f.search ⟨config, w, mover, start, condition, params⟩ := by
    unfold search
    rw [hconfig, hconfig']
    dsimp only
    rw [Pool.restart_congr hcapacity]
    exact Search.run_inWorld h _
  unfold find
  dsimp only
  rw [hconfig, hconfig', hsearch]
  split
  · rfl
  · split <;> rfl

/-- The answer of a search and its statistics, or that there is none, depend
on the settings of the pathfinder and on what is to be seen on the floor of
the start: nothing that the pathfinder did before has a part in them, and
neither have other floors or the numbers of occupants. Under a limit of distance and without
a demand for clear sight, only the positions within the limit count. -/
theorem find_sameFloor (hf : f.InUse config) (hf' : f'.InUse config) (mover : Occupant)
    (start : Position) (c : TargetCondition) (params : SearchParams)
    (h : ∀ p : Position, p.z = start.z →
      (params.maxSearch ≠ 0 → params.clearSight = false →
        start.distanceX p ≤ params.maxSearch.toNat ∧
          start.distanceY p ≤ params.maxSearch.toNat) →
      w.scene? p = w'.scene? p) :
    ((f.find w mover start c.toPathCondition params).map fun answer =>
        (answer.2, answer.1.lastSearch)) =
      (f'.find w' mover start c.toPathCondition params).map fun answer =>
        (answer.2, answer.1.lastSearch) := by
  let q : Quest := ⟨config, w', mover, start, c.toPathCondition, params⟩
  have hscene (p : Position) (hz : p.z = start.z) (hallowed : q.isAllowed p = true) :
      w.scene? p = w'.scene? p := by
    refine h p hz fun hlimit _ => ?_
    simp only [Quest.isAllowed, Bool.and_eq_true, Bool.or_eq_true, decide_eq_true_eq] at hallowed
    exact hallowed.1.resolve_left hlimit
  have hreads : q.ReadsAlike w := by
    refine ⟨fun p hz hallowed => Quest.entryCost_inWorld (hscene p hz hallowed),
      fun p hz hallowed => Quest.walkable?_inWorld (hscene p hz hallowed), fun p best hz => ?_⟩
    refine TargetCondition.judge_congr (fun hclear r hr => ?_) best
    refine World.stopsProjectiles_congr (h r (hr.trans hz) fun _ hunclear => ?_)
    rw [hclear] at hunclear
    cases hunclear
  exact InUse.find_congr hf' hf hreads

/-- A way around a creature is the same where the creature has another
number, other floors and cells beyond the limit exist, and the pathfinder
has searched before. -/
theorem find_sameFloor_renumbered :
    let floor : Cell := .onGround { kind := 100 }
    let w := ((World.empty {}).run
      [.setCell ⟨0, 0, 7⟩ floor .merge, .setCell ⟨1, 0, 7⟩ floor .merge,
        .setCell ⟨2, 0, 7⟩ floor .merge, .setCell ⟨0, 1, 7⟩ floor .merge,
        .setCell ⟨1, 1, 7⟩ floor .merge, .setCell ⟨2, 1, 7⟩ floor .merge,
        .place .creature ⟨1, 0, 7⟩]).1
    let w' := ((World.empty {}).run
      [.setCell ⟨9, 0, 7⟩ floor .merge, .setCell ⟨1, 0, 6⟩ floor .merge,
        .place .player ⟨9, 0, 7⟩, .setCell ⟨2, 1, 7⟩ floor .merge,
        .setCell ⟨1, 1, 7⟩ floor .merge, .setCell ⟨0, 1, 7⟩ floor .merge,
        .setCell ⟨2, 0, 7⟩ floor .merge, .setCell ⟨1, 0, 7⟩ floor .merge,
        .setCell ⟨0, 0, 7⟩ floor .merge, .place .creature ⟨1, 0, 7⟩]).1
    let c : TargetCondition := ⟨⟨2, 0, 7⟩⟩
    let params : SearchParams :=
      { maxSearch := 2, minTarget := 0, maxTarget := 0, clearSight := false }
    let route : Route := ⟨[.south, .east, .east, .north], ⟨2, 0, 7⟩, 40⟩
    (fresh {}).InUse {} ∧
      (∀ p : Position, p.z = 7 → (params.maxSearch ≠ 0 → params.clearSight = false →
        Position.distanceX ⟨0, 0, 7⟩ p ≤ 2 ∧ Position.distanceY ⟨0, 0, 7⟩ p ≤ 2) →
        w.scene? p = w'.scene? p) ∧
      ∃ used report,
        (fresh {}).find w' .player ⟨9, 0, 7⟩ c.toPathCondition {} = some (used, report) ∧
        used.InUse {} ∧
        ((fresh {}).find w .player ⟨0, 0, 7⟩ c.toPathCondition params).bind (·.2.route) =
          some route ∧
        (used.find w' .player ⟨0, 0, 7⟩ c.toPathCondition params).bind (·.2.route) =
          some route := by
  intro floor w w' c params route
  have hf : (fresh {}).InUse {} := .created rfl
  have hfirst : ((fresh {}).find w' .player ⟨9, 0, 7⟩ c.toPathCondition {}).isSome = true := by
    decide +kernel
  obtain ⟨⟨used, report⟩, hfind⟩ := Option.isSome_iff_exists.mp hfirst
  have hused : used.InUse {} := hf.searched hfind
  have htable : ∀ x ∈ [0, 1, 2], ∀ y ∈ [0, 1, 2],
      w.scene? ⟨UInt16.ofNat x, UInt16.ofNat y, 7⟩ =
        w'.scene? ⟨UInt16.ofNat x, UInt16.ofNat y, 7⟩ := by decide +kernel
  have hscene : ∀ p : Position, p.z = 7 → (params.maxSearch ≠ 0 → params.clearSight = false →
      Position.distanceX ⟨0, 0, 7⟩ p ≤ 2 ∧ Position.distanceY ⟨0, 0, 7⟩ p ≤ 2) →
      w.scene? p = w'.scene? p := by
    rintro ⟨x, y, z⟩ hz hnear
    obtain ⟨hx, hy⟩ := hnear (by decide) rfl
    simp only [Position.distanceX, Position.distanceY, UInt16.reduceToNat] at hx hy
    have hcell := htable x.toNat (by simp; omega) y.toNat (by simp; omega)
    rw [UInt16.ofNat_toNat, UInt16.ofNat_toNat] at hcell
    obtain rfl : z = 7 := hz
    exact hcell
  have hroute : ((fresh {}).find w .player ⟨0, 0, 7⟩ c.toPathCondition params).bind
      (·.2.route) = some route := by decide +kernel
  have hsame := find_sameFloor hf hused .player ⟨0, 0, 7⟩ c params hscene
  have hroutes := congrArg (Option.bind · (·.1.route)) hsame
  rw [Option.bind_map, Option.bind_map] at hroutes
  exact ⟨hf, hscene, used, report, hfind, hused, hroute, hroutes.symm.trans hroute⟩

end Pathfinder

end TileWorld
