import TileWorld.Proofs.SearchBounds

/-!
# What a node leaves behind when it is closed

A turn closes the node that it selected, and no other, unless the search
ends with it (`Valid.closes_iff`). The node has looked at a row of its
neighbors only, those away from its parent. Yet when it is closed, the
search knows all its neighbors that the mover may enter, each at no more
than it costs by way of the node (`Pathfinder.closing_knows`): those that
were pruned are known by way of the parent, which was closed before.
-/

namespace TileWorld

/-- The neighbor of a node in a direction has a node of its own if the mover
may enter it, is found there, and costs no more than by way of the given
node: its cost, the step and the cell, cut off at the largest word. -/
def Quest.Knows (q : Quest) (p : Pool) (n : Node) (d : Direction) : Prop :=
  ∀ (next : Position) (cell : Cell), (n.position q.start.z).step? d = some next →
    q.walkable? next = some cell →
    (q.params.maxSearch ≠ 0 → q.start.distanceX next ≤ q.params.maxSearch.toNat ∧
      q.start.distanceY next ≤ q.params.maxSearch.toNat) →
    (q.params.keepDistance = true → q.condition.isInRange q.start next q.params = true) →
    ∃ (j : NodeIndex) (m : Node), p.find? next.x next.y = some j ∧ p.nodes[j]? = some m ∧
      m.f.toNat ≤ min 4294967295 (n.f.toNat +
        (if d.isDiagonal then q.config.diagonalCost else q.config.straightCost).toNat +
        q.charge next cell)

namespace Quest

variable {q : Quest} {p : Pool} {n : Node} {d : Direction}

theorem isAllowed_iff {next : Position} :
    q.isAllowed next = true ↔
      (q.params.maxSearch ≠ 0 → q.start.distanceX next ≤ q.params.maxSearch.toNat ∧
        q.start.distanceY next ≤ q.params.maxSearch.toNat) ∧
      (q.params.keepDistance = true → q.condition.isInRange q.start next q.params = true) := by
  simp only [isAllowed, Bool.and_eq_true, Bool.or_eq_true, decide_eq_true_eq, Bool.not_eq_true',
    ← Bool.not_eq_true]
  grind

theorem Covers.knows (h : q.Covers p n d) (hp : p.WellFormed) : q.Knows p n d := by
  intro next cell hstep hcell hlimit hrange
  have henter : q.mayEnter next = true := by
    rw [mayEnter, hcell, isAllowed_iff.mpr ⟨hlimit, hrange⟩]
    rfl
  obtain ⟨j, m, hm, rfl, hf⟩ := h next hstep henter
  refine ⟨j, m, hp.find?_eq_some_iff.mpr ⟨m, hm, rfl, rfl⟩, hm, ?_⟩
  rw [UInt32.le_iff_toNat_le, toNat_arrivalCost,
    q.entryCost_of_cell (Option.filter_eq_some_iff.mp hcell).1, directionCost_eq] at hf
  exact hf

end Quest

namespace Search

variable {q : Quest} {s : Search}

/-- The turn to come closes the node. -/
def Closes (q : Quest) (s : Search) (i : NodeIndex) : Prop :=
  i ∈ s.pool.frontier ∧ i ∉ (run q 1 s).pool.frontier

theorem run_one_of_select {current : NodeIndex} (h : s.select? q = some current) :
    run q 1 s = s.turn q current :=
  run_succ h 0

namespace Valid

/-- A turn closes the node that it selects if the search goes on. -/
theorem closes_iff (h : s.Valid q) {i : NodeIndex} :
    s.Closes q i ↔ s.select? q = some i ∧ (Search.run q 1 s).finished = false ∧
      (Search.run q 1 s).halt = none := by
  cases hselect : s.select? q with
  | none =>
      rw [Closes, run_of_over hselect]
      exact ⟨fun hcloses => absurd hcloses.1 hcloses.2, nofun⟩
  | some current =>
      obtain ⟨-, -, -, hbest⟩ := select?_eq_some hselect
      obtain ⟨hopen, n, hn, -⟩ := Pool.best?_eq_some hbest
      obtain ⟨hask, hprogress, -⟩ := h.expandAll hselect hn
      rw [Closes, run_one_of_select hselect]
      rcases turn_cases q hn with
        ⟨hdone, hturn⟩ | ⟨hdone, ⟨hhalt, hturn⟩ | ⟨hgoes, hturn⟩⟩ <;> rw [hturn]
      · -- an exact match stays open
        exact ⟨fun hcloses => absurd hcloses.1 hcloses.2,
          fun hgoes => nomatch hdone.symm.trans hgoes.2.1⟩
      · exact ⟨fun hcloses => absurd (hprogress.pool.opened i hcloses.1) hcloses.2,
          fun hgoes => absurd hgoes.2.2 hhalt⟩
      · have hnodup := hprogress.grows.pool.frontier_nodup
        rw [Pool.frontier_close, hnodup.mem_erase_iff, Option.some.injEq]
        constructor
        · rintro ⟨hi, hclosed⟩
          have hi' := hprogress.pool.opened i hi
          refine ⟨?_, hprogress.finished.trans hdone, hgoes⟩
          by_contra hother
          exact hclosed ⟨fun heq => hother heq.symm, hi'⟩
        · rintro ⟨rfl, -⟩
          exact ⟨hopen, fun hclosed => hclosed.1 rfl⟩

/-- What a node was when it was selected it still is when it is closed. -/
theorem closes_kept (h : s.Valid q) {i : NodeIndex} (hi : s.Closes q i) {n : Node}
    (hn : s.pool.nodes[i]? = some n) : (Search.run q 1 s).pool.nodes[i]? = some n := by
  obtain ⟨hselect, -⟩ := h.closes_iff.mp hi
  rw [run_one_of_select hselect, ← hn]
  exact (h.turn_keeps hselect hn).kept _ (List.mem_cons_self ..)

theorem closes_knows (h : s.Valid q) {i : NodeIndex} (hi : s.Closes q i) {n : Node}
    (hn : s.pool.nodes[i]? = some n) {d : Direction}
    (hd : Expandable d (i == 0) q.params.allowDiagonal) : q.Knows (Search.run q 1 s).pool n d := by
  have hnext := (h.run 1).sound
  exact (hnext.covers i n (h.closes_kept hi hn) hi.2 d hd).knows hnext.grows.pool

/-- The start looks at all its neighbors. Any other node looks at the row of
the side on which its parent lies. -/
theorem row_of_select (h : s.Valid q) {i : NodeIndex} (hselect : s.select? q = some i) {n : Node}
    (hn : s.pool.nodes[i]? = some n) :
    (i = 0 ∧ s.pool.neighbors n q.params.allowDiagonal = allNeighbors) ∨
    i ≠ 0 ∧ ∃ j m side, n.parent = some j ∧ s.pool.nodes[j]? = some m ∧
      (n.position q.start.z).step? side = some (m.position q.start.z) ∧
      s.pool.neighbors n q.params.allowDiagonal =
        (awayFrom (parentSide side.offset.1 side.offset.2 q.params.allowDiagonal)).take
          (if q.params.allowDiagonal then 5 else 3) := by
  obtain ⟨hask, -⟩ := h.expandAll hselect hn
  refine (neighbors_cases hask.grows hn).imp_right ?_
  rintro ⟨hi, j, -, m, c, side, hparent, hm, hleads, ⟨hx, hy, -⟩, hrow⟩
  obtain ⟨hcx, hcy, -⟩ := Position.step?_eq_some_iff.mp hleads.step
  refine ⟨hi, j, m, side, hparent, hm, ?_, hrow⟩
  rw [Position.step?_eq_some_iff, hx, hy]
  exact ⟨by omega, by omega, rfl⟩

end Valid

end Search

/-- A search closes the nodes that it selects, unless it ends with them.
When it closes one, all neighbors of the node that the mover may enter have
nodes of their own and cost no more than by way of the node. This holds in
all directions for the start and where diagonal steps are allowed, else in
the straight ones, whichever row of offsets the node has looked at. -/
theorem Pathfinder.closing_knows {config : SearchConfig} {f : Pathfinder} (hf : f.InUse config)
    (w : World) (mover : Occupant) (start : Position) (condition : PathCondition)
    (params : SearchParams) :
    let q : Quest := ⟨config, w, mover, start, condition, params⟩
    let after (turns : Nat) : Search :=
      Search.run q turns { pool := f.pool.restart start.x start.y }
    ∀ (turns : Nat) (i : NodeIndex),
      ((after turns).Closes q i ↔ (after turns).select? q = some i ∧
        (after (turns + 1)).finished = false ∧ (after (turns + 1)).halt = none) ∧
      ∀ n : Node, (after turns).Closes q i → (after turns).pool.nodes[i]? = some n →
        (after (turns + 1)).pool.nodes[i]? = some n ∧
        ((i = 0 ∧ (after turns).pool.neighbors n params.allowDiagonal = allNeighbors) ∨
          i ≠ 0 ∧ ∃ j m side, n.parent = some j ∧ (after turns).pool.nodes[j]? = some m ∧
            (n.position start.z).step? side = some (m.position start.z) ∧
            (after turns).pool.neighbors n params.allowDiagonal =
              (awayFrom (parentSide side.offset.1 side.offset.2 params.allowDiagonal)).take
                (if params.allowDiagonal then 5 else 3)) ∧
        ∀ d : Direction, (d.isDiagonal = true → i = 0 ∨ params.allowDiagonal = true) →
          q.Knows (after (turns + 1)).pool n d := by
  intro q after turns i
  obtain ⟨rfl, hready⟩ := hf.ready
  have hvalid : (after turns).Valid q := (hready.valid_restart q).run turns
  have hnext : after (turns + 1) = Search.run q 1 (after turns) := Search.run_add ..
  rw [hnext]
  refine ⟨hvalid.closes_iff, fun n hcloses hn => ⟨hvalid.closes_kept hcloses hn,
    hvalid.row_of_select (hvalid.closes_iff.mp hcloses).1 hn, fun d hd => ?_⟩⟩
  refine hvalid.closes_knows hcloses hn fun hdiagonal => ?_
  exact (hd hdiagonal).imp_left beq_iff_eq.mpr

/-- On an open field the southern neighbor of the start is closed second. It
does not look to the northeast, but the cell there is known by then: the
start has reached it at a cost of 10, less than 35 by this way. -/
theorem Pathfinder.closing_knows_pruned_corner :
    let config : SearchConfig := {}
    let floor : Cell := .onGround { kind := 100 }
    let w := ((World.empty {}).run
      [.setCell ⟨10, 10, 7⟩ floor .merge, .setCell ⟨11, 10, 7⟩ floor .merge,
        .setCell ⟨12, 10, 7⟩ floor .merge, .setCell ⟨10, 11, 7⟩ floor .merge,
        .setCell ⟨11, 11, 7⟩ floor .merge, .setCell ⟨12, 11, 7⟩ floor .merge]).1
    let condition := TargetCondition.toPathCondition ⟨⟨13, 9, 7⟩⟩
    let params : SearchParams := { minTarget := 1, maxTarget := 1, clearSight := false }
    let q : Quest := ⟨config, w, .player, ⟨10, 10, 7⟩, condition, params⟩
    let after (turns : Nat) : Search :=
      Search.run q turns { pool := (fresh config).pool.restart 10 10 }
    (fresh config).InUse config ∧ (after 1).Closes q 1 ∧
      (after 1).pool.nodes[1]? = some ⟨10, 11, 10, some 0⟩ ∧
      Direction.northEast.offset ∉ (after 1).pool.neighbors ⟨10, 11, 10, some 0⟩ true ∧
      ∃ (j : NodeIndex) (m : Node), (after 2).pool.find? 11 10 = some j ∧
        (after 2).pool.nodes[j]? = some m ∧ m.f.toNat ≤ 35 := by
  intro config floor w condition params q after
  have hf : (fresh config).InUse config := .created rfl
  have hcloses : (after 1).Closes q 1 := ⟨by decide +kernel, by decide +kernel⟩
  have hn : (after 1).pool.nodes[1]? = some ⟨10, 11, 10, some 0⟩ := by decide +kernel
  have hwalkable : q.walkable? ⟨11, 10, 7⟩ = some floor := by decide +kernel
  have hcost : q.charge ⟨11, 10, 7⟩ floor = 0 := by decide +kernel
  obtain ⟨-, -, hknows⟩ :=
    (closing_knows hf w .player ⟨10, 10, 7⟩ condition params 1 1).2 _ hcloses hn
  obtain ⟨j, m, hj, hm, hle⟩ := hknows .northEast (fun _ => Or.inr rfl) ⟨11, 10, 7⟩ floor
    (by decide +kernel) hwalkable (fun h => absurd rfl h) nofun
  rw [hcost] at hle
  exact ⟨hf, hcloses, hn, by decide +kernel, j, m, hj, hm, hle⟩

end TileWorld
