import TileWorld.Proofs.CostOverflow
import TileWorld.Proofs.SearchCompleteness

/-!
# Searches under larger limits

The room of a pool is looked at only where a node would be added, and the
budget only before a selection. So a search under larger limits, at the
same costs, takes the same turns as long as the smaller one goes on
(`turn_resize`), and asks the same questions in the turn in which the
smaller one runs out of nodes (`Ahead`). From there on it can only ask
more. An exact match of the smaller search ends the larger one in the same
state, and any other match of it is one that the larger search has to
surpass (`find_under_larger_limits`), unless the larger search comes upon
an extra cost that is no word, and fails where the smaller one has ended.
-/

namespace TileWorld

/-- The costs of another configuration under limits that are not smaller. -/
structure SearchConfig.Relaxes (larger config : SearchConfig) : Prop where
  nodeCapacity : config.nodeCapacity ≤ larger.nodeCapacity
  closedBudget : config.closedBudget ≤ larger.closedBudget
  straightCost : larger.straightCost = config.straightCost
  diagonalCost : larger.diagonalCost = config.diagonalCost
  blockingCost : larger.blockingCost = config.blockingCost
  hazardCost : larger.hazardCost = config.hazardCost

/-- The quest under another configuration. -/
def Quest.under (q : Quest) (config : SearchConfig) : Quest :=
  { q with config }

/-- The pool with room for another number of nodes. -/
def Pool.resize (p : Pool) (capacity : Nat) : Pool :=
  { p with capacity }

/-- The search with room for another number of nodes. -/
def Search.resize (s : Search) (capacity : Nat) : Search :=
  { s with pool := s.pool.resize capacity }

/-! ## What does not depend on the limits -/

namespace Quest

variable {q : Quest} {larger : SearchConfig}

theorem arrivalCost?_under (h : larger.Relaxes q.config) :
    (q.under larger).arrivalCost? = q.arrivalCost? := by
  funext n step p cell
  unfold arrivalCost? cellCost? blockingCost hazardCost under
  rw [h.blockingCost, h.hazardCost]

theorem stepCost_under (h : larger.Relaxes q.config) : (q.under larger).stepCost = q.stepCost := by
  funext dx dy
  unfold stepCost under
  rw [h.straightCost, h.diagonalCost]

end Quest

namespace Pool

variable {p : Pool} {capacity : Nat}

@[simp]
theorem nodes_resize : (p.resize capacity).nodes = p.nodes := rfl

theorem reopen_resize (i parent : NodeIndex) (f : UInt32) :
    (p.resize capacity).reopen i parent f = (p.reopen i parent f).resize capacity := by
  have hopen : (p.resize capacity).isOpen i = p.isOpen i := rfl
  unfold reopen
  rw [hopen]
  cases p.isOpen i with
  | true => rfl
  | false => rfl

theorem close_resize (i : NodeIndex) :
    (p.resize capacity).close i = (p.close i).resize capacity := by
  have hopen : (p.resize capacity).isOpen i = p.isOpen i := rfl
  unfold close
  rw [hopen]
  cases p.isOpen i with
  | true => rfl
  | false => rfl

theorem stepsTo_resize (links : Nat) (n : Node) (later : List Direction) :
    (p.resize capacity).stepsTo links n later = p.stepsTo links n later := by
  induction links generalizing n later with
  | zero => rfl
  | succ links ih =>
      rw [stepsTo, stepsTo, nodes_resize]
      cases n.parent.bind (p.nodes[·]?) with
      | none => rfl
      | some parent => exact ih ..

theorem route?_resize (i : NodeIndex) (z : UInt8) :
    (p.resize capacity).route? i z = p.route? i z := by
  unfold route?
  simp only [nodes_resize, stepsTo_resize]

theorem isFull_resize (hroom : p.isFull = false) (hle : p.capacity ≤ capacity) :
    (p.resize capacity).isFull = false := by
  simp only [isFull, Bool.or_eq_false_iff, decide_eq_false_iff_not, Nat.not_le] at hroom ⊢
  exact ⟨Nat.lt_of_lt_of_le hroom.1 hle, hroom.2⟩

theorem restart_resize {p' : Pool} {x y : UInt16} (hroom : (empty p.capacity).isFull = false)
    (hle : p.capacity ≤ p'.capacity) :
    p'.restart x y = (p.restart x y).resize p'.capacity := by
  have hroom' : (empty p'.capacity).isFull = false := isFull_resize hroom hle
  unfold restart
  dsimp only
  rw [hroom, hroom']
  rfl

end Pool

namespace Search

variable {q : Quest} {larger : SearchConfig} {s : Search} {current : NodeIndex} {n : Node}

@[simp]
theorem pool_resize (capacity : Nat) : (s.resize capacity).pool = s.pool.resize capacity := rfl

@[simp]
theorem finished_resize (capacity : Nat) : (s.resize capacity).finished = s.finished := rfl

@[simp]
theorem halt_resize (capacity : Nat) : (s.resize capacity).halt = s.halt := rfl

theorem isSpent_resize (h : larger.Relaxes q.config) (hbudget : s.isSpent q = false)
    (capacity : Nat) : (s.resize capacity).isSpent (q.under larger) = false := by
  simp only [isSpent, Bool.and_eq_false_iff, decide_eq_false_iff_not, Nat.not_le] at hbudget ⊢
  exact hbudget.imp_right fun hlt => Nat.lt_of_lt_of_le hlt h.closedBudget

theorem select?_resize (h : larger.Relaxes q.config) (hselect : s.select? q = some current)
    (capacity : Nat) : (s.resize capacity).select? (q.under larger) = some current := by
  obtain ⟨hfinished, hgoing, hbudget, hbest⟩ := select?_eq_some hselect
  rw [select?, finished_resize, hfinished, halt_resize, hgoing, isSpent_resize h hbudget]
  exact hbest

/-! ## Turns while there is room -/

section Expanding

variable (h : larger.Relaxes q.config)

include h

theorem reach_resize (step : UInt32) (next : Position)
    (hle : s.pool.capacity ≤ larger.nodeCapacity) :
    (s.reach q current n step next).halt = some .full ∨
      (s.resize larger.nodeCapacity).reach (q.under larger) current n step next =
        (s.reach q current n step next).resize larger.nodeCapacity := by
  have hfind : (s.pool.resize larger.nodeCapacity).find? next.x next.y =
    s.pool.find? next.x next.y := rfl
  have hcell : (q.under larger).world.cell? next = q.world.cell? next := rfl
  have hwalkable : (q.under larger).walkable? next = q.walkable? next := rfl
  unfold reach
  rw [pool_resize, hfind, Pool.nodes_resize, hcell, hwalkable, Quest.arrivalCost?_under h]
  cases s.pool.find? next.x next.y with
  | some known =>
      refine Or.inr ?_
      dsimp only
      split
      · rfl
      · split
        · exact congrArg (fun pool => { s with pool }) (Pool.reopen_resize ..)
        · rfl
  | none =>
      cases q.walkable? next with
      | none => exact Or.inr rfl
      | some cell =>
          dsimp only
          split
          · exact Or.inr rfl
          · cases hfull : s.pool.isFull with
            | true => exact Or.inl rfl
            | false =>
                rw [Pool.isFull_resize hfull hle]
                exact Or.inr rfl

theorem examine_resize (offset : Int × Int) (hle : s.pool.capacity ≤ larger.nodeCapacity) :
    (s.examine q current n offset).halt = some .full ∨
      (s.resize larger.nodeCapacity).examine (q.under larger) current n offset =
        (s.examine q current n offset).resize larger.nodeCapacity := by
  have hstart : (q.under larger).start = q.start := rfl
  have hallowed : (q.under larger).isAllowed = q.isAllowed := rfl
  unfold examine
  rw [hstart, hallowed, Quest.stepCost_under h]
  dsimp only
  cases (n.position q.start.z).offset? offset.1 offset.2 with
  | none => exact Or.inr rfl
  | some next =>
      cases hin : q.isAllowed next with
      | false =>
          dsimp only
          rw [hin]
          exact Or.inr rfl
      | true =>
          dsimp only
          rw [hin]
          exact reach_resize (s := { s with examined := s.examined + 1 }) h _ next hle

theorem expand_resize (offsets : List (Int × Int))
    (hle : s.pool.capacity ≤ larger.nodeCapacity) :
    (s.expand q current n offsets).halt = some .full ∨
      (s.resize larger.nodeCapacity).expand (q.under larger) current n offsets =
        (s.expand q current n offsets).resize larger.nodeCapacity := by
  induction offsets generalizing s with
  | nil => exact Or.inr rfl
  | cons offset rest ih =>
      have hcapacity := (examine_spends q s current n offset).capacity
      rw [expand, expand]
      rcases examine_resize h offset hle with hfull | hsame
      · refine Or.inl ?_
        rw [if_pos (Option.isSome_of_eq_some hfull)]
        exact hfull
      · rw [hsame, halt_resize]
        cases (s.examine q current n offset).halt with
        | some halt => exact Or.inr rfl
        | none => exact ih (hcapacity ▸ hle)

/-- With more room a turn is the same, unless there is no room for it in
the smaller pool. -/
theorem turn_resize (hn : s.pool.nodes[current]? = some n)
    (hle : s.pool.capacity ≤ larger.nodeCapacity) :
    (s.turn q current).halt = some .full ∨
      (s.resize larger.nodeCapacity).turn (q.under larger) current =
        (s.turn q current).resize larger.nodeCapacity := by
  have hn' : (s.resize larger.nodeCapacity).pool.nodes[current]? = some n := hn
  have hasked : ((s.resize larger.nodeCapacity).ask (q.under larger) current n).finished =
    (s.ask q current n).finished := rfl
  rw [turn_eq q hn, turn_eq (q.under larger) hn', hasked]
  cases (s.ask q current n).finished with
  | true => exact Or.inr rfl
  | false =>
      have hexpanded : (s.expandAll q current n).halt = some .full ∨
          (s.resize larger.nodeCapacity).expandAll (q.under larger) current n =
            (s.expandAll q current n).resize larger.nodeCapacity :=
        expand_resize (s := s.ask q current n) h _ hle
      rcases hexpanded with hfull | hsame
      · refine Or.inl ?_
        rw [hfull]
        exact hfull
      · rw [hsame, halt_resize]
        cases (s.expandAll q current n).halt with
        | some halt => exact Or.inr rfl
        | none => exact Or.inr (congrArg (fun pool => { s.expandAll q current n with pool })
            (Pool.close_resize current))

end Expanding

/-! ## Runs side by side -/

/-- How a search stands to one under larger limits: they differ in their
room alone, or the smaller one has run out of it, with the same questions on
record. -/
def Ahead (larger : SearchConfig) (s s' : Search) : Prop :=
  s' = s.resize larger.nodeCapacity ∨
    s.halt = some .full ∧ s.finished = false ∧ s'.visits = s.visits

section Running

variable (h : larger.Relaxes q.config) (hvalid : s.Valid q) (haccounted : s.Accounted q)

include h hvalid haccounted

theorem turn_ahead {s' : Search} (hsame : s' = s.resize larger.nodeCapacity)
    (hvalid' : s'.Valid (q.under larger)) (hselect : s.select? q = some current)
    (hn : s.pool.nodes[current]? = some n) :
    (s.turn q current).Ahead larger (s'.turn (q.under larger) current) := by
  subst hsame
  have hselect' := select?_resize h hselect larger.nodeCapacity
  have hkeeps := hvalid.turn_keeps hselect hn
  have hkeeps' := hvalid'.turn_keeps hselect' hn
  rcases turn_resize h hn (haccounted.capacity ▸ h.nodeCapacity) with hfull | hsame
  · refine Or.inr ⟨hfull, hkeeps.finished.trans ?_, hkeeps'.visits.trans hkeeps.visits.symm⟩
    rcases turn_cases q hn with ⟨-, hturn⟩ | ⟨hunfinished, -⟩
    · -- an exact match is not expanded, and takes no room
      rw [hturn] at hfull
      exact nomatch (select?_eq_some hselect).2.1.symm.trans hfull
    · exact hunfinished
  · exact Or.inl hsame

/-- For every number of turns of a search there is one that takes the
larger search as far. -/
theorem run_ahead {s' : Search} (hsame : s' = s.resize larger.nodeCapacity)
    (hvalid' : s'.Valid (q.under larger)) (turns : Nat) :
    ∃ turns', (run q turns s).Ahead larger (run (q.under larger) turns' s') := by
  refine (run_induction (P := fun t => t.Valid q ∧ t.Accounted q ∧
    ∃ turns', t.Ahead larger (run (q.under larger) turns' s')) ?_
    ⟨hvalid, haccounted, 0, Or.inl hsame⟩ turns).2.2
  rintro t current n ⟨hvalid, haccounted, turns', hahead⟩ hselect hn
  refine ⟨hvalid.turn hselect, haccounted.turn hvalid hselect hn, turns' + 1, ?_⟩
  rcases hahead with hsame | ⟨hfull, -⟩
  · have hselect' : (run (q.under larger) turns' s').select? (q.under larger) = some current :=
      hsame ▸ select?_resize h hselect _
    rw [run_add, run_succ hselect', run]
    exact turn_ahead h hvalid haccounted hsame (hvalid'.run turns') hselect hn
  · exact (Option.some_ne_none _ (hfull.symm.trans (select?_eq_some hselect).2.1)).elim

end Running

/-! ## Matches that a search has to surpass -/

variable {c : TargetCondition}

theorem Judged.exists_match (h : s.Judged c q) {i : NodeIndex} (hfound : s.found = some i) :
    ∃ v ∈ s.visits, v.node = i ∧ c.Matches q.world q.start v.position q.params ∧
      (s.finished = false → 0 < v.position.chebyshev c.target) := by
  cases hfinished : s.finished with
  | true =>
      obtain ⟨v, hv, hfound', hexact⟩ := h.exact hfinished
      exact ⟨v, hv, Option.some.inj (hfound'.symm.trans hfound), hexact.toMatches, nofun⟩
  | false =>
      obtain ⟨hpos, v, hvi, hforemost⟩ := (h.ranking hfinished).matched i hfound
      have hdistance := hforemost.distance
      exact ⟨v, hforemost.mem, hvi, hforemost.matching, fun _ => by omega⟩

/-- Away from the target, a match that was asked about is surpassed by the
one that a search ends with, or equalled. -/
theorem Judged.exists_farther (h : s.Judged c q) (hone : q.params.maxTarget.toInt ≠ 1) {v : Visit}
    (hv : v ∈ s.visits) (hmatches : c.Matches q.world q.start v.position q.params)
    (haway : 0 < v.position.chebyshev c.target) :
    ∃ u ∈ s.visits, s.found = some u.node ∧
      v.position.chebyshev c.target ≤ u.position.chebyshev c.target := by
  cases hfinished : s.finished with
  | true =>
      obtain ⟨u, hu, hfound, hexact⟩ := h.exact hfinished
      have hedge := hexact.exact.resolve_right hone
      have hfar := hmatches.far
      exact ⟨u, hu, hfound, by omega⟩
  | false =>
      have hranking := h.ranking hfinished
      have hle := hranking.farthest v hv hmatches
      cases hfound : s.found with
      | none =>
          have hzero := hranking.unmatched hfound
          omega
      | some i =>
          obtain ⟨-, u, rfl, hforemost⟩ := hranking.matched i hfound
          have hdistance := hforemost.distance
          exact ⟨u, hforemost.mem, rfl, by omega⟩

end Search

namespace Pathfinder

variable {f f' : Pathfinder}

theorem Ready.restart_resize (hready : f.Ready) (hready' : f'.Ready)
    (h : f'.config.Relaxes f.config) (x y : UInt16) :
    f'.pool.restart x y = (f.pool.restart x y).resize f'.config.nodeCapacity := by
  rw [← hready'.capacity]
  refine Pool.restart_resize hready.isFull_empty ?_
  rw [hready.capacity, hready'.capacity]
  exact h.nodeCapacity

/-- Under larger limits a search asks all questions of the smaller one
first, and stays at an exact match if that has met one. -/
theorem Ready.search_under (hready : f.Ready) (hready' : f'.Ready)
    (h : f'.config.Relaxes f.config) {q : Quest} (hq : q.config = f.config) :
    (f.search q).visits <:+ (f'.search (q.under f'.config)).visits ∧
      ((f.search q).finished = true →
        f'.search (q.under f'.config) = (f.search q).resize f'.config.nodeCapacity) := by
  let q' := q.under f'.config
  let start' : Search := { pool := f'.pool.restart q.start.x q.start.y }
  have hvalid' : start'.Valid q' := hready'.valid_restart q'
  have hstart' : start' = Search.resize { pool := f.pool.restart q.start.x q.start.y }
      f'.config.nodeCapacity :=
    congrArg (fun pool => ({ pool } : Search)) (hready.restart_resize hready' h ..)
  obtain ⟨turns', hahead⟩ : ∃ turns', (f.search q).Ahead f'.config (Search.run q' turns' start') :=
    Search.run_ahead (hq ▸ h) (hready.valid_restart q)
      (Search.accounted_restart (hq ▸ hready.capacity)) hstart' hvalid' f.config.nodeCapacity
  -- the larger search is over, so that more turns leave it as it is
  have hlater : f'.search q' =
      Search.run q' f'.config.nodeCapacity (Search.run q' turns' start') := by
    rw [← Search.run_add, Nat.add_comm, Search.run_add]
    exact (Search.run_of_over (hready'.search (q := q') rfl).2.2 turns').symm
  have hfollows := (hvalid'.run turns').follows_run f'.config.nodeCapacity
  rw [← hlater] at hfollows
  rcases hahead with hsame | ⟨-, hunfinished, hvisits⟩
  · rw [hsame] at hlater hfollows
    refine ⟨hfollows.visits, fun hfinished => hlater.trans (Search.run_of_over ?_ _)⟩
    rw [Search.select?, Search.finished_resize, hfinished]
    rfl
  · exact ⟨hvisits ▸ hfollows.visits,
      fun hfinished => absurd hfinished (Bool.eq_false_iff.mp hunfinished)⟩

variable {w : World} {mover : Occupant} {start : Position} {params : SearchParams}
  {c : TargetCondition} {route : Route}

theorem hasValidFloor_of_find {condition : PathCondition}
    (h : (f.find w mover start condition params).bind (·.2.route) = some route) :
    start.hasValidFloor = true := by
  unfold find at h
  cases hfloor : start.hasValidFloor with
  | true => rfl
  | false =>
      rw [hfloor] at h
      cases h

/-- A search that has an answer leads to the node matched last. -/
theorem Ready.exists_route (hready : f.Ready) (hstart : start.hasValidFloor = true)
    {condition : PathCondition} {g : Pathfinder} {report : SearchReport}
    (hfind : f.find w mover start condition params = some (g, report)) {v : Visit} :
    let s := f.search ⟨f.config, w, mover, start, condition, params⟩
    v ∈ s.visits → s.found = some v.node →
      ∃ route, report.route = some route ∧ v.position = route.destination := by
  intro s hv hfound
  obtain ⟨-, route, -, -, hroute, hposition, -⟩ := (hready.search rfl).1.sound.exists_route hv
  refine ⟨route, ?_, hposition⟩
  rw [(find_eq_some hstart hfind).2.2]
  exact Option.bind_eq_some_iff.mpr ⟨v.node, hfound, hroute⟩

/-- Larger limits at the same costs do not make an answer worse. A route to
an exact match stays the same, and for any other the route found lies at
least as far from the target, if there is an answer. There is one if the
extra costs together fit a word. -/
theorem find_under_larger_limits {config larger : SearchConfig} (h : larger.Relaxes config)
    (hf : f.InUse config) (hf' : f'.InUse larger)
    (hroute : (f.find w mover start c.toPathCondition params).bind (·.2.route) = some route) :
    let answer := f'.find w mover start c.toPathCondition params
    ((route.destination.chebyshev c.target : Int) = params.maxTarget.toInt ∨
      params.maxTarget.toInt = 1 → answer.bind (·.2.route) = some route) ∧
    (∀ (g : Pathfinder) (report : SearchReport), answer = some (g, report) →
      ∃ route', report.route = some route' ∧
        route.destination.chebyshev c.target ≤ route'.destination.chebyshev c.target) ∧
    (config.blockingCost.toNat + config.hazardCost.toNat ≤ 4294967295 → answer.isSome = true) := by
  intro answer
  have hanswers : config.blockingCost.toNat + config.hazardCost.toNat ≤ 4294967295 →
      answer.isSome = true := by
    intro hfits
    rw [← h.blockingCost, ← h.hazardCost] at hfits
    exact hf'.isSome_find hfits w mover start c.toPathCondition params
  obtain ⟨rfl, hready⟩ := hf.ready
  obtain ⟨rfl, hready'⟩ := hf'.ready
  let q : Quest := ⟨f.config, w, mover, start, c.toPathCondition, params⟩
  let q' := q.under f'.config
  have hstart := hasValidFloor_of_find hroute
  obtain ⟨⟨g, report⟩, hfind, hroute⟩ := Option.bind_eq_some_iff.mp hroute
  obtain ⟨hword, -, hreport⟩ := find_eq_some hstart hfind
  have hjudged : (f.search q).Judged c q := hready.judged rfl
  have hjudged' : (f'.search q').Judged c q' := hready'.judged rfl
  obtain ⟨hvisits, hsame⟩ := hready.search_under hready' h (q := q) rfl
  obtain ⟨i, hi, -⟩ := Option.bind_eq_some_iff.mp (hreport ▸ hroute)
  obtain ⟨v, hv, rfl, hmatches, haway⟩ := hjudged.exists_match hi
  obtain ⟨route, hroute', hposition⟩ := hready.exists_route hstart hfind hv hi
  obtain rfl := Option.some.inj (hroute'.symm.trans hroute)
  cases hfinished : (f.search q).finished with
  | true =>
      have hidentical : answer.bind (·.2.route) = some route := by
        have hword' : (f'.search q').halt ≠ some .overflow := by
          rw [hsame hfinished]
          exact hword
        show (f'.find w mover start c.toPathCondition params).bind _ = _
        rw [← hroute, hreport, f'.find_of_validFloor w mover hstart]
        show (if (f'.search q').halt = some .overflow then none else _ : Option _).bind _ = _
        rw [if_neg hword', Option.bind_some]
        show (f'.search q').found.bind (fun i => (f'.search q').pool.route? i start.z) = _
        rw [hsame hfinished]
        exact congrArg ((f.search q).found.bind ·) (funext fun i => Pool.route?_resize ..)
      refine ⟨fun _ => hidentical, fun g' report' hfind' => ⟨route, ?_, Nat.le_refl _⟩, hanswers⟩
      rw [hfind'] at hidentical
      exact hidentical
  | false =>
      have hinexact := (hjudged.ranking hfinished).inexact v hv
      have hone : params.maxTarget.toInt ≠ 1 := fun hone => hinexact ⟨hmatches, Or.inr hone⟩
      refine ⟨fun hexact => absurd ⟨hmatches, hposition ▸ hexact⟩ hinexact,
        fun g' report' hfind' => ?_, hanswers⟩
      obtain ⟨u, hu, hfound, hfarther⟩ :=
        hjudged'.exists_farther hone (hvisits.subset hv) hmatches (haway hfinished)
      obtain ⟨route', hanswer, hposition'⟩ := hready'.exists_route hstart hfind' hu hfound
      refine ⟨route', hanswer, ?_⟩
      rw [← hposition, ← hposition']
      exact hfarther

/-- In a corridor three nodes are enough for a route to the near edge of
the band only. -/
theorem find_under_larger_limits_corridor :
    let floor : Cell := .onGround { kind := 102 }
    let w := ((World.empty {}).run
      [.setCell ⟨7, 5, 7⟩ floor .merge, .setCell ⟨8, 5, 7⟩ floor .merge,
        .setCell ⟨9, 5, 7⟩ floor .merge, .setCell ⟨10, 5, 7⟩ floor .merge]).1
    let c : TargetCondition := ⟨⟨10, 5, 7⟩⟩
    let params : SearchParams := { minTarget := 2, maxTarget := 4, clearSight := false }
    let config : SearchConfig := { nodeCapacity := 3 }
    let larger : SearchConfig := {}
    let route : Route := ⟨[.west], ⟨8, 5, 7⟩, 10⟩
    larger.Relaxes config ∧ (fresh config).InUse config ∧ (fresh larger).InUse larger ∧
      ((fresh config).find w .creature ⟨9, 5, 7⟩ c.toPathCondition params).bind (·.2.route) =
        some route ∧
      ∃ g report route',
        (fresh larger).find w .creature ⟨9, 5, 7⟩ c.toPathCondition params = some (g, report) ∧
        report.route = some route' ∧ 2 ≤ route'.destination.chebyshev c.target := by
  intro floor w c params config larger route
  have hlarger : larger.Relaxes config := ⟨by decide, by decide, rfl, rfl, rfl, rfl⟩
  have hroute : ((fresh config).find w .creature ⟨9, 5, 7⟩ c.toPathCondition params).bind
      (·.2.route) = some route := by decide +kernel
  obtain ⟨-, hfarther, hanswers⟩ :=
    find_under_larger_limits hlarger (.created rfl) (.created rfl) hroute
  obtain ⟨⟨g, report⟩, hfind⟩ := Option.isSome_iff_exists.mp (hanswers (by decide))
  obtain ⟨route', hroute', hle⟩ := hfarther g report hfind
  exact ⟨hlarger, .created rfl, .created rfl, hroute, g, report, route', hfind, hroute', hle⟩

/-- With a creature in a fire at the far end of the corridor, whose two costs
of 2³¹ together are no word, three nodes are enough for a route, and more
nodes lead the search to the fire, where it fails. -/
theorem find_fails_under_larger_limits :
    let floor : Cell := .onGround { kind := 102 }
    let fire : Cell := .onGround { kind := 102, hazard := some .fire }
    let w := ((World.empty {}).run
      [.setCell ⟨5, 5, 7⟩ floor .merge, .setCell ⟨6, 5, 7⟩ fire .merge,
        .setCell ⟨7, 5, 7⟩ floor .merge, .setCell ⟨8, 5, 7⟩ floor .merge,
        .setCell ⟨9, 5, 7⟩ floor .merge, .setCell ⟨10, 5, 7⟩ floor .merge,
        .place .creature ⟨6, 5, 7⟩]).1
    let c : TargetCondition := ⟨⟨10, 5, 7⟩⟩
    let params : SearchParams := { minTarget := 2, maxTarget := 4, clearSight := false }
    let larger : SearchConfig := { blockingCost := 2147483648, hazardCost := 2147483648 }
    let config : SearchConfig := { larger with nodeCapacity := 3 }
    config.check = .ok () ∧ larger.check = .ok () ∧ larger.Relaxes config ∧
      ((fresh config).find w .creature ⟨9, 5, 7⟩ c.toPathCondition params).bind (·.2.route) =
        some ⟨[.west], ⟨8, 5, 7⟩, 10⟩ ∧
      ((fresh larger).find w .creature ⟨9, 5, 7⟩ c.toPathCondition params).isNone = true := by
  intro floor fire w c params larger config
  exact ⟨rfl, rfl, ⟨by decide, by decide, rfl, rfl, rfl, rfl⟩, by decide +kernel,
    by decide +kernel⟩

end Pathfinder

end TileWorld
