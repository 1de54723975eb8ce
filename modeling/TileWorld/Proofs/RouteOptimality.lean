import Mathlib.Order.Lattice.Nat
import TileWorld.Proofs.RouteSoundness

/-!
# Exact matches are reached at least cost

Closed nodes cover their neighbors, so a way that starts on a closed node
stays on closed nodes until it meets an open one
(`Sound.exists_of_trail`), and no open node is cheaper than one that was
selected (`Sound.le_routeCost`). An exact match is selected but never
closed. No admissible route to it, or to any other exact match, costs less
than the one that a search returns (`find_optimal`).
-/

namespace TileWorld

namespace Search.Sound

variable {q : Quest} {s : Search}

/-- A way from a known node leads to an open node, or through closed nodes
to its end. The node reached costs no more than the way. -/
theorem exists_of_trail (h : s.Sound q) {directions : List Direction} {j : NodeIndex} {m : Node}
    {cost : Nat} (hm : s.pool.nodes[j]? = some m) (hcost : m.f.toNat ≤ cost)
    {entered : List Position}
    (htrail : (m.position q.start.z).trail? directions = some entered)
    (hfirst : ∀ d ∈ directions.head?, Expandable d (j == 0) q.params.allowDiagonal)
    (hlater : ∀ d ∈ directions.tail, Expandable d false q.params.allowDiagonal)
    (henter : ∀ p ∈ entered, q.mayEnter p = true) :
    ∃ (k : NodeIndex) (l : Node), s.pool.nodes[k]? = some l ∧
      l.f.toNat ≤ cost + q.routeCost directions entered ∧
      (k ∈ s.pool.frontier ∨
        l.position q.start.z = (m.position q.start.z).endOf entered) := by
  induction directions generalizing j m cost entered with
  | nil =>
      obtain rfl := Option.some.inj htrail
      exact ⟨j, m, hm, hcost, Or.inr rfl⟩
  | cons d later ih =>
      by_cases hopen : j ∈ s.pool.frontier
      · exact ⟨j, m, hm, Nat.le_trans hcost (Nat.le_add_right ..), Or.inl hopen⟩
      obtain ⟨next, rest, hstep, hrest, rfl⟩ := Position.trail?_cons.mp htrail
      obtain ⟨k, l, hl, rfl, hf⟩ := h.covers j m hm hopen d (hfirst d rfl) next hstep
        (henter next (List.mem_cons_self ..))
      have hnext : l.f.toNat ≤ cost + ((q.directionCost d).toNat +
          q.entryCost (l.position q.start.z)) := by
        rw [UInt32.le_iff_toNat_le, q.toNat_arrivalCost] at hf
        have hcap := cap_le (m.f.toNat + (q.directionCost d).toNat +
          q.entryCost (l.position q.start.z))
        omega
      rw [q.routeCost_cons, ← Nat.add_assoc, Position.endOf_cons]
      refine ih hl hnext hrest ?_ ?_ (fun p hp => henter p (List.mem_cons_of_mem _ hp))
      · intro e he hdiagonal
        exact Or.inr ((hlater e (List.mem_of_mem_head? he) hdiagonal).resolve_left
          Bool.false_ne_true)
      · exact fun e he => hlater e (List.mem_of_mem_tail he)

theorem exists_of_route (h : s.Sound q) {directions : List Direction} {entered : List Position}
    (hroute : q.Admissible directions entered) :
    ∃ (k : NodeIndex) (l : Node), s.pool.nodes[k]? = some l ∧
      l.f.toNat ≤ q.routeCost directions entered ∧
      (k ∈ s.pool.frontier ∨ l.position q.start.z = q.start.endOf entered) := by
  have hlater : ∀ d ∈ directions.tail, Expandable d false q.params.allowDiagonal := by
    intro d hd hdiagonal
    cases hallow : q.params.allowDiagonal with
    | true => exact Or.inr rfl
    | false =>
        rw [hroute.straight hallow d hd] at hdiagonal
        cases hdiagonal
  have hbound := h.exists_of_trail h.grows.root (Nat.le_refl _) hroute.trail
    (fun _ _ _ => Or.inl rfl) hlater hroute.mayEnter
  rwa [show (0 : UInt32).toNat = 0 from rfl, Nat.zero_add] at hbound

/-- No admissible route leads to a cell that is not closed at less than the
cost of a selected node. -/
theorem le_routeCost (h : s.Sound q) {i : NodeIndex} {n : Node}
    (hi : i ∈ s.visits.map (·.node)) (hn : s.pool.nodes[i]? = some n)
    {directions : List Direction} {entered : List Position}
    (hroute : q.Admissible directions entered)
    (hgoal : ∀ (j : NodeIndex) (m : Node), s.pool.nodes[j]? = some m →
      m.position q.start.z = q.start.endOf entered → j ∈ s.pool.frontier) :
    n.f.toNat ≤ q.routeCost directions entered := by
  obtain ⟨k, l, hl, hf, hreached⟩ := h.exists_of_route hroute
  have hopen : k ∈ s.pool.frontier := hreached.elim id (hgoal k l hl)
  exact Nat.le_trans (UInt32.le_iff_toNat_le.mp (h.grows.cheapest i k n l hi hn hopen hl)) hf

end Search.Sound

/-- A route that the parents tell costs the least of all admissible routes
to cells of a set, its end among them, if none is cheaper than its last
node. -/
theorem Trail.isLeast {q : Quest} {p : Pool} {through : List NodeIndex} {i : NodeIndex} {n : Node}
    {directions : List Direction} {entered : List Position}
    (h : Trail q p through i n directions entered) (goals : Set Position)
    (hgoal : n.position q.start.z ∈ goals)
    (hlower : ∀ directions entered, q.Admissible directions entered →
      q.start.endOf entered ∈ goals → n.f.toNat ≤ q.routeCost directions entered) :
    ∃ least, IsLeast {cost | ∃ directions entered, q.Admissible directions entered ∧
      q.start.endOf entered ∈ goals ∧ q.routeCost directions entered = cost} least ∧
      n.f.toNat = min 4294967295 least := by
  let costs : Set Nat := {cost | ∃ directions entered, q.Admissible directions entered ∧
    q.start.endOf entered ∈ goals ∧ q.routeCost directions entered = cost}
  have hmem : q.routeCost directions entered ∈ costs :=
    ⟨directions, entered, h.admissible, h.ends.symm ▸ hgoal, rfl⟩
  have hleast := Nat.sInf_mem ⟨_, hmem⟩
  refine ⟨sInf costs, ⟨hleast, fun cost hc => Nat.sInf_le hc⟩, ?_⟩
  have hupper : sInf costs ≤ q.routeCost directions entered := Nat.sInf_le hmem
  obtain ⟨directions', entered', hroute, hends, hsum⟩ := hleast
  have hbound := hlower directions' entered' hroute hends
  have hreached : n.f.toNat = min 4294967295 (q.routeCost directions entered) := h.cost
  omega

/-! ## Exact matches of a target -/

section Target

variable {f : Pathfinder} {w : World} {mover : Occupant} {start : Position}
  {c : TargetCondition} {params : SearchParams} {route : Route}

/-- Next to the target no quality but zero is ever held. -/
theorem Search.Scored.eq_zero {best : Int} (hone : params.maxTarget.toInt = 1)
    (h : Scored ⟨f.config, w, mover, start, c.toPathCondition, params⟩ best) : best = 0 := by
  induction h with
  | start => rfl
  | judge p _ ih => exact (TargetCondition.best_judge_of_one hone).trans ih

/-- A search never closes an exact match. -/
theorem Search.Sound.mem_frontier_of_exact {s : Search}
    (h : s.Sound ⟨f.config, w, mover, start, c.toPathCondition, params⟩) {j : NodeIndex} {m : Node}
    (hm : s.pool.nodes[j]? = some m)
    (hexact : c.MatchesExactly w start (m.position start.z) params) : j ∈ s.pool.frontier := by
  by_contra hclosed
  obtain ⟨v, hv, rfl⟩ := List.mem_map.mp (h.grows.mem_of_not_open hm hclosed)
  obtain ⟨n, hn, hpos, best, hscored, hverdict⟩ := h.asked v hv
  obtain rfl := Option.some.inj (hm.symm.trans hn)
  rw [hpos] at hverdict
  have hjudge := TargetCondition.judge_of_exact hexact fun hone => hscored.eq_zero hone
  refine h.inexact v hv hclosed ?_
  rw [hverdict]
  show (c.judge w start (m.position start.z) params best).accepted = true ∧ _
  exact ⟨congrArg Verdict.accepted hjudge, congrArg Verdict.best hjudge⟩

namespace Pathfinder

/-- If a route ends on an exact match, then of all admissible routes that
end on cells of a set, its destination among them, none costs less, as
long as all cells of the set match exactly. -/
theorem isLeast_of_exact
    (h : (f.find w mover start c.toPathCondition params).bind (·.2.route) = some route)
    (goals : Set Position) (hdestination : route.destination ∈ goals)
    (hgoals : ∀ p ∈ goals, c.MatchesExactly w start p params) :
    let q : Quest := ⟨f.config, w, mover, start, c.toPathCondition, params⟩
    ∃ least, IsLeast {cost | ∃ directions entered, q.Admissible directions entered ∧
      start.endOf entered ∈ goals ∧ q.routeCost directions entered = cost} least ∧
      route.cost.toNat = min 4294967295 least := by
  intro q
  obtain ⟨s, v, n, entered, hvalid, hv, -, hn, -, hpos, hcost, htrail⟩ := exists_of_find h
  rw [← hcost]
  refine htrail.isLeast goals (hpos ▸ hdestination) fun directions entered hroute hends => ?_
  exact hvalid.sound.le_routeCost (List.mem_map_of_mem hv) hn hroute
    fun j m hm hgoal => hvalid.sound.mem_frontier_of_exact hm (hgoal ▸ hgoals _ hends)

/-- A route returned that ends on an exact match costs the least of all
admissible routes to its destination, and the least of all admissible
routes to exact matches, up to the largest word. -/
theorem find_optimal
    (h : (f.find w mover start c.toPathCondition params).bind (·.2.route) = some route)
    (hexact : (route.destination.chebyshev c.target : Int) = params.maxTarget.toInt ∨
      params.maxTarget.toInt = 1) :
    let q : Quest := ⟨f.config, w, mover, start, c.toPathCondition, params⟩
    (∃ least, IsLeast {cost | ∃ directions entered, q.Admissible directions entered ∧
      start.endOf entered = route.destination ∧ q.routeCost directions entered = cost} least ∧
      route.cost.toNat = min 4294967295 least) ∧
    ∃ least, IsLeast {cost | ∃ directions entered, q.Admissible directions entered ∧
      c.MatchesExactly w start (start.endOf entered) params ∧
      q.routeCost directions entered = cost} least ∧
      route.cost.toNat = min 4294967295 least := by
  intro q
  obtain ⟨s, v, -, -, hvalid, hv, haccepted, -, hpos, -⟩ := exists_of_find h
  obtain ⟨-, -, -, best, -, hverdict⟩ := hvalid.sound.asked v hv
  rw [hverdict, hpos] at haccepted
  have hmatch : c.MatchesExactly w start route.destination params :=
    { toMatches := TargetCondition.matches_of_accepted haccepted, exact := hexact }
  constructor
  · refine isLeast_of_exact h {route.destination} rfl ?_
    rintro p rfl
    exact hmatch
  · exact isLeast_of_exact h {p | c.MatchesExactly w start p params} hmatch
      fun p hp => hp

/-- A way round a creature beats the straight way past it. -/
theorem find_optimal_round_creature :
    let floor : Cell := .onGround { kind := 100 }
    let w := ((World.empty {}).run
      [.setCell ⟨10, 10, 7⟩ floor .merge, .setCell ⟨11, 10, 7⟩ floor .merge,
        .setCell ⟨12, 10, 7⟩ floor .merge, .setCell ⟨10, 11, 7⟩ floor .merge,
        .setCell ⟨11, 11, 7⟩ floor .merge, .setCell ⟨12, 11, 7⟩ floor .merge,
        .place .creature ⟨11, 10, 7⟩]).1
    let c : TargetCondition := ⟨⟨13, 9, 7⟩⟩
    let params : SearchParams := { minTarget := 1, maxTarget := 1, clearSight := false }
    let route : Route := ⟨[.south, .east, .east, .north], ⟨12, 10, 7⟩, 40⟩
    let q : Quest := ⟨{}, w, .player, ⟨10, 10, 7⟩, c.toPathCondition, params⟩
    ((fresh {}).find w .player ⟨10, 10, 7⟩ c.toPathCondition params).bind (·.2.route) =
        some route ∧
      (route.destination.chebyshev c.target : Int) = params.maxTarget.toInt ∧
      ∃ least, IsLeast {cost | ∃ directions entered, q.Admissible directions entered ∧
        Position.endOf ⟨10, 10, 7⟩ entered = ⟨12, 10, 7⟩ ∧
        q.routeCost directions entered = cost} least ∧ 40 = min 4294967295 least := by
  intro floor w c params route q
  have hroute : ((fresh {}).find w .player ⟨10, 10, 7⟩ c.toPathCondition params).bind
      (·.2.route) = some route := by decide +kernel
  have hexact : (route.destination.chebyshev c.target : Int) = params.maxTarget.toInt := by
    decide +kernel
  exact ⟨hroute, hexact, (find_optimal hroute (Or.inl hexact)).1⟩

end Pathfinder

end Target

end TileWorld
