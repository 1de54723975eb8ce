import Mathlib.Data.List.Nodup
import TileWorld.Proofs.SearchInvariant
import TileWorld.Proofs.TargetBand
import TileWorld.Route.Pathfinder
import TileWorld.World.History

/-!
# Routes that searches return

From a selected node the parents lead back to the start through nodes
selected earlier and earlier. Read forward they are a trail that the mover
may take, that passes no cell twice, and whose cost is the cost of the
node (`Grows.exists_trail`). A route is read off in this way from the node
matched last, so it keeps every rule of its search (`find_sound`).
-/

namespace TileWorld

/-- The way back from a child that lies one step from its parent goes by way of
the parent and tells this step. -/
theorem Pool.stepsTo_child {p : Pool} {j : NodeIndex} {m n : Node} (hparent : n.parent = some j)
    (hm : p.nodes[j]? = some m) {z : UInt8} {d : Direction}
    (hstep : (m.position z).step? d = some (n.position z)) (links : Nat)
    (later : List Direction) :
    p.stepsTo (links + 1) n later = p.stepsTo links m (d :: later) := by
  obtain ⟨hx, hy, -⟩ := Position.step?_eq_some_iff.mp hstep
  simp only [Node.position] at hx hy
  have hoffset : Direction.ofOffset? ((n.x.toNat : Int) - m.x.toNat)
      ((n.y.toNat : Int) - m.y.toNat) = some d :=
    Direction.ofOffset?_eq_some (by omega) (by omega)
  rw [stepsTo, hparent, Option.bind_some, hm]
  show p.stepsTo links m ((Direction.ofOffset? _ _).toList ++ later) = _
  rw [hoffset]
  rfl

/-- A route to a node through nodes of a list, and how the parents tell it. -/
structure Trail (q : Quest) (p : Pool) (through : List NodeIndex) (i : NodeIndex) (n : Node)
    (directions : List Direction) (entered : List Position) : Prop where
  admissible : q.Admissible directions entered
  ends : q.start.endOf entered = n.position q.start.z
  cost : n.f.toNat = cap (q.routeCost directions entered)
  nodup : (q.start :: entered).Nodup
  cells : ∀ c ∈ q.start :: entered, ∃ j ∈ through, ∃ m : Node,
    p.nodes[j]? = some m ∧ m.position q.start.z = c
  ofRoot : i = 0 → directions = []
  short : directions.length < through.length
  steps : ∀ fuel later, directions.length ≤ fuel → p.stepsTo fuel n later = directions ++ later

namespace Trail

variable {q : Quest} {p : Pool} {through : List NodeIndex} {i j : NodeIndex} {m n : Node}
  {directions : List Direction} {entered : List Position}

theorem weaken (h : Trail q p through i n directions entered) (j : NodeIndex) :
    Trail q p (j :: through) i n directions entered where
  admissible := h.admissible
  ends := h.ends
  cost := h.cost
  nodup := h.nodup
  cells := fun c hc => by
    obtain ⟨k, hk, hcell⟩ := h.cells c hc
    exact ⟨k, List.mem_cons_of_mem _ hk, hcell⟩
  ofRoot := h.ofRoot
  short := Nat.lt_succ_of_lt h.short
  steps := h.steps

theorem root (h0 : p.nodes[0]? = some ⟨q.start.x, q.start.y, 0, none⟩)
    (hmem : 0 ∈ through) : Trail q p through 0 ⟨q.start.x, q.start.y, 0, none⟩ [] [] where
  admissible := q.admissible_nil
  ends := rfl
  cost := rfl
  nodup := List.nodup_singleton _
  cells := fun c hc => ⟨0, hmem, _, h0, (List.mem_singleton.mp hc).symm⟩
  ofRoot := fun _ => rfl
  short := List.length_pos_of_mem hmem
  steps := by
    intro fuel later _
    cases fuel <;> rfl

/-- A child lies one step behind its parent, on a cell that the trail to
the parent has not passed. -/
theorem extend (h : Trail q p through j m directions entered) (hp : p.WellFormed)
    (hn : p.nodes[i]? = some n) (hnew : i ∉ through) (hm : p.nodes[j]? = some m)
    (hparent : n.parent = some j) {d : Direction} (hleads : q.Leads j m d n) (hi : i ≠ 0) :
    Trail q p (i :: through) i n (directions ++ [d]) (entered ++ [n.position q.start.z]) where
  admissible := by
    refine h.admissible.concat (h.ends ▸ hleads.step) hleads.mayEnter fun hd => ?_
    rcases hleads.expandable hd with hroot | hallow
    · exact Or.inr (h.ofRoot (beq_iff_eq.mp hroot))
    · exact Or.inl hallow
  ends := Position.endOf_concat ..
  cost := by
    rw [q.routeCost_concat (Position.length_of_trail? h.admissible.trail), hleads.cost,
      q.toNat_arrivalCost, h.cost]
    unfold cap
    omega
  nodup := by
    rw [← List.cons_append, List.nodup_append]
    refine ⟨h.nodup, List.nodup_singleton _, ?_⟩
    intro c hc c' hc' hcc
    obtain ⟨k, hk, l, hl, hpos⟩ := h.cells c hc
    rw [List.mem_singleton.mp hc'] at hcc
    have hsame := congrArg Position.x (hpos.trans hcc)
    have hsame' := congrArg Position.y (hpos.trans hcc)
    exact hnew (hp.index_inj hl hn hsame hsame' ▸ hk)
  cells := by
    intro c hc
    rw [← List.cons_append, List.mem_append, List.mem_singleton] at hc
    rcases hc with hc | rfl
    · obtain ⟨k, hk, hcell⟩ := h.cells c hc
      exact ⟨k, List.mem_cons_of_mem _ hk, hcell⟩
    · exact ⟨i, List.mem_cons_self .., n, hn, rfl⟩
  ofRoot := fun h0 => absurd h0 hi
  short := by
    have := h.short
    rw [List.length_append, List.length_singleton, List.length_cons]
    omega
  steps := by
    intro fuel later hfuel
    rw [List.length_append, List.length_singleton] at hfuel
    obtain ⟨fuel, rfl⟩ : ∃ links, fuel = links + 1 := ⟨fuel - 1, by omega⟩
    rw [Pool.stepsTo_child hparent hm hleads.step, h.steps fuel _ (by omega), List.append_assoc]
    rfl

end Trail

/-- Every selected node is reached by a route that the parents tell. -/
theorem Grows.exists_trail {q : Quest} {p : Pool} {order : List NodeIndex} (h : Grows q p order)
    (through : List NodeIndex) (hsuffix : through <:+ order) {i : NodeIndex} (hi : i ∈ through)
    {n : Node} (hn : p.nodes[i]? = some n) :
    ∃ directions entered, Trail q p through i n directions entered := by
  induction through generalizing i n with
  | nil => cases hi
  | cons k earlier ih =>
      have hearlier : earlier <:+ order := (List.suffix_cons k earlier).trans hsuffix
      have hk : k ∉ earlier := (List.nodup_cons.mp (h.nodup.sublist hsuffix.sublist)).1
      by_cases hik : i = k
      · subst hik
        by_cases hroot : i = 0
        · subst hroot
          obtain rfl := Option.some.inj (h.root.symm.trans hn)
          exact ⟨[], [], .root h.root (List.mem_cons_self ..)⟩
        · obtain ⟨j, -, m, d, hparent, hm, hleads⟩ := h.parent i n hn hroot
          have hj := h.before i earlier hsuffix n j hn hparent
          obtain ⟨directions, entered, htrail⟩ := ih hearlier hj hm
          exact ⟨_, _, htrail.extend h.pool hn hk hm hparent hleads hroot⟩
      · obtain ⟨directions, entered, htrail⟩ :=
          ih hearlier ((List.mem_cons.mp hi).resolve_left hik) hn
        exact ⟨directions, entered, htrail.weaken k⟩

/-- The nodes of a pool are enough links for the way back from any of them. -/
theorem Grows.length_le {q : Quest} {p : Pool} {order : List NodeIndex} (h : Grows q p order) :
    order.length ≤ p.nodes.size := by
  have hsub : order ⊆ List.range p.nodes.size :=
    fun i hi => List.mem_range.mpr (h.known i hi)
  have hle := (List.subperm_of_subset h.nodup hsub).length_le
  rwa [List.length_range] at hle

/-- The parents of a node on record tell a route to its cell. -/
theorem Search.Sound.exists_route {q : Quest} {s : Search} (h : s.Sound q) {v : Visit}
    (hv : v ∈ s.visits) :
    ∃ (n : Node) (route : Route) (entered : List Position), s.pool.nodes[v.node]? = some n ∧
      s.pool.route? v.node q.start.z = some route ∧ v.position = route.destination ∧
      n.position q.start.z = route.destination ∧ n.f = route.cost ∧
      Trail q s.pool (s.visits.map (·.node)) v.node n route.directions entered := by
  obtain ⟨n, hn, hpos, -⟩ := h.asked v hv
  obtain ⟨directions, entered, htrail⟩ :=
    h.grows.exists_trail _ (List.suffix_refl _) (List.mem_map_of_mem hv) hn
  have hlinks := Nat.lt_of_lt_of_le htrail.short h.grows.length_le
  have hsteps := htrail.steps _ [] (Nat.le_of_lt hlinks)
  rw [List.append_nil] at hsteps
  refine ⟨n, ⟨directions, n.position q.start.z, n.f⟩, entered, hn, ?_, hpos, rfl, rfl, htrail⟩
  rw [Pool.route?, hn, Option.map_some, hsteps]

namespace Pathfinder

/-- A search either had no room for its start and asked nothing, or is
valid in the end. -/
theorem search_cases (f : Pathfinder) (q : Quest) :
    (f.search q).found = none ∨ (f.search q).Valid q := by
  cases hroom : (Pool.empty f.pool.capacity).isFull with
  | false => exact Or.inr ((Search.valid_restart q hroom).run _)
  | true =>
      have hnothing : f.pool.restart q.start.x q.start.y = Pool.empty f.pool.capacity := by
        unfold Pool.restart
        dsimp only
        rw [hroom]
        rfl
      refine Or.inl ?_
      unfold search
      rw [hnothing]
      cases f.config.nodeCapacity with
      | zero => rfl
      | succ turns =>
          rw [Search.run]
          cases hselect : Search.select? q { pool := Pool.empty f.pool.capacity } with
          | none => rfl
          | some current =>
              obtain ⟨-, -, -, hbest⟩ := Search.select?_eq_some hselect
              cases hbest

/-- A route returned leads to a node that the condition accepted. -/
theorem exists_of_find {f : Pathfinder} {w : World} {mover : Occupant} {start : Position}
    {condition : PathCondition} {params : SearchParams} {route : Route}
    (h : (f.find w mover start condition params).bind (·.2.route) = some route) :
    ∃ (s : Search) (v : Visit) (n : Node) (entered : List Position),
      s.Valid ⟨f.config, w, mover, start, condition, params⟩ ∧ v ∈ s.visits ∧
      v.verdict.accepted = true ∧ s.pool.nodes[v.node]? = some n ∧
      v.position = route.destination ∧ n.position start.z = route.destination ∧
      n.f = route.cost ∧ Trail ⟨f.config, w, mover, start, condition, params⟩ s.pool
        (s.visits.map (·.node)) v.node n route.directions entered := by
  unfold find at h
  split at h
  · cases h
  dsimp only at h
  split at h
  · cases h
  rw [Option.bind_some] at h
  obtain ⟨i, hfound, hroute⟩ := Option.bind_eq_some_iff.mp h
  rcases f.search_cases ⟨f.config, w, mover, start, condition, params⟩ with hnone | hvalid
  · rw [hnone] at hfound
    cases hfound
  obtain ⟨v, hv, rfl, haccepted⟩ := hvalid.sound.found i hfound
  obtain ⟨n, route', entered, hn, hroute', hposition, hdestination, hcost, htrail⟩ :=
    hvalid.sound.exists_route hv
  obtain rfl := Option.some.inj (hroute'.symm.trans hroute)
  exact ⟨_, v, n, entered, hvalid, hv, haccepted, hn, hposition, hdestination, hcost, htrail⟩

/-- A route returned keeps the rules of its search. It leads on the map
and on the floor of the start from cell to cell, passing none twice, to
its destination. The mover may enter every cell on the way, within the
limit of distance and in range if that is demanded, and where diagonal
steps are not allowed only the first one may be diagonal. Its cost is that
of its steps and cells, and the target's condition holds at the end. -/
theorem find_sound {f : Pathfinder} {w : World} {mover : Occupant} {start : Position}
    {c : TargetCondition} {params : SearchParams} {route : Route}
    (h : (f.find w mover start c.toPathCondition params).bind (·.2.route) = some route) :
    let q : Quest := ⟨f.config, w, mover, start, c.toPathCondition, params⟩
    (∃ entered, start.trail? route.directions = some entered ∧ (start :: entered).Nodup ∧
      start.endOf entered = route.destination ∧
      (∀ p ∈ entered, (q.walkable? p).isSome ∧
        (params.maxSearch ≠ 0 → start.distanceX p ≤ params.maxSearch.toNat ∧
          start.distanceY p ≤ params.maxSearch.toNat) ∧
        (params.keepDistance = true → c.isInRange start p params = true)) ∧
      (params.allowDiagonal = false → ∀ d ∈ route.directions.tail, d.isDiagonal = false) ∧
      route.cost.toNat = min 4294967295 (q.routeCost route.directions entered)) ∧
    route.destination.z = start.z ∧
    c.isInRange start route.destination params = true ∧
    (params.clearSight = true → w.isSightClear route.destination c.target true = true) ∧
    params.minTarget.toInt ≤ route.destination.chebyshev c.target ∧
    (route.destination.chebyshev c.target : Int) ≤ params.maxTarget.toInt := by
  intro q
  obtain ⟨s, v, n, entered, hvalid, hv, haccepted, hn, hpos, hdestination, hcost, htrail⟩ :=
    exists_of_find h
  obtain ⟨-, -, -, best, -, hverdict⟩ := hvalid.sound.asked v hv
  have hmatches : c.Matches w start route.destination params := by
    rw [hverdict, hpos] at haccepted
    exact TargetCondition.matches_of_accepted haccepted
  refine ⟨⟨entered, htrail.admissible.trail, htrail.nodup, htrail.ends.trans hdestination, ?_,
    htrail.admissible.straight, ?_⟩, ?_, hmatches.inRange, hmatches.sight, hmatches.near,
    hmatches.far⟩
  · intro p hp
    have henter := htrail.admissible.mayEnter p hp
    simp only [Quest.mayEnter, Quest.isAllowed, Bool.and_eq_true, Bool.or_eq_true,
      decide_eq_true_eq, Bool.not_eq_true'] at henter
    obtain ⟨hwalkable, hlimit, hrange⟩ := henter
    refine ⟨hwalkable, fun hmax => hlimit.resolve_left hmax, fun hkeep => ?_⟩
    exact hrange.resolve_left (by rw [hkeep]; decide)
  · rw [← hcost, htrail.cost]
    rfl
  · rw [← hdestination]
    rfl

/-- Where only the first step may be diagonal, a route leads round a corner
and past a creature in the way. -/
theorem find_sound_around_corner :
    let floor : Cell := .onGround { kind := 100 }
    let w := ((World.empty {}).run
      [.setCell ⟨10, 10, 7⟩ floor .merge, .setCell ⟨11, 11, 7⟩ floor .merge,
        .setCell ⟨12, 11, 7⟩ floor .merge, .setCell ⟨13, 11, 7⟩ floor .merge,
        .setCell ⟨13, 10, 7⟩ floor .merge, .place .creature ⟨12, 11, 7⟩]).1
    let c : TargetCondition := ⟨⟨13, 9, 7⟩⟩
    let params : SearchParams :=
      { minTarget := 1, maxTarget := 1, allowDiagonal := false, clearSight := false }
    let route : Route := ⟨[.southEast, .east, .east, .north], ⟨13, 10, 7⟩, 85⟩
    ((fresh {}).find w .player ⟨10, 10, 7⟩ c.toPathCondition params).bind (·.2.route) =
        some route ∧
      ∃ entered, Position.trail? ⟨10, 10, 7⟩ route.directions = some entered ∧
        (⟨10, 10, 7⟩ :: entered).Nodup ∧ Position.endOf ⟨10, 10, 7⟩ entered = ⟨13, 10, 7⟩ := by
  intro floor w c params route
  have hroute : ((fresh {}).find w .player ⟨10, 10, 7⟩ c.toPathCondition params).bind
      (·.2.route) = some route := by decide +kernel
  obtain ⟨⟨entered, htrail, hnodup, hends, -⟩, -⟩ := find_sound hroute
  exact ⟨hroute, entered, htrail, hnodup, hends⟩

end Pathfinder

end TileWorld
