import TileWorld.Proofs.SearchTree

/-!
# The invariant of a search

`Search.Valid` holds of a search between any two turns (`Valid.run`). Its
pool is a tree that grew in the order of the questions asked, what was
matched was accepted, no exact match was closed, and every closed node
covers its neighbors in all directions that count, those pruned from its
expansion included. The last part is Dijkstra's argument made local: the
table of expanded neighbors leaves out what the parent covers already
(`Quest.Leads.covers_pruned`).
-/

namespace TileWorld

/-! ## Pruned directions -/

theorem Quest.directionCost_eq (q : Quest) (d : Direction) :
    q.directionCost d = if d.isDiagonal then q.config.diagonalCost else q.config.straightCost := by
  cases d <;> rfl

/-- A straight step is never dearer than two steps of which one is straight. -/
theorem Quest.directionCost_le_add (q : Quest) {c d e : Direction} (he : e.isDiagonal = false)
    (hone : d.isDiagonal = true → c.isDiagonal = false) :
    (q.directionCost e).toNat ≤ (q.directionCost c).toNat + (q.directionCost d).toNat := by
  rw [q.directionCost_eq e, if_neg (by simp [he])]
  cases hd : d.isDiagonal with
  | false =>
      rw [q.directionCost_eq d, if_neg (by simp [hd])]
      exact Nat.le_add_left ..
  | true =>
      rw [q.directionCost_eq c, if_neg (by simp [hone hd])]
      exact Nat.le_add_right ..

theorem Direction.exists_opposite (c : Direction) : ∃ side : Direction,
    side.offset.1 = -c.offset.1 ∧ side.offset.2 = -c.offset.2 ∧ side.isDiagonal = c.isDiagonal := by
  have htable : ∀ c ∈ all, ∃ side ∈ all, side.offset.1 = -c.offset.1 ∧
      side.offset.2 = -c.offset.2 ∧ side.isDiagonal = c.isDiagonal := by decide
  obtain ⟨side, -, hside⟩ := htable c c.mem_all
  exact ⟨side, hside⟩

/-- A parent that covers its straight neighbors covers for its child what
the child does not expand. -/
theorem Quest.Leads.covers_pruned {q : Quest} {p : Pool} {j : NodeIndex} {m n : Node}
    {c side d : Direction} (h : q.Leads j m c n) (hm : p.nodes[j]? = some m)
    (hcovers : ∀ e : Direction, e.isDiagonal = false → q.Covers p m e)
    (hside : side.offset.1 = -c.offset.1 ∧ side.offset.2 = -c.offset.2 ∧
      side.isDiagonal = c.isDiagonal)
    (hd : Expandable d false q.params.allowDiagonal)
    (hpruned : d.offset ∉ expanded side q.params.allowDiagonal) : q.Covers p n d := by
  obtain ⟨hsx, hsy, hsd⟩ := hside
  obtain ⟨hcx, hcy, hcz⟩ := Position.step?_eq_some_iff.mp h.step
  have hfn : n.f.toNat = cap (m.f.toNat + (q.directionCost c).toNat +
      q.entryCost (n.position q.start.z)) := by
    rw [← q.toNat_arrivalCost, ← h.cost]
  intro next hstep henter
  obtain ⟨hnx, hny, hnz⟩ := Position.step?_eq_some_iff.mp hstep
  rcases (mem_expanded_or hd).resolve_left hpruned with rfl | ⟨e, hstraight, ⟨hex, hey⟩, hone⟩
  · -- back to the parent
    refine ⟨j, m, hm, ?_, ?_⟩
    · have hx : m.x = next.x := UInt16.toNat_inj.mp (by simp only [Node.position] at *; omega)
      have hy : m.y = next.y := UInt16.toNat_inj.mp (by simp only [Node.position] at *; omega)
      rw [Node.position, hx, hy, show q.start.z = next.z from hnz.symm]
    · refine UInt32.le_trans ?_ (q.le_arrivalCost n d next)
      rw [h.cost]
      exact q.le_arrivalCost m c _
  · have hshort : (m.position q.start.z).step? e = some next := by
      rw [Position.step?_eq_some_iff]
      refine ⟨?_, ?_, hnz⟩
      · omega
      · omega
    obtain ⟨k, l, hl, hpos, hf⟩ := hcovers e hstraight next hshort henter
    refine ⟨k, l, hl, hpos, UInt32.le_trans hf ?_⟩
    -- one of the two steps by way of the child is straight itself
    have hcost := q.directionCost_le_add hstraight fun hdd => hsd ▸ hone hdd
    rw [UInt32.le_iff_toNat_le, toNat_arrivalCost, toNat_arrivalCost, hfn]
    unfold cap
    omega

namespace Search

variable {q : Quest}

/-! ## Expanding a node -/

/-- What an expansion in progress does to a search. -/
structure Progress (q : Quest) (order : List NodeIndex) (s s' : Search) : Prop where
  grows : Grows q s'.pool order
  pool : s'.pool.Extends s.pool order
  best : s'.best = s.best
  found : s'.found = s.found
  finished : s'.finished = s.finished
  visits : s'.visits = s.visits

namespace Progress

variable {order : List NodeIndex} {s s' s'' : Search}

theorem refl (h : Grows q s.pool order) : Progress q order s s :=
  ⟨h, .refl _ _, rfl, rfl, rfl, rfl⟩

theorem trans (h : Progress q order s s') (h' : Progress q order s' s'') :
    Progress q order s s'' :=
  ⟨h'.grows, h.pool.trans h'.pool, h'.best.trans h.best, h'.found.trans h.found,
    h'.finished.trans h.finished, h'.visits.trans h.visits⟩

end Progress

/-- All that reaching a position takes from the world is the cost of arriving
there and whether the mover may. -/
theorem reach_eq (q : Quest) (s : Search) (current : NodeIndex) (n : Node) (step : UInt32)
    (p : Position) :
    s.reach q current n step p =
      match s.pool.find? p.x p.y, q.arrivalCost? n step p (q.world.cell? p) with
      | some _, none => { s with halt := some .overflow }
      | some known, some f =>
        if (s.pool.nodes[known]?).any (f < ·.f) then
          { s with pool := s.pool.reopen known current f }
        else s
      | none, arrival =>
        if (q.walkable? p).isSome then
          match arrival with
          | none => { s with halt := some .overflow }
          | some f =>
            if s.pool.isFull then { s with halt := some .full }
            else { s with pool := s.pool.add ⟨p.x, p.y, f, some current⟩ }
        else s := by
  unfold reach
  cases s.pool.find? p.x p.y with
  | some known => cases q.arrivalCost? n step p (q.world.cell? p) <;> rfl
  | none =>
      cases hw : q.walkable? p with
      | none => rfl
      | some cell =>
          have hcell : q.world.cell? p = some cell := (Option.filter_eq_some_iff.mp hw).1
          rw [hcell]
          rfl

/-- Everything that reaching a neighbor can do. -/
theorem reach_cases {s : Search} (hp : s.pool.WellFormed) (current : NodeIndex) (n : Node)
    (d : Direction) (next : Position) :
    (4294967296 ≤ q.entryCost next ∧
      s.reach q current n (q.directionCost d) next = { s with halt := some .overflow }) ∨
    (∃ (k : NodeIndex) (m : Node), s.pool.nodes[k]? = some m ∧ (m.x = next.x ∧ m.y = next.y) ∧
      (q.arrivalCost n d next < m.f ∧ s.reach q current n (q.directionCost d) next =
          { s with pool := s.pool.reopen k current (q.arrivalCost n d next) } ∨
        m.f ≤ q.arrivalCost n d next ∧ s.reach q current n (q.directionCost d) next = s)) ∨
    s.pool.find? next.x next.y = none ∧
      ((q.walkable? next = none ∧ s.reach q current n (q.directionCost d) next = s) ∨
        (s.pool.isFull = true ∧ s.reach q current n (q.directionCost d) next =
          { s with halt := some .full }) ∨
        ((q.walkable? next).isSome ∧ s.pool.isFull = false ∧
          s.reach q current n (q.directionCost d) next =
            { s with pool :=
                s.pool.add ⟨next.x, next.y, q.arrivalCost n d next, some current⟩ })) := by
  have hreach := s.reach_eq q current n (q.directionCost d) next
  rw [q.arrivalCost?_eq] at hreach
  rw [hreach]
  by_cases hword : q.entryCost next < 4294967296
  · rw [if_pos hword, ← q.arrivalCost_eq n d hword]
    refine Or.inr ?_
    cases hk : s.pool.find? next.x next.y with
    | some k =>
        obtain ⟨m, hm, hplace⟩ := hp.find?_eq_some_iff.mp hk
        refine Or.inl ⟨k, m, hm, hplace, ?_⟩
        have hany : (s.pool.nodes[k]?).any (q.arrivalCost n d next < ·.f) =
            decide (q.arrivalCost n d next < m.f) := by
          rw [hm]
          rfl
        dsimp only
        rw [hany]
        by_cases hless : q.arrivalCost n d next < m.f
        · exact Or.inl ⟨hless, if_pos (decide_eq_true hless)⟩
        · exact Or.inr ⟨UInt32.not_lt.mp hless, if_neg (by simpa using hless)⟩
    | none =>
        refine Or.inr ⟨rfl, ?_⟩
        dsimp only
        cases hw : q.walkable? next with
        | none => exact Or.inl ⟨rfl, rfl⟩
        | some cell =>
            cases hfull : s.pool.isFull with
            | true => exact Or.inr (Or.inl ⟨rfl, rfl⟩)
            | false => exact Or.inr (Or.inr ⟨rfl, rfl, rfl⟩)
  · -- the search fails, unless it has nothing to do with the cell
    rw [if_neg hword]
    cases hk : s.pool.find? next.x next.y with
    | some k => exact Or.inl ⟨Nat.not_lt.mp hword, rfl⟩
    | none =>
        cases hw : q.walkable? next with
        | none => exact Or.inr (Or.inr ⟨rfl, Or.inl ⟨rfl, rfl⟩⟩)
        | some cell => exact Or.inl ⟨Nat.not_lt.mp hword, rfl⟩

section Expanding

variable {order : List NodeIndex} {s : Search} {current : NodeIndex} {n : Node}

theorem reach_progress (hg : Grows q s.pool order) (hcurrent : current ∈ order)
    (hopen : current ∈ s.pool.frontier) (hn : s.pool.nodes[current]? = some n) {d : Direction}
    (hd : Expandable d (current == 0) q.params.allowDiagonal) {next : Position}
    (hstep : (n.position q.start.z).step? d = some next) (hallowed : q.isAllowed next = true) :
    Progress q order s (s.reach q current n (q.directionCost d) next) ∧
      ((s.reach q current n (q.directionCost d) next).halt = none →
        q.mayEnter next = true → ∃ (j : NodeIndex) (m : Node),
          (s.reach q current n (q.directionCost d) next).pool.nodes[j]? = some m ∧
            m.position q.start.z = next ∧ m.f ≤ q.arrivalCost n d next) := by
  have hz : next.z = q.start.z := (Position.step?_eq_some_iff.mp hstep).2.2
  rcases reach_cases hg.pool current n d next with ⟨-, h⟩ |
    ⟨k, m, hm, ⟨hx, hy⟩, ⟨hless, h⟩ | ⟨hle, h⟩⟩ | ⟨hnew, ⟨hw, h⟩ | ⟨-, h⟩ | ⟨hw, hroom, h⟩⟩
  · rw [h]
    exact ⟨⟨hg, .refl _ _, rfl, rfl, rfl, rfl⟩, fun hgoing => (Option.some_ne_none _ hgoing).elim⟩
  · -- a known cell is reached at a lower cost
    have hpos : m.position q.start.z = next := by rw [Node.position, hx, hy, ← hz]
    obtain ⟨hgrows, hextends⟩ := hg.reopen hcurrent hopen hn hd hstep hm hpos hless
    rw [h]
    refine ⟨⟨hgrows, hextends, rfl, rfl, rfl, rfl⟩, fun _ _ => ?_⟩
    refine ⟨k, { m with f := q.arrivalCost n d next, parent := some current }, ?_, hpos,
      UInt32.le_refl _⟩
    rw [Pool.getElem?_reopen, if_pos rfl, hm]
    rfl
  · rw [h]
    exact ⟨.refl hg, fun _ _ => ⟨k, m, hm, by rw [Node.position, hx, hy, ← hz], hle⟩⟩
  · rw [h]
    refine ⟨.refl hg, fun _ henter => ?_⟩
    rw [Quest.mayEnter, hw] at henter
    cases henter
  · rw [h]
    exact ⟨⟨hg, .refl _ _, rfl, rfl, rfl, rfl⟩, fun hgoing => (Option.some_ne_none _ hgoing).elim⟩
  · -- an unknown cell gets a node
    have henter : q.mayEnter next = true := by
      rw [Quest.mayEnter, hw, hallowed]
      rfl
    obtain ⟨hgrows, hextends⟩ := hg.add hcurrent hopen hn hd hstep henter hnew hroom
    rw [h]
    refine ⟨⟨hgrows, hextends, rfl, rfl, rfl, rfl⟩, fun _ _ => ?_⟩
    refine ⟨s.pool.nodes.size, ⟨next.x, next.y, q.arrivalCost n d next, some current⟩, ?_, ?_,
      UInt32.le_refl _⟩
    · exact (Pool.getElem?_add ..).trans (if_pos rfl)
    · rw [Node.position, ← hz]

theorem examine_progress (hg : Grows q s.pool order) (hcurrent : current ∈ order)
    (hopen : current ∈ s.pool.frontier) (hn : s.pool.nodes[current]? = some n) {d : Direction}
    (hd : Expandable d (current == 0) q.params.allowDiagonal) :
    Progress q order s (s.examine q current n d.offset) ∧
      ((s.examine q current n d.offset).halt = none →
        q.Covers (s.examine q current n d.offset).pool n d) := by
  have hlooked : Progress q order s { s with examined := s.examined + 1 } :=
    ⟨hg, .refl _ _, rfl, rfl, rfl, rfl⟩
  unfold examine
  dsimp only
  cases hstep : (n.position q.start.z).offset? d.offset.1 d.offset.2 with
  | none =>
      refine ⟨hlooked, fun _ next hnext => ?_⟩
      rw [Position.step?, hstep] at hnext
      cases hnext
  | some next =>
      dsimp only
      cases hallowed : q.isAllowed next with
      | false =>
          refine ⟨hlooked, fun _ next' hnext' henter => ?_⟩
          rw [Position.step?, hstep] at hnext'
          obtain rfl := Option.some.inj hnext'
          rw [Quest.mayEnter, hallowed, Bool.and_false] at henter
          cases henter
      | true =>
          have hreach := reach_progress (s := { s with examined := s.examined + 1 }) hg hcurrent
            hopen hn hd hstep hallowed
          refine ⟨hlooked.trans hreach.1, fun hgoing next' hnext' henter => ?_⟩
          rw [Position.step?, hstep] at hnext'
          obtain rfl := Option.some.inj hnext'
          exact hreach.2 hgoing henter

theorem expand_progress (offsets : List (Int × Int)) (hg : Grows q s.pool order)
    (hcurrent : current ∈ order) (hopen : current ∈ s.pool.frontier)
    (hn : s.pool.nodes[current]? = some n)
    (hoffsets : ∀ o ∈ offsets, ∃ d : Direction, d.offset = o ∧
      Expandable d (current == 0) q.params.allowDiagonal) :
    Progress q order s (s.expand q current n offsets) ∧
      ((s.expand q current n offsets).halt = none →
        ∀ d : Direction, d.offset ∈ offsets →
          q.Covers (s.expand q current n offsets).pool n d) := by
  induction offsets generalizing s with
  | nil => exact ⟨.refl hg, fun _ _ => nofun⟩
  | cons o rest ih =>
      obtain ⟨d, rfl, hd⟩ := hoffsets o (List.mem_cons_self ..)
      obtain ⟨hfirst, hcovers⟩ := examine_progress hg hcurrent hopen hn hd
      rw [expand]
      cases hgoing : (s.examine q current n d.offset).halt with
      | some halt => exact ⟨hfirst, fun h => nomatch hgoing.symm.trans h⟩
      | none =>
          obtain ⟨hlater, hrest⟩ := ih hfirst.grows (hfirst.pool.opened current hopen)
            ((hfirst.pool.kept current hcurrent).trans hn)
            (fun o ho => hoffsets o (List.mem_cons_of_mem _ ho))
          refine ⟨hfirst.trans hlater, fun hdone c hc => ?_⟩
          rcases List.mem_cons.mp hc with heq | hc
          · obtain rfl := Direction.offset_inj.mp heq
            exact hlater.pool.covers (hcovers hgoing)
          · exact hrest hdone c hc

end Expanding

/-! ## Turns -/

/-- The qualities that a condition may hold in the course of a search. -/
inductive Scored (q : Quest) : Int → Prop where
  | start : Scored q 0
  | judge (p : Position) {best : Int} (h : Scored q best) :
      Scored q (q.condition.judge q.world q.start p q.params best).best

/-- What holds of a search at any time. -/
structure Sound (q : Quest) (s : Search) : Prop where
  grows : Grows q s.pool (s.visits.map (·.node))
  scored : Scored q s.best
  /-- Every question was put about a node, with a quality that may be held. -/
  asked : ∀ v ∈ s.visits, ∃ n : Node, s.pool.nodes[v.node]? = some n ∧
    v.position = n.position q.start.z ∧ ∃ best, Scored q best ∧
      v.verdict = q.condition.judge q.world q.start v.position q.params best
  found : ∀ i, s.found = some i → ∃ v ∈ s.visits, v.node = i ∧ v.verdict.accepted = true
  covers : ∀ (i : NodeIndex) (n : Node), s.pool.nodes[i]? = some n → i ∉ s.pool.frontier →
    ∀ d, Expandable d (i == 0) q.params.allowDiagonal → q.Covers s.pool n d
  /-- No exact match was closed. -/
  inexact : ∀ v ∈ s.visits, v.node ∉ s.pool.frontier →
    ¬ (v.verdict.accepted = true ∧ v.verdict.best = 0)

/-- What holds of a search between two turns, and when it is over: as long
as it goes on, all nodes asked about are closed. -/
structure Valid (q : Quest) (s : Search) : Prop where
  sound : s.Sound q
  closed : s.finished = false → s.halt = none →
    ∀ i ∈ s.visits.map (·.node), i ∉ s.pool.frontier

theorem valid_restart (q : Quest) {p : Pool} (hroom : (Pool.empty p.capacity).isFull = false) :
    Valid q { pool := p.restart q.start.x q.start.y } := by
  have hg := Grows.restart q hroom
  refine ⟨⟨hg, .start, nofun, nofun, ?_, nofun⟩, fun _ _ => nofun⟩
  intro i n hn hi
  exact absurd (hg.mem_of_not_open hn hi) List.not_mem_nil

/-- The start expands all neighbors, any other node those that lead away
from its parent. -/
theorem neighbors_cases {p : Pool} {order : List NodeIndex} {current : NodeIndex} {n : Node}
    (hg : Grows q p (current :: order)) (hn : p.nodes[current]? = some n) :
    (current = 0 ∧ p.neighbors n q.params.allowDiagonal = allNeighbors) ∨
    current ≠ 0 ∧ ∃ j ∈ order, ∃ m c side, n.parent = some j ∧ p.nodes[j]? = some m ∧
      q.Leads j m c n ∧
      (side.offset.1 = -c.offset.1 ∧ side.offset.2 = -c.offset.2 ∧
        side.isDiagonal = c.isDiagonal) ∧
      p.neighbors n q.params.allowDiagonal = expanded side q.params.allowDiagonal := by
  by_cases hroot : current = 0
  · have hparent : n.parent = none := by
      rw [hroot, hg.root] at hn
      cases hn
      rfl
    exact Or.inl ⟨hroot, Pool.neighbors_of_root hparent _⟩
  · obtain ⟨j, -, m, c, hparent, hm, hleads⟩ := hg.parent current n hn hroot
    obtain ⟨side, hside⟩ := c.exists_opposite
    obtain ⟨hcx, hcy, -⟩ := Position.step?_eq_some_iff.mp hleads.step
    simp only [Node.position] at hcx hcy
    have hj := hg.before current order (List.suffix_refl _) n j hn hparent
    refine Or.inr ⟨hroot, j, hj, m, c, side, hparent, hm, hleads, hside,
      Pool.neighbors_of_parent hparent hm ?_ ?_ _⟩
    · rw [hside.1]
      omega
    · rw [hside.2.1]
      omega

theorem neighbors_expandable {p : Pool} {order : List NodeIndex} {current : NodeIndex} {n : Node}
    (hg : Grows q p (current :: order)) (hn : p.nodes[current]? = some n) :
    ∀ o ∈ p.neighbors n q.params.allowDiagonal,
      ∃ d : Direction, d.offset = o ∧ Expandable d (current == 0) q.params.allowDiagonal := by
  intro o ho
  rcases neighbors_cases hg hn with
    ⟨hroot, hall⟩ | ⟨-, j, -, m, c, side, -, -, -, -, hexpanded⟩
  · obtain ⟨d, hd⟩ := exists_direction_of_mem_allNeighbors (hall ▸ ho)
    exact ⟨d, hd, fun _ => Or.inl (beq_iff_eq.mpr hroot)⟩
  · obtain ⟨d, hd, hcount⟩ := exists_direction_of_mem_expanded (hexpanded ▸ ho)
    exact ⟨d, hd, fun hdiagonal => Or.inr ((hcount hdiagonal).resolve_left Bool.false_ne_true)⟩

/-- The expansion of the node selected covers all directions that count:
those expanded by themselves, and those pruned by way of the parent. -/
theorem covers_expanded {p p' : Pool} {order : List NodeIndex} {current : NodeIndex} {n : Node}
    (hg : Grows q p (current :: order)) (hextends : p'.Extends p (current :: order))
    (hn : p.nodes[current]? = some n)
    (hcovers : ∀ (i : NodeIndex) (m : Node), i ∈ order → p.nodes[i]? = some m →
      ∀ d, Expandable d (i == 0) q.params.allowDiagonal → q.Covers p m d)
    (hexpanded : ∀ d : Direction, d.offset ∈ p.neighbors n q.params.allowDiagonal →
      q.Covers p' n d)
    {d : Direction} (hd : Expandable d (current == 0) q.params.allowDiagonal) :
    q.Covers p' n d := by
  rcases neighbors_cases hg hn with
    ⟨-, hall⟩ | ⟨hroot, j, hj, m, c, side, -, hm, hleads, hside, hneighbors⟩
  · exact hexpanded d (hall ▸ offset_mem_allNeighbors d)
  · by_cases hmem : d.offset ∈ expanded side q.params.allowDiagonal
    · exact hexpanded d (hneighbors ▸ hmem)
    · have hcount : Expandable d false q.params.allowDiagonal := by
        rwa [show (current == 0) = false from beq_eq_false_iff_ne.mpr hroot] at hd
      have hm' := (hextends.kept j (List.mem_cons_of_mem _ hj)).trans hm
      exact hleads.covers_pruned hm' (fun e he => hextends.covers
        (hcovers j m hj hm e fun h => by rw [he] at h; cases h)) hside hcount hmem

namespace Sound

variable {s s' : Search}

theorem ask (h : s.Sound q) (hclosed : ∀ i ∈ s.visits.map (·.node), i ∉ s.pool.frontier)
    {current : NodeIndex} (hbest : s.pool.best? = some current) {n : Node}
    (hn : s.pool.nodes[current]? = some n) : (s.ask q current n).Sound q := by
  have hopen := (Pool.best?_eq_some hbest).1
  refine ⟨h.grows.select hclosed hbest, .judge _ h.scored, ?_, ?_, h.covers, ?_⟩
  · intro v hv
    rcases List.mem_cons.mp hv with rfl | hv
    · exact ⟨n, hn, rfl, s.best, h.scored, rfl⟩
    · exact h.asked v hv
  · intro i hi
    by_cases haccepted : (q.condition.judge q.world q.start (n.position q.start.z) q.params
        s.best).accepted = true
    · refine ⟨_, List.mem_cons_self .., ?_, haccepted⟩
      exact Option.some.inj ((if_pos haccepted).symm.trans hi)
    · obtain ⟨v, hv, hvi, hva⟩ := h.found i ((if_neg haccepted).symm.trans hi)
      exact ⟨v, List.mem_cons_of_mem _ hv, hvi, hva⟩
  · intro v hv hvclosed
    rcases List.mem_cons.mp hv with rfl | hv
    · exact absurd hopen hvclosed
    · exact h.inexact v hv hvclosed

theorem progress (h : s.Sound q) (hp : Progress q (s.visits.map (·.node)) s s') : s'.Sound q := by
  refine ⟨hp.visits ▸ hp.grows, hp.best ▸ h.scored, ?_, ?_, ?_, ?_⟩
  · intro v hv
    rw [hp.visits] at hv
    obtain ⟨n, hn, hasked⟩ := h.asked v hv
    exact ⟨n, (hp.pool.kept _ (List.mem_map_of_mem hv)).trans hn, hasked⟩
  · rw [hp.found, hp.visits]
    exact h.found
  · intro i n hn hi d hd
    have hold := hp.pool.kept i (hp.grows.mem_of_not_open hn hi)
    rw [hn] at hold
    exact hp.pool.covers (h.covers i n hold.symm (fun hopen => hi (hp.pool.opened i hopen)) d hd)
  · intro v hv hvclosed
    rw [hp.visits] at hv
    exact h.inexact v hv fun hopen => hvclosed (hp.pool.opened _ hopen)

/-- A node that covers its neighbors and is no exact match is closed. -/
theorem close (h : s.Sound q) {current : NodeIndex} (hcurrent : current ∈ s.visits.map (·.node))
    (hopen : current ∈ s.pool.frontier)
    (hcovers : ∀ n : Node, s.pool.nodes[current]? = some n →
      ∀ d, Expandable d (current == 0) q.params.allowDiagonal → q.Covers s.pool n d)
    (hinexact : ∀ v ∈ s.visits, v.node = current →
      ¬ (v.verdict.accepted = true ∧ v.verdict.best = 0)) :
    Search.Sound q { s with pool := s.pool.close current } := by
  have hgrows := h.grows.close hcurrent hopen
  rw [Pool.close_of_mem hopen] at hgrows ⊢
  refine ⟨hgrows, h.scored, h.asked, h.found, ?_, ?_⟩
  · intro i n hn hi d hd
    by_cases hic : i = current
    · subst hic
      exact hcovers n hn d hd
    · exact h.covers i n hn (fun hmem => hi ((List.mem_erase_of_ne hic).mpr hmem)) d hd
  · intro v hv hvclosed
    by_cases hvc : v.node = current
    · exact hinexact v hv hvc
    · exact h.inexact v hv fun hmem => hvclosed ((List.mem_erase_of_ne hvc).mpr hmem)

end Sound

/-- The search after the node selected has been asked about and its
neighbors have been looked at. -/
def expandAll (q : Quest) (s : Search) (current : NodeIndex) (n : Node) : Search :=
  (s.ask q current n).expand q current n (s.pool.neighbors n q.params.allowDiagonal)

theorem turn_eq (q : Quest) {s : Search} {current : NodeIndex} {n : Node}
    (hn : s.pool.nodes[current]? = some n) :
    s.turn q current =
      if (s.ask q current n).finished then s.ask q current n
      else if (s.expandAll q current n).halt.isSome then s.expandAll q current n
      else { s.expandAll q current n with
        pool := (s.expandAll q current n).pool.close current } := by
  unfold turn
  rw [hn]
  rfl

/-- Everything that a turn can do. -/
theorem turn_cases (q : Quest) {s : Search} {current : NodeIndex} {n : Node}
    (hn : s.pool.nodes[current]? = some n) :
    ((s.ask q current n).finished = true ∧ s.turn q current = s.ask q current n) ∨
    (s.ask q current n).finished = false ∧
      ((s.expandAll q current n).halt ≠ none ∧
          s.turn q current = s.expandAll q current n ∨
        (s.expandAll q current n).halt = none ∧ s.turn q current =
          { s.expandAll q current n with
            pool := (s.expandAll q current n).pool.close current }) := by
  rw [turn_eq q hn]
  cases (s.ask q current n).finished with
  | true => exact Or.inl ⟨rfl, rfl⟩
  | false =>
      cases (s.expandAll q current n).halt with
      | some halt => exact Or.inr ⟨rfl, Or.inl ⟨nofun, rfl⟩⟩
      | none => exact Or.inr ⟨rfl, Or.inr ⟨rfl, rfl⟩⟩

theorem select?_eq_some {s : Search} {current : NodeIndex} (h : s.select? q = some current) :
    s.finished = false ∧ s.halt = none ∧ s.isSpent q = false ∧
      s.pool.best? = some current := by
  unfold select? at h
  split at h
  · cases h
  · rename_i hgoing
    simp only [Bool.or_eq_true, not_or, Bool.not_eq_true, Option.isSome_eq_false_iff,
      Option.isNone_iff_eq_none] at hgoing
    exact ⟨hgoing.1.1, hgoing.1.2, hgoing.2, h⟩

namespace Valid

variable {s : Search}

/-- Asking about the node selected and expanding it leaves the search sound. -/
theorem expandAll (h : s.Valid q) {current : NodeIndex} (hselect : s.select? q = some current)
    {n : Node} (hn : s.pool.nodes[current]? = some n) :
    (s.ask q current n).Sound q ∧
      Progress q (current :: s.visits.map (·.node)) (s.ask q current n)
        (s.expandAll q current n) ∧
      ((s.expandAll q current n).halt = none →
        ∀ d : Direction, d.offset ∈ s.pool.neighbors n q.params.allowDiagonal →
          q.Covers (s.expandAll q current n).pool n d) := by
  obtain ⟨hfinished, hgoing, -, hbest⟩ := select?_eq_some hselect
  have hask := h.sound.ask (h.closed hfinished hgoing) hbest hn
  exact ⟨hask, expand_progress (s.pool.neighbors n q.params.allowDiagonal) hask.grows
    (List.mem_cons_self ..) (Pool.best?_eq_some hbest).1 hn (neighbors_expandable hask.grows hn)⟩

theorem turn (h : s.Valid q) {current : NodeIndex} (hselect : s.select? q = some current) :
    (s.turn q current).Valid q := by
  obtain ⟨hfinished, hgoing, -, hbest⟩ := select?_eq_some hselect
  have hclosed := h.closed hfinished hgoing
  obtain ⟨hopen, n, hn, -⟩ := Pool.best?_eq_some hbest
  obtain ⟨hask, hprogress, hexpanded⟩ := h.expandAll hselect hn
  have hcurrent : current ∈ (s.ask q current n).visits.map (·.node) := List.mem_cons_self ..
  have hsound : (s.expandAll q current n).Sound q := hask.progress hprogress
  have hvisits : (s.expandAll q current n).visits = (s.ask q current n).visits := hprogress.visits
  rcases turn_cases q hn with
    ⟨hdone, hturn⟩ | ⟨hdone, ⟨hhalt, hturn⟩ | ⟨hgoes, hturn⟩⟩ <;> rw [hturn]
  · exact ⟨hask, fun hmore => nomatch hdone.symm.trans hmore⟩
  · exact ⟨hsound, fun _ hmore => absurd hmore hhalt⟩
  · refine ⟨hsound.close (hvisits ▸ hcurrent) (hprogress.pool.opened current hopen) ?_ ?_, ?_⟩
    · intro n' hn' d hd
      obtain rfl := Option.some.inj
        (hn.symm.trans ((hprogress.pool.kept current hcurrent).symm.trans hn'))
      refine covers_expanded hask.grows hprogress.pool hn ?_ (hexpanded hgoes) hd
      exact fun i m hi hm => h.sound.covers i m hm (hclosed i hi)
    · -- the search goes on, so the answer was not that of an exact match
      intro v hv hvcurrent
      rw [hvisits] at hv
      rcases List.mem_cons.mp hv with rfl | hv
      · rintro ⟨haccepted, hzero⟩
        have hexact : (s.ask q current n).finished = true :=
          Bool.and_eq_true_iff.mpr ⟨haccepted, beq_iff_eq.mpr hzero⟩
        rw [hdone] at hexact
        cases hexact
      · exact h.sound.inexact v hv (hclosed _ (List.mem_map_of_mem hv))
    · intro _ _ i hi
      have hi' : i ∈ (s.ask q current n).visits.map (·.node) := hvisits ▸ hi
      rw [Pool.frontier_close, hsound.grows.pool.frontier_nodup.mem_erase_iff]
      rintro ⟨hic, hiopen⟩
      have hold := hprogress.pool.closed i hi' hiopen
      exact hclosed i ((List.mem_cons.mp hi').resolve_left hic) hold

end Valid

/-! ## Runs -/

theorem run_of_over {s : Search} (h : s.select? q = none) (turns : Nat) : run q turns s = s := by
  cases turns with
  | zero => rfl
  | succ turns => rw [run, h]

theorem run_succ {s : Search} {current : NodeIndex} (h : s.select? q = some current)
    (turns : Nat) : run q (turns + 1) s = run q turns (s.turn q current) := by
  rw [run, h]

/-- What every turn preserves holds after any number of turns. -/
theorem run_induction {P : Search → Prop}
    (hturn : ∀ s current n, P s → s.select? q = some current → s.pool.nodes[current]? = some n →
      P (s.turn q current))
    {s : Search} (h : P s) (turns : Nat) : P (run q turns s) := by
  induction turns generalizing s with
  | zero => exact h
  | succ turns ih =>
      cases hselect : s.select? q with
      | none =>
          rw [run_of_over hselect]
          exact h
      | some current =>
          obtain ⟨-, n, hn, -⟩ := Pool.best?_eq_some (select?_eq_some hselect).2.2.2
          rw [run_succ hselect]
          exact ih (hturn s current n h hselect hn)

theorem Valid.run {s : Search} (h : s.Valid q) (turns : Nat) : (Search.run q turns s).Valid q :=
  run_induction (fun _ _ _ hs hselect _ => hs.turn hselect) h turns

end Search

end TileWorld
