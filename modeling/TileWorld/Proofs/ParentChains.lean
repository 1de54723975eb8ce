import TileWorld.Proofs.SearchBounds

/-!
# The pool at every step of a search

`Search.Represented` is what the pool of a search is at any time, between
two turns and in the middle of one (`Pathfinder.pool_represented`). Places
and nodes resolve to each other, every node is open or closed, and parents
are closed or just being expanded.

The parents of a node form a chain of distinct nodes that ends at the start
(`Grows.exists_leadsBack`). Costs do not show this, as they may stand still
at the largest word. What shows it is the order of selection: the parent of
a selected node was selected before it, and that of any other node was
selected while the node was not.
-/

namespace TileWorld

namespace Pool

/-! ## Chains of parents -/

/-- The parents lead from a node over the nodes of a list to the first node
of the pool, which has no parent. -/
inductive Lineage (p : Pool) : NodeIndex → List NodeIndex → Prop where
  | root {n : Node} (hn : p.nodes[0]? = some n) (hparent : n.parent = none) : Lineage p 0 [0]
  | child {i j : NodeIndex} {n : Node} {chain : List NodeIndex} (hn : p.nodes[i]? = some n)
      (hparent : n.parent = some j) (h : Lineage p j chain) : Lineage p i (i :: chain)

/-- Every parent is a node one step away. -/
def UnitLinks (p : Pool) (z : UInt8) : Prop :=
  ∀ (i j : NodeIndex) (n : Node), p.nodes[i]? = some n → n.parent = some j →
    ∃ (m : Node) (d : Direction), p.nodes[j]? = some m ∧
      (m.position z).step? d = some (n.position z)

/-- The way back from a node is a chain of distinct nodes that ends at the
first one. It is told by a route with one step for every link, and any
number of links that is large enough tells the same. -/
structure LeadsBack (p : Pool) (z : UInt8) (i : NodeIndex) (n : Node) (chain : List NodeIndex)
    (route : Route) : Prop where
  lineage : p.Lineage i chain
  nodup : chain.Nodup
  told : p.route? i z = some route
  length : route.directions.length + 1 = chain.length
  steps : ∀ links later, route.directions.length ≤ links →
    p.stepsTo links n later = route.directions ++ later

variable {p : Pool} {i : NodeIndex} {chain : List NodeIndex}

theorem Lineage.lt_size (h : p.Lineage i chain) : ∀ k ∈ chain, k < p.nodes.size := by
  induction h with
  | root hn _ =>
      intro k hk
      rw [List.mem_singleton.mp hk]
      exact (Array.getElem?_eq_some_iff.mp hn).1
  | child hn _ _ ih =>
      intro k hk
      rcases List.mem_cons.mp hk with rfl | hk
      · exact (Array.getElem?_eq_some_iff.mp hn).1
      · exact ih k hk

/-- A chain of distinct nodes is no longer than the pool. -/
theorem Lineage.length_le (h : p.Lineage i chain) (hnodup : chain.Nodup) :
    chain.length ≤ p.nodes.size := by
  have hsub : chain ⊆ List.range p.nodes.size := fun k hk => List.mem_range.mpr (h.lt_size k hk)
  have hle := (List.subperm_of_subset hnodup hsub).length_le
  rwa [List.length_range] at hle

theorem Lineage.exists_steps {z : UInt8} (h : p.Lineage i chain) (hlinks : p.UnitLinks z)
    {n : Node} (hn : p.nodes[i]? = some n) :
    ∃ directions : List Direction, directions.length + 1 = chain.length ∧
      ∀ links later, directions.length ≤ links →
        p.stepsTo links n later = directions ++ later := by
  induction h generalizing n with
  | root hn' hparent =>
      obtain rfl := Option.some.inj (hn'.symm.trans hn)
      refine ⟨[], rfl, fun links later _ => ?_⟩
      cases links with
      | zero => rfl
      | succ links =>
          rw [stepsTo, hparent]
          rfl
  | @child i j n' chain hn' hparent h ih =>
      obtain rfl := Option.some.inj (hn'.symm.trans hn)
      obtain ⟨m, d, hm, hstep⟩ := hlinks i j n' hn hparent
      obtain ⟨directions, hlength, hsteps⟩ := ih hm
      refine ⟨directions ++ [d], by simp [hlength], ?_⟩
      intro links later hle
      rw [List.length_append, List.length_singleton] at hle
      obtain ⟨links, rfl⟩ : ∃ rest, links = rest + 1 := ⟨links - 1, by omega⟩
      rw [stepsTo_child hparent hm hstep, hsteps links _ (by omega), List.append_assoc]
      rfl

end Pool

namespace Grows

variable {q : Quest} {p : Pool} {order : List NodeIndex}

theorem unitLinks (h : Grows q p order) : p.UnitLinks q.start.z := by
  intro i j n hn hparent
  have hi : i ≠ 0 := by
    rintro rfl
    rw [h.root] at hn
    cases hn
    cases hparent
  obtain ⟨j', -, m, d, hparent', hm, hleads⟩ := h.parent i n hn hi
  obtain rfl := Option.some.inj (hparent'.symm.trans hparent)
  exact ⟨m, d, hm, hleads.step⟩

/-- A selected node hangs under nodes selected before it. -/
theorem lineage_of_selected (h : Grows q p order) (through : List NodeIndex)
    (hsuffix : through <:+ order) {i : NodeIndex} (hi : i ∈ through) :
    ∃ chain, p.Lineage i chain ∧ chain.Nodup ∧ chain ⊆ through := by
  induction through generalizing i with
  | nil => cases hi
  | cons k earlier ih =>
      have hearlier : earlier <:+ order := (List.suffix_cons k earlier).trans hsuffix
      rcases List.mem_cons.mp hi with rfl | hi
      · by_cases hroot : i = 0
        · subst hroot
          exact ⟨[0], .root h.root rfl, List.nodup_singleton 0,
            List.cons_subset_cons 0 (List.nil_subset _)⟩
        · have hn := Array.getElem?_eq_getElem (h.known i (hsuffix.subset hi))
          obtain ⟨j, -, m, d, hparent, -⟩ := h.parent i _ hn hroot
          obtain ⟨chain, hchain, hnodup, hsub⟩ :=
            ih hearlier (h.before i earlier hsuffix _ j hn hparent)
          have hnew : i ∉ earlier := (List.nodup_cons.mp (h.nodup.sublist hsuffix.sublist)).1
          exact ⟨i :: chain, .child hn hparent hchain,
            List.nodup_cons.mpr ⟨fun hmem => hnew (hsub hmem), hnodup⟩,
            List.cons_subset_cons i hsub⟩
      · obtain ⟨chain, hchain, hnodup, hsub⟩ := ih hearlier hi
        exact ⟨chain, hchain, hnodup, fun k' hk' => List.mem_cons_of_mem _ (hsub hk')⟩

/-- Any node hangs under selected nodes. -/
theorem exists_lineage (h : Grows q p order) {i : NodeIndex} {n : Node}
    (hn : p.nodes[i]? = some n) : ∃ chain, p.Lineage i chain ∧ chain.Nodup := by
  by_cases hi : i ∈ order
  · obtain ⟨chain, hchain, hnodup, -⟩ := h.lineage_of_selected order (List.suffix_refl _) hi
    exact ⟨chain, hchain, hnodup⟩
  by_cases hroot : i = 0
  · subst hroot
    exact ⟨[0], .root h.root rfl, List.nodup_singleton 0⟩
  obtain ⟨j, hj, m, d, hparent, -⟩ := h.parent i n hn hroot
  obtain ⟨chain, hchain, hnodup, hsub⟩ := h.lineage_of_selected order (List.suffix_refl _) hj
  exact ⟨i :: chain, .child hn hparent hchain,
    List.nodup_cons.mpr ⟨fun hmem => hi (hsub hmem), hnodup⟩⟩

theorem exists_leadsBack (h : Grows q p order) {i : NodeIndex} {n : Node}
    (hn : p.nodes[i]? = some n) :
    ∃ chain route, p.LeadsBack q.start.z i n chain route := by
  obtain ⟨chain, hchain, hnodup⟩ := h.exists_lineage hn
  obtain ⟨directions, hlength, hsteps⟩ := hchain.exists_steps h.unitLinks hn
  have hlinks := hchain.length_le hnodup
  have hroute := hsteps p.nodes.size [] (by omega)
  rw [List.append_nil] at hroute
  refine ⟨chain, ⟨directions, n.position q.start.z, n.f⟩, hchain, hnodup, ?_, hlength, hsteps⟩
  rw [Pool.route?, hn, Option.map_some, hroute]

end Grows

namespace Search

variable {q : Quest} {s : Search}

/-! ## The pool -/

/-- The node that is being expanded: the one selected last, as long as it is
open. -/
def expanding? (s : Search) : Option NodeIndex :=
  (s.visits.head?.map (·.node)).filter s.pool.isOpen

/-- What the pool of a search is at any time. -/
structure Represented (q : Quest) (s : Search) : Prop extends Pool.WellFormed s.pool where
  capacity : s.pool.capacity = q.config.nodeCapacity
  distinct : ∀ (i j : NodeIndex) (m n : Node), s.pool.nodes[i]? = some m →
    s.pool.nodes[j]? = some n → m.x = n.x → m.y = n.y → i = j
  root : s.pool.nodes[0]? = some ⟨q.start.x, q.start.y, 0, none⟩
  /-- Every other node lies one step from a parent that is no dearer and not
  to be expanded any more, except for the node being expanded. -/
  parent : ∀ (i : NodeIndex) (n : Node), s.pool.nodes[i]? = some n → i ≠ 0 →
    ∃ (j : NodeIndex) (m : Node) (d : Direction), n.parent = some j ∧
      s.pool.nodes[j]? = some m ∧ (j ∉ s.pool.frontier ∨ s.expanding? = some j) ∧
      (m.position q.start.z).step? d = some (n.position q.start.z) ∧ m.f ≤ n.f
  leadsBack : ∀ (i : NodeIndex) (n : Node), s.pool.nodes[i]? = some n →
    ∃ chain route, s.pool.LeadsBack q.start.z i n chain route

/-- Of the nodes selected, all but the last are closed. -/
def EarlierClosed (s : Search) : Prop :=
  ∀ v ∈ s.visits.tail, v.node ∉ s.pool.frontier

theorem EarlierClosed.closed_or_expanding (h : s.EarlierClosed) {j : NodeIndex}
    (hj : j ∈ s.visits.map (·.node)) : j ∉ s.pool.frontier ∨ s.expanding? = some j := by
  unfold EarlierClosed at h
  unfold expanding?
  cases hvisits : s.visits with
  | nil =>
      rw [hvisits] at hj
      cases hj
  | cons latest earlier =>
      rw [hvisits] at hj h
      by_cases hopen : j ∈ s.pool.frontier
      · rcases List.mem_cons.mp hj with rfl | hj
        · refine Or.inr (Option.filter_eq_some_iff.mpr ⟨rfl, ?_⟩)
          exact List.contains_iff_mem.mpr hopen
        · obtain ⟨v, hv, rfl⟩ := List.mem_map.mp hj
          exact absurd hopen (h v hv)
      · exact Or.inl hopen

theorem represented_of_grows (hg : Grows q s.pool (s.visits.map (·.node)))
    (hcapacity : s.pool.capacity = q.config.nodeCapacity) (hearlier : s.EarlierClosed) :
    s.Represented q where
  toWellFormed := hg.pool
  capacity := hcapacity
  distinct := fun _ _ _ _ hm hn hx hy => hg.pool.index_inj hm hn hx hy
  root := hg.root
  parent := by
    intro i n hn hi
    obtain ⟨j, hj, m, d, hparent, hm, hleads⟩ := hg.parent i n hn hi
    refine ⟨j, m, d, hparent, hm, hearlier.closed_or_expanding hj, hleads.step, ?_⟩
    rw [hleads.cost]
    exact q.le_arrivalCost m d _
  leadsBack := fun _ _ hn => hg.exists_leadsBack hn

/-! ## Steps -/

/-- While a node is being expanded, those selected before it stay closed. -/
theorem Valid.earlierClosed_part (h : s.Valid q) {current : NodeIndex}
    (hselect : s.select? q = some current) {n : Node} (hn : s.pool.nodes[current]? = some n)
    {part : List (Int × Int)} (hpart : part <+: s.pool.neighbors n q.params.allowDiagonal) :
    ((s.ask q current n).expand q current n part).EarlierClosed := by
  obtain ⟨hfinished, hgoing, -⟩ := select?_eq_some hselect
  have hprogress := h.expand_part hselect hn hpart
  intro v hv hopen
  rw [hprogress.visits] at hv
  have hnode : v.node ∈ s.visits.map (·.node) := List.mem_map_of_mem hv
  exact h.closed hfinished hgoing v.node hnode
    (hprogress.pool.closed v.node (List.mem_cons_of_mem _ hnode) hopen)

theorem Valid.earlierClosed_turn (h : s.Valid q) {current : NodeIndex}
    (hselect : s.select? q = some current) {n : Node} (hn : s.pool.nodes[current]? = some n) :
    (s.turn q current).EarlierClosed := by
  rcases turn_cases q hn with ⟨-, hturn⟩ | ⟨-, ⟨-, hturn⟩ | ⟨-, hturn⟩⟩ <;> rw [hturn]
  · exact h.earlierClosed_part hselect hn (List.nil_prefix ..)
  · exact h.earlierClosed_part hselect hn (List.prefix_refl _)
  · intro v hv hopen
    rw [Pool.frontier_close] at hopen
    exact h.earlierClosed_part hselect hn (List.prefix_refl _) v hv (List.mem_of_mem_erase hopen)

/-- Between two turns the pool is as it should be, and so it is at any time
of the turn to come. -/
theorem Accounted.represented (h : s.Accounted q) (hvalid : s.Valid q)
    (hearlier : s.EarlierClosed) : s.Represented q :=
  represented_of_grows hvalid.sound.grows h.capacity hearlier

theorem Accounted.represented_part (h : s.Accounted q) (hvalid : s.Valid q)
    {current : NodeIndex} (hselect : s.select? q = some current) {n : Node}
    (hn : s.pool.nodes[current]? = some n) {part : List (Int × Int)}
    (hpart : part <+: s.pool.neighbors n q.params.allowDiagonal) :
    Represented q ((s.ask q current n).expand q current n part) := by
  have hprogress := hvalid.expand_part hselect hn hpart
  have hspends := expand_spends q (s.ask q current n) current n part
  refine represented_of_grows ?_ (hspends.capacity.trans h.capacity)
    (hvalid.earlierClosed_part hselect hn hpart)
  rw [hprogress.visits]
  exact hprogress.grows

theorem earlierClosed_run (h : s.Valid q) (hearlier : s.EarlierClosed) (turns : Nat) :
    (Search.run q turns s).EarlierClosed := by
  refine (run_induction (P := fun s => s.Valid q ∧ s.EarlierClosed) ?_ ⟨h, hearlier⟩ turns).2
  rintro t current n ⟨ht, -⟩ hselect hn
  exact ⟨ht.turn hselect, ht.earlierClosed_turn hselect hn⟩

end Search

/-- At every step of every search the pool represents a tree of ways from the
start, whatever searches it has served before: after any number of turns,
and in a turn after any part of the neighbors of the node selected has been
looked at. The pool that a search leaves behind is that of its last turn. -/
theorem Pathfinder.pool_represented {config : SearchConfig} {f : Pathfinder}
    (hf : f.InUse config) (w : World) (mover : Occupant) (start : Position)
    (condition : PathCondition) (params : SearchParams) :
    let q : Quest := ⟨config, w, mover, start, condition, params⟩
    let after (turns : Nat) : Search :=
      Search.run q turns { pool := f.pool.restart start.x start.y }
    (∀ turns, (after turns).Represented q) ∧
    (∀ (turns : Nat) (current : NodeIndex) (n : Node) (part : List (Int × Int)),
      (after turns).select? q = some current → (after turns).pool.nodes[current]? = some n →
      part <+: (after turns).pool.neighbors n params.allowDiagonal →
      Search.Represented q (((after turns).ask q current n).expand q current n part)) ∧
    (start.hasValidFloor = true → ∀ (f' : Pathfinder) (report : SearchReport),
      f.find w mover start condition params = some (f', report) →
      f'.pool = (after config.nodeCapacity).pool) := by
  intro q after
  obtain ⟨rfl, hready⟩ := hf.ready
  have hstart := hready.valid_restart q
  have hvalid : ∀ turns, (after turns).Valid q := hstart.run
  have haccounted : ∀ turns, (after turns).Accounted q :=
    (Search.accounted_restart hready.capacity).run hstart
  refine ⟨fun turns => ?_, fun turns current n part hselect hn hpart => ?_,
    fun hfloor f' report hfind => ?_⟩
  · exact (haccounted turns).represented (hvalid turns)
      (Search.earlierClosed_run hstart nofun turns)
  · exact (haccounted turns).represented_part (hvalid turns) hselect hn hpart
  · obtain ⟨-, rfl, -⟩ := find_eq_some hfloor hfind
    rfl

/-- On an open field the start reaches the cell to the southeast by a diagonal
step, at a cost of 25. While the southern neighbor of the start is being
expanded, that cell comes to hang under it at a cost of 20. The pool is as it
should be then, and when the search is over. -/
theorem Pathfinder.pool_represented_reparented :
    let config : SearchConfig := {}
    let floor : Cell := .onGround { kind := 100 }
    let w := ((World.empty {}).run
      [.setCell ⟨10, 10, 7⟩ floor .merge, .setCell ⟨11, 10, 7⟩ floor .merge,
        .setCell ⟨12, 10, 7⟩ floor .merge, .setCell ⟨10, 11, 7⟩ floor .merge,
        .setCell ⟨11, 11, 7⟩ floor .merge, .setCell ⟨12, 11, 7⟩ floor .merge]).1
    let condition := TargetCondition.toPathCondition ⟨⟨13, 9, 7⟩⟩
    let params : SearchParams := { minTarget := 1, maxTarget := 1, clearSight := false }
    let q : Quest := ⟨config, w, .player, ⟨10, 10, 7⟩, condition, params⟩
    let after (turns : Nat) : Search :=
      Search.run q turns { pool := (fresh config).pool.restart 10 10 }
    let n : Node := ⟨10, 11, 10, some 0⟩
    let during := ((after 1).ask q 1 n).expand q 1 n [(-1, 0), (0, 1), (1, 0)]
    (fresh config).InUse config ∧ (after 1).select? q = some 1 ∧
      (after 1).pool.nodes[1]? = some n ∧
      [(-1, 0), (0, 1), (1, 0)] <+: (after 1).pool.neighbors n params.allowDiagonal ∧
      (after 1).pool.nodes[3]? = some ⟨11, 11, 25, some 0⟩ ∧
      during.pool.nodes[3]? = some ⟨11, 11, 20, some 1⟩ ∧ during.expanding? = some 1 ∧
      during.Represented q ∧ Position.hasValidFloor ⟨10, 10, 7⟩ = true ∧
      ∃ f' report turns,
        (fresh config).find w .player ⟨10, 10, 7⟩ condition params = some (f', report) ∧
        (after turns).Represented q ∧ f'.pool = (after turns).pool := by
  intro config floor w condition params q after n during
  have hf : (fresh config).InUse config := .created rfl
  have hselect : (after 1).select? q = some 1 := by decide +kernel
  have hn : (after 1).pool.nodes[1]? = some n := by decide +kernel
  have hpart : [(-1, 0), (0, 1), (1, 0)] <+:
      (after 1).pool.neighbors n params.allowDiagonal := by decide +kernel
  have hfloor : Position.hasValidFloor ⟨10, 10, 7⟩ = true := by decide
  have hanswer :
      ((fresh config).find w .player ⟨10, 10, 7⟩ condition params).isSome = true := by
    decide +kernel
  obtain ⟨⟨f', report⟩, hfind⟩ := Option.isSome_iff_exists.mp hanswer
  obtain ⟨hturns, hpartway, hlast⟩ :=
    pool_represented hf w .player ⟨10, 10, 7⟩ condition params
  exact ⟨hf, hselect, hn, hpart, by decide +kernel, by decide +kernel, by decide +kernel,
    hpartway 1 1 n _ hselect hn hpart, hfloor, f', report, config.nodeCapacity, hfind,
    hturns _, hlast hfloor f' report hfind⟩

end TileWorld
