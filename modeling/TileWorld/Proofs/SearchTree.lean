import TileWorld.Proofs.PoolLaws
import TileWorld.Proofs.Pruning
import TileWorld.Proofs.Trails

/-!
# The tree of a search

The parents of its nodes make the pool of a search a tree. `Grows` says
what the tree is at any time, given the order in which nodes were
selected: every node hangs under a selected one by a step that the mover
may take and carries the cost of that step added to the cost of its
parent, and nobody still open is cheaper than a selected node. A selected
node therefore never changes again, so that no cost below it goes stale
(`Grows.reopen`, `Grows.add`).
-/

namespace TileWorld

namespace Quest

/-- The cost of arriving at a position from a node by a step in a direction. -/
def arrivalCost (q : Quest) (n : Node) (d : Direction) (next : Position) : UInt32 :=
  .ofNat (cap (n.f.toNat + (q.directionCost d).toNat + q.entryCost next))

theorem toNat_arrivalCost (q : Quest) (n : Node) (d : Direction) (next : Position) :
    (q.arrivalCost n d next).toNat =
      cap (n.f.toNat + (q.directionCost d).toNat + q.entryCost next) := by
  refine UInt32.toNat_ofNat_of_lt' ?_
  unfold cap UInt32.size
  omega

/-- The cost of arriving is that of the node, the step and the cell added up
as words, each sum cut off at the largest one. -/
theorem arrivalCost_eq (q : Quest) (n : Node) (d : Direction) {next : Position}
    (h : q.entryCost next < 4294967296) : q.arrivalCost n d next =
      saturatingAdd (saturatingAdd n.f (q.directionCost d)) (.ofNat (q.entryCost next)) := by
  rw [← UInt32.toNat_inj, toNat_arrivalCost, toNat_saturatingAdd, toNat_saturatingAdd,
    UInt32.toNat_ofNat_of_lt' h]
  unfold cap
  omega

theorem eq_arrivalCost (q : Quest) {n : Node} {d : Direction} {next : Position} {f : UInt32}
    (h : q.arrivalCost? n (q.directionCost d) next (q.world.cell? next) = some f) :
    f = q.arrivalCost n d next := by
  rw [q.arrivalCost?_eq, Option.ite_none_right_eq_some] at h
  rw [q.arrivalCost_eq n d h.1]
  exact (Option.some.inj h.2).symm

theorem le_arrivalCost (q : Quest) (n : Node) (d : Direction) (next : Position) :
    n.f ≤ q.arrivalCost n d next := by
  have hf := n.f.toNat_lt
  rw [UInt32.le_iff_toNat_le, toNat_arrivalCost]
  unfold cap
  omega

/-- A step that the search may take leads from one node to the other, and
the other has its cost by that step. -/
structure Leads (q : Quest) (i : NodeIndex) (m : Node) (d : Direction) (n : Node) : Prop where
  step : (m.position q.start.z).step? d = some (n.position q.start.z)
  expandable : Expandable d (i == 0) q.params.allowDiagonal
  mayEnter : q.mayEnter (n.position q.start.z) = true
  cost : n.f = q.arrivalCost m d (n.position q.start.z)

/-- The node in a direction is known at no greater cost than by way of the
given one, provided that the mover may go there. -/
def Covers (q : Quest) (p : Pool) (n : Node) (d : Direction) : Prop :=
  ∀ next, (n.position q.start.z).step? d = some next → q.mayEnter next = true →
    ∃ (j : NodeIndex) (m : Node), p.nodes[j]? = some m ∧ m.position q.start.z = next ∧
      m.f ≤ q.arrivalCost n d next

end Quest

/-- A later pool has the nodes of an earlier one, some of them cheaper, but
those of a list as they were. -/
structure Pool.Extends (p' p : Pool) (order : List NodeIndex) : Prop where
  kept : ∀ i ∈ order, p'.nodes[i]? = p.nodes[i]?
  cheaper : ∀ (i : NodeIndex) (n : Node), p.nodes[i]? = some n →
    ∃ n' : Node, p'.nodes[i]? = some n' ∧ (n'.x = n.x ∧ n'.y = n.y) ∧ n'.f ≤ n.f
  opened : ∀ i ∈ p.frontier, i ∈ p'.frontier
  closed : ∀ i ∈ order, i ∈ p'.frontier → i ∈ p.frontier

namespace Pool.Extends

variable {p p' p'' : Pool} {order : List NodeIndex}

theorem refl (p : Pool) (order : List NodeIndex) : p.Extends p order :=
  ⟨fun _ _ => rfl, fun _ n hn => ⟨n, hn, ⟨rfl, rfl⟩, UInt32.le_refl _⟩, fun _ h => h,
    fun _ _ h => h⟩

theorem trans (h : p'.Extends p order) (h' : p''.Extends p' order) : p''.Extends p order := by
  refine ⟨fun i hi => (h'.kept i hi).trans (h.kept i hi), ?_,
    fun i hi => h'.opened i (h.opened i hi), fun i ho hi => h.closed i ho (h'.closed i ho hi)⟩
  intro i n hn
  obtain ⟨n', hn', ⟨hx, hy⟩, hf⟩ := h.cheaper i n hn
  obtain ⟨n'', hn'', ⟨hx', hy'⟩, hf'⟩ := h'.cheaper i n' hn'
  exact ⟨n'', hn'', ⟨hx'.trans hx, hy'.trans hy⟩, UInt32.le_trans hf' hf⟩

theorem covers (h : p'.Extends p order) {q : Quest} {n : Node} {d : Direction}
    (hc : q.Covers p n d) : q.Covers p' n d := by
  intro next hstep henter
  obtain ⟨j, m, hm, hpos, hf⟩ := hc next hstep henter
  obtain ⟨m', hm', ⟨hx, hy⟩, hf'⟩ := h.cheaper j m hm
  refine ⟨j, m', hm', ?_, UInt32.le_trans hf' hf⟩
  rw [← hpos]
  simp only [Node.position, hx, hy]

end Pool.Extends

/-- The pool of a search is a tree that grows at its selected nodes. They
are listed in the order of selection, latest first. -/
structure Grows (q : Quest) (p : Pool) (order : List NodeIndex) : Prop where
  pool : p.WellFormed
  root : p.nodes[0]? = some ⟨q.start.x, q.start.y, 0, none⟩
  nodup : order.Nodup
  known : ∀ i : Nat, i ∈ order → i < p.nodes.size
  /-- What is not open was selected. -/
  selected : ∀ i : Nat, i < p.nodes.size → i ∉ p.frontier → i ∈ order
  parent : ∀ (i : NodeIndex) (n : Node), p.nodes[i]? = some n → i ≠ 0 →
    ∃ j ∈ order, ∃ m d, n.parent = some j ∧ p.nodes[j]? = some m ∧ q.Leads j m d n
  /-- The parent of a selected node was selected before it. -/
  before : ∀ i rest, (i :: rest) <:+ order → ∀ (n : Node) (j : NodeIndex),
    p.nodes[i]? = some n → n.parent = some j → j ∈ rest
  cheapest : ∀ (i j : NodeIndex) (m n : Node), i ∈ order → p.nodes[i]? = some m →
    j ∈ p.frontier → p.nodes[j]? = some n → m.f ≤ n.f

namespace Grows

variable {q : Quest} {p : Pool} {order : List NodeIndex}

theorem restart (q : Quest) {p : Pool} (hroom : (Pool.empty p.capacity).isFull = false) :
    Grows q (p.restart q.start.x q.start.y) [] := by
  have hpool : p.restart q.start.x q.start.y =
      (Pool.empty p.capacity).add ⟨q.start.x, q.start.y, 0, none⟩ := by
    unfold Pool.restart
    dsimp only
    rw [hroom]
    rfl
  have hwf := Pool.wellFormed_restart p q.start.x q.start.y
  rw [hpool] at hwf ⊢
  refine ⟨hwf, rfl, List.nodup_nil, nofun, ?_, ?_, ?_, nofun⟩
  · intro i hi hopen
    have hi0 : i = 0 := Nat.lt_one_iff.mp hi
    subst hi0
    exact absurd (List.mem_singleton_self 0) hopen
  · intro i n hn hi
    rw [Pool.getElem?_add, if_neg (show ¬ i = (Pool.empty p.capacity).nodes.size from hi)] at hn
    simp [Pool.empty] at hn
  · intro i rest hsuffix
    exact absurd (List.suffix_nil.mp hsuffix) (List.cons_ne_nil i rest)

theorem mem_of_not_open (h : Grows q p order) {i : NodeIndex} {n : Node}
    (hn : p.nodes[i]? = some n) (hi : i ∉ p.frontier) : i ∈ order :=
  h.selected i (Array.getElem?_eq_some_iff.mp hn).1 hi

/-- The mover may enter every cell that has a node, the start apart. -/
theorem mayEnter (h : Grows q p order) {i : NodeIndex} {n : Node} (hn : p.nodes[i]? = some n)
    (hi : i ≠ 0) : q.mayEnter (n.position q.start.z) = true := by
  obtain ⟨j, -, m, d, -, -, hleads⟩ := h.parent i n hn hi
  exact hleads.mayEnter

/-! ## Selecting and closing -/

theorem select (h : Grows q p order) (hclosed : ∀ i ∈ order, i ∉ p.frontier) {i : NodeIndex}
    (hi : p.best? = some i) : Grows q p (i :: order) := by
  obtain ⟨hopen, m, hm, hmin⟩ := Pool.best?_eq_some hi
  refine ⟨h.pool, h.root, ?_, ?_, ?_, ?_, ?_, ?_⟩
  · exact List.nodup_cons.mpr ⟨fun hmem => hclosed i hmem hopen, h.nodup⟩
  · intro j hj
    rcases List.mem_cons.mp hj with rfl | hj
    · exact (Array.getElem?_eq_some_iff.mp hm).1
    · exact h.known j hj
  · exact fun j hj hjopen => List.mem_cons_of_mem _ (h.selected j hj hjopen)
  · intro j n hn hj
    obtain ⟨k, hk, hlink⟩ := h.parent j n hn hj
    exact ⟨k, List.mem_cons_of_mem _ hk, hlink⟩
  · intro j rest hsuffix n k hn hk
    rcases List.suffix_cons_iff.mp hsuffix with heq | hsuffix
    · obtain ⟨rfl, rfl⟩ := List.cons.inj heq
      have hj : j ≠ 0 := by
        rintro rfl
        rw [h.root] at hn
        cases hn
        cases hk
      obtain ⟨k', hk', -, -, hparent, -⟩ := h.parent j n hn hj
      obtain rfl := Option.some.inj (hk.symm.trans hparent)
      exact hk'
    · exact h.before j rest hsuffix n k hn hk
  · intro j k n n' hj hn hk hn'
    rcases List.mem_cons.mp hj with rfl | hj
    · obtain rfl := Option.some.inj (hm.symm.trans hn)
      exact (hmin k n' hk hn').le
    · exact h.cheapest j k n n' hj hn hk hn'

theorem close (h : Grows q p order) {i : NodeIndex} (hi : i ∈ order) (hopen : i ∈ p.frontier) :
    Grows q (p.close i) order := by
  have hpool := h.pool.close hopen
  rw [Pool.close_of_mem hopen] at hpool ⊢
  refine ⟨hpool, h.root, h.nodup, h.known, ?_, h.parent, h.before, ?_⟩
  · intro j hj hjopen
    by_cases hji : j = i
    · rw [hji]
      exact hi
    · exact h.selected j hj fun hmem => hjopen ((List.mem_erase_of_ne hji).mpr hmem)
  · exact fun j k m n hj hm hk hn => h.cheapest j k m n hj hm (List.mem_of_mem_erase hk) hn

/-! ## Reaching neighbors -/

section Reaching

variable {current : NodeIndex} {n : Node}

/-- A way through the node being expanded is no cheaper than any selected
node. -/
theorem le_arrival (h : Grows q p order) (hopen : current ∈ p.frontier)
    (hn : p.nodes[current]? = some n) (d : Direction) (next : Position) {i : NodeIndex} {m : Node}
    (hi : i ∈ order) (hm : p.nodes[i]? = some m) : m.f ≤ q.arrivalCost n d next :=
  UInt32.le_trans (h.cheapest i current m n hi hm hopen hn) (q.le_arrivalCost n d next)

/-- Only an open node can be reached at a lower cost than before. -/
theorem not_mem_of_cheaper (h : Grows q p order) (hopen : current ∈ p.frontier)
    (hn : p.nodes[current]? = some n) {d : Direction} {next : Position} {k : NodeIndex} {m : Node}
    (hm : p.nodes[k]? = some m) (hless : q.arrivalCost n d next < m.f) : k ∉ order :=
  fun hk => UInt32.not_le.mpr hless (h.le_arrival hopen hn d next hk hm)

/-- The tree goes on growing as long as the selected nodes stay as they are
and every other node that changes hangs under the one being expanded. -/
theorem grow (h : Grows q p order) (hcurrent : current ∈ order) (hopen : current ∈ p.frontier)
    (hn : p.nodes[current]? = some n) {p' : Pool} (hp : p'.WellFormed)
    (hextends : p'.Extends p order)
    (hselected : ∀ i : Nat, i < p'.nodes.size → i ∉ p'.frontier → i ∈ order)
    (hnodes : ∀ (i : NodeIndex) (m : Node), p'.nodes[i]? = some m →
      (p.nodes[i]? = some m ∧ (i ∈ p'.frontier → i ∈ p.frontier)) ∨
        i ≠ 0 ∧ m.parent = some current ∧ ∃ d, q.Leads current n d m) :
    Grows q p' order where
  pool := hp
  root := by
    obtain ⟨m, hm, -⟩ := hextends.cheaper 0 _ h.root
    rcases hnodes 0 m hm with ⟨hm', -⟩ | ⟨h0, -⟩
    · rw [hm, ← hm']
      exact h.root
    · exact absurd rfl h0
  nodup := h.nodup
  known := by
    intro i hi
    have hm := Array.getElem?_eq_getElem (h.known i hi)
    exact (Array.getElem?_eq_some_iff.mp ((hextends.kept i hi).trans hm)).1
  selected := hselected
  parent := by
    intro i m hm hi
    rcases hnodes i m hm with ⟨hm', -⟩ | ⟨-, hparent, d, hleads⟩
    · obtain ⟨j, hj, l, d, hparent, hl, hleads⟩ := h.parent i m hm' hi
      exact ⟨j, hj, l, d, hparent, (hextends.kept j hj).trans hl, hleads⟩
    · exact ⟨current, hcurrent, n, d, hparent, (hextends.kept current hcurrent).trans hn, hleads⟩
  before := by
    intro i rest hsuffix m j hm hj
    rw [hextends.kept i (hsuffix.subset (List.mem_cons_self ..))] at hm
    exact h.before i rest hsuffix m j hm hj
  cheapest := by
    intro i j l m hi hl hj hm
    rw [hextends.kept i hi] at hl
    rcases hnodes j m hm with ⟨hm', hjopen⟩ | ⟨-, -, d, hleads⟩
    · exact h.cheapest i j l m hi hl (hjopen hj) hm'
    · rw [hleads.cost]
      exact h.le_arrival hopen hn d _ hi hl

theorem reopen (h : Grows q p order) (hcurrent : current ∈ order) (hopen : current ∈ p.frontier)
    (hn : p.nodes[current]? = some n) {d : Direction}
    (hd : Expandable d (current == 0) q.params.allowDiagonal) {next : Position}
    (hstep : (n.position q.start.z).step? d = some next) {k : NodeIndex} {m : Node}
    (hm : p.nodes[k]? = some m) (hpos : m.position q.start.z = next)
    (hless : q.arrivalCost n d next < m.f) :
    Grows q (p.reopen k current (q.arrivalCost n d next)) order ∧
      (p.reopen k current (q.arrivalCost n d next)).Extends p order := by
  have hk := h.not_mem_of_cheaper hopen hn hm hless
  have hkopen : k ∈ p.frontier := by
    by_contra hclosed
    exact hk (h.mem_of_not_open hm hclosed)
  have hk0 : k ≠ 0 := by
    rintro rfl
    rw [h.root] at hm
    cases hm
    exact absurd hless (UInt32.not_lt.mpr (UInt32.zero_le))
  have hfrontier := p.frontier_reopen_of_mem hkopen current (q.arrivalCost n d next)
  have hnodes := p.getElem?_reopen k current (q.arrivalCost n d next)
  have hextends : (p.reopen k current (q.arrivalCost n d next)).Extends p order := by
    refine ⟨?_, ?_, fun i hi => hfrontier.symm ▸ hi, fun i _ hi => hfrontier ▸ hi⟩
    · intro i hi
      rw [hnodes, if_neg]
      rintro rfl
      exact hk hi
    · intro i n' hn'
      rw [hnodes]
      split
      · rename_i hki
        subst hki
        obtain rfl := Option.some.inj (hm.symm.trans hn')
        exact ⟨{ m with f := q.arrivalCost n d next, parent := some current }, by rw [hm]; rfl,
          ⟨rfl, rfl⟩, UInt32.le_of_lt hless⟩
      · exact ⟨n', hn', ⟨rfl, rfl⟩, UInt32.le_refl _⟩
  refine ⟨h.grow hcurrent hopen hn (h.pool.reopen (Array.getElem?_eq_some_iff.mp hm).1 _ _)
    hextends ?_ ?_, hextends⟩
  · intro i hi hclosed
    rw [Pool.size_reopen] at hi
    exact h.selected i hi (hfrontier ▸ hclosed)
  · intro i m' hm'
    rw [hnodes] at hm'
    split at hm'
    · rename_i hki
      subst hki
      rw [hm] at hm'
      obtain rfl := Option.some.inj hm'
      have henter := h.mayEnter hm hk0
      refine Or.inr ⟨hk0, rfl, d, ?_, hd, henter, ?_⟩
      · rw [hstep, ← hpos]
        rfl
      · rw [← hpos]
        rfl
    · exact Or.inl ⟨hm', fun hi => hfrontier ▸ hi⟩

theorem add (h : Grows q p order) (hcurrent : current ∈ order) (hopen : current ∈ p.frontier)
    (hn : p.nodes[current]? = some n) {d : Direction}
    (hd : Expandable d (current == 0) q.params.allowDiagonal) {next : Position}
    (hstep : (n.position q.start.z).step? d = some next) (henter : q.mayEnter next = true)
    (hnew : p.find? next.x next.y = none) (hroom : p.isFull = false) :
    Grows q (p.add ⟨next.x, next.y, q.arrivalCost n d next, some current⟩) order ∧
      (p.add ⟨next.x, next.y, q.arrivalCost n d next, some current⟩).Extends p order := by
  have hz : next.z = q.start.z := (Position.step?_eq_some_iff.mp hstep).2.2
  have hnodes := p.getElem?_add ⟨next.x, next.y, q.arrivalCost n d next, some current⟩
  have hextends :
      (p.add ⟨next.x, next.y, q.arrivalCost n d next, some current⟩).Extends p order := by
    refine ⟨?_, ?_, fun i hi => List.mem_cons_of_mem _ hi, ?_⟩
    · intro i hi
      rw [hnodes, if_neg (Nat.ne_of_lt (h.known i hi))]
    · intro i n' hn'
      have hi := Nat.ne_of_lt (Array.getElem?_eq_some_iff.mp hn').1
      exact ⟨n', by rw [hnodes, if_neg hi, hn'], ⟨rfl, rfl⟩, UInt32.le_refl _⟩
    · intro i hi hi'
      rw [Pool.frontier_add, List.mem_cons] at hi'
      exact hi'.resolve_left (Nat.ne_of_lt (h.known i hi))
  refine ⟨h.grow hcurrent hopen hn (h.pool.add hnew hroom) hextends ?_ ?_, hextends⟩
  · intro i hi hclosed
    rw [Pool.size_add] at hi
    rw [Pool.frontier_add, List.mem_cons, not_or] at hclosed
    exact h.selected i (Nat.lt_of_le_of_ne (Nat.le_of_lt_succ hi) hclosed.1) hclosed.2
  · intro i m hm
    rw [hnodes] at hm
    split at hm
    · rename_i hi
      obtain rfl := Option.some.inj hm
      have hi0 : i ≠ 0 :=
        hi ▸ (Nat.ne_of_lt (Array.getElem?_eq_some_iff.mp h.root).1).symm
      have hpos : Node.position ⟨next.x, next.y, q.arrivalCost n d next, some current⟩
          q.start.z = next := by rw [Node.position, ← hz]
      exact Or.inr ⟨hi0, rfl, d, by rw [hpos]; exact hstep, hd, by rw [hpos]; exact henter,
        by rw [hpos]⟩
    · rename_i hi
      refine Or.inl ⟨hm, fun hiopen => ?_⟩
      rw [Pool.frontier_add, List.mem_cons] at hiopen
      exact hiopen.resolve_left hi

end Reaching

end Grows

end TileWorld
