import TileWorld.Proofs.PositionLaws
import TileWorld.Route.Neighbors

/-!
# Pruned neighbors

A node whose parent lies on some side expands a part of its neighbors
(`expanded`). A neighbor left out is the parent itself, or the parent
reaches it by a single straight step, which costs no more than going by
way of the node (`mem_expanded_or`).
-/

namespace TileWorld

theorem Direction.mem_all (d : Direction) : d ∈ Direction.all := by
  cases d <;> decide

theorem Direction.offset_inj {c d : Direction} : c.offset = d.offset ↔ c = d := by
  constructor
  · intro h
    have hc := ofOffset?_offset c
    rw [h, ofOffset?_offset d] at hc
    exact (Option.some.inj hc).symm
  · rintro rfl
    rfl

theorem Direction.ofOffset?_eq_some {dx dy : Int} {d : Direction} (hx : dx = d.offset.1)
    (hy : dy = d.offset.2) : ofOffset? dx dy = some d := by
  rw [hx, hy, ofOffset?_offset]

/-- Offsets expanded by a node whose parent lies one step away in a direction. -/
def expanded (side : Direction) (allowDiagonal : Bool) : List (Int × Int) :=
  (awayFrom (parentSide side.offset.1 side.offset.2 allowDiagonal)).take
    (if allowDiagonal then 5 else 3)

/-- The unpruned expansion of a node takes every direction, or every straight one. -/
def Expandable (d : Direction) (isRoot allowDiagonal : Bool) : Prop :=
  d.isDiagonal = true → isRoot = true ∨ allowDiagonal = true

instance (d : Direction) (isRoot allowDiagonal : Bool) :
    Decidable (Expandable d isRoot allowDiagonal) :=
  inferInstanceAs (Decidable (_ → _))

theorem exists_direction_of_mem_allNeighbors {o : Int × Int} (h : o ∈ allNeighbors) :
    ∃ d : Direction, d.offset = o := by
  have htable : ∀ o ∈ allNeighbors, ∃ d ∈ Direction.all, d.offset = o := by decide
  obtain ⟨d, -, hd⟩ := htable o h
  exact ⟨d, hd⟩

theorem offset_mem_allNeighbors (d : Direction) : d.offset ∈ allNeighbors := by
  cases d <;> decide

theorem exists_direction_of_mem_expanded {side : Direction} {allowDiagonal : Bool} {o : Int × Int}
    (h : o ∈ expanded side allowDiagonal) :
    ∃ d : Direction, d.offset = o ∧ Expandable d false allowDiagonal := by
  have htable : ∀ side ∈ Direction.all, ∀ allow : Bool, ∀ o ∈ expanded side allow,
      ∃ d ∈ Direction.all, d.offset = o ∧ Expandable d false allow := by decide
  obtain ⟨d, -, hd⟩ := htable side side.mem_all allowDiagonal o h
  exact ⟨d, hd⟩

/-- A neighbor is expanded, or it is the parent, or it lies one straight
step from the parent. In the last case one of the two steps that lead to
it by way of the node is straight. -/
theorem mem_expanded_or {side d : Direction} {allowDiagonal : Bool}
    (h : Expandable d false allowDiagonal) :
    d.offset ∈ expanded side allowDiagonal ∨ d = side ∨
      ∃ e : Direction, e.isDiagonal = false ∧
        (e.offset.1 = d.offset.1 - side.offset.1 ∧ e.offset.2 = d.offset.2 - side.offset.2) ∧
        (d.isDiagonal = true → side.isDiagonal = false) := by
  have htable : ∀ side ∈ Direction.all, ∀ d ∈ Direction.all, ∀ allow : Bool,
      Expandable d false allow → d.offset ∈ expanded side allow ∨ d = side ∨
        ∃ e ∈ Direction.all, e.isDiagonal = false ∧
          (e.offset.1 = d.offset.1 - side.offset.1 ∧ e.offset.2 = d.offset.2 - side.offset.2) ∧
          (d.isDiagonal = true → side.isDiagonal = false) := by decide +kernel
  rcases htable side side.mem_all d d.mem_all allowDiagonal h with hmem | heq | ⟨e, -, he⟩
  · exact Or.inl hmem
  · exact Or.inr (Or.inl heq)
  · exact Or.inr (Or.inr ⟨e, he⟩)

namespace Pool

variable {p : Pool} {n : Node}

theorem neighbors_of_root (h : n.parent = none) (allowDiagonal : Bool) :
    p.neighbors n allowDiagonal = allNeighbors := by
  unfold neighbors
  rw [h]
  rfl

/-- A node with its parent one step away on a side expands away from it. -/
theorem neighbors_of_parent {j : NodeIndex} {m : Node} (hj : n.parent = some j)
    (hm : p.nodes[j]? = some m) {side : Direction}
    (hx : (m.x.toNat : Int) - n.x.toNat = side.offset.1)
    (hy : (m.y.toNat : Int) - n.y.toNat = side.offset.2) (allowDiagonal : Bool) :
    p.neighbors n allowDiagonal = expanded side allowDiagonal := by
  unfold neighbors
  rw [hj, Option.bind_some, hm]
  show (awayFrom (parentSide _ _ allowDiagonal)).take _ = _
  rw [hx, hy]
  rfl

end Pool

end TileWorld
