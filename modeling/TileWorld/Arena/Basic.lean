import TileWorld.Leaf

/-!
# The arena of the index

The index of the leaves is a quadrant tree. Its nodes lie in an arena and
name their children by place. A way down the tree carries the column and
the row in two cursors. Every level reads the top bit of either cursor,
which tells one of four quarters, and shifts both by one bit.

A look-up follows children until it meets a leaf or misses a child
(`Arena.descend`). It counts no levels, so it is told how many nodes it may
enter. To plant a leaf is to add what is missing on the way
(`Arena.plant`); here levels are counted down from the topmost bit of a
coordinate. Neither has a result if the way leads out of the arena, or on
for too long.
-/

namespace TileWorld

/-- A node of the tree. -/
inductive ArenaNode where
  /-- The places of the children, in the order of their quarters. -/
  | branch (children : Vector (Option UInt32) 4)
  | leaf (id : LeafId)

/-- A branch without children. -/
def ArenaNode.bare : ArenaNode :=
  .branch (Vector.replicate 4 none)

/-- The nodes of a tree, in the order of creation. The first one is the
root. -/
structure Arena where
  nodes : Array ArenaNode

namespace Arena

def empty : Arena := ⟨#[.bare]⟩

/-! ## Quarters -/

/-- The top bits of two cursors, side by side. -/
def slotBits (x y : UInt32) : UInt32 :=
  ((x &&& 0x8000) >>> 15) ||| ((y &&& 0x8000) >>> 14)

/-- The top bit of a cursor, as a number. -/
def topBit (cursor : UInt32) : Nat :=
  cursor.toNat / 32768 % 2

theorem topBit_lt (cursor : UInt32) : topBit cursor < 2 :=
  Nat.mod_lt _ (by decide)

theorem toNat_and_top (cursor : UInt32) : (cursor &&& 0x8000).toNat = 32768 * topBit cursor := by
  have hdiv : (cursor.toNat &&& 2 ^ 15) >>> 15 = topBit cursor := by
    rw [Nat.shiftRight_and_distrib, show (2 ^ 15 >>> 15 : Nat) = 1 from rfl, Nat.and_one_is_mod,
      Nat.shiftRight_eq_div_pow]
    rfl
  have hmod : (cursor.toNat &&& 2 ^ 15) % 2 ^ 15 = 0 := by
    rw [Nat.and_mod_two_pow, show (2 ^ 15 % 2 ^ 15 : Nat) = 0 from rfl, Nat.and_zero]
  rw [Nat.shiftRight_eq_div_pow] at hdiv
  show cursor.toNat &&& 2 ^ 15 = _
  omega

theorem toNat_slotBits (x y : UInt32) : (slotBits x y).toNat = topBit x + 2 * topBit y := by
  have htable : ∀ a < 2, ∀ b < 2, (32768 * a) >>> 15 ||| (32768 * b) >>> 14 = a + 2 * b := by
    decide
  rw [slotBits, UInt32.toNat_or, UInt32.toNat_shiftRight, UInt32.toNat_shiftRight, toNat_and_top,
    toNat_and_top]
  exact htable _ (topBit_lt x) _ (topBit_lt y)

/-- The quarter that two cursors point to. -/
def childSlot (x y : UInt32) : Fin 4 :=
  ⟨(slotBits x y).toNat, by
    have hx := topBit_lt x
    have hy := topBit_lt y
    rw [toNat_slotBits]
    omega⟩

theorem childSlot_eq_iff {x y x' y' : UInt32} :
    childSlot x y = childSlot x' y' ↔ topBit x = topBit x' ∧ topBit y = topBit y' := by
  have hx := topBit_lt x
  have hx' := topBit_lt x'
  rw [← Fin.val_inj]
  show (slotBits x y).toNat = (slotBits x' y').toNat ↔ _
  rw [toNat_slotBits, toNat_slotBits]
  omega

/-! ## Ways down -/

/-- Follows two cursors down from a node, entering at most so many nodes.
The answer is the leaf met, or none if a child is missing. -/
def descend (a : Arena) : Nat → Nat → UInt32 → UInt32 → Option (Option LeafId)
  | 0, _, _, _ => none
  | entries + 1, node, x, y =>
    match a.nodes[node]? with
    | none => none
    | some (.leaf id) => some (some id)
    | some (.branch children) =>
      match children.get (childSlot x y) with
      | none => some none
      | some child => a.descend entries child.toNat (x <<< 1) (y <<< 1)

/-- The place of the node to be created next. -/
def next (a : Arena) : UInt32 :=
  .ofNat a.nodes.size

/-- The arena with another node, which a branch gets as its child in a
quarter. The branch is written back in its place. -/
def attach (a : Arena) (parent : Nat) (children : Vector (Option UInt32) 4) (slot : Fin 4)
    (n : ArenaNode) : Arena :=
  ⟨(a.nodes.push n).setIfInBounds parent (.branch (children.set slot (some a.next) slot.isLt))⟩

/-- What is to be done next on the way to a leaf to be planted. -/
inductive Planting where
  /-- The leaf is there: it was met, or it has been created. -/
  | done (met : Option LeafId) (arena : Arena)
  /-- The way leads on from a node. -/
  | onward (arena : Arena) (node : Nat)

/-- One level of the way to a leaf to be planted. A missing child is
created, as a leaf on the last level and as a branch before. -/
def plantStep (a : Arena) (new : LeafId) (level node : Nat) (x y : UInt32) : Option Planting :=
  match a.nodes[node]? with
  | none => none
  | some (.leaf id) => some (.done (some id) a)
  | some (.branch children) =>
    let slot := childSlot x y
    match children.get slot with
    | some child => some (.onward a child.toNat)
    | none =>
      if level = 3 then some (.done none (a.attach node children slot (.leaf new)))
      else some (.onward (a.attach node children slot .bare) a.next.toNat)

/-- Plants a leaf with a given number where two cursors lead from a node on
a level. The answer is the leaf met, if there was one already, and the
arena. No way leads on from level 0. -/
def plant (new : LeafId) : Nat → Arena → Nat → UInt32 → UInt32 → Option (Option LeafId × Arena)
  | 0, a, node, x, y =>
    match a.plantStep new 0 node x y with
    | some (.done met a) => some (met, a)
    | _ => none
  | level + 1, a, node, x, y =>
    match a.plantStep new (level + 1) node x y with
    | none => none
    | some (.done met a) => some (met, a)
    | some (.onward a node) => plant new level a node (x <<< 1) (y <<< 1)

end Arena

end TileWorld
