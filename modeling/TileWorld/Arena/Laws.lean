import TileWorld.Arena.Basic

/-!
# The laws of the arena

In an arena that grew by planting, every node stands for a square of the
map, which the quarters on the way to it name (`Arena.Maps`). No two nodes
stand for the same square, every node but the root is the child of the node
for the square around its own, and leaves stand for the squares of side 8.
So a way down ends after thirteen steps, at the leaf of its square or where
the first node is missing (`Maps.descend_eq`), and planting adds one leaf
and touches no other (`Maps.plant_of_free`).
-/

namespace TileWorld

namespace Arena

/-! ## Ways as lists of quarters -/

/-- The cursor of a coordinate after so many levels. -/
def cursor (v : UInt16) : Nat → UInt32
  | 0 => v.toUInt32
  | levels + 1 => cursor v levels <<< 1

/-- The quarters of the first levels on the way to a point, the last one
first. -/
def quarters (x y : UInt16) : Nat → List (Fin 4)
  | 0 => []
  | levels + 1 => childSlot (cursor x levels) (cursor y levels) :: quarters x y levels

theorem toNat_cursor (v : UInt16) {levels : Nat} (h : levels ≤ 13) :
    (cursor v levels).toNat = v.toNat <<< levels := by
  induction levels with
  | zero => exact v.toNat_toUInt32
  | succ levels ih =>
      have hv := v.toNat_lt
      have hpow : 2 ^ (levels + 1) ≤ 2 ^ 13 := Nat.pow_le_pow_right (by decide) h
      have hbound : v.toNat <<< (levels + 1) < 2 ^ 32 := by
        rw [Nat.shiftLeft_eq]
        exact Nat.lt_of_le_of_lt (Nat.mul_le_mul (Nat.le_of_lt hv) hpow) (by decide)
      rw [cursor, UInt32.toNat_shiftLeft, ih (by omega)]
      show v.toNat <<< levels <<< 1 % 2 ^ 32 = _
      rw [← Nat.shiftLeft_add, Nat.mod_eq_of_lt hbound]

theorem topBit_cursor (v : UInt16) {levels : Nat} (h : levels ≤ 13) :
    topBit (cursor v levels) = v.toNat >>> (15 - levels) % 2 := by
  have hsplit : 32768 = 2 ^ (15 - levels) * 2 ^ levels := by
    rw [← Nat.pow_add, Nat.sub_add_cancel (by omega)]
  rw [topBit, toNat_cursor v h, hsplit, Nat.shiftLeft_eq,
    Nat.mul_div_mul_right _ _ (Nat.two_pow_pos levels), Nat.shiftRight_eq_div_pow]

/-- A coordinate cut off after another level is the one before and a bit. -/
theorem shiftRight_eq_iff (v w : UInt16) {levels : Nat} (h : levels < 13) :
    v.toNat >>> (16 - (levels + 1)) = w.toNat >>> (16 - (levels + 1)) ↔
      v.toNat >>> (16 - levels) = w.toNat >>> (16 - levels) ∧
        topBit (cursor v levels) = topBit (cursor w levels) := by
  have hlevels : levels ≤ 13 := Nat.le_of_lt h
  rw [topBit_cursor v hlevels, topBit_cursor w hlevels,
    show 16 - (levels + 1) = 15 - levels by omega, show 16 - levels = 15 - levels + 1 by omega,
    Nat.shiftRight_succ, Nat.shiftRight_succ]
  omega

theorem quarters_eq_iff {x y x' y' : UInt16} {levels : Nat} (h : levels ≤ 13) :
    quarters x y levels = quarters x' y' levels ↔
      x.toNat >>> (16 - levels) = x'.toNat >>> (16 - levels) ∧
        y.toNat >>> (16 - levels) = y'.toNat >>> (16 - levels) := by
  induction levels with
  | zero =>
      have hoff (v : UInt16) : v.toNat >>> 16 = 0 := by
        rw [Nat.shiftRight_eq_div_pow]
        exact Nat.div_eq_of_lt v.toNat_lt
      simp only [quarters, Nat.sub_zero, hoff, and_self]
  | succ levels ih =>
      rw [quarters, quarters, List.cons.injEq, childSlot_eq_iff, ih (by omega),
        shiftRight_eq_iff x x' h, shiftRight_eq_iff y y' h]
      exact ⟨fun ⟨⟨hx, hy⟩, hx', hy'⟩ => ⟨⟨hx', hx⟩, hy', hy⟩,
        fun ⟨⟨hx', hx⟩, hy', hy⟩ => ⟨⟨hx, hy⟩, hx', hy'⟩⟩

/-- The whole way tells the square of side 8. -/
theorem quarters_eq_iff_div {x y x' y' : UInt16} :
    quarters x y 13 = quarters x' y' 13 ↔
      x.toNat / 8 = x'.toNat / 8 ∧ y.toNat / 8 = y'.toNat / 8 := by
  rw [quarters_eq_iff (Nat.le_refl 13)]
  simp only [Nat.shiftRight_eq_div_pow]

@[simp] theorem length_quarters (x y : UInt16) (levels : Nat) :
    (quarters x y levels).length = levels := by
  induction levels with
  | zero => rfl
  | succ levels ih => rw [quarters, List.length_cons, ih]

/-- A shorter way is the beginning of a longer one. -/
theorem quarters_suffix (x y : UInt16) {levels more : Nat} (h : levels ≤ more) :
    quarters x y levels <:+ quarters x y more := by
  induction h with
  | refl => exact List.suffix_refl _
  | step _ ih => exact ih.trans (List.suffix_cons _ _)

/-! ## Squares -/

theorem get_bare (slot : Fin 4) : (Vector.replicate 4 (none : Option UInt32)).get slot = none :=
  Vector.getElem_replicate slot.isLt

/-- The nodes stand for squares of the map, each named by the quarters on
the way to it, the last one first. -/
structure Maps (a : Arena) (square : Nat → List (Fin 4)) : Prop where
  nonempty : 0 < a.nodes.size
  root : square 0 = []
  distinct : ∀ i j, i < a.nodes.size → j < a.nodes.size → square i = square j → i = j
  leaf : ∀ i id, a.nodes[i]? = some (.leaf id) → (square i).length = 13
  branch : ∀ i children, a.nodes[i]? = some (.branch children) → (square i).length < 13
  child : ∀ i children (slot : Fin 4) child, a.nodes[i]? = some (.branch children) →
    children.get slot = some child →
    child.toNat < a.nodes.size ∧ square child.toNat = slot :: square i
  /-- Every node but the root is a child of a branch. -/
  attached : ∀ j < a.nodes.size, j ≠ 0 →
    ∃ (i : Nat) (children : Vector (Option UInt32) 4) (slot : Fin 4) (child : UInt32),
      a.nodes[i]? = some (.branch children) ∧ children.get slot = some child ∧ child.toNat = j

/-- A square has a leaf with a given number. -/
def Holds (a : Arena) (square : Nat → List (Fin 4)) (s : List (Fin 4)) (id : LeafId) : Prop :=
  ∃ i : Nat, a.nodes[i]? = some (.leaf id) ∧ square i = s

theorem maps_empty : empty.Maps fun _ => [] where
  nonempty := Nat.one_pos
  root := rfl
  distinct i j hi hj _ := by
    have hi : i < 1 := hi
    have hj : j < 1 := hj
    omega
  leaf i id h := by
    obtain ⟨hi, h⟩ := Array.getElem?_eq_some_iff.mp h
    obtain rfl : i = 0 := Nat.lt_one_iff.mp hi
    cases h
  branch i children _ := by decide
  child i children slot child h hchild := by
    obtain ⟨hi, h⟩ := Array.getElem?_eq_some_iff.mp h
    obtain rfl : i = 0 := Nat.lt_one_iff.mp hi
    obtain rfl : Vector.replicate 4 none = children := ArenaNode.branch.inj h
    rw [get_bare] at hchild
    cases hchild
  attached j hj h0 := absurd (Nat.lt_one_iff.mp hj) h0

/-! ## How many squares there are -/

/-- A number for every square. -/
def code : List (Fin 4) → Nat
  | [] => 0
  | slot :: s => 4 * code s + slot + 1

theorem code_inj {s t : List (Fin 4)} (h : code s = code t) : s = t := by
  induction s generalizing t with
  | nil =>
      cases t with
      | nil => rfl
      | cons slot t => simp [code] at h
  | cons slot s ih =>
      cases t with
      | nil => simp [code] at h
      | cons slot' t =>
          have hslot := slot.isLt
          have hslot' := slot'.isLt
          have h : 4 * code s + slot.val + 1 = 4 * code t + slot'.val + 1 := h
          obtain rfl : slot = slot' := Fin.ext (by omega)
          rw [ih (t := t) (by omega)]

theorem code_lt (s : List (Fin 4)) : code s + 2 ≤ 2 <<< (2 * s.length) := by
  induction s with
  | nil => decide
  | cons slot s ih =>
      have hslot := slot.isLt
      rw [Nat.shiftLeft_eq] at ih ⊢
      rw [code, List.length_cons, Nat.mul_succ, Nat.pow_add]
      omega

theorem lt_size {a : Arena} {i : Nat} {n : ArenaNode} (hi : a.nodes[i]? = some n) :
    i < a.nodes.size :=
  (Array.getElem?_eq_some_iff.mp hi).1

theorem leaf_or_branch {a : Arena} {i : Nat} (hi : i < a.nodes.size) :
    (∃ id, a.nodes[i]? = some (.leaf id)) ∨ ∃ children, a.nodes[i]? = some (.branch children) := by
  rw [Array.getElem?_eq_getElem hi]
  cases a.nodes[i] with
  | leaf id => exact .inl ⟨id, rfl⟩
  | branch children => exact .inr ⟨children, rfl⟩

namespace Maps

variable {a : Arena} {square : Nat → List (Fin 4)}

theorem length_le (h : a.Maps square) {i : Nat} (hi : i < a.nodes.size) :
    (square i).length ≤ 13 := by
  rcases leaf_or_branch hi with ⟨id, hn⟩ | ⟨children, hn⟩
  · exact Nat.le_of_eq (h.leaf i id hn)
  · exact Nat.le_of_lt (h.branch i children hn)

/-- There are fewer nodes than places to name. -/
theorem size_lt (h : a.Maps square) : a.nodes.size < 4294967296 := by
  have hnodup : ((List.range a.nodes.size).map fun i => code (square i)).Nodup := by
    rw [List.nodup_iff_pairwise_ne, List.pairwise_map]
    refine List.Pairwise.imp_of_mem ?_ (List.nodup_iff_pairwise_ne.mp List.nodup_range)
    intro i j hi hj hij hcode
    exact hij (h.distinct i j (List.mem_range.mp hi) (List.mem_range.mp hj) (code_inj hcode))
  have hsubset : ((List.range a.nodes.size).map fun i => code (square i)) ⊆
      List.range (2 <<< 26) := by
    intro c hc
    obtain ⟨i, hi, rfl⟩ := List.mem_map.mp hc
    have hcode := code_lt (square i)
    have hpow : 2 ^ (2 * (square i).length) ≤ 2 ^ 26 :=
      Nat.pow_le_pow_right (by decide) (Nat.mul_le_mul_left 2 (h.length_le (List.mem_range.mp hi)))
    rw [List.mem_range, Nat.shiftLeft_eq]
    rw [Nat.shiftLeft_eq] at hcode
    omega
  have hle := hnodup.length_le_of_subset hsubset
  rw [List.length_map, List.length_range, List.length_range] at hle
  exact Nat.lt_of_le_of_lt hle (by decide)

theorem toNat_next (h : a.Maps square) : a.next.toNat = a.nodes.size :=
  UInt32.toNat_ofNat_of_lt' h.size_lt

/-- The square around that of a node has a node as well. -/
theorem exists_around (h : a.Maps square) {s : List (Fin 4)} {i : Nat} (hi : i < a.nodes.size)
    (hs : s <:+ square i) : ∃ j < a.nodes.size, square j = s := by
  induction hlength : (square i).length generalizing i with
  | zero =>
      rw [List.length_eq_zero_iff.mp hlength] at hs
      exact ⟨0, h.nonempty, by rw [h.root, List.suffix_nil.mp hs]⟩
  | succ length ih =>
      have h0 : i ≠ 0 := by
        rintro rfl
        rw [h.root] at hlength
        cases hlength
      obtain ⟨j, children, slot, child, hj, hchild, rfl⟩ := h.attached i hi h0
      obtain ⟨-, hsquare⟩ := h.child j children slot child hj hchild
      rw [hsquare] at hs hlength
      rcases List.suffix_cons_iff.mp hs with rfl | hs
      · exact ⟨_, hi, hsquare⟩
      · exact ih (lt_size hj) hs (Nat.succ.inj hlength)

/-- Where a branch misses a child there is no node. -/
theorem square_ne (h : a.Maps square) {i : Nat} {children : Vector (Option UInt32) 4}
    (hi : a.nodes[i]? = some (.branch children)) {slot : Fin 4} (hslot : children.get slot = none)
    {j : Nat} (hj : j < a.nodes.size) : square j ≠ slot :: square i := by
  intro hsquare
  have h0 : j ≠ 0 := by
    rintro rfl
    rw [h.root] at hsquare
    cases hsquare
  obtain ⟨i', children', slot', child, hi', hchild, rfl⟩ := h.attached j hj h0
  obtain ⟨-, hsquare'⟩ := h.child i' children' slot' child hi' hchild
  obtain ⟨rfl, hsame⟩ := List.cons.inj (hsquare.symm.trans hsquare')
  obtain rfl := h.distinct i i' (lt_size hi) (lt_size hi') hsame
  obtain rfl := ArenaNode.branch.inj (Option.some.inj (hi.symm.trans hi'))
  rw [hslot] at hchild
  cases hchild

end Maps

/-! ## Growth -/

/-- The nodes that may be created at a depth. -/
inductive Fresh : ArenaNode → Nat → Prop where
  | leaf (id : LeafId) : Fresh (.leaf id) 13
  | bare {depth : Nat} (h : depth < 13) : Fresh .bare depth

/-- The children of a branch after another one was attached to it. -/
theorem get_set (children : Vector (Option UInt32) 4) (slot : Fin 4) (child : Option UInt32)
    (slot' : Fin 4) : (children.set slot child slot.isLt).get slot' =
      if slot = slot' then child else children.get slot' := by
  show (children.set slot child slot.isLt)[slot'.val] = _
  rw [Vector.getElem_set]
  split
  · rename_i hval
    rw [if_pos (Fin.ext hval)]
  · rename_i hval
    exact (if_neg fun h => hval (congrArg Fin.val h)).symm

section Attach

variable {a : Arena} {square : Nat → List (Fin 4)} {i : Nat}
  {children : Vector (Option UInt32) 4} {slot : Fin 4} {n : ArenaNode}

theorem size_attach (a : Arena) (i : Nat) (children : Vector (Option UInt32) 4) (slot : Fin 4)
    (n : ArenaNode) : (a.attach i children slot n).nodes.size = a.nodes.size + 1 := by
  rw [attach, Array.size_setIfInBounds, Array.size_push]

/-- The branch that gets the child. -/
theorem getElem?_attach_self (hi : i < a.nodes.size) :
    (a.attach i children slot n).nodes[i]? =
      some (.branch (children.set slot (some a.next) slot.isLt)) := by
  rw [attach, Array.getElem?_setIfInBounds_self_of_lt (by rw [Array.size_push]; omega)]

/-- The new node. -/
theorem getElem?_attach_size (hi : i < a.nodes.size) :
    (a.attach i children slot n).nodes[a.nodes.size]? = some n := by
  rw [attach, Array.getElem?_setIfInBounds_ne (by omega), Array.getElem?_push_size]

/-- Every other node. -/
theorem getElem?_attach_of_ne {j : Nat} (hj : j ≠ i) (hsize : j ≠ a.nodes.size) :
    (a.attach i children slot n).nodes[j]? = a.nodes[j]? := by
  rw [attach, Array.getElem?_setIfInBounds_ne (Ne.symm hj), Array.getElem?_push, if_neg hsize]

/-- The squares after a node was created in a quarter of a square. -/
def withSquare (a : Arena) (square : Nat → List (Fin 4)) (s : List (Fin 4)) (j : Nat) :
    List (Fin 4) :=
  if j = a.nodes.size then s else square j

@[simp] theorem withSquare_size (s : List (Fin 4)) : withSquare a square s a.nodes.size = s :=
  if_pos rfl

theorem withSquare_of_lt (s : List (Fin 4)) {j : Nat} (hj : j < a.nodes.size) :
    withSquare a square s j = square j :=
  if_neg (Nat.ne_of_lt hj)

/-- What a look-up can find among the nodes after one was created. -/
theorem cases_attach (hi : i < a.nodes.size) {j : Nat} {m : ArenaNode}
    (hj : (a.attach i children slot n).nodes[j]? = some m) :
    (j = i ∧ m = .branch (children.set slot (some a.next) slot.isLt)) ∨ (j = a.nodes.size ∧ m = n) ∨
      (j ≠ i ∧ j < a.nodes.size ∧ a.nodes[j]? = some m) := by
  by_cases hself : j = i
  · subst hself
    rw [getElem?_attach_self hi] at hj
    exact .inl ⟨rfl, (Option.some.inj hj).symm⟩
  by_cases hsize : j = a.nodes.size
  · subst hsize
    rw [getElem?_attach_size hi] at hj
    exact .inr (.inl ⟨rfl, (Option.some.inj hj).symm⟩)
  · rw [getElem?_attach_of_ne hself hsize] at hj
    exact .inr (.inr ⟨hself, lt_size hj, hj⟩)

theorem Maps.attach (h : a.Maps square) (hi : a.nodes[i]? = some (.branch children))
    (hslot : children.get slot = none) (hn : Fresh n ((square i).length + 1)) :
    (a.attach i children slot n).Maps (withSquare a square (slot :: square i)) where
  nonempty := by rw [size_attach]; exact Nat.succ_pos _
  root := by rw [withSquare_of_lt _ h.nonempty, h.root]
  distinct j k hj hk hsame := by
    rw [size_attach] at hj hk
    rcases Nat.lt_succ_iff_lt_or_eq.mp hj with hj | rfl <;>
      rcases Nat.lt_succ_iff_lt_or_eq.mp hk with hk | rfl
    · rw [withSquare_of_lt _ hj, withSquare_of_lt _ hk] at hsame
      exact h.distinct j k hj hk hsame
    · rw [withSquare_of_lt _ hj, withSquare_size] at hsame
      exact absurd hsame (h.square_ne hi hslot hj)
    · rw [withSquare_of_lt _ hk, withSquare_size] at hsame
      exact absurd hsame.symm (h.square_ne hi hslot hk)
    · rfl
  leaf j id hj := by
    rcases cases_attach (lt_size hi) hj with ⟨-, hm⟩ | ⟨rfl, rfl⟩ | ⟨-, hlt, hj⟩
    · cases hm
    · rw [withSquare_size, List.length_cons]
      generalize (square i).length + 1 = depth at hn
      cases hn
      rfl
    · rw [withSquare_of_lt _ hlt, h.leaf j id hj]
  branch j children' hj := by
    rcases cases_attach (lt_size hi) hj with ⟨rfl, -⟩ | ⟨rfl, rfl⟩ | ⟨-, hlt, hj⟩
    · rw [withSquare_of_lt _ (lt_size hi)]
      exact h.branch j children hi
    · rw [withSquare_size, List.length_cons]
      cases hn with
      | bare hdepth => exact hdepth
    · rw [withSquare_of_lt _ hlt]
      exact h.branch j children' hj
  child j children' slot' child hj hchild := by
    rw [size_attach]
    rcases cases_attach (lt_size hi) hj with ⟨rfl, hm⟩ | ⟨rfl, rfl⟩ | ⟨-, hlt, hj⟩
    · obtain rfl := ArenaNode.branch.inj hm
      rw [withSquare_of_lt _ (lt_size hi)]
      by_cases hsame : slot = slot'
      · subst hsame
        rw [get_set, if_pos rfl] at hchild
        obtain rfl := Option.some.inj hchild
        rw [h.toNat_next, withSquare_size]
        exact ⟨Nat.lt_succ_self _, rfl⟩
      · rw [get_set, if_neg hsame] at hchild
        obtain ⟨hlt, hsquare⟩ := h.child j children slot' child hi hchild
        rw [withSquare_of_lt _ hlt]
        exact ⟨Nat.lt_succ_of_lt hlt, hsquare⟩
    · cases hn
      rw [get_bare] at hchild
      cases hchild
    · obtain ⟨hchildlt, hsquare⟩ := h.child j children' slot' child hj hchild
      rw [withSquare_of_lt _ hlt, withSquare_of_lt _ hchildlt]
      exact ⟨Nat.lt_succ_of_lt hchildlt, hsquare⟩
  attached j hj h0 := by
    have hsize := lt_size hi
    rw [size_attach] at hj
    rcases Nat.lt_succ_iff_lt_or_eq.mp hj with hj | rfl
    · obtain ⟨i', children', slot', child, hi', hchild, rfl⟩ := h.attached j hj h0
      by_cases hself : i' = i
      · subst hself
        obtain rfl := ArenaNode.branch.inj (Option.some.inj (hi.symm.trans hi'))
        refine ⟨i', _, slot', child, getElem?_attach_self hsize, ?_, rfl⟩
        have hne : slot ≠ slot' := by
          rintro rfl
          rw [hslot] at hchild
          cases hchild
        rw [get_set, if_neg hne, hchild]
      · refine ⟨i', children', slot', child, ?_, hchild, rfl⟩
        rw [getElem?_attach_of_ne hself (Nat.ne_of_lt (lt_size hi')), hi']
    · refine ⟨i, _, slot, a.next, getElem?_attach_self hsize, ?_, h.toNat_next⟩
      rw [get_set, if_pos rfl]

/-- A new leaf is the only one that is added. -/
theorem holds_attach (hi : a.nodes[i]? = some (.branch children)) (s : List (Fin 4))
    (id : LeafId) :
    (a.attach i children slot n).Holds (withSquare a square (slot :: square i)) s id ↔
      a.Holds square s id ∨ n = .leaf id ∧ slot :: square i = s := by
  have hsize := lt_size hi
  constructor
  · rintro ⟨j, hj, rfl⟩
    rcases cases_attach hsize hj with ⟨-, hm⟩ | ⟨rfl, hm⟩ | ⟨-, hlt, hj⟩
    · cases hm
    · exact .inr ⟨hm.symm, (withSquare_size _).symm⟩
    · exact .inl ⟨j, hj, (withSquare_of_lt _ hlt).symm⟩
  · rintro (⟨j, hj, rfl⟩ | ⟨rfl, rfl⟩)
    · have hne : j ≠ i := by
        rintro rfl
        rw [hi] at hj
        cases hj
      refine ⟨j, ?_, withSquare_of_lt _ (lt_size hj)⟩
      rw [getElem?_attach_of_ne hne (Nat.ne_of_lt (lt_size hj)), hj]
    · exact ⟨a.nodes.size, getElem?_attach_size hsize, withSquare_size _⟩

/-- A branch without children holds nothing. -/
theorem holds_attach_bare (hi : a.nodes[i]? = some (.branch children)) (s : List (Fin 4))
    (id : LeafId) :
    (a.attach i children slot .bare).Holds (withSquare a square (slot :: square i)) s id ↔
      a.Holds square s id :=
  (holds_attach hi s id).trans (or_iff_left fun hbare => ArenaNode.noConfusion hbare.1)

end Attach

/-! ## Single steps -/

section Steps

variable {a : Arena} {node : Nat} {children : Vector (Option UInt32) 4} {x y : UInt32}

theorem descend_leaf {id : LeafId} (hnode : a.nodes[node]? = some (.leaf id)) (entries : Nat) :
    a.descend (entries + 1) node x y = some (some id) := by
  simp only [descend, hnode]

theorem descend_missing (hnode : a.nodes[node]? = some (.branch children))
    (hslot : children.get (childSlot x y) = none) (entries : Nat) :
    a.descend (entries + 1) node x y = some none := by
  simp only [descend, hnode, hslot]

theorem descend_child (hnode : a.nodes[node]? = some (.branch children)) {child : UInt32}
    (hslot : children.get (childSlot x y) = some child) (entries : Nat) :
    a.descend (entries + 1) node x y = a.descend entries child.toNat (x <<< 1) (y <<< 1) := by
  simp only [descend, hnode, hslot]

theorem plant_leaf {id : LeafId} (hnode : a.nodes[node]? = some (.leaf id)) (new : LeafId)
    (level : Nat) : plant new level a node x y = some (some id, a) := by
  cases level <;> simp only [plant, plantStep, hnode]

theorem plant_child (hnode : a.nodes[node]? = some (.branch children)) {child : UInt32}
    (hslot : children.get (childSlot x y) = some child) (new : LeafId) (level : Nat) :
    plant new (level + 1) a node x y =
      plant new level a child.toNat (x <<< 1) (y <<< 1) := by
  simp only [plant, plantStep, hnode, hslot]

/-- The last level: the missing child is the leaf. -/
theorem plant_last (hnode : a.nodes[node]? = some (.branch children))
    (hslot : children.get (childSlot x y) = none) (new : LeafId) :
    plant new 3 a node x y = some (none, a.attach node children (childSlot x y) (.leaf new)) := by
  simp only [plant, plantStep, hnode, hslot, if_pos]

/-- A level before: the missing child is a branch. -/
theorem plant_missing (hnode : a.nodes[node]? = some (.branch children))
    (hslot : children.get (childSlot x y) = none) (new : LeafId) {level : Nat}
    (hlevel : level ≠ 2) :
    plant new (level + 1) a node x y =
      plant new level (a.attach node children (childSlot x y) .bare) a.next.toNat (x <<< 1)
        (y <<< 1) := by
  have hlast : ¬ level + 1 = 3 := fun h => hlevel (Nat.succ.inj h)
  simp only [plant, plantStep, hnode, hslot, if_neg hlast]

end Steps

/-! ## Ways down -/

section Ways

variable {a : Arena} {square : Nat → List (Fin 4)} {x y : UInt16} {node levels : Nat}

theorem Maps.holds_inj (h : a.Maps square) {s : List (Fin 4)} {id id' : LeafId}
    (hs : a.Holds square s id) (hs' : a.Holds square s id') : id = id' := by
  obtain ⟨i, hi, rfl⟩ := hs
  obtain ⟨j, hj, hsame⟩ := hs'
  obtain rfl := h.distinct i j (lt_size hi) (lt_size hj) hsame.symm
  exact ArenaNode.leaf.inj (Option.some.inj (hi.symm.trans hj))

theorem Maps.levels_le (h : a.Maps square) (hnode : node < a.nodes.size)
    (hway : square node = quarters x y levels) : levels ≤ 13 := by
  have hlength := h.length_le hnode
  rwa [hway, length_quarters] at hlength

theorem Maps.levels_lt (h : a.Maps square) {children : Vector (Option UInt32) 4}
    (hnode : a.nodes[node]? = some (.branch children))
    (hway : square node = quarters x y levels) : levels < 13 := by
  have hlength := h.branch node children hnode
  rwa [hway, length_quarters] at hlength

/-- A leaf that is met on the way to a point is that of the point. -/
theorem Maps.holds_of_leaf (h : a.Maps square) {id : LeafId}
    (hnode : a.nodes[node]? = some (.leaf id)) (hway : square node = quarters x y levels) :
    a.Holds square (quarters x y 13) id := by
  have hlength := h.leaf node id hnode
  rw [hway, length_quarters] at hlength
  exact ⟨node, hnode, by rw [hway, hlength]⟩

/-- Where the way to a point misses a child, the point has no leaf. -/
theorem Maps.not_holds_of_missing (h : a.Maps square) {children : Vector (Option UInt32) 4}
    (hnode : a.nodes[node]? = some (.branch children)) (hway : square node = quarters x y levels)
    (hslot : children.get (childSlot (cursor x levels) (cursor y levels)) = none) (id : LeafId) :
    ¬ a.Holds square (quarters x y 13) id := by
  rintro ⟨i, hi, hsquare⟩
  have hsuffix : quarters x y (levels + 1) <:+ square i := by
    rw [hsquare]
    exact quarters_suffix x y (h.levels_lt hnode hway)
  obtain ⟨j, hj, hjsquare⟩ := h.exists_around (lt_size hi) hsuffix
  rw [quarters, ← hway] at hjsquare
  exact h.square_ne hnode hslot hj hjsquare

/-- Every way begins at the root. -/
theorem Maps.way_root (h : a.Maps square) (x y : UInt16) : square 0 = quarters x y 0 :=
  h.root

/-- A child on the way to a point stands for the next square of the way. -/
theorem Maps.way_child (h : a.Maps square) {children : Vector (Option UInt32) 4}
    (hnode : a.nodes[node]? = some (.branch children)) (hway : square node = quarters x y levels)
    {child : UInt32}
    (hchild : children.get (childSlot (cursor x levels) (cursor y levels)) = some child) :
    child.toNat < a.nodes.size ∧ square child.toNat = quarters x y (levels + 1) := by
  obtain ⟨hlt, hsquare⟩ := h.child node children _ child hnode hchild
  exact ⟨hlt, by rw [hsquare, hway, quarters]⟩

/-- So does a child created on the way. -/
theorem Maps.way_attach (h : a.Maps square) (hway : square node = quarters x y levels)
    (children : Vector (Option UInt32) 4) (n : ArenaNode) :
    let slot := childSlot (cursor x levels) (cursor y levels)
    a.next.toNat < (a.attach node children slot n).nodes.size ∧
      withSquare a square (slot :: square node) a.next.toNat = quarters x y (levels + 1) := by
  intro slot
  rw [h.toNat_next, size_attach, withSquare_size, hway]
  exact ⟨Nat.lt_succ_self _, rfl⟩

/-- A way down ends after thirteen steps, with the leaf of its square. -/
theorem Maps.descend_eq (h : a.Maps square) (hnode : node < a.nodes.size)
    (hway : square node = quarters x y levels) {entries : Nat} (hentries : 13 < levels + entries) :
    ∃ found, a.descend entries node (cursor x levels) (cursor y levels) = some found ∧
      ∀ id, found = some id ↔ a.Holds square (quarters x y 13) id := by
  induction entries generalizing node levels with
  | zero => exact absurd hentries (Nat.not_lt.mpr (h.levels_le hnode hway))
  | succ entries ih =>
      rcases leaf_or_branch hnode with ⟨id, hn⟩ | ⟨children, hn⟩
      · have hholds := h.holds_of_leaf hn hway
        refine ⟨some id, descend_leaf hn entries, fun id' => ⟨?_, fun h' => ?_⟩⟩
        · rintro ⟨⟩
          exact hholds
        · rw [h.holds_inj hholds h']
      · cases hslot : children.get (childSlot (cursor x levels) (cursor y levels)) with
        | none =>
            refine ⟨none, descend_missing hn hslot entries, fun id => ?_⟩
            simp [h.not_holds_of_missing hn hway hslot id]
        | some child =>
            obtain ⟨hlt, hsquare⟩ := h.way_child hn hway hslot
            rw [descend_child hn hslot]
            exact ih hlt hsquare (by omega)

/-- To plant a leaf where there is one already changes nothing. -/
theorem Maps.plant_of_holds (h : a.Maps square) (new : LeafId) {id : LeafId}
    (hid : a.Holds square (quarters x y 13) id) (hnode : node < a.nodes.size)
    (hway : square node = quarters x y levels) {level : Nat} (hlevel : levels + level = 15) :
    plant new level a node (cursor x levels) (cursor y levels) = some (some id, a) := by
  induction level generalizing node levels with
  | zero =>
      have hle := h.levels_le hnode hway
      omega
  | succ level ih =>
      rcases leaf_or_branch hnode with ⟨id', hn⟩ | ⟨children, hn⟩
      · rw [plant_leaf hn, h.holds_inj hid (h.holds_of_leaf hn hway)]
      · cases hslot : children.get (childSlot (cursor x levels) (cursor y levels)) with
        | none => exact absurd hid (h.not_holds_of_missing hn hway hslot id)
        | some child =>
            obtain ⟨hlt, hsquare⟩ := h.way_child hn hway hslot
            rw [plant_child hn hslot]
            exact ih hlt hsquare (by omega)

/-- To plant a leaf where there is none adds that leaf. -/
theorem Maps.plant_of_free (h : a.Maps square) (new : LeafId)
    (hfree : ∀ id, ¬ a.Holds square (quarters x y 13) id) (hnode : node < a.nodes.size)
    (hway : square node = quarters x y levels) {level : Nat} (hlevel : levels + level = 15) :
    ∃ a' square', plant new level a node (cursor x levels) (cursor y levels) = some (none, a') ∧
      a'.Maps square' ∧ ∀ s id, a'.Holds square' s id ↔
        a.Holds square s id ∨ id = new ∧ s = quarters x y 13 := by
  -- on the levels before the last, the arena may grow by a branch
  induction level generalizing a square node levels with
  | zero =>
      have hle := h.levels_le hnode hway
      omega
  | succ level ih =>
      rcases leaf_or_branch hnode with ⟨id, hn⟩ | ⟨children, hn⟩
      · exact absurd (h.holds_of_leaf hn hway) (hfree id)
      have hlt := h.levels_lt hn hway
      cases hslot : children.get (childSlot (cursor x levels) (cursor y levels)) with
      | some child =>
          obtain ⟨hchild, hsquare⟩ := h.way_child hn hway hslot
          rw [plant_child hn hslot]
          exact ih h hfree hchild hsquare (by omega)
      | none =>
          by_cases hlast : level = 2
          · obtain rfl : levels = 12 := by omega
            subst hlast
            have hfresh : Fresh (.leaf new) ((square node).length + 1) := by
              rw [hway, length_quarters]
              exact .leaf new
            refine ⟨_, _, plant_last hn hslot new, h.attach hn hslot hfresh, fun s id => ?_⟩
            rw [holds_attach hn, hway, ← quarters, ArenaNode.leaf.injEq, eq_comm (a := new),
              eq_comm (b := s)]
          · have hfresh : Fresh .bare ((square node).length + 1) := by
              rw [hway, length_quarters]
              exact .bare (by omega)
            obtain ⟨hnext, hsquare⟩ := h.way_attach hway children .bare
            obtain ⟨a', square', hplant, hmaps, hholds⟩ := ih (h.attach hn hslot hfresh)
              (fun id hid => hfree id ((holds_attach_bare hn _ id).mp hid)) hnext hsquare (by omega)
            rw [plant_missing hn hslot new hlast]
            exact ⟨a', square', hplant, hmaps, fun s id => by rw [hholds, holds_attach_bare hn]⟩

end Ways

end Arena

end TileWorld
