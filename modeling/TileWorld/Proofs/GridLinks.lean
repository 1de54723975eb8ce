import Mathlib.Algebra.Group.Nat.Defs
import Mathlib.Order.Bounds.Basic
import TileWorld.Grid
import TileWorld.Proofs.LeafLaws
import TileWorld.Proofs.PositionLaws

/-!
# The grid as an index of linked leaves

`Grid.WellFormed` is the state of a grid that grew leaf by leaf: its index
resolves exactly the blocks that have a leaf, every leaf is linked to the
leaves that exist directly south and east of it, and the extent is the
smallest rectangle around all origins. `WellFormed.ensureLeaf` and
`WellFormed.modifyAt` keep it, whatever the order of creation.

Points are integers here, so that a neighbor beyond the edge of the map is
a point like any other (`Grid.leafNear?`), and a point matters only through
its block (`leafNear?_congr`).
-/

namespace TileWorld

namespace Grid

/-! ## Looking up blocks -/

theorem leafId?_eq_leafNear? (g : Grid) (x y : UInt16) :
    g.leafId? x y = g.leafNear? x.toNat y.toNat := by
  simp only [leafNear?, coordinate?_toNat, Option.bind_eq_bind, Option.bind_some]

/-- A look-up that finds a leaf was made on the map. -/
theorem exists_of_leafNear? {g : Grid} {u v : Int} {i : LeafId}
    (h : g.leafNear? u v = some i) :
    ∃ x y : UInt16, u = x.toNat ∧ v = y.toNat ∧ g.leafId? x y = some i := by
  simp only [leafNear?, Option.bind_eq_bind, Option.bind_eq_some_iff] at h
  obtain ⟨x, hx, y, hy, hi⟩ := h
  exact ⟨x, y, coordinate?_eq_some_iff.mp hx, coordinate?_eq_some_iff.mp hy, hi⟩

/-- A look-up depends on the block of its point only. -/
theorem leafNear?_congr (g : Grid) {u v u' v' : Int} (hu : u / 8 = u' / 8)
    (hv : v / 8 = v' / 8) : g.leafNear? u v = g.leafNear? u' v' := by
  have himp : ∀ {a b a' b' : Int} {i : LeafId}, a / 8 = a' / 8 → b / 8 = b' / 8 →
      g.leafNear? a b = some i → g.leafNear? a' b' = some i := by
    intro a b a' b' i ha hb h
    obtain ⟨x, y, rfl, rfl, hi⟩ := exists_of_leafNear? h
    have hx := x.toNat_lt
    have hy := y.toNat_lt
    have hx' : coordinate? a' = some (UInt16.ofNat a'.toNat) := if_pos (by omega)
    have hy' : coordinate? b' = some (UInt16.ofNat b'.toNat) := if_pos (by omega)
    simp only [leafNear?, hx', hy', Option.bind_eq_bind, Option.bind_some]
    rw [← hi]
    exact g.index.find?_congr (by rw [UInt16.toNat_ofNat']; omega)
      (by rw [UInt16.toNat_ofNat']; omega)
  cases h : g.leafNear? u v with
  | some i => exact (himp hu hv h).symm
  | none =>
      cases h' : g.leafNear? u' v' with
      | none => rfl
      | some i =>
          rw [himp hu.symm hv.symm h'] at h
          cases h

/-! ## Changing leaves -/

theorem getElem?_modifyLeaf (g : Grid) (id : LeafId) (f : Leaf → Leaf) (i : LeafId) :
    (g.modifyLeaf id f).leaves[i]? = if id = i then (g.leaves[i]?).map f else g.leaves[i]? := by
  simp only [modifyLeaf, Array.getElem?_modify]

theorem getElem?_modifyLeaf? (g : Grid) (id : Option LeafId) (f : Leaf → Leaf) (i : LeafId) :
    (g.modifyLeaf? id f).leaves[i]? =
      if id = some i then (g.leaves[i]?).map f else g.leaves[i]? := by
  cases id with
  | none => simp [modifyLeaf?]
  | some id => simp only [modifyLeaf?, getElem?_modifyLeaf, Option.some.injEq]

@[simp] theorem index_modifyLeaf? (g : Grid) (id : Option LeafId) (f : Leaf → Leaf) :
    (g.modifyLeaf? id f).index = g.index := by
  cases id <;> rfl

@[simp] theorem extent_modifyLeaf? (g : Grid) (id : Option LeafId) (f : Leaf → Leaf) :
    (g.modifyLeaf? id f).extent = g.extent := by
  cases id <;> rfl

@[simp] theorem leafId?_modifyAt (g : Grid) (p : Position) (f : Leaf → Leaf) (x y : UInt16) :
    (g.modifyAt p f).leafId? x y = g.leafId? x y := by
  simp only [modifyAt, leafId?, index_modifyLeaf?]

@[simp] theorem leafNear?_modifyAt (g : Grid) (p : Position) (f : Leaf → Leaf) (u v : Int) :
    (g.modifyAt p f).leafNear? u v = g.leafNear? u v := by
  simp only [leafNear?, leafId?_modifyAt]

theorem getElem?_modifyAt (g : Grid) (p : Position) (f : Leaf → Leaf) (i : LeafId) :
    (g.modifyAt p f).leaves[i]? =
      if g.leafId? p.x p.y = some i then (g.leaves[i]?).map f else g.leaves[i]? :=
  getElem?_modifyLeaf? ..

/-- A change touches the leaf at its position and no other. -/
theorem modifyAt_cases {g : Grid} {p : Position} {f : Leaf → Leaf} {i : LeafId} {l' : Leaf}
    (h : (g.modifyAt p f).leaves[i]? = some l') :
    ∃ l : Leaf, g.leaves[i]? = some l ∧
      (g.leafId? p.x p.y = some i ∧ l' = f l ∨ g.leafId? p.x p.y ≠ some i ∧ l' = l) := by
  rw [getElem?_modifyAt] at h
  split at h
  · rename_i hi
    obtain ⟨l, hl, rfl⟩ := Option.map_eq_some_iff.mp h
    exact ⟨l, hl, Or.inl ⟨hi, rfl⟩⟩
  · rename_i hi
    exact ⟨l', h, Or.inr ⟨hi, rfl⟩⟩

/-! ## The invariant -/

def origins (g : Grid) : Set (UInt16 × UInt16) :=
  {o | ∃ (i : LeafId) (l : Leaf), g.leaves[i]? = some l ∧ l.origin = o}

theorem exists_modifyAt {g : Grid} (p : Position) {f : Leaf → Leaf}
    (horigin : ∀ l, (f l).origin = l.origin) {i : LeafId} {l : Leaf} (hl : g.leaves[i]? = some l) :
    ∃ l' : Leaf, (g.modifyAt p f).leaves[i]? = some l' ∧ l'.origin = l.origin := by
  rw [getElem?_modifyAt, hl]
  split
  · exact ⟨f l, rfl, horigin l⟩
  · exact ⟨l, rfl, rfl⟩

theorem origins_modifyAt {g : Grid} (p : Position) {f : Leaf → Leaf}
    (horigin : ∀ l, (f l).origin = l.origin) : (g.modifyAt p f).origins = g.origins := by
  ext o
  constructor
  · rintro ⟨i, l', hl', rfl⟩
    obtain ⟨l, hl, ⟨-, rfl⟩ | ⟨-, rfl⟩⟩ := modifyAt_cases hl'
    · exact ⟨i, l, hl, (horigin l).symm⟩
    · exact ⟨i, _, hl, rfl⟩
  · rintro ⟨i, l, hl, rfl⟩
    obtain ⟨l', hl', ho⟩ := exists_modifyAt p horigin hl
    exact ⟨i, l', hl', ho⟩

/-- First columns of the blocks that have a leaf. -/
def columns (g : Grid) : Set Nat := (fun o => o.1.toNat) '' g.origins

/-- First rows of the blocks that have a leaf. -/
def rows (g : Grid) : Set Nat := (fun o => o.2.toNat) '' g.origins

/-- The bounds are those of the smallest rectangle around all origins. -/
structure Spans (g : Grid) (e : Extent) : Prop where
  west : IsLeast g.columns e.minX.toNat
  east : IsGreatest g.columns e.maxX.toNat
  north : IsLeast g.rows e.minY.toNat
  south : IsGreatest g.rows e.maxY.toNat

theorem Spans.congr {g g' : Grid} {e : Extent} (h : g.Spans e) (ho : g'.origins = g.origins) :
    g'.Spans e := by
  have hc : g'.columns = g.columns := by rw [columns, ho, columns]
  have hr : g'.rows = g.rows := by rw [rows, ho, rows]
  exact ⟨hc ▸ h.west, hc ▸ h.east, hr ▸ h.north, hr ▸ h.south⟩

/-- Index, links and extent of a grid describe the leaves that it has. -/
structure WellFormed (g : Grid) : Prop where
  /-- The index leads to leaves, and to those of the block asked for. -/
  resolves : ∀ u v i, g.leafNear? u v = some i → ∃ l : Leaf, g.leaves[i]? = some l ∧
    (l.origin.1.toNat : Int) / 8 = u / 8 ∧ (l.origin.2.toNat : Int) / 8 = v / 8
  /-- Every leaf is found at its origin. -/
  indexed : ∀ (i : LeafId) (l : Leaf), g.leaves[i]? = some l →
    g.leafNear? l.origin.1.toNat l.origin.2.toNat = some i
  aligned : ∀ (i : LeafId) (l : Leaf), g.leaves[i]? = some l →
    l.origin.1.toNat % 8 = 0 ∧ l.origin.2.toNat % 8 = 0
  south : ∀ (i : LeafId) (l : Leaf), g.leaves[i]? = some l →
    l.south = g.leafNear? l.origin.1.toNat (l.origin.2.toNat + 8)
  east : ∀ (i : LeafId) (l : Leaf), g.leaves[i]? = some l →
    l.east = g.leafNear? (l.origin.1.toNat + 8) l.origin.2.toNat
  extent : ∀ e, g.extent = some e → g.Spans e
  bare : g.extent = none → g.leaves = #[]

theorem leafNear?_empty (u v : Int) : empty.leafNear? u v = none := by
  cases h : empty.leafNear? u v with
  | none => rfl
  | some i =>
      obtain ⟨x, y, -, -, hi⟩ := exists_of_leafNear? h
      rw [leafId?, show empty.index = .empty from rfl, QuadTree.find?_empty] at hi
      cases hi

theorem wellFormed_empty : empty.WellFormed := by
  have hnone : ∀ (i : LeafId) (l : Leaf), empty.leaves[i]? ≠ some l := by simp [empty]
  refine ⟨?_, ?_, ?_, ?_, ?_, ?_, fun _ => rfl⟩
  · intro u v i h
    rw [leafNear?_empty] at h
    cases h
  all_goals first
    | exact fun i l h => absurd h (hnone i l)
    | exact fun e h => nomatch h

namespace WellFormed

variable {g : Grid}

theorem same_block (hg : g.WellFormed) {u v u' v' : Int} {i : LeafId}
    (h : g.leafNear? u v = some i) (h' : g.leafNear? u' v' = some i) :
    u / 8 = u' / 8 ∧ v / 8 = v' / 8 := by
  obtain ⟨l, hl, hx, hy⟩ := hg.resolves u v i h
  obtain ⟨l', hl', hx', hy'⟩ := hg.resolves u' v' i h'
  obtain rfl := Option.some.inj (hl.symm.trans hl')
  exact ⟨hx.symm.trans hx', hy.symm.trans hy'⟩

theorem sharesBlock (hg : g.WellFormed) {p q : Position} {i : LeafId}
    (hp : g.leafId? p.x p.y = some i) (hq : g.leafId? q.x q.y = some i) : p.SharesBlock q := by
  rw [leafId?_eq_leafNear?] at hp hq
  obtain ⟨hx, hy⟩ := hg.same_block hp hq
  exact ⟨by omega, by omega⟩

/-- The index leads to a leaf whose origin is that of the block. -/
theorem leaf_of_leafId? (hg : g.WellFormed) {x y : UInt16} {i : LeafId}
    (h : g.leafId? x y = some i) :
    ∃ l : Leaf, g.leaves[i]? = some l ∧ l.origin = (leafOrigin x, leafOrigin y) := by
  rw [leafId?_eq_leafNear?] at h
  obtain ⟨l, hl, hx, hy⟩ := hg.resolves _ _ _ h
  obtain ⟨ax, ay⟩ := hg.aligned i l hl
  refine ⟨l, hl, Prod.ext ?_ ?_⟩
  · rw [← UInt16.toNat_inj, toNat_leafOrigin]
    omega
  · rw [← UInt16.toNat_inj, toNat_leafOrigin]
    omega

/-- At the corner of a block, a look-up finds the leaf with its origin there. -/
theorem leafNear?_eq_some_iff (hg : g.WellFormed) {x y : Nat} (hx : x % 8 = 0) (hy : y % 8 = 0)
    {i : LeafId} : g.leafNear? x y = some i ↔
      ∃ l : Leaf, g.leaves[i]? = some l ∧ l.origin.1.toNat = x ∧ l.origin.2.toNat = y := by
  constructor
  · intro h
    obtain ⟨l, hl, hlx, hly⟩ := hg.resolves _ _ i h
    obtain ⟨ax, ay⟩ := hg.aligned i l hl
    exact ⟨l, hl, by omega, by omega⟩
  · rintro ⟨l, hl, rfl, rfl⟩
    exact hg.indexed i l hl

theorem leafAt?_isSome_iff (hg : g.WellFormed) {x y : UInt16} :
    (g.leafAt? x y).isSome ↔ (g.leafId? x y).isSome := by
  unfold leafAt?
  cases h : g.leafId? x y with
  | none => rfl
  | some i =>
      obtain ⟨l, hl, -⟩ := hg.leaf_of_leafId? h
      simp [hl]

/-- Changes to the content of leaves keep a grid well formed. -/
theorem modifyAt (hg : g.WellFormed) (p : Position) {f : Leaf → Leaf}
    (horigin : ∀ l, (f l).origin = l.origin) (hsouth : ∀ l, (f l).south = l.south)
    (heast : ∀ l, (f l).east = l.east) : (g.modifyAt p f).WellFormed := by
  -- every leaf of the changed grid is a leaf of the old one up to content
  have hold : ∀ {i : LeafId} {l' : Leaf}, (g.modifyAt p f).leaves[i]? = some l' →
      ∃ l : Leaf, g.leaves[i]? = some l ∧ l'.origin = l.origin ∧ l'.south = l.south ∧
        l'.east = l.east := by
    intro i l' hl'
    obtain ⟨l, hl, ⟨-, rfl⟩ | ⟨-, rfl⟩⟩ := modifyAt_cases hl'
    · exact ⟨l, hl, horigin l, hsouth l, heast l⟩
    · exact ⟨_, hl, rfl, rfl, rfl⟩
  have hextent : (g.modifyAt p f).extent = g.extent := extent_modifyLeaf? ..
  constructor
  case resolves =>
    intro u v i h
    rw [leafNear?_modifyAt] at h
    obtain ⟨l, hl, hx, hy⟩ := hg.resolves u v i h
    obtain ⟨l', hl', ho⟩ := exists_modifyAt p horigin hl
    exact ⟨l', hl', by rw [ho]; exact hx, by rw [ho]; exact hy⟩
  case indexed =>
    intro i l' hl'
    obtain ⟨l, hl, ho, -⟩ := hold hl'
    rw [leafNear?_modifyAt, ho]
    exact hg.indexed i l hl
  case aligned =>
    intro i l' hl'
    obtain ⟨l, hl, ho, -⟩ := hold hl'
    rw [ho]
    exact hg.aligned i l hl
  case south =>
    intro i l' hl'
    obtain ⟨l, hl, ho, hs, -⟩ := hold hl'
    rw [leafNear?_modifyAt, ho, hs]
    exact hg.south i l hl
  case east =>
    intro i l' hl'
    obtain ⟨l, hl, ho, -, he⟩ := hold hl'
    rw [leafNear?_modifyAt, ho, he]
    exact hg.east i l hl
  case extent =>
    intro e he
    exact (hg.extent e (hextent ▸ he)).congr (origins_modifyAt p horigin)
  case bare =>
    intro h
    have hnil := hg.bare (hextent ▸ h)
    unfold Grid.modifyAt
    cases g.leafId? p.x p.y with
    | none => exact hnil
    | some i => simp [modifyLeaf?, modifyLeaf, hnil]

end WellFormed

/-! ## A new leaf -/

theorem getElem?_link (g : Grid) (id : LeafId) (x y : UInt16) (i : LeafId) :
    (g.link id x y).leaves[i]? = (g.leaves[i]?).map fun l => { l with
      south :=
        if id = i then g.leafNear? x.toNat (y.toNat + 8)
        else if g.leafNear? x.toNat (y.toNat - 8) = some i then some id else l.south
      east :=
        if id = i then g.leafNear? (x.toNat + 8) y.toNat
        else if g.leafNear? (x.toNat - 8) y.toNat = some i then some id else l.east } := by
  simp only [link, getElem?_modifyLeaf, getElem?_modifyLeaf?]
  cases g.leaves[i]? with
  | none => simp
  | some l =>
      by_cases hid : id = i <;>
        by_cases hn : g.leafNear? x.toNat (y.toNat - 8) = some i <;>
        by_cases hw : g.leafNear? (x.toNat - 8) y.toNat = some i <;>
        simp [hid, hn, hw]

/-- The grid with a new leaf, before the leaf is linked. -/
def grown (g : Grid) (x y : UInt16) : Grid where
  index := (g.index.plant g.leaves.size x y).2
  leaves := g.leaves.push (.covering x y)
  extent := some (match g.extent with
    | some e => e.widen (leafOrigin x) (leafOrigin y)
    | none => .point (leafOrigin x) (leafOrigin y))

/-- The grid with a new leaf, linked to its neighbors. -/
def enlarged (g : Grid) (x y : UInt16) : Grid :=
  (g.grown x y).link g.leaves.size x y

/-- A leaf that exists is the one asked for. -/
theorem ensureLeaf_of_some {g : Grid} {x y : UInt16} {i : LeafId} (h : g.leafId? x y = some i) :
    g.ensureLeaf x y = (i, g) := by
  rw [ensureLeaf, g.index.plant_of_some _ h]

/-- A leaf that does not exist is created. -/
theorem ensureLeaf_of_none {g : Grid} {x y : UInt16} (h : g.leafId? x y = none) :
    g.ensureLeaf x y = (g.leaves.size, g.enlarged x y) := by
  have hmet := (g.index.fst_plant g.leaves.size x y).trans h
  rw [ensureLeaf, enlarged, grown]
  generalize g.index.plant g.leaves.size x y = planted at hmet ⊢
  obtain ⟨met, index⟩ := planted
  obtain rfl : met = none := hmet
  rfl

section Growth

variable {g : Grid} {x y : UInt16}

theorem leafId?_grown (hfree : g.leafId? x y = none) (a b : UInt16) :
    (g.grown x y).leafId? a b =
      if a.toNat / 8 = x.toNat / 8 ∧ b.toNat / 8 = y.toNat / 8 then some g.leaves.size
      else g.leafId? a b :=
  g.index.find?_plant _ hfree a b

theorem leafNear?_grown (hfree : g.leafId? x y = none) (u v : Int) :
    (g.grown x y).leafNear? u v =
      if u / 8 = (x.toNat : Int) / 8 ∧ v / 8 = (y.toNat : Int) / 8 then some g.leaves.size
      else g.leafNear? u v := by
  have hx := x.toNat_lt
  have hy := y.toNat_lt
  by_cases hmap : (0 ≤ u ∧ u ≤ 65535) ∧ 0 ≤ v ∧ v ≤ 65535
  · obtain ⟨a, ha⟩ : ∃ a : UInt16, coordinate? u = some a := ⟨_, if_pos hmap.1⟩
    obtain ⟨b, hb⟩ : ∃ b : UInt16, coordinate? v = some b := ⟨_, if_pos hmap.2⟩
    obtain rfl := coordinate?_eq_some_iff.mp ha
    obtain rfl := coordinate?_eq_some_iff.mp hb
    rw [← leafId?_eq_leafNear?, ← leafId?_eq_leafNear?, leafId?_grown hfree]
    exact if_congr (by omega) rfl rfl
  · -- a point beyond the edge lies in no block of the map
    have hoff : ∀ g' : Grid, g'.leafNear? u v = none := by
      intro g'
      cases h : g'.leafNear? u v with
      | none => rfl
      | some i =>
          obtain ⟨a, b, rfl, rfl, -⟩ := exists_of_leafNear? h
          have ha := a.toNat_lt
          have hb := b.toNat_lt
          omega
    rw [hoff, hoff, if_neg (by omega)]

theorem leafNear?_enlarged (hfree : g.leafId? x y = none) (u v : Int) :
    (g.enlarged x y).leafNear? u v =
      if u / 8 = (x.toNat : Int) / 8 ∧ v / 8 = (y.toNat : Int) / 8 then some g.leaves.size
      else g.leafNear? u v := by
  rw [← leafNear?_grown hfree, enlarged]
  simp only [leafNear?, leafId?, link, index_modifyLeaf?, modifyLeaf]

theorem extent_enlarged (g : Grid) (x y : UInt16) :
    (g.enlarged x y).extent = some (match g.extent with
      | some e => e.widen (leafOrigin x) (leafOrigin y)
      | none => .point (leafOrigin x) (leafOrigin y)) := by
  rw [enlarged]
  simp only [link, modifyLeaf, extent_modifyLeaf?]
  rfl

def newcomer (g : Grid) (x y : UInt16) : Leaf :=
  { Leaf.covering x y with
    south := g.leafNear? x.toNat (y.toNat + 8)
    east := g.leafNear? (x.toNat + 8) y.toNat }

/-- A leaf that was there before, linked to the one added if that is its
southern or eastern neighbor. -/
def relink (g : Grid) (x y : UInt16) (i : LeafId) (l : Leaf) : Leaf :=
  { l with
    south := if g.leafNear? x.toNat (y.toNat - 8) = some i then some g.leaves.size else l.south
    east := if g.leafNear? (x.toNat - 8) y.toNat = some i then some g.leaves.size else l.east }

theorem getElem?_enlarged (hfree : g.leafId? x y = none) (i : LeafId) :
    (g.enlarged x y).leaves[i]? =
      if i = g.leaves.size then some (g.newcomer x y)
      else (g.leaves[i]?).map (g.relink x y i) := by
  rw [enlarged, getElem?_link]
  simp only [leafNear?_grown hfree]
  rw [if_neg (by omega), if_neg (by omega), if_neg (by omega), if_neg (by omega)]
  by_cases hi : i = g.leaves.size
  · subst hi
    simp [grown, newcomer]
  · rw [if_neg hi]
    simp only [if_neg (Ne.symm hi), grown, Array.getElem?_push, if_neg hi]
    rfl

/-- A leaf of the enlarged grid is the new one or an old one, linked anew. -/
theorem enlarged_cases (hfree : g.leafId? x y = none) {i : LeafId} {l' : Leaf}
    (h : (g.enlarged x y).leaves[i]? = some l') :
    (i = g.leaves.size ∧ l' = g.newcomer x y) ∨
      ∃ l : Leaf, g.leaves[i]? = some l ∧ l' = g.relink x y i l := by
  rw [getElem?_enlarged hfree] at h
  split at h
  · rename_i hi
    exact Or.inl ⟨hi, (Option.some.inj h).symm⟩
  · obtain ⟨l, hl, rfl⟩ := Option.map_eq_some_iff.mp h
    exact Or.inr ⟨l, hl, rfl⟩

theorem getElem?_enlarged_of_some (hfree : g.leafId? x y = none) {i : LeafId} {l : Leaf}
    (hl : g.leaves[i]? = some l) : (g.enlarged x y).leaves[i]? = some (g.relink x y i l) := by
  have hi : i ≠ g.leaves.size := Nat.ne_of_lt (Array.getElem?_eq_some_iff.mp hl).1
  rw [getElem?_enlarged hfree, if_neg hi, hl, Option.map_some]

@[simp] theorem origin_relink (g : Grid) (x y : UInt16) (i : LeafId) (l : Leaf) :
    (g.relink x y i l).origin = l.origin := rfl

theorem origins_enlarged (hfree : g.leafId? x y = none) :
    (g.enlarged x y).origins = insert (leafOrigin x, leafOrigin y) g.origins := by
  ext o
  rw [Set.mem_insert_iff]
  constructor
  · rintro ⟨i, l', hl', rfl⟩
    rcases enlarged_cases hfree hl' with ⟨rfl, rfl⟩ | ⟨l, hl, rfl⟩
    · exact Or.inl rfl
    · exact Or.inr ⟨i, l, hl, rfl⟩
  · rintro (rfl | ⟨i, l, hl, rfl⟩)
    · exact ⟨g.leaves.size, g.newcomer x y, by rw [getElem?_enlarged hfree, if_pos rfl], rfl⟩
    · exact ⟨i, g.relink x y i l, getElem?_enlarged_of_some hfree hl, rfl⟩

end Growth

theorem toNat_min (a b : UInt16) : (min a b).toNat = min a.toNat b.toNat := by
  show (if a ≤ b then a else b).toNat = _
  split <;> rename_i h <;> rw [UInt16.le_iff_toNat_le] at h <;> omega

theorem toNat_max (a b : UInt16) : (max a b).toNat = max a.toNat b.toNat := by
  show (if a ≤ b then b else a).toNat = _
  split <;> rename_i h <;> rw [UInt16.le_iff_toNat_le] at h <;> omega

theorem Spans.widen {g g' : Grid} {e : Extent} (h : g.Spans e) {x y : UInt16}
    (ho : g'.origins = insert (x, y) g.origins) : g'.Spans (e.widen x y) := by
  have hc : g'.columns = insert x.toNat g.columns := by
    rw [columns, ho, Set.image_insert_eq, columns]
  have hr : g'.rows = insert y.toNat g.rows := by
    rw [rows, ho, Set.image_insert_eq, rows]
  refine ⟨?_, ?_, ?_, ?_⟩ <;> simp only [Extent.widen, toNat_min, toNat_max, hc, hr]
  · exact Nat.min_comm .. ▸ h.west.insert x.toNat
  · exact Nat.max_comm .. ▸ h.east.insert x.toNat
  · exact Nat.min_comm .. ▸ h.north.insert y.toNat
  · exact Nat.max_comm .. ▸ h.south.insert y.toNat

theorem spans_point {g : Grid} {x y : UInt16} (ho : g.origins = {(x, y)}) :
    g.Spans (.point x y) := by
  have hc : g.columns = {x.toNat} := by rw [columns, ho, Set.image_singleton]
  have hr : g.rows = {y.toNat} := by rw [rows, ho, Set.image_singleton]
  exact ⟨hc ▸ isLeast_singleton, hc ▸ isGreatest_singleton, hr ▸ isLeast_singleton,
    hr ▸ isGreatest_singleton⟩

namespace WellFormed

variable {g : Grid}

/-- After the addition, southern links lead where look-ups do. -/
theorem south_enlarged (hg : g.WellFormed) {x y : UInt16} (hfree : g.leafId? x y = none)
    {i : LeafId} {l' : Leaf} (hl' : (g.enlarged x y).leaves[i]? = some l') :
    l'.south = (g.enlarged x y).leafNear? l'.origin.1.toNat (l'.origin.2.toNat + 8) := by
  have hx := toNat_leafOrigin_div x
  have hy := toNat_leafOrigin_div y
  rw [leafNear?_enlarged hfree]
  rcases enlarged_cases hfree hl' with ⟨rfl, rfl⟩ | ⟨l, hl, rfl⟩
  · show g.leafNear? x.toNat (y.toNat + 8) =
      if ((leafOrigin x).toNat : Int) / 8 = _ ∧ ((leafOrigin y).toNat + 8 : Int) / 8 = _ then _
      else g.leafNear? (leafOrigin x).toNat ((leafOrigin y).toNat + 8)
    rw [if_neg (by omega)]
    exact g.leafNear?_congr (by omega) (by omega)
  · -- an old leaf is linked to the new one if it lies north of it
    rw [origin_relink, ← hg.south i l hl]
    refine if_congr ?_ rfl rfl
    constructor
    · intro hnorth
      obtain ⟨hnx, hny⟩ := hg.same_block hnorth (hg.indexed i l hl)
      exact ⟨hnx.symm, by omega⟩
    · rintro ⟨hbx, hby⟩
      rw [← hg.indexed i l hl]
      exact g.leafNear?_congr hbx.symm (by omega)

/-- After the addition, eastern links lead where look-ups do. -/
theorem east_enlarged (hg : g.WellFormed) {x y : UInt16} (hfree : g.leafId? x y = none)
    {i : LeafId} {l' : Leaf} (hl' : (g.enlarged x y).leaves[i]? = some l') :
    l'.east = (g.enlarged x y).leafNear? (l'.origin.1.toNat + 8) l'.origin.2.toNat := by
  have hx := toNat_leafOrigin_div x
  have hy := toNat_leafOrigin_div y
  rw [leafNear?_enlarged hfree]
  rcases enlarged_cases hfree hl' with ⟨rfl, rfl⟩ | ⟨l, hl, rfl⟩
  · show g.leafNear? (x.toNat + 8) y.toNat =
      if ((leafOrigin x).toNat + 8 : Int) / 8 = _ ∧ ((leafOrigin y).toNat : Int) / 8 = _ then _
      else g.leafNear? ((leafOrigin x).toNat + 8) (leafOrigin y).toNat
    rw [if_neg (by omega)]
    exact g.leafNear?_congr (by omega) (by omega)
  · -- an old leaf is linked to the new one if it lies west of it
    rw [origin_relink, ← hg.east i l hl]
    refine if_congr ?_ rfl rfl
    constructor
    · intro hwest
      obtain ⟨hwx, hwy⟩ := hg.same_block hwest (hg.indexed i l hl)
      exact ⟨by omega, hwy.symm⟩
    · rintro ⟨hbx, hby⟩
      rw [← hg.indexed i l hl]
      exact g.leafNear?_congr (by omega) hby.symm

theorem spans_enlarged (hg : g.WellFormed) {x y : UInt16} (hfree : g.leafId? x y = none)
    {e : Extent} (he : (g.enlarged x y).extent = some e) : (g.enlarged x y).Spans e := by
  rw [extent_enlarged, Option.some.injEq] at he
  subst he
  cases hext : g.extent with
  | some e => exact (hg.extent e hext).widen (origins_enlarged hfree)
  | none =>
      have hnil : g.origins = ∅ := by
        simp [origins, hg.bare hext]
      exact spans_point
        (by rw [origins_enlarged hfree, hnil]; exact LawfulSingleton.insert_empty_eq _)

theorem enlarged (hg : g.WellFormed) {x y : UInt16} (hfree : g.leafId? x y = none) :
    (g.enlarged x y).WellFormed := by
  have hnear : g.leafNear? x.toNat y.toNat = none := by rw [← leafId?_eq_leafNear?, hfree]
  have hx : ((leafOrigin x).toNat : Int) / 8 = (x.toNat : Int) / 8 := by
    have := toNat_leafOrigin_div x
    omega
  have hy : ((leafOrigin y).toNat : Int) / 8 = (y.toNat : Int) / 8 := by
    have := toNat_leafOrigin_div y
    omega
  constructor
  case resolves =>
    intro u v i h
    rw [leafNear?_enlarged hfree] at h
    split at h
    · rename_i hblock
      obtain rfl := Option.some.inj h
      exact ⟨g.newcomer x y, by rw [getElem?_enlarged hfree, if_pos rfl], hx.trans hblock.1.symm,
        hy.trans hblock.2.symm⟩
    · obtain ⟨l, hl, hlx, hly⟩ := hg.resolves u v i h
      exact ⟨g.relink x y i l, getElem?_enlarged_of_some hfree hl, hlx, hly⟩
  case indexed =>
    intro i l' hl'
    rw [leafNear?_enlarged hfree]
    rcases enlarged_cases hfree hl' with ⟨rfl, rfl⟩ | ⟨l, hl, rfl⟩
    · exact if_pos ⟨hx, hy⟩
    · have hfound := hg.indexed i l hl
      rw [if_neg]
      · exact hfound
      · rintro ⟨hbx, hby⟩
        rw [origin_relink] at hbx hby
        rw [g.leafNear?_congr hbx hby, hnear] at hfound
        cases hfound
  case aligned =>
    intro i l' hl'
    rcases enlarged_cases hfree hl' with ⟨rfl, rfl⟩ | ⟨l, hl, rfl⟩
    · show (leafOrigin x).toNat % 8 = 0 ∧ (leafOrigin y).toNat % 8 = 0
      rw [toNat_leafOrigin, toNat_leafOrigin]
      omega
    · exact hg.aligned i l hl
  case south => exact fun i l' hl' => hg.south_enlarged hfree hl'
  case east => exact fun i l' hl' => hg.east_enlarged hfree hl'
  case extent => exact fun e he => hg.spans_enlarged hfree he
  case bare =>
    intro h
    rw [extent_enlarged] at h
    cases h

/-- Whatever the order in which blocks get their leaves, the grid stays
well formed. -/
theorem ensureLeaf (hg : g.WellFormed) (x y : UInt16) : (g.ensureLeaf x y).2.WellFormed := by
  cases h : g.leafId? x y with
  | some i =>
      rw [ensureLeaf_of_some h]
      exact hg
  | none =>
      rw [ensureLeaf_of_none h]
      exact hg.enlarged h

end WellFormed

end Grid

end TileWorld
