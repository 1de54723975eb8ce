import Mathlib.Data.List.Sort
import TileWorld.Proofs.GridCells
import TileWorld.Spectator.Query

/-!
# The walk over the leaves of a query

In a well-formed grid a step along a link leads where a look-up at the
next block would lead. The walk of a query is therefore a scan of a
rectangle of blocks (`walkRow_eq`, `walkRows_eq`), and finds the leaves
with an origin in the rectangle, in reading order (`mem_leaves_iff`,
`pairwise_leaves`). The rectangle contains the block of every position
that the query covers (`mem_leaves_of_covers`), since the floors of the
band shift the covered area between the two extremes that the walk allows
for.
-/

namespace TileWorld

/-- The leaf comes before another one when the map is read row by row. -/
def Leaf.ReadsBefore (l l' : Leaf) : Prop :=
  l.origin.2 < l'.origin.2 ∨ l.origin.2 = l'.origin.2 ∧ l.origin.1 < l'.origin.1

theorem Leaf.readsBefore_iff {l l' : Leaf} :
    l.ReadsBefore l' ↔ l.origin.2.toNat < l'.origin.2.toNat ∨
      l.origin.2.toNat = l'.origin.2.toNat ∧ l.origin.1.toNat < l'.origin.1.toNat := by
  unfold ReadsBefore
  rw [UInt16.lt_iff_toNat_lt, UInt16.lt_iff_toNat_lt, ← UInt16.toNat_inj]

instance : Std.Irrefl Leaf.ReadsBefore :=
  ⟨fun l h => by rw [Leaf.readsBefore_iff] at h; omega⟩

instance : Std.Antisymm Leaf.ReadsBefore :=
  ⟨fun l l' h h' => by rw [Leaf.readsBefore_iff] at h h'; omega⟩

namespace Grid

/-- The leaf over a point that may lie off the map. -/
def leafOver? (g : Grid) (u v : Int) : Option Leaf :=
  (g.leafNear? u v).bind (g.leaves[·]?)

variable {g : Grid}

/-- At the corner of a block, the leaf over a point is the one with its
origin there. -/
theorem leafOver?_eq_some_iff (hg : g.WellFormed) {x y : Nat} (hx : x % 8 = 0) (hy : y % 8 = 0)
    {l : Leaf} : g.leafOver? x y = some l ↔
      (∃ i : LeafId, g.leaves[i]? = some l) ∧ l.origin.1.toNat = x ∧ l.origin.2.toNat = y := by
  simp only [leafOver?, Option.bind_eq_some_iff, hg.leafNear?_eq_some_iff hx hy]
  constructor
  · rintro ⟨i, ⟨l', hl', hlx, hly⟩, hl⟩
    obtain rfl := Option.some.inj (hl.symm.trans hl')
    exact ⟨⟨i, hl⟩, hlx, hly⟩
  · rintro ⟨⟨i, hl⟩, hlx, hly⟩
    exact ⟨i, ⟨l, hl, hlx, hly⟩, hl⟩

/-! ## Reading order -/

def readsUpTo (l l' : Leaf) : Bool :=
  l.origin.2 < l'.origin.2 || l.origin.2 == l'.origin.2 && l.origin.1 ≤ l'.origin.1

theorem readsUpTo_iff {l l' : Leaf} :
    readsUpTo l l' = true ↔ l.origin.2.toNat < l'.origin.2.toNat ∨
      l.origin.2.toNat = l'.origin.2.toNat ∧ l.origin.1.toNat ≤ l'.origin.1.toNat := by
  simp only [readsUpTo, Bool.or_eq_true, Bool.and_eq_true, decide_eq_true_eq, beq_iff_eq,
    UInt16.lt_iff_toNat_lt, UInt16.le_iff_toNat_le, ← UInt16.toNat_inj]

/-- The leaves of the grid, row by row from the north and each row from
the west. -/
def inReadingOrder (g : Grid) : List Leaf :=
  g.leaves.toList.mergeSort readsUpTo

theorem mem_inReadingOrder {l : Leaf} :
    l ∈ g.inReadingOrder ↔ ∃ i : LeafId, g.leaves[i]? = some l := by
  rw [inReadingOrder, List.mem_mergeSort, Array.mem_toList_iff, Array.mem_iff_getElem?]

theorem WellFormed.nodup_leaves (hg : g.WellFormed) :
    g.leaves.toList.Pairwise (fun l l' => l.origin ≠ l'.origin) := by
  rw [List.pairwise_iff_getElem]
  intro i j hi hj hij heq
  have hli : g.leaves[i]? = some g.leaves.toList[i] := by simp
  have hlj : g.leaves[j]? = some g.leaves.toList[j] := by simp
  have hfi := hg.indexed i _ hli
  have hfj := hg.indexed j _ hlj
  rw [heq, hfj] at hfi
  exact absurd (Option.some.inj hfi) (Nat.ne_of_gt hij)

theorem WellFormed.pairwise_inReadingOrder (hg : g.WellFormed) :
    g.inReadingOrder.Pairwise Leaf.ReadsBefore := by
  have hsorted : g.inReadingOrder.Pairwise (fun l l' => readsUpTo l l' = true) := by
    refine List.pairwise_mergeSort ?_ ?_ _
    · intro l₁ l₂ l₃
      simp only [readsUpTo_iff]
      omega
    · intro l l'
      rw [Bool.or_eq_true, readsUpTo_iff, readsUpTo_iff]
      omega
  have hdistinct : g.inReadingOrder.Pairwise (fun l l' => l.origin ≠ l'.origin) :=
    ((List.mergeSort_perm ..).pairwise_iff Ne.symm).mpr hg.nodup_leaves
  refine hsorted.imp₂ ?_ hdistinct
  intro l l' hle hne
  rw [readsUpTo_iff] at hle
  rw [Leaf.readsBefore_iff]
  rw [Ne, Prod.ext_iff, ← UInt16.toNat_inj, ← UInt16.toNat_inj] at hne
  omega

end Grid

namespace SpectatorQuery

variable {g : Grid}

/-! ## The walk as a scan -/

theorem walkRow_eq (hg : g.WellFormed) {y : Nat} (hy : y % 8 = 0) (blocks : Nat) {x : Nat}
    (hx : x % 8 = 0) (found : List Leaf) :
    walkRow g y blocks x (g.leafNear? x y) found =
      ((List.range' x blocks 8).filterMap fun u : Nat => g.leafOver? u y).reverse ++ found := by
  induction blocks generalizing x found with
  | zero => rfl
  | succ blocks ih =>
      have hnext := ih (x := x + 8) (by omega)
      rw [walkRow, ← Grid.leafOver?, List.range'_succ, List.filterMap_cons]
      cases hl : g.leafOver? x y with
      | none => exact hnext found
      | some l =>
          obtain ⟨⟨i, hi⟩, hlx, hly⟩ := (Grid.leafOver?_eq_some_iff hg hx hy).mp hl
          have heast : l.east = g.leafNear? (x + 8 : Nat) y := by
            rw [hg.east i l hi, hlx, hly, Int.natCast_add, Int.cast_ofNat_Int]
          show walkRow g y blocks (x + 8) l.east (l :: found) = _
          rw [heast, hnext, List.reverse_cons, List.append_assoc]
          rfl

theorem walkRows_eq (hg : g.WellFormed) {x : Nat} (hx : x % 8 = 0) (width rows : Nat) {y : Nat}
    (hy : y % 8 = 0) (found : List Leaf) :
    walkRows g x width rows y (g.leafNear? x y) found =
      ((List.range' y rows 8).flatMap fun v : Nat =>
        (List.range' x width 8).filterMap fun u : Nat => g.leafOver? u v).reverse ++ found := by
  induction rows generalizing y found with
  | zero => rfl
  | succ rows ih =>
      have hnext := ih (y := y + 8) (by omega)
      rw [walkRows, walkRow_eq hg hy width hx, ← Grid.leafOver?, List.range'_succ,
        List.flatMap_cons, List.reverse_append, List.append_assoc]
      cases hl : g.leafOver? x y with
      | none => exact hnext _
      | some l =>
          obtain ⟨⟨i, hi⟩, hlx, hly⟩ := (Grid.leafOver?_eq_some_iff hg hx hy).mp hl
          have hsouth : l.south = g.leafNear? x (y + 8 : Nat) := by
            rw [hg.south i l hi, hlx, hly, Int.natCast_add, Int.cast_ofNat_Int]
          show walkRows g x width rows (y + 8) l.south _ = _
          rw [hsouth, hnext]

/-! ## The rectangle of blocks -/

variable {q : SpectatorQuery} {e : Extent}

/-- First column of the westernmost blocks that the walk visits. -/
def firstColumn (q : SpectatorQuery) (e : Extent) : Nat :=
  max (blockStart (q.minX + q.shift q.band.2)) e.minX.toNat

def firstRow (q : SpectatorQuery) (e : Extent) : Nat :=
  max (blockStart (q.minY + q.shift q.band.2)) e.minY.toNat

/-- First column of the easternmost blocks that the walk visits. -/
def lastColumn (q : SpectatorQuery) (e : Extent) : Nat :=
  min (blockStart (q.maxX + q.shift q.band.1)) e.maxX.toNat

def lastRow (q : SpectatorQuery) (e : Extent) : Nat :=
  min (blockStart (q.maxY + q.shift q.band.1)) e.maxY.toNat

theorem max_blockStart_mod {c : Nat} (hc : c % 8 = 0) (v : Int) :
    max (blockStart v) c % 8 = 0 := by
  unfold blockStart
  dsimp only
  omega

/-- The block of a coordinate starts after those of smaller numbers, on
the map or off it. -/
theorem blockStart_le {v : Int} {c : Nat} (h : v ≤ c) : blockStart v ≤ c / 8 * 8 := by
  unfold blockStart
  dsimp only
  omega

theorem le_blockStart {v : Int} {c : UInt16} (h : (c.toNat : Int) ≤ v) :
    c.toNat / 8 * 8 ≤ blockStart v := by
  have hc := c.toNat_lt
  unfold blockStart
  dsimp only
  omega

/-- Block starts between two others are the multiples counted. -/
theorem mem_range'_blockCount {first last c : Nat} (hf : first % 8 = 0) (hc : c % 8 = 0) :
    c ∈ List.range' first (blockCount first last) 8 ↔ first ≤ c ∧ c ≤ last := by
  rw [List.mem_range']
  unfold blockCount
  constructor
  · rintro ⟨i, hi, rfl⟩
    split at hi <;> omega
  · rintro ⟨hfc, hcl⟩
    rw [if_pos (by omega)]
    exact ⟨(c - first) / 8, by omega, by omega⟩

theorem range'_mod {first n c : Nat} (hf : first % 8 = 0) (h : c ∈ List.range' first n 8) :
    c % 8 = 0 := by
  obtain ⟨i, -, rfl⟩ := List.mem_range'.mp h
  omega

end SpectatorQuery

namespace Grid.Spans

variable {g : Grid} {e : Extent}

/-- The bounds are corners of blocks themselves. -/
theorem aligned (h : g.Spans e) (hg : g.WellFormed) :
    e.minX.toNat % 8 = 0 ∧ e.minY.toNat % 8 = 0 := by
  obtain ⟨o, ⟨i, l, hl, rfl⟩, hx⟩ := h.west.1
  obtain ⟨o', ⟨i', l', hl', rfl⟩, hy⟩ := h.north.1
  exact ⟨hx ▸ (hg.aligned i l hl).1, hy ▸ (hg.aligned i' l' hl').2⟩

theorem contains (h : g.Spans e) {i : LeafId} {l : Leaf} (hl : g.leaves[i]? = some l) :
    (e.minX.toNat ≤ l.origin.1.toNat ∧ l.origin.1.toNat ≤ e.maxX.toNat) ∧
      e.minY.toNat ≤ l.origin.2.toNat ∧ l.origin.2.toNat ≤ e.maxY.toNat := by
  have hmem : l.origin ∈ g.origins := ⟨i, l, hl, rfl⟩
  have hc : l.origin.1.toNat ∈ g.columns := ⟨l.origin, hmem, rfl⟩
  have hr : l.origin.2.toNat ∈ g.rows := ⟨l.origin, hmem, rfl⟩
  exact ⟨⟨h.west.2 hc, h.east.2 hc⟩, h.north.2 hr, h.south.2 hr⟩

end Grid.Spans

namespace SpectatorQuery

variable {g : Grid} {q : SpectatorQuery} {e : Extent}

theorem firstColumn_mod (he : g.Spans e) (hg : g.WellFormed) : q.firstColumn e % 8 = 0 :=
  max_blockStart_mod (he.aligned hg).1 _

theorem firstRow_mod (he : g.Spans e) (hg : g.WellFormed) : q.firstRow e % 8 = 0 :=
  max_blockStart_mod (he.aligned hg).2 _

/-- The walk visits a rectangle of blocks, row by row. -/
theorem leaves_eq (hg : g.WellFormed) (he : g.extent = some e) :
    q.leaves g =
      (List.range' (q.firstRow e) (blockCount (q.firstRow e) (q.lastRow e)) 8).flatMap
        fun v : Nat => (List.range' (q.firstColumn e)
          (blockCount (q.firstColumn e) (q.lastColumn e)) 8).filterMap
            fun u : Nat => g.leafOver? u v := by
  have hs := hg.extent e he
  have hwalk := walkRows_eq hg (firstColumn_mod (q := q) hs hg)
    (blockCount (q.firstColumn e) (q.lastColumn e))
    (blockCount (q.firstRow e) (q.lastRow e)) (firstRow_mod (q := q) hs hg) []
  have hreverse := congrArg List.reverse hwalk
  rw [List.append_nil, List.reverse_reverse] at hreverse
  unfold leaves
  rw [he]
  exact hreverse

theorem mem_leaves_iff (hg : g.WellFormed) (he : g.extent = some e) {l : Leaf} :
    l ∈ q.leaves g ↔ (∃ i : LeafId, g.leaves[i]? = some l) ∧
      (q.firstColumn e ≤ l.origin.1.toNat ∧ l.origin.1.toNat ≤ q.lastColumn e) ∧
        q.firstRow e ≤ l.origin.2.toNat ∧ l.origin.2.toNat ≤ q.lastRow e := by
  have hs := hg.extent e he
  have hcol := firstColumn_mod (q := q) hs hg
  have hrow := firstRow_mod (q := q) hs hg
  rw [leaves_eq hg he]
  simp only [List.mem_flatMap, List.mem_filterMap]
  constructor
  · rintro ⟨v, hv, u, hu, hl⟩
    have hu8 := range'_mod hcol hu
    have hv8 := range'_mod hrow hv
    obtain ⟨hi, rfl, rfl⟩ := (Grid.leafOver?_eq_some_iff hg hu8 hv8).mp hl
    exact ⟨hi, (mem_range'_blockCount hcol hu8).mp hu, (mem_range'_blockCount hrow hv8).mp hv⟩
  · rintro ⟨⟨i, hi⟩, hu, hv⟩
    obtain ⟨hu8, hv8⟩ := hg.aligned i l hi
    exact ⟨_, (mem_range'_blockCount hrow hv8).mpr hv, _, (mem_range'_blockCount hcol hu8).mpr hu,
      (Grid.leafOver?_eq_some_iff hg hu8 hv8).mpr ⟨⟨i, hi⟩, rfl, rfl⟩⟩

/-- Whatever a query asks, its walk meets leaves of the grid only. -/
theorem exists_of_mem_leaves (hg : g.WellFormed) {l : Leaf} (h : l ∈ q.leaves g) :
    ∃ i : LeafId, g.leaves[i]? = some l := by
  cases he : g.extent with
  | none =>
      unfold leaves at h
      rw [he] at h
      cases h
  | some e => exact ((mem_leaves_iff hg he).mp h).1

theorem pairwise_leaves (hg : g.WellFormed) : (q.leaves g).Pairwise Leaf.ReadsBefore := by
  cases he : g.extent with
  | none =>
      unfold leaves
      rw [he]
      exact List.Pairwise.nil
  | some e =>
      have hs := hg.extent e he
      have hcol := firstColumn_mod (q := q) hs hg
      have hrow := firstRow_mod (q := q) hs hg
      rw [leaves_eq hg he, List.pairwise_flatMap]
      constructor
      · intro v hv
        have hv8 := range'_mod hrow hv
        rw [List.pairwise_filterMap]
        refine List.Pairwise.imp_of_mem ?_ (List.pairwise_lt_range' 8)
        intro u u' hu hu' hlt l hl l' hl'
        obtain ⟨-, hx, hy⟩ := (Grid.leafOver?_eq_some_iff hg (range'_mod hcol hu) hv8).mp hl
        obtain ⟨-, hx', hy'⟩ := (Grid.leafOver?_eq_some_iff hg (range'_mod hcol hu') hv8).mp hl'
        rw [Leaf.readsBefore_iff]
        omega
      · refine List.Pairwise.imp_of_mem ?_ (List.pairwise_lt_range' 8)
        intro v v' hv hv' hlt l hl l' hl'
        obtain ⟨u, hu, hl⟩ := List.mem_filterMap.mp hl
        obtain ⟨u', hu', hl'⟩ := List.mem_filterMap.mp hl'
        obtain ⟨-, hx, hy⟩ := (Grid.leafOver?_eq_some_iff hg (range'_mod hcol hu)
          (range'_mod hrow hv)).mp hl
        obtain ⟨-, hx', hy'⟩ := (Grid.leafOver?_eq_some_iff hg (range'_mod hcol hu')
          (range'_mod hrow hv')).mp hl'
        rw [Leaf.readsBefore_iff]
        omega

/-! ## What the query covers -/

theorem covers_iff {p : Position} : q.covers p = true ↔
    (q.band.1 ≤ p.z ∧ p.z ≤ q.band.2) ∧
      (q.minX + q.shift p.z ≤ p.x.toNat ∧ (p.x.toNat : Int) ≤ q.maxX + q.shift p.z) ∧
        q.minY + q.shift p.z ≤ p.y.toNat ∧ (p.y.toNat : Int) ≤ q.maxY + q.shift p.z := by
  simp only [covers, Bool.and_eq_true, decide_eq_true_eq, and_assoc]

/-- The lower the floor, the further north-west the covered rectangle. -/
theorem shift_anti {z z' : UInt8} (h : z ≤ z') : q.shift z' ≤ q.shift z := by
  rw [UInt8.le_iff_toNat_le] at h
  unfold shift
  omega

/-- No leaf that a covered position lies in is left out of the walk. -/
theorem mem_leaves_of_covers (hg : g.WellFormed) {p : Position} (hp : q.covers p = true)
    {i : LeafId} {l : Leaf} (hi : g.leafId? p.x p.y = some i) (hl : g.leaves[i]? = some l) :
    l ∈ q.leaves g := by
  cases he : g.extent with
  | none => simp [hg.bare he] at hl
  | some e =>
      obtain ⟨⟨hx, hx'⟩, hy, hy'⟩ := (hg.extent e he).contains hl
      obtain ⟨l', hl', horigin⟩ := hg.leaf_of_leafId? hi
      obtain rfl := Option.some.inj (hl.symm.trans hl')
      obtain ⟨⟨hzlo, hzhi⟩, ⟨hpx, hpx'⟩, hpy, hpy'⟩ := covers_iff.mp hp
      have hlo := q.shift_anti hzlo
      have hhi := q.shift_anti hzhi
      have ex : l.origin.1.toNat = p.x.toNat / 8 * 8 := by rw [horigin, toNat_leafOrigin]
      have ey : l.origin.2.toNat = p.y.toNat / 8 * 8 := by rw [horigin, toNat_leafOrigin]
      have hwest := blockStart_le (v := q.minX + q.shift q.band.2) (c := p.x.toNat) (by omega)
      have hnorth := blockStart_le (v := q.minY + q.shift q.band.2) (c := p.y.toNat) (by omega)
      have heast := le_blockStart (v := q.maxX + q.shift q.band.1) (c := p.x) (by omega)
      have hsouth := le_blockStart (v := q.maxY + q.shift q.band.1) (c := p.y) (by omega)
      refine (mem_leaves_iff hg he).mpr ⟨⟨i, hl⟩, ?_⟩
      unfold firstColumn lastColumn firstRow lastRow
      omega

end SpectatorQuery

end TileWorld
