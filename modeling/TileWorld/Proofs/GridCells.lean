import TileWorld.Proofs.GridLinks

/-!
# Cells of a grid

A position is resolved through the index, a floor and a slot, all shared
with other positions. The laws here say that a change is noticed at its
own position only: `cell?_modifyAt_map` for a changed cell,
`cell?_modifyAt_put` for a slot filled or emptied, and `cell?_ensureLeaf`
for a new leaf, which brings no cell.
-/

namespace TileWorld.Grid

variable {g : Grid}

theorem leafId?_congr (g : Grid) {p q : Position} (h : p.SharesBlock q) :
    g.leafId? p.x p.y = g.leafId? q.x q.y :=
  g.index.find?_congr h.1 h.2

theorem leafAt?_eq_some_iff {x y : UInt16} {l : Leaf} :
    g.leafAt? x y = some l ↔ ∃ i, g.leafId? x y = some i ∧ g.leaves[i]? = some l :=
  Option.bind_eq_some_iff

theorem WellFormed.origin_of_leafAt? (hg : g.WellFormed) {x y : UInt16} {l : Leaf}
    (h : g.leafAt? x y = some l) : l.origin = (leafOrigin x, leafOrigin y) := by
  obtain ⟨i, hi, hl⟩ := leafAt?_eq_some_iff.mp h
  obtain ⟨l', hl', horigin⟩ := hg.leaf_of_leafId? hi
  obtain rfl := Option.some.inj (hl.symm.trans hl')
  exact horigin

theorem cell?_eq_some_iff {p : Position} {c : Cell} :
    g.cell? p = some c ↔ ∃ l, g.leafAt? p.x p.y = some l ∧ l.cell? p = some c :=
  Option.bind_eq_some_iff

/-- A grid has cells on the floors of the map only. -/
theorem floor_lt_of_cell? {p : Position} {c : Cell} (h : g.cell? p = some c) :
    p.z.toNat < 16 := by
  obtain ⟨l, -, hc⟩ := cell?_eq_some_iff.mp h
  exact Leaf.floor_lt_of_cell? hc

/-! ## Changing the leaf of a position -/

theorem leafAt?_modifyAt (hg : g.WellFormed) (p : Position) (f : Leaf → Leaf) (q : Position) :
    (g.modifyAt p f).leafAt? q.x q.y =
      if q.SharesBlock p then (g.leafAt? q.x q.y).map f else g.leafAt? q.x q.y := by
  unfold leafAt?
  rw [leafId?_modifyAt]
  cases hq : g.leafId? q.x q.y with
  | none => simp
  | some i =>
      simp only [Option.bind_some, getElem?_modifyAt]
      refine if_congr ?_ rfl rfl
      exact ⟨fun hp => hg.sharesBlock hq hp, fun h => by rw [← g.leafId?_congr h, hq]⟩

theorem cell?_modifyAt (hg : g.WellFormed) (p : Position) (f : Leaf → Leaf) (q : Position) :
    (g.modifyAt p f).cell? q =
      if q.SharesBlock p then (g.leafAt? q.x q.y).bind (fun l => (f l).cell? q)
      else g.cell? q := by
  unfold cell?
  rw [leafAt?_modifyAt hg]
  split
  · cases g.leafAt? q.x q.y <;> rfl
  · rfl

/-- A change of one cell, whatever else it does to the leaf, is noticed
at the position of that cell only. -/
theorem cell?_modifyAt_map (hg : g.WellFormed) {p : Position} {f : Leaf → Leaf} {k : Cell → Cell}
    (hf : ∀ l q, (f l).cell? q = (l.modifyCell p k).cell? q) (q : Position) :
    (g.modifyAt p f).cell? q = if q = p then (g.cell? p).map k else g.cell? q := by
  rw [cell?_modifyAt hg]
  by_cases hqp : q = p
  · subst hqp
    rw [if_pos (Position.SharesBlock.refl q), if_pos rfl]
    unfold cell?
    cases g.leafAt? q.x q.y with
    | none => rfl
    | some l =>
        show (f l).cell? q = (l.cell? q).map k
        rw [hf, Leaf.cell?_modifyCell, if_pos ⟨rfl, rfl⟩]
  · rw [if_neg hqp]
    split
    · rename_i hblock
      unfold cell?
      cases g.leafAt? q.x q.y with
      | none => rfl
      | some l =>
          show (f l).cell? q = l.cell? q
          rw [hf, Leaf.cell?_modifyCell, if_neg]
          rintro ⟨hz, hslot⟩
          exact hqp (Position.eq_of_sharesBlock hblock hslot hz)
    · rfl

/-- Where there is a leaf, a slot of the map takes what it is given. -/
theorem cell?_modifyAt_put (hg : g.WellFormed) {p : Position} (hz : p.z.toNat < 16)
    (hleaf : (g.leafId? p.x p.y).isSome) (c : Option Cell) (q : Position) :
    (g.modifyAt p (·.put p c)).cell? q = if q = p then c else g.cell? q := by
  rw [cell?_modifyAt hg]
  by_cases hqp : q = p
  · subst hqp
    rw [if_pos (Position.SharesBlock.refl q), if_pos rfl]
    obtain ⟨l, hl⟩ := Option.isSome_iff_exists.mp (hg.leafAt?_isSome_iff.mpr hleaf)
    rw [hl, Option.bind_some, Leaf.cell?_put, if_pos ⟨hz, rfl, rfl⟩]
  · rw [if_neg hqp]
    split
    · rename_i hblock
      unfold cell?
      cases g.leafAt? q.x q.y with
      | none => rfl
      | some l =>
          show (l.put p c).cell? q = l.cell? q
          rw [Leaf.cell?_put, if_neg]
          rintro ⟨-, hqz, hslot⟩
          exact hqp (Position.eq_of_sharesBlock hblock hslot hqz)
    · rfl

/-! ## Creating a leaf -/

theorem leafId?_enlarged {x y : UInt16} (hfree : g.leafId? x y = none) (a b : UInt16) :
    (g.enlarged x y).leafId? a b =
      if a.toNat / 8 = x.toNat / 8 ∧ b.toNat / 8 = y.toNat / 8 then some g.leaves.size
      else g.leafId? a b := by
  rw [leafId?_eq_leafNear?, leafNear?_enlarged hfree, ← leafId?_eq_leafNear?]
  exact if_congr (by omega) rfl rfl

/-- Afterwards a look-up finds the leaf that was asked for. -/
theorem leafId?_ensureLeaf (g : Grid) (x y : UInt16) :
    (g.ensureLeaf x y).2.leafId? x y = some (g.ensureLeaf x y).1 := by
  cases h : g.leafId? x y with
  | some i => rw [ensureLeaf_of_some h, h]
  | none => rw [ensureLeaf_of_none h, leafId?_enlarged h, if_pos ⟨rfl, rfl⟩]

theorem cell?_covering (x y : UInt16) (q : Position) : (Leaf.covering x y).cell? q = none := by
  by_cases hz : q.z.toNat < 16
  · rw [Leaf.cell?_of_floor hz]
    simp [Leaf.covering]
  · exact Leaf.cell?_eq_none_of_floor hz

theorem cell?_enlarged (hg : g.WellFormed) {x y : UInt16} (hfree : g.leafId? x y = none)
    (p : Position) : (g.enlarged x y).cell? p = g.cell? p := by
  unfold cell? leafAt?
  rw [leafId?_enlarged hfree]
  split
  · -- the new block had no cell, and its leaf has none
    rename_i hblock
    have hnone : g.leafId? p.x p.y = none := by
      rw [← hfree]
      exact g.leafId?_congr (q := ⟨x, y, 0⟩) hblock
    rw [hnone, Option.bind_some, getElem?_enlarged hfree, if_pos rfl]
    exact cell?_covering x y p
  · cases hp : g.leafId? p.x p.y with
    | none => rfl
    | some i =>
        obtain ⟨l, hl, -⟩ := hg.leaf_of_leafId? hp
        rw [Option.bind_some, Option.bind_some, getElem?_enlarged_of_some hfree hl, hl]
        rfl

theorem cell?_ensureLeaf (hg : g.WellFormed) (x y : UInt16) (p : Position) :
    (g.ensureLeaf x y).2.cell? p = g.cell? p := by
  cases h : g.leafId? x y with
  | some i => rw [ensureLeaf_of_some h]
  | none => rw [ensureLeaf_of_none h, cell?_enlarged hg h]

end TileWorld.Grid
