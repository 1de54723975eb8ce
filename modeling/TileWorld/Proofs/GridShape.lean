import TileWorld.Proofs.GridHistory
import TileWorld.Proofs.LeafWalk

/-!
# Links and extent in terms of origins

In a well-formed grid the origins of the leaves determine everything else
about the shape of the grid: the extent is their hull
(`Grid.Spans.hasHull`), and a link leads to a neighboring origin if there
is one (`Grid.WellFormed.south_eq_some_iff`). The origins after a history
are a matter of the blocks that it names, so links and extent do not
depend on the order in which leaves were created (`World.links_run`).
-/

namespace TileWorld

def Extent.Encloses (e : Extent) (o : UInt16 × UInt16) : Prop :=
  (e.minX ≤ o.1 ∧ o.1 ≤ e.maxX) ∧ e.minY ≤ o.2 ∧ o.2 ≤ e.maxY

def Extent.Within (e e' : Extent) : Prop :=
  (e'.minX ≤ e.minX ∧ e.maxX ≤ e'.maxX) ∧ e'.minY ≤ e.minY ∧ e.maxY ≤ e'.maxY

/-- The block with the second origin lies directly south of that with the first. -/
def SouthOf (o p : UInt16 × UInt16) : Prop :=
  p.1.toNat = o.1.toNat ∧ p.2.toNat = o.2.toNat + 8

/-- The block with the second origin lies directly east of that with the first. -/
def EastOf (o p : UInt16 × UInt16) : Prop :=
  p.1.toNat = o.1.toNat + 8 ∧ p.2.toNat = o.2.toNat

namespace Grid

variable {g g' : Grid} {e e' : Extent}

/-- The bounds are the smallest rectangle that encloses all origins. -/
structure HasHull (g : Grid) (e : Extent) : Prop where
  encloses : ∀ o ∈ g.origins, e.Encloses o
  least : ∀ e' : Extent, (∀ o ∈ g.origins, e'.Encloses o) → e.Within e'

theorem Spans.hasHull (h : g.Spans e) : g.HasHull e where
  encloses := by
    rintro o ⟨i, l, hl, rfl⟩
    simp only [Extent.Encloses, UInt16.le_iff_toNat_le]
    exact h.contains hl
  least := by
    intro e' he'
    -- each side of the rectangle passes through an origin
    obtain ⟨west, hwest, (hminX : west.1.toNat = _)⟩ := h.west.1
    obtain ⟨east, heast, (hmaxX : east.1.toNat = _)⟩ := h.east.1
    obtain ⟨north, hnorth, (hminY : north.2.toNat = _)⟩ := h.north.1
    obtain ⟨south, hsouth, (hmaxY : south.2.toNat = _)⟩ := h.south.1
    have hw := (he' west hwest).1.1
    have he := (he' east heast).1.2
    have hn := (he' north hnorth).2.1
    have hs := (he' south hsouth).2.2
    simp only [UInt16.le_iff_toNat_le] at hw he hn hs
    simp only [Extent.Within, UInt16.le_iff_toNat_le]
    omega

theorem Spans.unique (h : g.Spans e) (h' : g.Spans e') : e' = e := by
  obtain ⟨minX, minY, maxX, maxY⟩ := e
  obtain ⟨minX', minY', maxX', maxY'⟩ := e'
  rw [Extent.mk.injEq]
  exact ⟨UInt16.toNat_inj.mp (h'.west.unique h.west), UInt16.toNat_inj.mp (h'.north.unique h.north),
    UInt16.toNat_inj.mp (h'.east.unique h.east), UInt16.toNat_inj.mp (h'.south.unique h.south)⟩

namespace WellFormed

theorem extent_eq_none_iff (hg : g.WellFormed) : g.extent = none ↔ g.origins = ∅ := by
  constructor
  · intro h
    simp [origins, hg.bare h]
  · intro h
    cases he : g.extent with
    | none => rfl
    | some e =>
        obtain ⟨o, ho, -⟩ := (hg.extent e he).west.1
        rw [h] at ho
        cases ho

theorem extent_congr (hg : g.WellFormed) (hg' : g'.WellFormed) (ho : g'.origins = g.origins) :
    g'.extent = g.extent := by
  cases he : g.extent with
  | none => rw [hg'.extent_eq_none_iff, ho, ← hg.extent_eq_none_iff, he]
  | some e =>
      cases he' : g'.extent with
      | none =>
          rw [hg'.extent_eq_none_iff, ho, ← hg.extent_eq_none_iff, he] at he'
          cases he'
      | some e' =>
          exact congrArg some ((hg.extent e he).unique ((hg'.extent e' he').congr ho.symm))

/-- Whether a point has a leaf shows in the origins. -/
theorem leafAt?_isSome_iff_mem (hg : g.WellFormed) {x y : UInt16} :
    (g.leafAt? x y).isSome ↔ (leafOrigin x, leafOrigin y) ∈ g.origins := by
  rw [hg.leafAt?_isSome_iff]
  constructor
  · intro h
    obtain ⟨i, hi⟩ := Option.isSome_iff_exists.mp h
    obtain ⟨l, hl, horigin⟩ := hg.leaf_of_leafId? hi
    exact ⟨i, l, hl, horigin⟩
  · rintro ⟨i, l, hl, horigin⟩
    have hi := hg.indexed i l hl
    rw [← leafId?_eq_leafNear?, horigin] at hi
    rw [g.leafId?_congr (p := ⟨x, y, 0⟩) (q := ⟨leafOrigin x, leafOrigin y, 0⟩)
      ⟨(toNat_leafOrigin_div x).symm, (toNat_leafOrigin_div y).symm⟩, hi]
    rfl

theorem south_eq_some_iff (hg : g.WellFormed) {i : LeafId} {l : Leaf} (hl : g.leaves[i]? = some l)
    (j : LeafId) :
    l.south = some j ↔ ∃ m : Leaf, g.leaves[j]? = some m ∧ SouthOf l.origin m.origin := by
  obtain ⟨ax, ay⟩ := hg.aligned i l hl
  rw [hg.south i l hl]
  exact hg.leafNear?_eq_some_iff (y := l.origin.2.toNat + 8) ax (by omega)

theorem east_eq_some_iff (hg : g.WellFormed) {i : LeafId} {l : Leaf} (hl : g.leaves[i]? = some l)
    (j : LeafId) :
    l.east = some j ↔ ∃ m : Leaf, g.leaves[j]? = some m ∧ EastOf l.origin m.origin := by
  obtain ⟨ax, ay⟩ := hg.aligned i l hl
  rw [hg.east i l hl]
  exact hg.leafNear?_eq_some_iff (x := l.origin.1.toNat + 8) (by omega) ay

end WellFormed

/-- Origin of the leaf that a link leads to. -/
def linked? (g : Grid) (link : Option LeafId) : Option (UInt16 × UInt16) :=
  (link.bind (g.leaves[·]?)).map (·.origin)

/-- Where the links of the leaf over a point lead, southward and eastward. -/
def links? (g : Grid) (x y : UInt16) :
    Option (Option (UInt16 × UInt16) × Option (UInt16 × UInt16)) :=
  (g.leafAt? x y).map fun l => (g.linked? l.south, g.linked? l.east)

/-- A link to the leaf that lies somewhere leads there if that is an origin. -/
theorem linked?_eq_some_iff {link : Option LeafId} {P : UInt16 × UInt16 → Prop}
    (h : ∀ j, link = some j ↔ ∃ m : Leaf, g.leaves[j]? = some m ∧ P m.origin)
    {o : UInt16 × UInt16} : g.linked? link = some o ↔ o ∈ g.origins ∧ P o := by
  simp only [linked?, Option.map_eq_some_iff, Option.bind_eq_some_iff]
  constructor
  · rintro ⟨m, ⟨j, hj, hm⟩, rfl⟩
    obtain ⟨m', hm', hP⟩ := (h j).mp hj
    obtain rfl := Option.some.inj (hm.symm.trans hm')
    exact ⟨⟨j, m, hm, rfl⟩, hP⟩
  · rintro ⟨⟨j, m, hm, rfl⟩, hP⟩
    exact ⟨m, ⟨j, (h j).mpr ⟨m, hm, hP⟩, hm⟩, rfl⟩

theorem links?_congr (hg : g.WellFormed) (hg' : g'.WellFormed) (ho : g'.origins = g.origins)
    (x y : UInt16) : g'.links? x y = g.links? x y := by
  have hsome : (g'.leafAt? x y).isSome ↔ (g.leafAt? x y).isSome := by
    rw [hg'.leafAt?_isSome_iff_mem, hg.leafAt?_isSome_iff_mem, ho]
  unfold links?
  cases hl : g.leafAt? x y with
  | none =>
      rw [hl] at hsome
      rw [Option.not_isSome_iff_eq_none.mp (mt hsome.mp (by simp))]
      rfl
  | some l =>
      obtain ⟨l', hl'⟩ := Option.isSome_iff_exists.mp (hsome.mpr (by rw [hl]; rfl))
      have horigin := (hg.origin_of_leafAt? hl).trans (hg'.origin_of_leafAt? hl').symm
      obtain ⟨i, -, hi⟩ := leafAt?_eq_some_iff.mp hl
      obtain ⟨i', -, hi'⟩ := leafAt?_eq_some_iff.mp hl'
      have hsouth : g'.linked? l'.south = g.linked? l.south := by
        ext o
        rw [linked?_eq_some_iff (hg'.south_eq_some_iff hi'), ho, ← horigin,
          linked?_eq_some_iff (hg.south_eq_some_iff hi)]
      have heast : g'.linked? l'.east = g.linked? l.east := by
        ext o
        rw [linked?_eq_some_iff (hg'.east_eq_some_iff hi'), ho, ← horigin,
          linked?_eq_some_iff (hg.east_eq_some_iff hi)]
      rw [hl', Option.map_some, Option.map_some, hsouth, heast]

end Grid

namespace World

/-- After a history, every leaf is linked to the leaves that exist directly
south and east of it, within the map, and the extent is the smallest
rectangle around all origins. A history that names the same blocks in
another order gives the same links and the same extent. -/
theorem links_run (config : WorldConfig) (actions : List Action) :
    let w := ((empty config).run actions).1
    (∀ i l, w.leaf? i = some l →
      (∀ j, l.south = some j ↔ ∃ m, w.leaf? j = some m ∧ SouthOf l.origin m.origin) ∧
      ∀ j, l.east = some j ↔ ∃ m, w.leaf? j = some m ∧ EastOf l.origin m.origin) ∧
    (w.grid.extent = none ↔ w.leafCount = 0) ∧
    (∀ e, w.grid.extent = some e → w.grid.HasHull e) ∧
    ∀ actions' : List Action,
      (∀ b, b ∈ actions'.filterMap Action.block? ↔ b ∈ actions.filterMap Action.block?) →
      let w' := ((empty config).run actions').1
      w'.grid.extent = w.grid.extent ∧ ∀ x y, w'.grid.links? x y = w.grid.links? x y := by
  intro w
  have hcharts : w.grid.Charts _ := charts_run config actions
  have hg := hcharts.wellFormed
  refine ⟨fun i l hl => ⟨hg.south_eq_some_iff hl, hg.east_eq_some_iff hl⟩, ⟨fun h => ?_, fun h => ?_⟩,
    fun e he => (hg.extent e he).hasHull, fun actions' hsame => ?_⟩
  · exact congrArg Array.size (hg.bare h)
  · rw [hg.extent_eq_none_iff]
    simp [Grid.origins, Array.eq_empty_of_size_eq_zero h]
  · have hcharts' := charts_run config actions'
    have ho := hcharts.origins_eq hcharts' hsame
    exact ⟨hg.extent_congr hcharts'.wellFormed ho, Grid.links?_congr hg hcharts'.wellFormed ho⟩

/-- A leaf created last is linked from the west, and no link goes around
the edge of the map. -/
example :
    let g := (((Grid.empty.ensureLeaf 65535 0).2.ensureLeaf 0 0).2.ensureLeaf 65520 7).2
    g.links? 65520 0 = some (none, some (65528, 0)) ∧ g.links? 65528 0 = some (none, none) ∧
      g.extent = some ⟨0, 0, 65528, 0⟩ := by
  decide +kernel

end World

end TileWorld
