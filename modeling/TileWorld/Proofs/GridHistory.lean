import Mathlib.Data.Finset.Card
import TileWorld.Proofs.Operations

/-!
# Which leaves a history leaves behind

An action that asks for a leaf names a block of the map, and a history
creates one leaf for every block named, when it is named first. Whatever
else happens changes the content of leaves only (`Grid.SameLeaves`).

`Grid.Charts` pins the index down by the list of blocks named: a look-up
leads from a point to the place of its block in that list, repetitions
left out. `World.index_run` says what this means for the leaves.
-/

namespace TileWorld

/-- The block that covers a column and row. -/
def blockOf (x y : UInt16) : Nat × Nat :=
  (x.toNat / 8, y.toNat / 8)

/-- The block for which an action asks for a leaf. -/
def Action.block? : Action → Option (Nat × Nat)
  | .ensureLeaf x y => some (blockOf x y)
  | .setCell p _ _ => if p.hasValidFloor then some (blockOf p.x p.y) else none
  | .removeCell _ | .place _ _ | .remove _ | .move _ _ _ => none

/-! ## First mentions -/

section FirstMentions

variable {α : Type} [BEq α] [LawfulBEq α]

theorem eraseDups_concat (l : List α) (b : α) :
    (l ++ [b]).eraseDups = if b ∈ l then l.eraseDups else l.eraseDups ++ [b] := by
  rw [List.eraseDups_append]
  split <;> simp [List.removeAll, List.eraseDups_cons, *]

theorem nodup_eraseDups (l : List α) : l.eraseDups.Nodup := by
  induction l using List.reverseRecOn with
  | nil => simp
  | append_singleton l b ih =>
      rw [eraseDups_concat]
      split
      · exact ih
      · rename_i hb
        exact List.nodup_append.mpr ⟨ih, List.nodup_singleton b, by grind [List.mem_eraseDups]⟩

theorem length_eraseDups [DecidableEq α] (l : List α) : l.eraseDups.length = l.toFinset.card := by
  rw [← List.toFinset_card_of_nodup (nodup_eraseDups l)]
  congr 1
  ext b
  simp [List.mem_eraseDups]

/-- An entry added at the end is found there and nowhere before. -/
theorem idxOf?_concat [DecidableEq α] {l : List α} {b : α} (hb : b ∉ l) (c : α) :
    (l ++ [b]).idxOf? c = if c = b then some l.length else l.idxOf? c := by
  show List.findIdx? _ _ = _
  rw [List.findIdx?_append]
  split
  · rename_i hcb
    subst hcb
    rw [show l.findIdx? (· == c) = none from List.idxOf?_eq_none_iff.mpr hb]
    simp
  · rename_i hcb
    simp [Ne.symm hcb, List.idxOf?]

end FirstMentions

namespace Grid

/-! ## Changes of content -/

/-- Both grids have the same leaves, whatever these hold. -/
structure SameLeaves (g g' : Grid) : Prop where
  wellFormed : g.WellFormed → g'.WellFormed
  leafId? : ∀ x y, g'.leafId? x y = g.leafId? x y
  size : g'.size = g.size

namespace SameLeaves

variable {g g' g'' : Grid}

theorem refl (g : Grid) : g.SameLeaves g := ⟨id, fun _ _ => rfl, rfl⟩

theorem trans (h : g.SameLeaves g') (h' : g'.SameLeaves g'') : g.SameLeaves g'' :=
  ⟨h'.wellFormed ∘ h.wellFormed, fun x y => (h'.leafId? x y).trans (h.leafId? x y),
    h'.size.trans h.size⟩

theorem modifyAt (h : g.SameLeaves g') (p : Position) {f : Leaf → Leaf}
    (horigin : ∀ l, (f l).origin = l.origin) (hsouth : ∀ l, (f l).south = l.south)
    (heast : ∀ l, (f l).east = l.east) : g.SameLeaves (g'.modifyAt p f) := by
  refine h.trans ⟨fun hg => hg.modifyAt p horigin hsouth heast, by simp, ?_⟩
  unfold Grid.modifyAt
  cases g'.leafId? p.x p.y <;> simp [Grid.size, modifyLeaf?, modifyLeaf]

/-- A leaf of one grid covers the block that the leaf of its number covers
in the other. -/
theorem origin_eq (h : g.SameLeaves g') (hg : g.WellFormed) {i : LeafId} {l l' : Leaf}
    (hl : g.leaves[i]? = some l) (hl' : g'.leaves[i]? = some l') : l.origin = l'.origin := by
  have hi : g.leafId? l.origin.1 l.origin.2 = some i :=
    (leafId?_eq_leafNear? ..).trans (hg.indexed i l hl)
  obtain ⟨k, hk, horigin⟩ := hg.leaf_of_leafId? hi
  obtain ⟨k', hk', horigin'⟩ := (h.wellFormed hg).leaf_of_leafId? ((h.leafId? ..).trans hi)
  obtain rfl := Option.some.inj (hl.symm.trans hk)
  obtain rfl := Option.some.inj (hl'.symm.trans hk')
  exact horigin.trans horigin'.symm

end SameLeaves

/-! ## The leaves of a list of blocks -/

/-- The grid has grown by asking for the blocks listed, one after another:
its leaves are those of the blocks, in the order of first mention. -/
structure Charts (g : Grid) (blocks : List (Nat × Nat)) : Prop where
  wellFormed : g.WellFormed
  size : g.size = blocks.eraseDups.length
  leafId? : ∀ x y, g.leafId? x y = blocks.eraseDups.idxOf? (blockOf x y)

theorem leafId?_empty (x y : UInt16) : empty.leafId? x y = none :=
  (leafId?_eq_leafNear? ..).trans (leafNear?_empty ..)

theorem charts_empty : empty.Charts [] where
  wellFormed := wellFormed_empty
  size := rfl
  leafId? x y := by rw [leafId?_empty]; rfl

theorem size_enlarged (g : Grid) (x y : UInt16) : (g.enlarged x y).size = g.size + 1 := by
  rw [enlarged]
  unfold link
  cases (g.grown x y).leafNear? x.toNat (y.toNat - 8) <;>
    cases (g.grown x y).leafNear? (x.toNat - 8) y.toNat <;>
    simp [size, modifyLeaf?, modifyLeaf, grown]

namespace Charts

variable {g g' : Grid} {blocks : List (Nat × Nat)}

theorem of_sameLeaves (h : g.Charts blocks) (hsame : g.SameLeaves g') : g'.Charts blocks where
  wellFormed := hsame.wellFormed h.wellFormed
  size := hsame.size.trans h.size
  leafId? x y := (hsame.leafId? x y).trans (h.leafId? x y)

theorem isSome_leafId? (h : g.Charts blocks) (x y : UInt16) :
    (g.leafId? x y).isSome ↔ blockOf x y ∈ blocks := by
  rw [h.leafId?, List.isSome_idxOf?, List.mem_eraseDups]

/-- Asking for a leaf once more creates it unless its block was named before. -/
theorem ensureLeaf (h : g.Charts blocks) (x y : UInt16) :
    (g.ensureLeaf x y).2.Charts (blocks ++ [blockOf x y]) := by
  by_cases hb : blockOf x y ∈ blocks
  · obtain ⟨i, hi⟩ := Option.isSome_iff_exists.mp ((h.isSome_leafId? x y).mpr hb)
    rw [ensureLeaf_of_some hi]
    exact ⟨h.wellFormed, by simp [eraseDups_concat, hb, h.size],
      fun a b => by simp [eraseDups_concat, hb, h.leafId?]⟩
  · have hfree : g.leafId? x y = none := by
      rw [← Option.not_isSome_iff_eq_none, h.isSome_leafId?]
      exact hb
    rw [ensureLeaf_of_none hfree]
    refine ⟨h.wellFormed.enlarged hfree, ?_, fun a b => ?_⟩
    · rw [size_enlarged, h.size, eraseDups_concat, if_neg hb, List.length_append,
        List.length_singleton]
    · rw [leafId?_enlarged hfree, eraseDups_concat, if_neg hb,
        idxOf?_concat (mt List.mem_eraseDups.mp hb), h.leafId? a b, ← h.size]
      exact if_congr Prod.mk_inj.symm rfl rfl

/-- The leaves have the corners of the blocks named as their origins. -/
theorem mem_origins (h : g.Charts blocks) {o : UInt16 × UInt16} :
    o ∈ g.origins ↔ ∃ x y, blockOf x y ∈ blocks ∧ o = (leafOrigin x, leafOrigin y) := by
  constructor
  · rintro ⟨i, l, hl, rfl⟩
    have hi := h.wellFormed.indexed i l hl
    rw [← leafId?_eq_leafNear?] at hi
    obtain ⟨l', hl', horigin⟩ := h.wellFormed.leaf_of_leafId? hi
    obtain rfl := Option.some.inj (hl.symm.trans hl')
    exact ⟨l.origin.1, l.origin.2, (h.isSome_leafId? ..).mp (by rw [hi]; rfl), horigin⟩
  · rintro ⟨x, y, hblock, rfl⟩
    obtain ⟨i, hi⟩ := Option.isSome_iff_exists.mp ((h.isSome_leafId? x y).mpr hblock)
    obtain ⟨l, hl, horigin⟩ := h.wellFormed.leaf_of_leafId? hi
    exact ⟨i, l, hl, horigin⟩

theorem origins_eq {blocks' : List (Nat × Nat)} (h : g.Charts blocks) (h' : g'.Charts blocks')
    (hsame : ∀ b, b ∈ blocks' ↔ b ∈ blocks) : g'.origins = g.origins := by
  ext o
  simp only [h.mem_origins, h'.mem_origins, hsame]

end Charts

end Grid

namespace World

/-! ## Histories -/

theorem sameLeaves_detach (w : World) (id : OccupantId) (r : Resident) :
    w.grid.SameLeaves (w.detach id r).grid :=
  (Grid.SameLeaves.refl _).modifyAt _ (by simp [Leaf.leave]) (by simp [Leaf.leave])
    (by simp [Leaf.leave])

theorem sameLeaves_transfer (w : World) (id : OccupantId) (r : Resident) (target : Position) :
    w.grid.SameLeaves (w.transfer id r target).grid := by
  rw [grid_transfer]
  exact ((Grid.SameLeaves.refl _).modifyAt _ (by simp) (by simp) (by simp)).modifyAt _ (by simp)
    (by simp) (by simp)

theorem sameLeaves_clear (p : Position) (ids : List OccupantId) (c : Clearing) :
    c.world.grid.SameLeaves (ids.foldl (sendAway p) c).world.grid := by
  induction ids generalizing c with
  | nil => exact .refl _
  | cons id rest ih =>
      refine Grid.SameLeaves.trans ?_ (ih (sendAway p c id))
      rcases sendAway_cases p c id with ⟨-, h⟩ | ⟨r, -, ⟨target, -, h⟩ | ⟨-, h⟩⟩ <;> rw [h]
      · exact .refl _
      · exact sameLeaves_transfer ..
      · exact sameLeaves_detach ..

theorem sameLeaves_removeCell (w : World) (p : Position) :
    w.grid.SameLeaves (w.removeCell p).world.grid := by
  rcases removeCell_cases w p with ⟨-, h⟩ | ⟨cell, -, ⟨-, h⟩ | ⟨rest, -, h⟩⟩ <;> rw [h]
  · exact .refl _
  · exact sameLeaves_clear p cell.occupants { world := w }
  · exact (sameLeaves_clear p cell.occupants { world := w }).modifyAt p (by simp) (by simp)
      (by simp)

theorem sameLeaves_setCell (w : World) {p : Position} (hz : p.hasValidFloor = true) (c : Cell)
    (policy : StorePolicy) :
    (w.grid.ensureLeaf p.x p.y).2.SameLeaves (w.setCell p c policy).world.grid := by
  unfold setCell
  simp only [hz, Bool.not_true, Bool.false_eq_true, if_false]
  split
  · exact (Grid.SameLeaves.refl _).modifyAt p (by simp) (by simp) (by simp)
  · exact (Grid.SameLeaves.refl _).modifyAt p (by simp) (by simp) (by simp)
  · exact .refl _

/-- An action creates the leaf that it asks for, if any, and changes
contents after that. -/
theorem perform_sameLeaves (w : World) (a : Action) :
    (a.block? = none ∧ w.grid.SameLeaves (w.perform a).1.grid) ∨
    ∃ x y, a.block? = some (blockOf x y) ∧
      (w.grid.ensureLeaf x y).2.SameLeaves (w.perform a).1.grid := by
  cases a with
  | ensureLeaf x y => exact Or.inr ⟨x, y, rfl, .refl _⟩
  | setCell p c policy =>
      cases hz : p.hasValidFloor with
      | true => exact Or.inr ⟨p.x, p.y, by simp [Action.block?, hz], sameLeaves_setCell w hz c policy⟩
      | false =>
          refine Or.inl ⟨by simp [Action.block?, hz], ?_⟩
          show w.grid.SameLeaves (w.setCell p c policy).world.grid
          simp only [setCell, hz, Bool.not_false, if_true]
          exact .refl _
  | removeCell p => exact Or.inl ⟨rfl, sameLeaves_removeCell w p⟩
  | place o p =>
      refine Or.inl ⟨rfl, ?_⟩
      show w.grid.SameLeaves (w.place o p).world.grid
      rcases place_cases w o p with ⟨-, h⟩ | ⟨-, -, h⟩ | ⟨-, h⟩ <;> rw [h]
      · exact .refl _
      · exact .refl _
      · exact (Grid.SameLeaves.refl _).modifyAt p (by simp [Leaf.enter]) (by simp [Leaf.enter])
          (by simp [Leaf.enter])
  | remove id =>
      refine Or.inl ⟨rfl, ?_⟩
      show w.grid.SameLeaves (w.remove id).world.grid
      rcases remove_cases w id with ⟨-, h⟩ | ⟨r, -, h⟩ <;> rw [h]
      · exact .refl _
      · exact sameLeaves_detach w id r
  | move id target force =>
      refine Or.inl ⟨rfl, ?_⟩
      show w.grid.SameLeaves (w.move id target force).world.grid
      rcases move_cases w id target force with
        ⟨-, h⟩ | ⟨-, -, h⟩ | ⟨-, -, -, h⟩ | ⟨r, c, -, -, h⟩ <;> rw [h]
      · exact .refl _
      · exact .refl _
      · exact .refl _
      · exact sameLeaves_transfer ..

theorem charts_perform {w : World} {blocks : List (Nat × Nat)} (h : w.grid.Charts blocks)
    (a : Action) : (w.perform a).1.grid.Charts (blocks ++ a.block?.toList) := by
  rcases w.perform_sameLeaves a with ⟨hnone, hsame⟩ | ⟨x, y, hblock, hsame⟩
  · rw [hnone, Option.toList_none, List.append_nil]
    exact h.of_sameLeaves hsame
  · rw [hblock, Option.toList_some]
    exact (h.ensureLeaf x y).of_sameLeaves hsame

theorem charts_history {w : World} {blocks : List (Nat × Nat)} (h : w.grid.Charts blocks)
    (actions : List Action) :
    (w.run actions).1.grid.Charts (blocks ++ actions.filterMap Action.block?) := by
  induction actions generalizing w blocks with
  | nil =>
      rw [List.filterMap_nil, List.append_nil]
      exact h
  | cons a rest ih =>
      have hrest : (w.run (a :: rest)).1.grid.Charts _ := ih (charts_perform h a)
      rw [List.append_assoc] at hrest
      rw [List.filterMap_cons]
      cases ha : a.block? <;> rw [ha] at hrest <;> exact hrest

theorem charts_run (config : WorldConfig) (actions : List Action) :
    ((empty config).run actions).1.grid.Charts (actions.filterMap Action.block?) :=
  charts_history (w := empty config) Grid.charts_empty actions

/-- After a history, a point has a leaf exactly if its block was named,
and the serial number of the leaf is the place of the block among those
named, in the order of first mention. The points of one block, and they
alone, share a leaf, whose origin is the corner of the block. There are as
many leaves as blocks named. The way down the index ends wherever it leads,
be it to look a leaf up or to plant one. Whoever asks for a leaf gets the one
that is found there afterwards, and to ask for a leaf that exists changes
nothing. -/
theorem index_run (config : WorldConfig) (actions : List Action) :
    let w := ((empty config).run actions).1
    let named := actions.filterMap Action.block?
    let arena := w.grid.index.arena
    (∀ x y entries, 14 ≤ entries →
      arena.descend entries 0 x.toUInt32 y.toUInt32 = some (w.grid.leafId? x y)) ∧
    (∀ x y new,
      (Arena.plant new 15 arena 0 x.toUInt32 y.toUInt32).map (·.1) = some (w.grid.leafId? x y)) ∧
    (∀ x y, (w.leafAt? x y).isSome ↔ ∃ a ∈ actions, a.block? = some (blockOf x y)) ∧
    (∀ x y, w.grid.leafId? x y = named.eraseDups.idxOf? (blockOf x y)) ∧
    (∀ x y i, w.grid.leafId? x y = some i → ∃ l, w.leaf? i = some l ∧ w.leafAt? x y = some l ∧
      l.origin.1.toNat = 8 * (x.toNat / 8) ∧ l.origin.2.toNat = 8 * (y.toNat / 8) ∧
      ∀ x' y', w.grid.leafId? x' y' = some i ↔
        x'.toNat / 8 = x.toNat / 8 ∧ y'.toNat / 8 = y.toNat / 8) ∧
    w.leafCount = named.toFinset.card ∧
    (∀ x y, (w.ensureLeaf x y).2.grid.leafId? x y = some (w.ensureLeaf x y).1) ∧
    ∀ x y i, w.grid.leafId? x y = some i → w.ensureLeaf x y = (i, w) := by
  intro w named arena
  have hcharts : w.grid.Charts named := charts_run config actions
  have hg := hcharts.wellFormed
  refine ⟨fun x y _ => w.grid.index.descend_eq x y, fun x y new => w.grid.index.met_plant new x y,
    fun x y => ?_, hcharts.leafId?, fun x y i hi => ?_, ?_, w.leafId?_ensureLeaf,
    fun x y i hi => ?_⟩
  · rw [leafAt?, hg.leafAt?_isSome_iff, hcharts.isSome_leafId?, List.mem_filterMap]
  · obtain ⟨l, hl, horigin⟩ := hg.leaf_of_leafId? hi
    refine ⟨l, hl, Grid.leafAt?_eq_some_iff.mpr ⟨i, hi, hl⟩, ?_, ?_, fun x' y' => ⟨?_, ?_⟩⟩
    · rw [horigin, toNat_leafOrigin, Nat.mul_comm]
    · rw [horigin, toNat_leafOrigin, Nat.mul_comm]
    · intro hi'
      exact hg.sharesBlock (p := ⟨x', y', 0⟩) (q := ⟨x, y, 0⟩) hi' hi
    · intro hblock
      rw [← hi]
      exact w.grid.leafId?_congr (p := ⟨x', y', 0⟩) (q := ⟨x, y, 0⟩) hblock
  · exact hcharts.size.trans (length_eraseDups named)
  · rw [World.ensureLeaf, Grid.ensureLeaf_of_some hi]

end World

end TileWorld
