import TileWorld.Arena.Laws

/-!
# Quadrant trees

A quadrant tree is an arena whose nodes stand for squares of the map, each
in its place. So a look-up has a result (`QuadTree.descend_eq`) and a leaf
can always be planted; neither way out of the arena is ever taken.

The law of the structure is that of planting. Where there is a leaf,
nothing happens (`plant_of_some`). Where there is none, the new leaf is found
at exactly the points of its square of side 8 (`find?_plant`).
-/

namespace TileWorld

structure QuadTree where
  arena : Arena
  wellFormed : ∃ square, arena.Maps square

namespace QuadTree

open Arena

def empty : QuadTree := ⟨.empty, _, maps_empty⟩

theorem isSome_descend (t : QuadTree) (x y : UInt16) :
    (t.arena.descend 14 0 x.toUInt32 y.toUInt32).isSome := by
  obtain ⟨square, hmaps⟩ := t.wellFormed
  obtain ⟨found, hfound, -⟩ := hmaps.descend_eq hmaps.nonempty (hmaps.way_root x y)
    (show 13 < 0 + 14 by decide)
  exact Option.isSome_of_eq_some hfound

/-- Serial number of the leaf over a column and row. -/
def find? (t : QuadTree) (x y : UInt16) : Option LeafId :=
  (t.arena.descend 14 0 x.toUInt32 y.toUInt32).get (t.isSome_descend x y)

theorem find?_eq_some_iff (t : QuadTree) {square : Nat → List (Fin 4)} (h : t.arena.Maps square)
    {x y : UInt16} {id : LeafId} :
    t.find? x y = some id ↔ t.arena.Holds square (quarters x y 13) id := by
  obtain ⟨found, hfound, hiff⟩ := h.descend_eq h.nonempty (h.way_root x y)
    (show 13 < 0 + 14 by decide)
  have hfind : t.find? x y = found := Option.get_of_eq_some _ hfound
  rw [hfind]
  exact hiff id

/-- A look-up ends, however many nodes it may enter beyond those that it
needs. -/
theorem descend_eq (t : QuadTree) (x y : UInt16) {entries : Nat} (h : 14 ≤ entries) :
    t.arena.descend entries 0 x.toUInt32 y.toUInt32 = some (t.find? x y) := by
  obtain ⟨square, hmaps⟩ := t.wellFormed
  obtain ⟨found, hfound, hiff⟩ := hmaps.descend_eq hmaps.nonempty (hmaps.way_root x y)
    (show 13 < 0 + entries by omega)
  have hsame : found = t.find? x y := by
    ext id
    exact (hiff id).trans (t.find?_eq_some_iff hmaps).symm
  exact hfound.trans (congrArg some hsame)

theorem find?_empty (x y : UInt16) : empty.find? x y = none := by
  have hroot : Arena.empty.nodes[0]? = some (.branch (Vector.replicate 4 none)) := rfl
  exact Option.get_of_eq_some _ (descend_missing hroot (get_bare _) 13)

/-- The points of a square of side 8 have the same leaf. -/
theorem find?_congr (t : QuadTree) {x y x' y' : UInt16} (hx : x.toNat / 8 = x'.toNat / 8)
    (hy : y.toNat / 8 = y'.toNat / 8) : t.find? x y = t.find? x' y' := by
  obtain ⟨square, hmaps⟩ := t.wellFormed
  ext id
  rw [t.find?_eq_some_iff hmaps, t.find?_eq_some_iff hmaps,
    quarters_eq_iff_div.mpr ⟨hx, hy⟩]

/-! ## Planting -/

/-- What planting a leaf comes to. -/
theorem plant_cases (t : QuadTree) (new : LeafId) (x y : UInt16) :
    (∃ id, t.find? x y = some id ∧
      Arena.plant new 15 t.arena 0 x.toUInt32 y.toUInt32 = some (some id, t.arena)) ∨
    t.find? x y = none ∧ ∃ a, Arena.plant new 15 t.arena 0 x.toUInt32 y.toUInt32 = some (none, a) ∧
      ∃ square square', t.arena.Maps square ∧ a.Maps square' ∧
        ∀ s id, a.Holds square' s id ↔
          t.arena.Holds square s id ∨ id = new ∧ s = quarters x y 13 := by
  obtain ⟨square, hmaps⟩ := t.wellFormed
  cases h : t.find? x y with
  | some id =>
      have hid := (t.find?_eq_some_iff hmaps).mp h
      exact .inl ⟨id, rfl, hmaps.plant_of_holds new hid hmaps.nonempty (hmaps.way_root x y)
        (show 0 + 15 = 15 from rfl)⟩
  | none =>
      have hfree : ∀ id, ¬ t.arena.Holds square (quarters x y 13) id := by
        intro id hid
        rw [(t.find?_eq_some_iff hmaps).mpr hid] at h
        cases h
      obtain ⟨a, square', hplant, hmaps', hholds⟩ :=
        hmaps.plant_of_free new hfree hmaps.nonempty (hmaps.way_root x y)
          (show 0 + 15 = 15 from rfl)
      exact .inr ⟨rfl, a, hplant, square, square', hmaps, hmaps', hholds⟩

/-- The levels counted down to plant a leaf are those that a look-up goes
down without counting: both meet the same leaf. -/
theorem met_plant (t : QuadTree) (new : LeafId) (x y : UInt16) :
    (Arena.plant new 15 t.arena 0 x.toUInt32 y.toUInt32).map (·.1) = some (t.find? x y) := by
  rcases t.plant_cases new x y with ⟨id, hid, h⟩ | ⟨hnone, a, h, -⟩
  · rw [h, hid]
    rfl
  · rw [h, hnone]
    rfl

theorem isSome_plant (t : QuadTree) (new : LeafId) (x y : UInt16) :
    (Arena.plant new 15 t.arena 0 x.toUInt32 y.toUInt32).isSome := by
  rw [← Option.isSome_map, t.met_plant]
  rfl

theorem wellFormed_plant (t : QuadTree) (new : LeafId) (x y : UInt16) :
    ∃ square, ((Arena.plant new 15 t.arena 0 x.toUInt32 y.toUInt32).get
      (t.isSome_plant new x y)).2.Maps square := by
  rcases t.plant_cases new x y with ⟨id, -, h⟩ | ⟨-, a, h, -, square, -, hmaps, -⟩
  · obtain ⟨square, hmaps⟩ := t.wellFormed
    exact ⟨square, by rw [Option.get_of_eq_some _ h]; exact hmaps⟩
  · exact ⟨square, by rw [Option.get_of_eq_some _ h]; exact hmaps⟩

/-- Plants a leaf with a given number over a column and row, unless there is
one. The answer is the leaf that was there, if any, and the tree. -/
def plant (t : QuadTree) (new : LeafId) (x y : UInt16) : Option LeafId × QuadTree :=
  let planted := (Arena.plant new 15 t.arena 0 x.toUInt32 y.toUInt32).get (t.isSome_plant new x y)
  (planted.1, ⟨planted.2, t.wellFormed_plant new x y⟩)

theorem plant_of_some (t : QuadTree) (new : LeafId) {x y : UInt16} {id : LeafId}
    (h : t.find? x y = some id) : t.plant new x y = (some id, t) := by
  rcases t.plant_cases new x y with ⟨id', hid', hplant⟩ | ⟨hnone, -⟩
  · obtain rfl := Option.some.inj (h.symm.trans hid')
    simp only [plant, Option.get_of_eq_some _ hplant]
  · rw [h] at hnone
    cases hnone

theorem fst_plant (t : QuadTree) (new : LeafId) (x y : UInt16) :
    (t.plant new x y).1 = t.find? x y := by
  rcases t.plant_cases new x y with ⟨id, hid, hplant⟩ | ⟨hnone, a, hplant, -⟩
  · simp only [plant, Option.get_of_eq_some _ hplant, hid]
  · simp only [plant, Option.get_of_eq_some _ hplant, hnone]

/-- A new leaf is found at the points of its square, and every other point
keeps the leaf that it had. -/
theorem find?_plant (t : QuadTree) (new : LeafId) {x y : UInt16} (h : t.find? x y = none)
    (a b : UInt16) : (t.plant new x y).2.find? a b =
      if a.toNat / 8 = x.toNat / 8 ∧ b.toNat / 8 = y.toNat / 8 then some new
      else t.find? a b := by
  rcases t.plant_cases new x y with
    ⟨id, hid, -⟩ | ⟨-, arena, hplant, square, square', hmaps, hmaps', hholds⟩
  · rw [h] at hid
    cases hid
  have harena : (t.plant new x y).2.arena = arena := by
    simp only [plant, Option.get_of_eq_some _ hplant]
  rw [← harena] at hmaps' hholds
  have hway : quarters a b 13 = quarters x y 13 ↔
      a.toNat / 8 = x.toNat / 8 ∧ b.toNat / 8 = y.toNat / 8 := quarters_eq_iff_div
  ext id
  rw [find?_eq_some_iff _ hmaps', hholds, hway]
  split
  · rename_i hblock
    rw [← t.find?_eq_some_iff hmaps, t.find?_congr hblock.1 hblock.2, h]
    simp [hblock, eq_comm]
  · rename_i hblock
    rw [← t.find?_eq_some_iff hmaps]
    simp [hblock]

end QuadTree

end TileWorld
