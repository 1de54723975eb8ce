import Mathlib.Data.List.Nodup
import TileWorld.Leaf

/-!
# Laws of leaves

How a leaf answers for its cells and its lists after one change.
`Leaf.cell?_put` and `Leaf.cell?_modifyCell` say which positions notice a
changed slot, and `Leaf.dropId_perm` that a leaver's place in a list is
filled without losing or repeating anybody. Two coordinates lie in one
block of the map if they agree after division by eight, and `leafOrigin`
tells exactly the blocks apart (`leafOrigin_eq_iff`).
-/

namespace TileWorld

/-! ## Blocks -/

theorem toNat_leafOrigin (v : UInt16) : (leafOrigin v).toNat = v.toNat / 8 * 8 := by
  unfold leafOrigin
  have hle : v % 8 ≤ v := by
    rw [UInt16.le_iff_toNat_le, UInt16.toNat_mod]
    exact Nat.mod_le _ _
  rw [UInt16.toNat_sub_of_le _ _ hle, UInt16.toNat_mod]
  simp only [UInt16.reduceToNat]
  omega

theorem leafOrigin_eq_iff {v w : UInt16} :
    leafOrigin v = leafOrigin w ↔ v.toNat / 8 = w.toNat / 8 := by
  rw [← UInt16.toNat_inj, toNat_leafOrigin, toNat_leafOrigin]
  omega

theorem toNat_leafOrigin_div (v : UInt16) : (leafOrigin v).toNat / 8 = v.toNat / 8 := by
  rw [toNat_leafOrigin]
  omega

namespace Position

/-- Both positions lie in one block of the map, on whatever floors. -/
def SharesBlock (p q : Position) : Prop :=
  p.x.toNat / 8 = q.x.toNat / 8 ∧ p.y.toNat / 8 = q.y.toNat / 8

instance (p q : Position) : Decidable (p.SharesBlock q) :=
  inferInstanceAs (Decidable (_ ∧ _))

theorem SharesBlock.refl (p : Position) : p.SharesBlock p := ⟨rfl, rfl⟩

/-- Block, slot and floor determine a position. -/
theorem eq_of_sharesBlock {p q : Position} (h : p.SharesBlock q)
    (hslot : Floor.slot p = Floor.slot q) (hz : p.z = q.z) : p = q := by
  obtain ⟨px, py, pz⟩ := p
  obtain ⟨qx, qy, qz⟩ := q
  obtain ⟨hx, hy⟩ := h
  simp only [Floor.slot, Fin.mk.injEq] at hx hy hslot
  have ex : px = qx := UInt16.toNat_inj.1 (by omega)
  have ey : py = qy := UInt16.toNat_inj.1 (by omega)
  obtain rfl : pz = qz := hz
  rw [ex, ey]

end Position

/-! ## Cells of a leaf -/

namespace Floor

theorem cell?_put (f : Floor) (p : Position) (c : Option Cell) (q : Position) :
    (f.put p c).cell? q = if slot q = slot p then c else f.cell? q := by
  simp only [put, cell?, Fin.getElem_fin, Vector.getElem_set, Fin.ext_iff, eq_comm]

theorem cell?_bare (q : Position) : bare.cell? q = none := by
  simp [bare, cell?]

end Floor

namespace Leaf

theorem cell?_of_floor {l : Leaf} {q : Position} (hz : q.z.toNat < 16) :
    l.cell? q = (l.floors[q.z.toNat]).bind (·.cell? q) := by
  unfold cell?
  rw [Vector.getElem?_eq_getElem hz]
  cases l.floors[q.z.toNat] <;> rfl

theorem cell?_eq_none_of_floor {l : Leaf} {q : Position} (hz : ¬ q.z.toNat < 16) :
    l.cell? q = none := by
  unfold cell?
  rw [Vector.getElem?_eq_none (Nat.le_of_not_lt hz)]

theorem floor_lt_of_cell? {l : Leaf} {q : Position} {c : Cell} (h : l.cell? q = some c) :
    q.z.toNat < 16 := by
  by_contra hz
  rw [cell?_eq_none_of_floor hz] at h
  cases h

theorem cell?_put (l : Leaf) (p : Position) (c : Option Cell) (q : Position) :
    (l.put p c).cell? q =
      if p.z.toNat < 16 ∧ q.z = p.z ∧ Floor.slot q = Floor.slot p then c else l.cell? q := by
  unfold put
  split
  · rename_i hz
    by_cases h : q.z = p.z
    · have hq : q.z.toNat < 16 := h ▸ hz
      rw [cell?_of_floor hq, cell?_of_floor hq]
      simp only [h, hz, true_and, Vector.getElem_set_self, Option.bind_some, Floor.cell?_put]
      refine if_congr Iff.rfl rfl ?_
      cases l.floors[p.z.toNat] with
      | none => exact Floor.cell?_bare q
      | some floor => rfl
    · have hne : p.z.toNat ≠ q.z.toNat := fun e => h (UInt8.toNat_inj.1 e.symm)
      rw [if_neg (fun hc => h hc.2.1)]
      simp only [cell?, Vector.getElem?_set_ne hz hne]
  · rename_i hz
    rw [if_neg (fun hc => hz hc.1)]

theorem cell?_modifyCell (l : Leaf) (p : Position) (f : Cell → Cell) (q : Position) :
    (l.modifyCell p f).cell? q =
      if q.z = p.z ∧ Floor.slot q = Floor.slot p then (l.cell? q).map f else l.cell? q := by
  unfold modifyCell
  -- a slot is shared by the positions of one floor that agree in it
  have hsame : q.z = p.z ∧ Floor.slot q = Floor.slot p → l.cell? q = l.cell? p := by
    rintro ⟨hz, hslot⟩
    by_cases hp : p.z.toNat < 16
    · rw [cell?_of_floor hp, cell?_of_floor (hz ▸ hp)]
      simp only [Floor.cell?, hz, hslot]
    · rw [cell?_eq_none_of_floor hp, cell?_eq_none_of_floor (hz ▸ hp)]
  cases hc : l.cell? p with
  | none =>
      show l.cell? q = _
      split
      · rename_i h
        rw [hsame h, hc, Option.map_none]
      · rfl
  | some c =>
      show (l.put p (some (f c))).cell? q = _
      rw [cell?_put]
      simp only [floor_lt_of_cell? hc, true_and]
      split
      · rename_i h
        rw [hsame h, hc, Option.map_some]
      · rfl

/-! ### What a changed cell leaves alone -/

@[simp] theorem origin_put (l : Leaf) (p : Position) (c : Option Cell) :
    (l.put p c).origin = l.origin := by
  unfold put
  split <;> rfl

@[simp] theorem occupants_put (l : Leaf) (p : Position) (c : Option Cell) :
    (l.put p c).occupants = l.occupants := by
  unfold put
  split <;> rfl

@[simp] theorem players_put (l : Leaf) (p : Position) (c : Option Cell) :
    (l.put p c).players = l.players := by
  unfold put
  split <;> rfl

@[simp] theorem south_put (l : Leaf) (p : Position) (c : Option Cell) :
    (l.put p c).south = l.south := by
  unfold put
  split <;> rfl

@[simp] theorem east_put (l : Leaf) (p : Position) (c : Option Cell) :
    (l.put p c).east = l.east := by
  unfold put
  split <;> rfl

/-- A changed cell is a slot filled anew, or nothing happens. -/
theorem modifyCell_eq_put (l : Leaf) (p : Position) (f : Cell → Cell) :
    l.modifyCell p f = l ∨ ∃ c, l.modifyCell p f = l.put p (some c) := by
  unfold modifyCell
  cases l.cell? p with
  | none => exact Or.inl rfl
  | some c => exact Or.inr ⟨f c, rfl⟩

@[simp] theorem origin_modifyCell (l : Leaf) (p : Position) (f : Cell → Cell) :
    (l.modifyCell p f).origin = l.origin := by
  rcases l.modifyCell_eq_put p f with h | ⟨c, h⟩ <;> simp [h]

@[simp] theorem occupants_modifyCell (l : Leaf) (p : Position) (f : Cell → Cell) :
    (l.modifyCell p f).occupants = l.occupants := by
  rcases l.modifyCell_eq_put p f with h | ⟨c, h⟩ <;> simp [h]

@[simp] theorem players_modifyCell (l : Leaf) (p : Position) (f : Cell → Cell) :
    (l.modifyCell p f).players = l.players := by
  rcases l.modifyCell_eq_put p f with h | ⟨c, h⟩ <;> simp [h]

@[simp] theorem south_modifyCell (l : Leaf) (p : Position) (f : Cell → Cell) :
    (l.modifyCell p f).south = l.south := by
  rcases l.modifyCell_eq_put p f with h | ⟨c, h⟩ <;> simp [h]

@[simp] theorem east_modifyCell (l : Leaf) (p : Position) (f : Cell → Cell) :
    (l.modifyCell p f).east = l.east := by
  rcases l.modifyCell_eq_put p f with h | ⟨c, h⟩ <;> simp [h]

@[simp] theorem cell?_enter (l : Leaf) (id : OccupantId) (isPlayer : Bool) (q : Position) :
    (l.enter id isPlayer).cell? q = l.cell? q := rfl

@[simp] theorem cell?_leave (l : Leaf) (id : OccupantId) (isPlayer : Bool) (q : Position) :
    (l.leave id isPlayer).cell? q = l.cell? q := rfl

/-! ## Lists of a leaf -/

theorem idxOf?_append_cons {id : OccupantId} {before after : List OccupantId}
    (h : id ∉ before) : (before ++ id :: after).idxOf? id = some before.length := by
  rw [List.idxOf?_eq_some_iff]
  refine ⟨by simp, by simp, ?_⟩
  intro j hj heq
  rw [List.getElem_append_left hj] at heq
  exact h (heq ▸ List.getElem_mem hj)

/-- Moving the last entry into the place of a leaver takes out exactly the
leaver. -/
theorem dropId_perm {id : OccupantId} {ids : List OccupantId} (h : id ∈ ids) :
    (dropId id ids).Perm (ids.erase id) := by
  obtain ⟨before, after, rfl, hid⟩ := List.eq_append_cons_of_mem h
  rw [List.erase_append_right _ hid, List.erase_cons_head]
  unfold dropId
  rw [idxOf?_append_cons hid]
  rcases List.eq_nil_or_concat after with rfl | ⟨inner, last, rfl⟩
  · simp
  · rw [List.concat_eq_append]
    have hlast : (before ++ id :: (inner ++ [last])).getLast? = some last := by
      simp [List.getLast?_append, List.getLast?_cons]
    have hset : (before ++ id :: (inner ++ [last])).set before.length last
        = (before ++ last :: inner) ++ [last] := by
      rw [List.set_append_right _ _ (Nat.le_refl _), Nat.sub_self, List.set_cons_zero]
      simp
    simp only [hlast, hset, List.dropLast_concat]
    exact (List.perm_append_singleton last inner).symm.append_left before

theorem dropId_of_not_mem {id : OccupantId} {ids : List OccupantId} (h : id ∉ ids) :
    dropId id ids = ids := by
  unfold dropId
  rw [List.idxOf?_eq_none_iff.2 h]

end Leaf

end TileWorld
