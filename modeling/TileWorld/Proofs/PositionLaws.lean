import TileWorld.Position

/-!
# Laws of positions

A coordinate is an integer that lies on the map, and an offset or a step
is a sum of integers that leads nowhere if it leaves the map. Floors are
compared as numbers.
-/

namespace TileWorld

theorem coordinate?_eq_some_iff {v : Int} {c : UInt16} :
    coordinate? v = some c ↔ v = c.toNat := by
  have hc := c.toNat_lt
  unfold coordinate?
  constructor
  · intro h
    split at h
    · obtain rfl := Option.some.inj h
      rw [UInt16.toNat_ofNat']
      omega
    · cases h
  · rintro rfl
    rw [if_pos (by omega), Int.toNat_natCast, UInt16.ofNat_toNat]

theorem coordinate?_toNat (c : UInt16) : coordinate? c.toNat = some c :=
  coordinate?_eq_some_iff.mpr rfl

namespace Position

theorem hasValidFloor_iff {p : Position} : p.hasValidFloor = true ↔ p.z.toNat < 16 := by
  unfold Position.hasValidFloor
  rw [decide_eq_true_iff, UInt8.le_iff_toNat_le, show lastFloor.toNat = 15 from rfl]
  omega

theorem isUnderground_iff {p : Position} : p.isUnderground = true ↔ 7 < p.z.toNat := by
  rw [isUnderground, decide_eq_true_iff, UInt8.lt_iff_toNat_lt]
  rfl

theorem offset?_eq_some_iff {p q : Position} {dx dy : Int} :
    p.offset? dx dy = some q ↔
      (q.x.toNat : Int) = p.x.toNat + dx ∧ (q.y.toNat : Int) = p.y.toNat + dy ∧ q.z = p.z := by
  simp only [offset?, Option.bind_eq_bind, Option.bind_eq_some_iff, Option.pure_def,
    Option.some.injEq, coordinate?_eq_some_iff]
  constructor
  · rintro ⟨x, hx, y, hy, rfl⟩
    exact ⟨hx.symm, hy.symm, rfl⟩
  · rintro ⟨hx, hy, hz⟩
    refine ⟨q.x, hx.symm, q.y, hy.symm, ?_⟩
    rw [← hz]

theorem step?_eq_some_iff {p q : Position} {d : Direction} :
    p.step? d = some q ↔ (q.x.toNat : Int) = p.x.toNat + d.offset.1 ∧
      (q.y.toNat : Int) = p.y.toNat + d.offset.2 ∧ q.z = p.z :=
  offset?_eq_some_iff

end Position

end TileWorld
