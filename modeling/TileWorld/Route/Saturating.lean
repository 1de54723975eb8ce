/-!
# Saturating and checked arithmetic

Sums that stop at the ends of their range where a plain sum would leave
it, and a sum that is refused there.
-/

namespace TileWorld

/-- The sum of two words, or the largest word if the sum is larger. -/
def saturatingAdd (a b : UInt32) : UInt32 :=
  if a.toNat + b.toNat < 4294967296 then a + b else 4294967295

/-- The sum of two words, if it is a word. -/
def checkedAdd (a b : UInt32) : Option UInt32 :=
  if a.toNat + b.toNat < 4294967296 then some (a + b) else none

/-- The integer of the signed 32-bit range nearest to the given one. -/
def saturate (v : Int) : Int :=
  max (-2147483648) (min v 2147483647)

/-- In natural numbers, the sum of words is cut off at the largest word. -/
theorem toNat_saturatingAdd (a b : UInt32) :
    (saturatingAdd a b).toNat = min 4294967295 (a.toNat + b.toNat) := by
  unfold saturatingAdd
  split
  · rw [UInt32.toNat_add]
    omega
  · simp only [UInt32.reduceToNat]
    omega

/-- A sum that is a word is the exact sum. -/
theorem checkedAdd_eq (a b : UInt32) :
    checkedAdd a b =
      if a.toNat + b.toNat < 4294967296 then some (.ofNat (a.toNat + b.toNat)) else none := by
  rw [UInt32.ofNat_add, UInt32.ofNat_toNat, UInt32.ofNat_toNat]
  rfl

/-- Saturation changes no comparison with a coordinate. -/
theorem le_saturate_iff (x : UInt16) (v : Int) : (x.toNat : Int) ≤ saturate v ↔ x.toNat ≤ v := by
  have hx := x.toNat_lt
  unfold saturate
  omega

theorem saturate_le_iff (x : UInt16) (v : Int) : saturate v ≤ x.toNat ↔ v ≤ x.toNat := by
  have hx := x.toNat_lt
  unfold saturate
  omega

end TileWorld
