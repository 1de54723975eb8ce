import Mathlib.Logic.Function.Basic
import TileWorld.Proofs.GridCells
import TileWorld.World.Basic

/-!
# Bookkeeping of occupants

Cells and leaves list the occupants that the register knows. The list of a
cell `Names` exactly those registered at its position (`CellsAgree`), and
the two lists of a leaf name exactly those registered in its block and the
players among them (`LeavesAgree`). The two halves are kept apart, since a
way within one block changes the lists of cells only.

A register is a function here, so that a registration and its cancellation
are `Function.update`s.
-/

namespace TileWorld

/-! ## Lists without repetition -/

/-- The list names exactly the occupants with a property, each once. -/
structure Names (ids : List OccupantId) (P : OccupantId → Prop) : Prop where
  nodup : ids.Nodup
  mem_iff : ∀ id, id ∈ ids ↔ P id

namespace Names

variable {ids : List OccupantId} {P Q : OccupantId → Prop} {id : OccupantId}

theorem congr (h : Names ids P) (hPQ : ∀ i, P i ↔ Q i) : Names ids Q :=
  ⟨h.nodup, fun i => (h.mem_iff i).trans (hPQ i)⟩

theorem nil (h : ∀ i, ¬ P i) : Names [] P :=
  ⟨List.nodup_nil, fun i => ⟨fun hi => absurd hi List.not_mem_nil, fun hP => absurd hP (h i)⟩⟩

theorem count_eq_one (h : Names ids P) (hP : P id) : ids.count id = 1 :=
  List.count_eq_one_of_mem h.nodup ((h.mem_iff id).mpr hP)

theorem count_eq_zero (h : Names ids P) (hP : ¬ P id) : ids.count id = 0 :=
  List.count_eq_zero.mpr (fun hmem => hP ((h.mem_iff id).mp hmem))

theorem append (h : Names ids P) (hP : ¬ P id) :
    Names (ids ++ [id]) (fun i => P i ∨ i = id) := by
  refine ⟨?_, fun i => ?_⟩
  · rw [List.nodup_append]
    refine ⟨h.nodup, List.nodup_singleton id, ?_⟩
    rintro a ha b hb rfl
    rw [List.mem_singleton.mp hb] at ha
    exact hP ((h.mem_iff id).mp ha)
  · rw [List.mem_append, List.mem_singleton, h.mem_iff]

theorem erase (h : Names ids P) : Names (ids.erase id) (fun i => P i ∧ i ≠ id) := by
  refine ⟨h.nodup.erase id, fun i => ?_⟩
  rw [h.nodup.mem_erase_iff, h.mem_iff, and_comm]

theorem dropId (h : Names ids P) : Names (Leaf.dropId id ids) (fun i => P i ∧ i ≠ id) := by
  by_cases hid : id ∈ ids
  · have hperm := Leaf.dropId_perm hid
    exact ⟨hperm.nodup_iff.mpr h.erase.nodup,
      fun i => hperm.mem_iff.trans (h.erase.mem_iff i)⟩
  · rw [Leaf.dropId_of_not_mem hid]
    refine h.congr fun i => ⟨fun hi => ⟨hi, ?_⟩, And.left⟩
    rintro rfl
    exact hid ((h.mem_iff i).mpr hi)

end Names

/-! ## Registers -/

/-- What is known about each occupant, for those that are registered. -/
abbrev Register := OccupantId → Option Resident

namespace Register

/-- The occupant is registered with an entry of the given kind. -/
def Has (reg : Register) (Q : Resident → Prop) (id : OccupantId) : Prop :=
  ∃ r, reg id = some r ∧ Q r

/-- The register with one more entry, or with an entry replaced. -/
def enroll (reg : Register) (id : OccupantId) (r : Resident) : Register :=
  Function.update reg id (some r)

def strike (reg : Register) (id : OccupantId) : Register :=
  Function.update reg id none

variable {reg : Register} {Q : Resident → Prop} {id i : OccupantId} {r : Resident}

@[simp] theorem enroll_self : reg.enroll id r id = some r := Function.update_self ..

theorem enroll_of_ne (h : i ≠ id) : reg.enroll id r i = reg i := Function.update_of_ne h ..

@[simp] theorem strike_self : reg.strike id id = none := Function.update_self ..

theorem strike_of_ne (h : i ≠ id) : reg.strike id i = reg i := Function.update_of_ne h ..

@[simp] theorem enroll_strike : (reg.strike id).enroll id r = reg.enroll id r :=
  Function.update_idem ..

theorem has_enroll_iff (hfresh : reg id = none) :
    (reg.enroll id r).Has Q i ↔ reg.Has Q i ∨ i = id ∧ Q r := by
  by_cases hi : i = id
  · subst hi
    simp [Has, hfresh]
  · simp [Has, enroll_of_ne hi, hi]

theorem has_strike_iff : (reg.strike id).Has Q i ↔ reg.Has Q i ∧ i ≠ id := by
  by_cases hi : i = id
  · subst hi
    simp [Has]
  · simp [Has, strike_of_ne hi, hi]

theorem has_enroll_iff_of_not {r₀ : Resident} (hr₀ : reg id = some r₀) (hQ : Q r ↔ Q r₀) :
    (reg.enroll id r).Has Q i ↔ reg.Has Q i := by
  by_cases hi : i = id
  · subst hi
    simp [Has, hr₀, hQ]
  · simp [Has, enroll_of_ne hi]

end Register

namespace Names

variable {ids : List OccupantId} {reg : Register} {Q : Resident → Prop} {id : OccupantId}
  {r : Resident}

/-- A newcomer of the kind listed is added to the list. -/
theorem enroll (h : Names ids (reg.Has Q)) (hfresh : reg id = none) (hQ : Q r) :
    Names (ids ++ [id]) ((reg.enroll id r).Has Q) := by
  have hnew : ¬ reg.Has Q id := by
    rintro ⟨r', hr', -⟩
    rw [hfresh] at hr'
    cases hr'
  refine (h.append hnew).congr fun i => ?_
  rw [Register.has_enroll_iff hfresh]
  simp [hQ]

theorem enroll_of_not (h : Names ids (reg.Has Q)) (hfresh : reg id = none) (hQ : ¬ Q r) :
    Names ids ((reg.enroll id r).Has Q) := by
  refine h.congr fun i => ?_
  rw [Register.has_enroll_iff hfresh]
  simp [hQ]

/-- Who leaves the register is taken out of a list that keeps its order. -/
theorem strike (h : Names ids (reg.Has Q)) : Names (ids.erase id) ((reg.strike id).Has Q) :=
  h.erase.congr fun _ => Register.has_strike_iff.symm

/-- Who leaves the register is taken out of a list that fills the gap. -/
theorem strike_dropId (h : Names ids (reg.Has Q)) :
    Names (Leaf.dropId id ids) ((reg.strike id).Has Q) :=
  h.dropId.congr fun _ => Register.has_strike_iff.symm

theorem strike_of_not (h : Names ids (reg.Has Q)) (hr : reg id = some r) (hQ : ¬ Q r) :
    Names ids ((reg.strike id).Has Q) := by
  refine h.congr fun i => ?_
  rw [Register.has_strike_iff]
  refine ⟨fun hi => ⟨hi, ?_⟩, And.left⟩
  rintro rfl
  obtain ⟨r', hr', hQ'⟩ := hi
  obtain rfl := Option.some.inj (hr.symm.trans hr')
  exact hQ hQ'

end Names

/-! ## Agreement with a register -/

namespace Grid

/-- The list of every cell names those registered at its position, and
everybody is registered at a position that has a cell. -/
structure CellsAgree (g : Grid) (reg : Register) : Prop where
  names : ∀ p c, g.cell? p = some c → Names c.occupants (reg.Has (·.position = p))
  stands : ∀ id r, reg id = some r → (g.cell? r.position).isSome

/-- The entry is that of somebody in the block of a leaf. -/
def Houses (g : Grid) (i : LeafId) (r : Resident) : Prop :=
  g.leafId? r.position.x r.position.y = some i

/-- The lists of every leaf name those registered in its block, and the
players among them. -/
structure LeavesAgree (g : Grid) (reg : Register) : Prop where
  occupants : ∀ (i : LeafId) (l : Leaf), g.leaves[i]? = some l →
    Names l.occupants (reg.Has (g.Houses i))
  players : ∀ (i : LeafId) (l : Leaf), g.leaves[i]? = some l →
    Names l.players (reg.Has fun r => g.Houses i r ∧ r.occupant.isPlayer = true)

variable {g g' : Grid} {reg : Register} {id : OccupantId} {r : Resident}

/-! ### Cells -/

/-- An occupant that nobody knows arrives on a cell and is registered. -/
theorem CellsAgree.arrive (h : g.CellsAgree reg) (hfresh : reg id = none)
    (hcell : (g.cell? r.position).isSome)
    (hg' : ∀ q, g'.cell? q =
      if q = r.position then (g.cell? r.position).map (·.arrive id) else g.cell? q) :
    g'.CellsAgree (reg.enroll id r) := by
  refine ⟨?_, ?_⟩
  · intro p c' hc'
    rw [hg'] at hc'
    split at hc'
    · rename_i hp
      subst hp
      obtain ⟨c, hc, rfl⟩ := Option.map_eq_some_iff.mp hc'
      exact (h.names _ c hc).enroll hfresh rfl
    · rename_i hp
      exact (h.names p c' hc').enroll_of_not hfresh (Ne.symm hp)
  · have hstay : ∀ q, (g.cell? q).isSome → (g'.cell? q).isSome := by
      intro q hq
      rw [hg']
      split
      · rw [Option.isSome_map]
        exact hcell
      · exact hq
    intro i r' hr'
    by_cases hi : i = id
    · subst hi
      rw [Register.enroll_self] at hr'
      obtain rfl := Option.some.inj hr'
      exact hstay _ hcell
    · rw [Register.enroll_of_ne hi] at hr'
      exact hstay _ (h.stands i r' hr')

/-- A registered occupant departs from its cell and is forgotten. -/
theorem CellsAgree.depart (h : g.CellsAgree reg) (hr : reg id = some r)
    (hg' : ∀ q, g'.cell? q =
      if q = r.position then (g.cell? r.position).map (·.depart id) else g.cell? q) :
    g'.CellsAgree (reg.strike id) := by
  refine ⟨?_, ?_⟩
  · intro p c' hc'
    rw [hg'] at hc'
    split at hc'
    · rename_i hp
      subst hp
      obtain ⟨c, hc, rfl⟩ := Option.map_eq_some_iff.mp hc'
      exact (h.names _ c hc).strike
    · rename_i hp
      exact (h.names p c' hc').strike_of_not hr (Ne.symm hp)
  · intro i r' hr'
    have hi : i ≠ id := by
      rintro rfl
      rw [Register.strike_self] at hr'
      cases hr'
    rw [Register.strike_of_ne hi] at hr'
    have hcell := h.stands i r' hr'
    rw [hg']
    split
    · rename_i hp
      rw [Option.isSome_map, ← hp]
      exact hcell
    · exact hcell

/-- Cells may change or come into being as long as nobody is listed anew. -/
theorem CellsAgree.of_cells (h : g.CellsAgree reg)
    (hkeep : ∀ p, (g.cell? p).isSome → (g'.cell? p).isSome)
    (hlist : ∀ p c', g'.cell? p = some c' →
      (∃ c, g.cell? p = some c ∧ c'.occupants = c.occupants) ∨
        g.cell? p = none ∧ c'.occupants = []) :
    g'.CellsAgree reg := by
  refine ⟨?_, fun id r hr => hkeep _ (h.stands id r hr)⟩
  intro p c' hc'
  rcases hlist p c' hc' with ⟨c, hc, ho⟩ | ⟨hnone, ho⟩
  · rw [ho]
    exact h.names p c hc
  · rw [ho]
    refine Names.nil ?_
    rintro i ⟨r, hr, rfl⟩
    have hs := h.stands i r hr
    rw [hnone] at hs
    cases hs

theorem CellsAgree.removeCell (h : g.CellsAgree reg) {p : Position}
    (hbare : ∀ i r, reg i = some r → r.position ≠ p)
    (hg' : ∀ q, g'.cell? q = if q = p then none else g.cell? q) : g'.CellsAgree reg := by
  refine ⟨?_, ?_⟩
  · intro q c' hc'
    rw [hg'] at hc'
    split at hc'
    · cases hc'
    · exact h.names q c' hc'
  · intro i r hr
    rw [hg', if_neg (hbare i r hr)]
    exact h.stands i r hr

/-! ### Leaves -/

@[simp] theorem houses_modifyAt (g : Grid) (p : Position) (f : Leaf → Leaf) (i : LeafId) :
    (g.modifyAt p f).Houses i = g.Houses i := by
  funext r
  unfold Houses
  rw [leafId?_modifyAt]

/-- An occupant that nobody knows enters a leaf and is registered. -/
theorem LeavesAgree.enter (h : g.LeavesAgree reg) (hfresh : reg id = none) {f : Leaf → Leaf}
    (hf : ∀ l, (f l).occupants = (l.enter id r.occupant.isPlayer).occupants ∧
      (f l).players = (l.enter id r.occupant.isPlayer).players) :
    (g.modifyAt r.position f).LeavesAgree (reg.enroll id r) := by
  constructor
  case occupants =>
    intro i l' hl'
    rw [houses_modifyAt]
    obtain ⟨l, hl, ⟨hi, rfl⟩ | ⟨hi, rfl⟩⟩ := modifyAt_cases hl'
    · rw [(hf l).1]
      exact (h.occupants i l hl).enroll hfresh hi
    · exact (h.occupants i _ hl).enroll_of_not hfresh hi
  case players =>
    intro i l' hl'
    rw [houses_modifyAt]
    obtain ⟨l, hl, ⟨hi, rfl⟩ | ⟨hi, rfl⟩⟩ := modifyAt_cases hl'
    · rw [(hf l).2]
      unfold Leaf.enter
      cases hplayer : r.occupant.isPlayer with
      | true => exact (h.players i l hl).enroll hfresh ⟨hi, hplayer⟩
      | false => exact (h.players i l hl).enroll_of_not hfresh (by simp [hplayer])
    · exact (h.players i _ hl).enroll_of_not hfresh (fun hq => hi hq.1)

/-- A registered occupant leaves its leaf and is forgotten. -/
theorem LeavesAgree.leave (h : g.LeavesAgree reg) (hr : reg id = some r) {f : Leaf → Leaf}
    (hf : ∀ l, (f l).occupants = (l.leave id r.occupant.isPlayer).occupants ∧
      (f l).players = (l.leave id r.occupant.isPlayer).players) :
    (g.modifyAt r.position f).LeavesAgree (reg.strike id) := by
  constructor
  case occupants =>
    intro i l' hl'
    rw [houses_modifyAt]
    obtain ⟨l, hl, ⟨hi, rfl⟩ | ⟨hi, rfl⟩⟩ := modifyAt_cases hl'
    · rw [(hf l).1]
      exact (h.occupants i l hl).strike_dropId
    · exact (h.occupants i _ hl).strike_of_not hr hi
  case players =>
    intro i l' hl'
    rw [houses_modifyAt]
    obtain ⟨l, hl, ⟨hi, rfl⟩ | ⟨hi, rfl⟩⟩ := modifyAt_cases hl'
    · rw [(hf l).2]
      unfold Leaf.leave
      cases hplayer : r.occupant.isPlayer with
      | true => exact (h.players i l hl).strike_dropId
      | false => exact (h.players i l hl).strike_of_not hr (by simp [hplayer])
    · exact (h.players i _ hl).strike_of_not hr (fun hq => hi hq.1)

theorem LeavesAgree.modifyAt (h : g.LeavesAgree reg) (p : Position) {f : Leaf → Leaf}
    (hf : ∀ l, (f l).occupants = l.occupants ∧ (f l).players = l.players) :
    (g.modifyAt p f).LeavesAgree reg := by
  constructor
  case occupants =>
    intro i l' hl'
    rw [houses_modifyAt]
    obtain ⟨l, hl, ⟨-, rfl⟩ | ⟨-, rfl⟩⟩ := modifyAt_cases hl'
    · rw [(hf l).1]
      exact h.occupants i l hl
    · exact h.occupants i _ hl
  case players =>
    intro i l' hl'
    rw [houses_modifyAt]
    obtain ⟨l, hl, ⟨-, rfl⟩ | ⟨-, rfl⟩⟩ := modifyAt_cases hl'
    · rw [(hf l).2]
      exact h.players i l hl
    · exact h.players i _ hl

/-- An entry may change as long as the occupant stays in its block and
keeps its capabilities. -/
theorem LeavesAgree.reenroll (h : g.LeavesAgree reg) {r₀ : Resident} (hr₀ : reg id = some r₀)
    (hoccupant : r.occupant = r₀.occupant)
    (hleaf : g.leafId? r.position.x r.position.y = g.leafId? r₀.position.x r₀.position.y) :
    g.LeavesAgree (reg.enroll id r) := by
  have hhouses : ∀ i, g.Houses i r ↔ g.Houses i r₀ := by
    intro i
    unfold Houses
    rw [hleaf]
  constructor <;> intro i l hl
  · exact (h.occupants i l hl).congr fun _ =>
      (Register.has_enroll_iff_of_not hr₀ (hhouses i)).symm
  · exact (h.players i l hl).congr fun _ =>
      (Register.has_enroll_iff_of_not hr₀ (by rw [hhouses, hoccupant])).symm

/-- A new leaf lists nobody, and nobody stood in its block. -/
theorem LeavesAgree.enlarged (h : g.LeavesAgree reg) (hg : g.WellFormed)
    (hcells : g.CellsAgree reg) {x y : UInt16} (hfree : g.leafId? x y = none) :
    (g.enlarged x y).LeavesAgree reg := by
  -- everybody registered stands in a block that had a leaf before
  have hhouses : ∀ j r i, reg j = some r → ((g.enlarged x y).Houses i r ↔ g.Houses i r) := by
    intro j r i hr
    obtain ⟨c, hc⟩ := Option.isSome_iff_exists.mp (hcells.stands j r hr)
    obtain ⟨l, hl, -⟩ := cell?_eq_some_iff.mp hc
    obtain ⟨k, hk, -⟩ := leafAt?_eq_some_iff.mp hl
    unfold Houses
    rw [leafId?_enlarged hfree, if_neg]
    intro hblock
    rw [g.leafId?_congr (q := ⟨x, y, 0⟩) hblock, hfree] at hk
    cases hk
  have hnobody : ∀ j r, reg j = some r → ¬ (g.enlarged x y).Houses g.leaves.size r := by
    intro j r hr hh
    obtain ⟨l, hl, -⟩ := hg.leaf_of_leafId? ((hhouses j r _ hr).mp hh)
    simp at hl
  constructor
  case occupants =>
    intro i l' hl'
    rcases enlarged_cases hfree hl' with ⟨rfl, rfl⟩ | ⟨l, hl, rfl⟩
    · exact Names.nil fun j ⟨r, hr, hq⟩ => hnobody j r hr hq
    · exact (h.occupants i l hl).congr fun j =>
        exists_congr fun r => and_congr_right fun hr => (hhouses j r i hr).symm
  case players =>
    intro i l' hl'
    rcases enlarged_cases hfree hl' with ⟨rfl, rfl⟩ | ⟨l, hl, rfl⟩
    · exact Names.nil fun j ⟨r, hr, hq⟩ => hnobody j r hr hq.1
    · exact (h.players i l hl).congr fun j =>
        exists_congr fun r => and_congr_right fun hr =>
          and_congr_left fun _ => (hhouses j r i hr).symm

theorem LeavesAgree.ensureLeaf (h : g.LeavesAgree reg) (hg : g.WellFormed)
    (hcells : g.CellsAgree reg) (x y : UInt16) : (g.ensureLeaf x y).2.LeavesAgree reg := by
  cases hfree : g.leafId? x y with
  | some i =>
      rw [ensureLeaf_of_some hfree]
      exact h
  | none =>
      rw [ensureLeaf_of_none hfree]
      exact h.enlarged hg hcells hfree

end Grid

end TileWorld
