import TileWorld.Proofs.LeafWalk
import TileWorld.Proofs.Reachability

/-!
# Consistency of the world

An occupant is recorded in four places: the register, the list of its
cell, and one or two lists of its leaf. `World.Consistent` says in terms
of these places alone that they tell one story, and that the story is that
of the placements made. The operations rely on it: whatever they take out
of a list they expect to find there. `World.AssertionsHold` collects these
expectations along a history, and `consistent_run` proves consistency and
expectations for all histories with ids enough.
-/

namespace TileWorld

/-- The position lies in the block of the leaf, eight columns by eight rows. -/
def Leaf.Covers (l : Leaf) (p : Position) : Prop :=
  (l.origin.1.toNat ≤ p.x.toNat ∧ p.x.toNat < l.origin.1.toNat + 8) ∧
    l.origin.2.toNat ≤ p.y.toNat ∧ p.y.toNat < l.origin.2.toNat + 8

/-- A leaf that an occupant is to leave lists it, and lists it among its
players if it is one. -/
def Leaf.CanLose (l : Leaf) (id : OccupantId) (isPlayer : Bool) : Prop :=
  id ∈ l.occupants ∧ (isPlayer = true → id ∈ l.players)

theorem Grid.WellFormed.covers_iff {g : Grid} (hg : g.WellFormed) {i : LeafId} {l : Leaf}
    (hl : g.leaves[i]? = some l) {p : Position} :
    l.Covers p ↔ g.leafId? p.x p.y = some i := by
  obtain ⟨ax, ay⟩ := hg.aligned i l hl
  constructor
  · rintro ⟨⟨hx, hx'⟩, hy, hy'⟩
    rw [Grid.leafId?_eq_leafNear?, ← hg.indexed i l hl]
    exact g.leafNear?_congr (by omega) (by omega)
  · intro hi
    obtain ⟨l', hl', horigin⟩ := hg.leaf_of_leafId? hi
    obtain rfl := Option.some.inj (hl.symm.trans hl')
    unfold Leaf.Covers
    rw [horigin, toNat_leafOrigin, toNat_leafOrigin]
    omega

namespace World

/-! ## Consistent worlds -/

/-- Register, cells and leaves agree with each other and with the
placements that the world has seen. -/
structure Consistent (w : World) (placed : List (OccupantId × Occupant)) : Prop where
  /-- Everybody registered was placed, with the capabilities registered. -/
  placed_iff : ∀ id r, w.resident? id = some r → ∀ o, (id, o) ∈ placed ↔ o = r.occupant
  /-- Everybody registered is listed once by the cell at its position. -/
  on_cell : ∀ id r, w.resident? id = some r →
    ∃ c, w.cell? r.position = some c ∧ c.occupants.count id = 1
  /-- Everybody registered is listed once by the leaf covering its
  position, and a second time, once again, if it was placed as a player. -/
  in_leaf : ∀ id r, w.resident? id = some r →
    ∃ l, w.leafAt? r.position.x r.position.y = some l ∧ l.Covers r.position ∧
      l.occupants.count id = 1 ∧ l.players.count id = if r.occupant.isPlayer then 1 else 0
  /-- Whom a cell lists is registered at its position. -/
  of_cell : ∀ p c, w.cell? p = some c → ∀ id ∈ c.occupants, w.position? id = some p
  /-- Whom a leaf lists is registered at a position that it covers. -/
  of_leaf : ∀ i l, w.leaf? i = some l → ∀ id, id ∈ l.occupants ∨ id ∈ l.players →
    ∃ p, w.position? id = some p ∧ l.Covers p
  /-- No position is covered by two leaves. -/
  one_leaf : ∀ i l i' l' p, w.leaf? i = some l → w.leaf? i' = some l' →
    l.Covers p → l'.Covers p → i = i'

variable {w : World} {placed : List (OccupantId × Occupant)}

theorem Recorded.consistent (h : w.Recorded placed) (hroom : placed.length ≤ idCount) :
    w.Consistent placed where
  placed_iff := by
    intro id r hr o
    have hknown := h.known id r hr
    refine ⟨fun ho => h.unique hroom ho hknown, ?_⟩
    rintro rfl
    exact hknown
  on_cell := by
    intro id r hr
    obtain ⟨c, hc, -⟩ := h.coherent.cell_of_resident? hr
    exact ⟨c, hc, (h.coherent.names_cell hc).count_eq_one ⟨r, hr, rfl⟩⟩
  in_leaf := by
    intro id r hr
    obtain ⟨i, l, hi, hl, -⟩ := h.coherent.leaf_of_resident? hr
    have hplayers := h.coherent.leaves.players i l hl
    refine ⟨l, Grid.leafAt?_eq_some_iff.mpr ⟨i, hi, hl⟩,
      (h.coherent.grid.covers_iff hl).mpr hi,
      (h.coherent.leaves.occupants i l hl).count_eq_one ⟨r, hr, hi⟩, ?_⟩
    split
    · rename_i hplayer
      exact hplayers.count_eq_one ⟨r, hr, hi, hplayer⟩
    · rename_i hplayer
      refine hplayers.count_eq_zero ?_
      rintro ⟨r', hr', -, hplayer'⟩
      obtain rfl := Option.some.inj (hr.symm.trans hr')
      exact hplayer hplayer'
  of_cell := by
    intro p c hc id hid
    obtain ⟨r, hr, hp⟩ := ((h.coherent.names_cell hc).mem_iff id).mp hid
    exact Option.map_eq_some_iff.mpr ⟨r, hr, hp⟩
  of_leaf := by
    intro i l hl id hid
    have hhoused : ∃ r, w.resident? id = some r ∧ w.grid.Houses i r := by
      rcases hid with hid | hid
      · exact ((h.coherent.leaves.occupants i l hl).mem_iff id).mp hid
      · obtain ⟨r, hr, hi, -⟩ := ((h.coherent.leaves.players i l hl).mem_iff id).mp hid
        exact ⟨r, hr, hi⟩
    obtain ⟨r, hr, hi⟩ := hhoused
    exact ⟨r.position, Option.map_eq_some_iff.mpr ⟨r, hr, rfl⟩,
      (h.coherent.grid.covers_iff hl).mpr hi⟩
  one_leaf := by
    intro i l i' l' p hl hl' hp hp'
    have hi := (h.coherent.grid.covers_iff hl).mp hp
    have hi' := (h.coherent.grid.covers_iff hl').mp hp'
    exact Option.some.inj (hi.symm.trans hi')

/-! ## What the operations expect -/

/-- An occupant that is to be detached stands on a cell of a leaf, and
both list it. -/
def CanDetach (w : World) (id : OccupantId) (r : Resident) : Prop :=
  ∃ l, w.grid.leafAt? r.position.x r.position.y = some l ∧
    (∃ c, l.cell? r.position = some c ∧ id ∈ c.occupants) ∧ l.CanLose id r.occupant.isPlayer

/-- An occupant that is to go elsewhere stands on a cell of a leaf, which
lists it, and its way ends in a leaf. Another leaf than that of the target
lists the occupant too. -/
def CanTransfer (w : World) (id : OccupantId) (r : Resident) (target : Position) : Prop :=
  (w.grid.leafAt? target.x target.y).isSome ∧
    ∃ l, w.grid.leafAt? r.position.x r.position.y = some l ∧
      (∃ c, l.cell? r.position = some c ∧ id ∈ c.occupants) ∧
      (w.crossesLeaf r.position target = true → l.CanLose id r.occupant.isPlayer)

/-- Everybody that a query comes across is registered. -/
def CanQuery (w : World) (q : SpectatorQuery) : Prop :=
  ∀ l ∈ q.leaves w.grid, ∀ id ∈ q.candidates l, (w.position? id).isSome

/-- An occupant of a cell to be removed can go the way that is chosen for it. -/
def CanSendAway (p : Position) (c : Clearing) (id : OccupantId) : Prop :=
  ∀ r, c.world.resident? id = some r →
    match c.world.fallback? r p with
    | some target => c.world.CanTransfer id r target
    | none => c.world.CanDetach id r

/-- The occupants of a cell to be removed can be sent away one after another. -/
def CanClear (p : Position) (c : Clearing) : List OccupantId → Prop
  | [] => True
  | id :: rest => CanSendAway p c id ∧ CanClear p (sendAway p c id) rest

/-- What an action expects to find where it changes or reads the lists. A
move asks first who watches the two cells. -/
def Expects (w : World) : Action → Prop
  | .removeCell p => ∀ cell, w.cell? p = some cell → CanClear p { world := w } cell.occupants
  | .remove id => ∀ r, w.resident? id = some r → w.CanDetach id r
  | .move id target _ => ∀ r, w.resident? id = some r → (w.cell? target).isSome →
      w.CanQuery ⟨r.position, true, false, w.config.viewport⟩ ∧
        w.CanQuery ⟨target, true, false, w.config.viewport⟩ ∧ w.CanTransfer id r target
  | .ensureLeaf _ _ | .setCell _ _ _ | .place _ _ => True

/-- Every action of a history finds what it expects. -/
def AssertionsHold (w : World) : List Action → Prop
  | [] => True
  | a :: rest => w.Expects a ∧ (w.perform a).1.AssertionsHold rest

namespace Coherent

theorem canQuery (hw : w.Coherent) (q : SpectatorQuery) : w.CanQuery q := by
  intro l hl id hid
  obtain ⟨i, hi⟩ := SpectatorQuery.exists_of_mem_leaves hw.grid hl
  have hregistered : ∃ r, w.resident? id = some r := by
    unfold SpectatorQuery.candidates at hid
    split at hid
    · obtain ⟨r, hr, -⟩ := ((hw.leaves.players i l hi).mem_iff id).mp hid
      exact ⟨r, hr⟩
    · obtain ⟨r, hr, -⟩ := ((hw.leaves.occupants i l hi).mem_iff id).mp hid
      exact ⟨r, hr⟩
  obtain ⟨r, hr⟩ := hregistered
  rw [position?, hr]
  rfl

theorem canDetach (hw : w.Coherent) {id : OccupantId} {r : Resident}
    (hr : w.resident? id = some r) : w.CanDetach id r := by
  obtain ⟨i, l, hi, hl, hlose⟩ := hw.leaf_of_resident? hr
  have hleaf := Grid.leafAt?_eq_some_iff.mpr ⟨i, hi, hl⟩
  obtain ⟨c, hc, hmem⟩ := hw.cell_of_resident? hr
  rw [cell?_eq_grid, Grid.cell?, hleaf, Option.bind_some] at hc
  exact ⟨l, hleaf, ⟨c, hc, hmem⟩, hlose⟩

theorem canTransfer (hw : w.Coherent) {id : OccupantId} {r : Resident}
    (hr : w.resident? id = some r) {target : Position} (ht : (w.cell? target).isSome) :
    w.CanTransfer id r target := by
  obtain ⟨l, hleaf, hcell, hlose⟩ := hw.canDetach hr
  obtain ⟨c, hc⟩ := Option.isSome_iff_exists.mp ht
  exact ⟨hw.grid.leafAt?_isSome_iff.mpr (leafId?_of_cell? hc), l, hleaf, hcell, fun _ => hlose⟩

end Coherent

theorem Clears.canClear {p : Position} {c : Clearing} {ids : List OccupantId}
    (h : Clears p c ids) : CanClear p c ids := by
  induction ids generalizing c with
  | nil => trivial
  | cons id rest ih =>
      refine ⟨?_, ih h.step⟩
      intro r hr
      cases hf : c.world.fallback? r p with
      | none => exact h.coherent.canDetach hr
      | some target => exact h.coherent.canTransfer hr (fallback?_spec hf).2

theorem Coherent.expects (hw : w.Coherent) (a : Action) : w.Expects a := by
  cases a with
  | removeCell p =>
      intro cell hcell
      have hstart : Clears p { world := w } cell.occupants := ⟨hw, cell, hcell, rfl⟩
      exact hstart.canClear
  | remove id => exact fun r hr => hw.canDetach hr
  | move id target force =>
      exact fun r hr ht => ⟨hw.canQuery _, hw.canQuery _, hw.canTransfer hr ht⟩
  | ensureLeaf x y => trivial
  | setCell p c policy => trivial
  | place o p => trivial

/-- As long as there are ids enough, the whole history finds what it expects. -/
theorem Recorded.assertionsHold (h : w.Recorded placed) (actions : List Action)
    (hroom : (placed ++ w.placements actions).length ≤ idCount) : w.AssertionsHold actions := by
  induction actions generalizing w placed with
  | nil => trivial
  | cons a rest ih =>
      refine ⟨h.coherent.expects a, ?_⟩
      rw [placements, ← List.append_assoc] at hroom
      refine ih (h.perform a ?_) hroom
      rw [List.length_append] at hroom
      omega

/-! ## Histories -/

/-- Every history that starts from an empty world and makes as many
placements as there are ids at most leaves a consistent world behind. On
the way, and in any query afterwards, every operation finds the lists as
it expects them. -/
theorem consistent_run (config : WorldConfig) (actions : List Action)
    (hroom : ((empty config).placements actions).length ≤ idCount) :
    let w := ((empty config).run actions).1
    w.Consistent ((empty config).placements actions) ∧
      (empty config).AssertionsHold actions ∧ ∀ q, w.CanQuery q := by
  have hstart := recorded_empty config
  have hrun := hstart.run actions hroom
  exact ⟨hrun.consistent hroom, hstart.assertionsHold actions hroom, hrun.coherent.canQuery⟩

/-- A player is sent from a removed cell to its fallback in another leaf,
and a creature beside it leaves the world. -/
theorem consistent_run_removed_cell :
    let actions : List Action :=
      [.setCell ⟨7, 7, 7⟩ .empty .merge, .setCell ⟨8, 8, 7⟩ .empty .merge,
        .place { Occupant.player with fallback := some ⟨8, 8, 7⟩ } ⟨7, 7, 7⟩,
        .place .creature ⟨7, 7, 7⟩, .place .player ⟨9, 9, 9⟩, .removeCell ⟨7, 7, 7⟩]
    let placed := (empty {}).placements actions
    let w := ((empty {}).run actions).1
    placed.length ≤ idCount ∧ w.Consistent placed ∧ w.position? ⟨1⟩ = some ⟨8, 8, 7⟩ ∧
      w.position? ⟨2⟩ = none := by
  intro actions placed w
  have hroom : placed.length ≤ idCount := (length_placements_le _ actions).trans (by decide)
  exact ⟨hroom, (consistent_run {} actions hroom).1, by decide +kernel, by decide +kernel⟩

end World

end TileWorld
