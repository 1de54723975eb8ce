import TileWorld.Proofs.Operations

/-!
# The cells of a world as a map

Apart from who stands on it, a cell is what the stores and removals
addressed to its own position have made of it. `SlotRequest.serve` says
what one of them does to one slot, and `stock?_run` that the slot of every
position is the fold of its requests, whatever the history does elsewhere
or with occupants.

Nothing here depends on who is registered, so the histories may place as
many occupants as they like.
-/

namespace TileWorld

/-! ## One slot -/

/-- What a cell holds apart from its occupants. -/
structure Stock where
  ground : Option Item := none
  /-- Stacked items, bottom to top. -/
  items : List Item := []
  zone : Flags := Flags.none
  deriving DecidableEq, Repr

def Cell.stock (c : Cell) : Stock :=
  ⟨c.ground, c.items, c.zone⟩

namespace Stock

/-- The ground, if any, followed by the items, bottom to top. -/
def released (s : Stock) : List Item :=
  s.ground.toList ++ s.items

/-- Only new ground replaces the old. New items land on top in their order,
and zones join. -/
def merge (s incoming : Stock) : Stock where
  ground := if incoming.ground.isSome then incoming.ground else s.ground
  items := s.items ++ incoming.items
  zone := ⟨s.zone.bits ||| incoming.zone.bits⟩

end Stock

/-- A request addressed to the slot of one position. -/
inductive SlotRequest where
  | store (incoming : Stock) (policy : StorePolicy)
  | remove
  deriving DecidableEq, Repr

/-- The slot of a position after a request. -/
def SlotRequest.serve (p : Position) (slot : Option Stock) : SlotRequest → Option Stock
  | .remove => none
  | .store incoming policy =>
    if p.z.toNat < 16 then
      match slot, policy with
      | none, _ => some incoming
      | some s, .merge => some (s.merge incoming)
      | some s, .keepExisting => some s
    else none

/-- The request that an action addresses to a position. -/
def Action.request? (p : Position) : Action → Option SlotRequest
  | .setCell q c policy => if q = p then some (.store c.stock policy) else none
  | .removeCell q => if q = p then some .remove else none
  | .ensureLeaf _ _ | .place _ _ | .remove _ | .move _ _ _ => none

namespace Cell

@[simp] theorem stock_vacated (c : Cell) : c.vacated.stock = c.stock := rfl

@[simp] theorem stock_arrive (c : Cell) (id : OccupantId) : (c.arrive id).stock = c.stock := rfl

@[simp] theorem stock_depart (c : Cell) (id : OccupantId) : (c.depart id).stock = c.stock := rfl

@[simp] theorem stock_absorb (c incoming : Cell) :
    (c.absorb incoming).stock = c.stock.merge incoming.stock := by
  cases h : incoming.ground <;> simp [absorb, stock, Stock.merge, Flags.union, h]

theorem released_stock (c : Cell) : c.stock.released = c.contents := rfl

end Cell

namespace World

variable {w w' w'' : World}

/-- The slot of a position as the world has it. -/
def stock? (w : World) (p : Position) : Option Stock :=
  (w.cell? p).map Cell.stock

theorem stock?_eq_none_of_floor {p : Position} (hz : p.hasValidFloor = false) :
    w.stock? p = none := by
  simp [stock?, cell?, hz]

/-! ## What leaves the slots alone -/

/-- The slots of the later world are those of the earlier one. -/
structure KeepsStock (w w' : World) : Prop where
  grid : w'.grid.WellFormed
  stock : ∀ p, w'.stock? p = w.stock? p

namespace KeepsStock

theorem refl (hg : w.grid.WellFormed) : w.KeepsStock w := ⟨hg, fun _ => rfl⟩

theorem trans (h : w.KeepsStock w') (h' : w'.KeepsStock w'') : w.KeepsStock w'' :=
  ⟨h'.grid, fun p => (h'.stock p).trans (h.stock p)⟩

/-- A change of cells that spares their stock. -/
theorem of_map (hg : w'.grid.WellFormed) {f : Position → Cell → Cell}
    (hf : ∀ p c, (f p c).stock = c.stock) (hcell : ∀ p, w'.cell? p = (w.cell? p).map (f p)) :
    w.KeepsStock w' := by
  refine ⟨hg, fun p => ?_⟩
  rw [stock?, stock?, hcell, Option.map_map]
  exact congrArg (Option.map · _) (funext fun c => hf p c)

theorem ensureLeaf (hg : w.grid.WellFormed) (x y : UInt16) :
    w.KeepsStock (w.ensureLeaf x y).2 := by
  refine ⟨wellFormed_ensureLeaf hg x y, fun p => ?_⟩
  rw [stock?, stock?, cell?_ensureLeaf hg]

theorem receive (hg : w.grid.WellFormed) (o : Occupant) (p : Position) :
    w.KeepsStock (w.receive o p) := by
  refine of_map (wellFormed_receive hg o p)
    (f := fun q c => if q = p then c.arrive ⟨w.nextNumber⟩ else c) ?_ fun q => ?_
  · intro q c
    split <;> simp
  · rw [cell?_receive hg]
    split
    · rename_i hqp
      rw [hqp]
    · rw [Option.map_id']

theorem detach (hg : w.grid.WellFormed) (id : OccupantId) (r : Resident) :
    w.KeepsStock (w.detach id r) := by
  refine of_map (wellFormed_detach hg id r)
    (f := fun q c => if q = r.position then c.depart id else c) ?_ fun q => ?_
  · intro q c
    split <;> simp
  · rw [cell?_detach hg]
    split
    · rename_i hqp
      rw [hqp]
    · rw [Option.map_id']

theorem transfer (hg : w.grid.WellFormed) (id : OccupantId) (r : Resident) (target : Position) :
    w.KeepsStock (w.transfer id r target) := by
  refine of_map (wellFormed_transfer hg id r target) ?_ (cell?_transfer hg id r target)
  intro q c
  dsimp only
  split <;> split <;> rfl

theorem sendAway (p : Position) (c : Clearing) (hg : c.world.grid.WellFormed) (id : OccupantId) :
    c.world.KeepsStock (World.sendAway p c id).world := by
  rcases sendAway_cases p c id with ⟨-, h⟩ | ⟨r, -, ⟨target, -, h⟩ | ⟨-, h⟩⟩ <;> rw [h]
  · exact refl hg
  · exact transfer hg id r target
  · exact detach hg id r

theorem clear (p : Position) (ids : List OccupantId) (c : Clearing)
    (hg : c.world.grid.WellFormed) :
    c.world.KeepsStock (ids.foldl (World.sendAway p) c).world := by
  induction ids generalizing c with
  | nil => exact refl hg
  | cons id rest ih =>
      have hfirst := sendAway p c hg id
      exact hfirst.trans (ih _ hfirst.grid)

end KeepsStock

/-! ## Requests -/

theorem stock?_setCell (hg : w.grid.WellFormed) (p : Position) (c : Cell) (policy : StorePolicy)
    (q : Position) : (w.setCell p c policy).world.stock? q =
      if p = q then SlotRequest.serve q (w.stock? q) (.store c.stock policy) else w.stock? q := by
  rcases setCell_cases hg p c policy with
    ⟨hz, h⟩ | ⟨hz, hfree, h⟩ | ⟨hfull, rfl, h⟩ | ⟨hfull, rfl, h⟩ <;> rw [h]
  · split
    · rename_i hpq
      subst hpq
      rw [stock?_eq_none_of_floor hz]
      simp [SlotRequest.serve, ← Position.hasValidFloor_iff, hz]
    · rfl
  · have hleaf := Option.isSome_of_eq_some (w.leafId?_ensureLeaf p.x p.y)
    rw [stock?, cell?_fill (wellFormed_ensureLeaf hg p.x p.y) hz hleaf, cell?_ensureLeaf hg]
    by_cases hpq : q = p
    · subst hpq
      simp [SlotRequest.serve, ← Position.hasValidFloor_iff, hz, stock?, hfree]
    · simp [hpq, Ne.symm hpq, stock?]
  · obtain ⟨c₀, hc₀⟩ := Option.isSome_iff_exists.mp hfull
    have hz := hasValidFloor_of_cell? hc₀
    rw [stock?, cell?_foldIn hg]
    by_cases hpq : q = p
    · subst hpq
      simp [SlotRequest.serve, ← Position.hasValidFloor_iff, hz, stock?, hc₀]
    · simp [hpq, Ne.symm hpq, stock?]
  · obtain ⟨c₀, hc₀⟩ := Option.isSome_iff_exists.mp hfull
    have hz := hasValidFloor_of_cell? hc₀
    by_cases hpq : q = p
    · subst hpq
      simp [SlotRequest.serve, ← Position.hasValidFloor_iff, hz, stock?, hc₀]
    · simp [Ne.symm hpq]

/-- A removal empties its own slot only, and releases what was in it. -/
theorem stock?_removeCell (hg : w.grid.WellFormed) (p : Position) :
    (w.removeCell p).world.grid.WellFormed ∧
    (∀ q, (w.removeCell p).world.stock? q = if p = q then none else w.stock? q) ∧
    (w.removeCell p).answer.map (·.items) = (w.stock? p).map Stock.released := by
  rcases removeCell_cases w p with ⟨hnone, h⟩ | ⟨cell, hcell, hcleared⟩
  · rw [h]
    refine ⟨hg, fun q => ?_, by simp [stock?, hnone]⟩
    split
    · rename_i hpq
      rw [← hpq, stock?, hnone, Option.map_none]
    · rfl
  · have hkeep := KeepsStock.clear p cell.occupants { world := w } hg
    have hslot := hkeep.stock p
    rcases hcleared with ⟨hgone, -⟩ | ⟨rest, hrest, h⟩
    · -- clearing a cell does not lose it
      simp [stock?, hgone, hcell] at hslot
    · rw [h]
      refine ⟨wellFormed_clearSlot hkeep.grid p, fun q => ?_, ?_⟩
      · rw [stock?, cell?_clearSlot hkeep.grid (Option.isSome_iff_exists.mpr ⟨rest, hrest⟩)]
        by_cases hpq : q = p
        · simp [hpq]
        · rw [if_neg hpq, if_neg (Ne.symm hpq)]
          exact hkeep.stock q
      · have hstock : w.stock? p = some rest.stock := by
          rw [← hslot, stock?, hrest, Option.map_some]
        rw [hstock]
        exact congrArg some rest.released_stock.symm

/-- The slot of a position after an action. -/
def slotAfter (p : Position) (slot : Option Stock) (a : Action) : Option Stock :=
  (a.request? p).elim slot (SlotRequest.serve p slot)

/-- Every action does to the slot of a position what it requests of it. -/
theorem stock?_perform (hg : w.grid.WellFormed) (a : Action) :
    (w.perform a).1.grid.WellFormed ∧
      ∀ p, (w.perform a).1.stock? p = slotAfter p (w.stock? p) a := by
  have hkeep : ∀ {w'}, w.KeepsStock w' → (∀ p, a.request? p = none) →
      w'.grid.WellFormed ∧ ∀ p, w'.stock? p = slotAfter p (w.stock? p) a := by
    intro w' h hnone
    refine ⟨h.grid, fun p => ?_⟩
    rw [slotAfter, hnone p]
    exact h.stock p
  cases a with
  | ensureLeaf x y => exact hkeep (.ensureLeaf hg x y) fun _ => rfl
  | setCell p c policy =>
      refine ⟨?_, fun q => ?_⟩
      · show (w.setCell p c policy).world.grid.WellFormed
        rcases setCell_cases hg p c policy with ⟨-, h⟩ | ⟨-, -, h⟩ | ⟨-, -, h⟩ | ⟨-, -, h⟩ <;> rw [h]
        · exact hg
        · exact wellFormed_fill (wellFormed_ensureLeaf hg p.x p.y) p c
        · exact wellFormed_foldIn hg p c
        · exact hg
      · show (w.setCell p c policy).world.stock? q = _
        rw [stock?_setCell hg, slotAfter, Action.request?]
        split <;> rfl
  | removeCell p =>
      obtain ⟨hgrid, hslots, -⟩ := stock?_removeCell hg p
      refine ⟨hgrid, fun q => (hslots q).trans ?_⟩
      rw [slotAfter, Action.request?]
      split <;> rfl
  | place o p =>
      refine hkeep ?_ fun _ => rfl
      show w.KeepsStock (w.place o p).world
      rcases place_cases w o p with ⟨-, h⟩ | ⟨-, -, h⟩ | ⟨-, h⟩ <;> rw [h]
      · exact .refl hg
      · exact .refl hg
      · exact .receive hg o p
  | remove id =>
      refine hkeep ?_ fun _ => rfl
      show w.KeepsStock (w.remove id).world
      rcases remove_cases w id with ⟨-, h⟩ | ⟨r, -, h⟩ <;> rw [h]
      · exact .refl hg
      · exact .detach hg id r
  | move id target force =>
      refine hkeep ?_ fun _ => rfl
      show w.KeepsStock (w.move id target force).world
      rcases move_cases w id target force with
        ⟨-, h⟩ | ⟨-, -, h⟩ | ⟨-, -, -, h⟩ | ⟨r, c, -, -, h⟩ <;> rw [h]
      · exact .refl hg
      · exact .refl hg
      · exact .refl hg
      · exact .transfer hg id _ target

/-! ## Histories -/

/-- The slot of a position after the requests that a history addresses to it. -/
theorem stock?_history (hg : w.grid.WellFormed) (actions : List Action) :
    (w.run actions).1.grid.WellFormed ∧ ∀ p, (w.run actions).1.stock? p =
      (actions.filterMap (·.request? p)).foldl (SlotRequest.serve p) (w.stock? p) := by
  induction actions generalizing w with
  | nil => exact ⟨hg, fun _ => rfl⟩
  | cons a rest ih =>
      obtain ⟨hgrid, hslots⟩ := stock?_perform hg a
      obtain ⟨hlast, hrest⟩ := ih hgrid
      refine ⟨hlast, fun p => (hrest p).trans ?_⟩
      rw [hslots p, slotAfter, List.filterMap_cons]
      cases a.request? p <;> rfl

/-- Whatever a history does, the slot of a position holds what the stores
and removals addressed to it come to, taken in their order and starting
from nothing. No further action that addresses another position or an
occupant changes it, and removing the cell releases its ground and items,
bottom to top, if there is a cell. Below the last floor there is none. -/
theorem stock?_run (config : WorldConfig) (actions : List Action) (p : Position) :
    let w := ((empty config).run actions).1
    let slot := (actions.filterMap (·.request? p)).foldl (SlotRequest.serve p) none
    w.stock? p = slot ∧
      (∀ a : Action, a.request? p = none → (w.perform a).1.stock? p = slot) ∧
      (w.removeCell p).answer.map (·.items) = slot.map Stock.released ∧
      (15 < p.z.toNat → w.cell? p = none) := by
  intro w slot
  obtain ⟨hg, hslots⟩ := stock?_history (w := empty config) Grid.wellFormed_empty actions
  have hslot : w.stock? p = slot := by
    rw [hslots p, stock?, cell?_empty]
    rfl
  refine ⟨hslot, fun a ha => ?_, ?_, fun hz => ?_⟩
  · rw [(stock?_perform hg a).2 p, slotAfter, ha]
    exact hslot
  · rw [(stock?_removeCell hg p).2.2]
    exact congrArg (Option.map Stock.released) hslot
  · cases hc : w.cell? p with
    | none => rfl
    | some c =>
        have hlt := Position.hasValidFloor_iff.mp (hasValidFloor_of_cell? hc)
        omega

end World

end TileWorld
