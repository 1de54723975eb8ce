import TileWorld.Layout.Build
import TileWorld.Proofs.CellStore
import TileWorld.Proofs.Consistency
import TileWorld.Proofs.LayoutGrammar

/-!
# The world of a layout

The `legend` says what each character of a drawing describes. A layout is
built into the world that its characters describe (`Layout.build_parsed`).

The tiles of a layout are gone through twice. The first pass stores their
cells, so a position has the cell of the first tile drawn there
(`stock?_storeTiles`). The second pass places their occupants. It finds a
cell wherever one of them stands, so nobody is turned away, and it gives
them numbers in reading order (`World.Settled`).

A layout needs no more than valid floors for this, and one that was read
from a text has them (`hasValidFloor_of_parse`).
-/

namespace TileWorld

/-! ## The legend -/

/-- What a character of a drawing says of its position: what lies there, and
who stands there, if anybody. -/
structure Depiction where
  stock : Stock
  occupant : Option Occupant
  deriving DecidableEq, Repr

/-- The ground of every drawing. -/
def earth : Item := ⟨102, ⟨0⟩, none⟩

/-- Somebody drawn is told apart by two capabilities and has no others. -/
def drawn (isPlayer isPushable : Bool) : Occupant where
  isPlayer
  isPushable
  pushes := false
  isInvisible := false
  seesInvisible := false
  immunities := []
  tolerated := []
  fallback := none

/-- Walls are items of kind 1284, whose two flags keep out whatever walks or
flies. Fire is a field of kind 1487. Flag 8 is that of protection zones. -/
def legend : Char → Option Depiction
  | '.' => some ⟨⟨some earth, [], ⟨0⟩⟩, none⟩
  | '#' => some ⟨⟨some earth, [⟨1284, ⟨1 ||| 2⟩, none⟩], ⟨0⟩⟩, none⟩
  | '~' => some ⟨⟨some earth, [⟨1487, ⟨0⟩, some .fire⟩], ⟨0⟩⟩, none⟩
  | 'z' => some ⟨⟨some earth, [], ⟨8⟩⟩, none⟩
  | 'o' => some ⟨⟨none, [], ⟨0⟩⟩, none⟩
  | '@' => some ⟨⟨some earth, [], ⟨0⟩⟩, some (drawn true false)⟩
  | 'c' => some ⟨⟨some earth, [], ⟨0⟩⟩, some (drawn false false)⟩
  | 'p' => some ⟨⟨some earth, [], ⟨0⟩⟩, some (drawn false true)⟩
  | _ => none

/-- What is stored and placed for a tile is what the legend says of its
character. -/
theorem legend_glyph (t : Tile) : legend t.glyph = some ⟨t.cell.stock, t.occupant?⟩ := by
  cases t <;> rfl

/-- What the legend says of the character drawn at a position. -/
def Placement.depiction? (t : Placement) : Option Depiction :=
  legend t.tile.glyph

/-! ## Rosters -/

/-- The register's entry for whoever is drawn at a position. -/
def Placement.resident? (t : Placement) : Option Resident :=
  (t.depiction?.bind Depiction.occupant).map (⟨·, t.position, .south⟩)

theorem Placement.resident?_eq (t : Placement) :
    t.resident? = t.tile.occupant?.map (⟨·, t.position, .south⟩) := by
  rw [resident?, depiction?, legend_glyph, Option.bind_some]

/-- The entries for all occupants of a layout, in reading order. -/
def Layout.roster (l : Layout) : List Resident :=
  l.tiles.filterMap Placement.resident?

/-- The occupants of a roster under the ids from one on. -/
def census (roster : List Resident) : List (OccupantId × Occupant) :=
  roster.mapIdx fun k r => (⟨UInt32.ofNat (k + 1)⟩, r.occupant)

theorem length_census (roster : List Resident) : (census roster).length = roster.length :=
  List.length_mapIdx

theorem census_concat (roster : List Resident) (r : Resident) :
    census (roster ++ [r]) =
      census roster ++ [(⟨UInt32.ofNat (roster.length + 1)⟩, r.occupant)] :=
  List.mapIdx_concat

theorem getElem?_census (roster : List Resident) (k : Nat) :
    (census roster)[k]? = roster[k]?.map fun r => (⟨UInt32.ofNat (k + 1)⟩, r.occupant) :=
  List.getElem?_mapIdx

namespace World

variable {w : World} {roster : List Resident}

/-- The residents of the world are those of the roster under the ids from
one on, and it has seen no other placements. -/
structure Settled (w : World) (roster : List Resident) : Prop where
  recorded : w.Recorded (census roster)
  resident : ∀ k r, roster[k]? = some r → w.resident? ⟨UInt32.ofNat (k + 1)⟩ = some r

theorem Recorded.settled (h : w.Recorded []) : w.Settled [] := by
  refine ⟨h, ?_⟩
  intro k r hk
  cases hk

namespace Settled

/-- Somebody placed on a cell is the next resident. -/
theorem receive (h : w.Settled roster) (hroom : roster.length + 1 < idCount) (o : Occupant)
    {p : Position} (hp : (w.cell? p).isSome) :
    (w.receive o p).Settled (roster ++ [⟨o, p, .south⟩]) := by
  have hnext : w.nextNumber = UInt32.ofNat (roster.length + 1) := by
    rw [← UInt32.toNat_inj, h.recorded.nextNumber, length_census, Nat.mod_eq_of_lt hroom]
    exact (UInt32.toNat_ofNat_of_lt' hroom).symm
  have hfresh : w.resident? ⟨w.nextNumber⟩ = none :=
    h.recorded.fresh (by rw [length_census]; omega)
  constructor
  case recorded =>
    rw [census_concat, ← hnext]
    exact ⟨h.recorded.toNumbered.receive o p, h.recorded.coherent.receive hfresh o hp⟩
  case resident =>
    intro k r hk
    rw [resident?_receive]
    by_cases hlt : k < roster.length
    · rw [List.getElem?_append_left hlt] at hk
      have hr := h.resident k r hk
      rw [Register.enroll_of_ne, hr]
      -- the next number is nobody's, so it is none of those given
      intro heq
      rw [heq, hfresh] at hr
      cases hr
    · rw [List.getElem?_append_right (Nat.le_of_not_lt hlt), List.getElem?_singleton] at hk
      split at hk
      · obtain rfl := Option.some.inj hk
        rw [show k = roster.length by omega, ← hnext, Register.enroll_self]
      · cases hk

/-- The register holds the roster and nobody else. -/
theorem resident?_iff (h : w.Settled roster) (hroom : roster.length < idCount) (id : OccupantId)
    (r : Resident) :
    w.resident? id = some r ↔ ∃ k, id.val.toNat = k + 1 ∧ roster[k]? = some r := by
  constructor
  · intro hr
    obtain ⟨k, hknown⟩ := List.mem_iff_getElem?.mp (h.recorded.known id r hr)
    rw [getElem?_census] at hknown
    obtain ⟨r', hk, hentry⟩ := Option.map_eq_some_iff.mp hknown
    obtain ⟨rfl, -⟩ := Prod.mk.inj hentry
    obtain rfl := Option.some.inj (hr.symm.trans (h.resident k r' hk))
    have hlt : k < roster.length := (List.getElem?_eq_some_iff.mp hk).1
    exact ⟨k, UInt32.toNat_ofNat_of_lt' (Nat.lt_of_le_of_lt hlt hroom), hk⟩
  · rintro ⟨k, hid, hk⟩
    have hnumber : id = ⟨UInt32.ofNat (k + 1)⟩ := by
      rw [← hid, UInt32.ofNat_toNat]
    rw [hnumber]
    exact h.resident k r hk

end Settled

end World

namespace Layout

open World

variable {w : World} {t : Placement} {tiles : List Placement}

/-! ## Storing the cells -/

theorem recorded_storeTile {placed : List (OccupantId × Occupant)} (h : w.Recorded placed)
    (hroom : placed.length ≤ idCount) (t : Placement) : (storeTile w t).Recorded placed := by
  have hnobody : w.placedBy (.setCell t.position t.tile.cell .keepExisting) = [] := rfl
  have hstored := h.perform (.setCell t.position t.tile.cell .keepExisting)
  rw [hnobody, List.append_nil] at hstored
  exact hstored hroom

theorem stock?_storeTile (hg : w.grid.WellFormed) (hz : t.position.hasValidFloor = true)
    (p : Position) : (storeTile w t).stock? p =
      (w.stock? p).or (if t.position = p then some t.tile.cell.stock else none) := by
  rw [storeTile, stock?_setCell hg]
  split
  · rename_i hp
    subst hp
    cases w.stock? t.position <;> simp [SlotRequest.serve, ← Position.hasValidFloor_iff, hz]
  · rw [Option.or_none]

/-- Unless it has one already, a position gets the cell of the first tile
drawn there. -/
theorem stock?_storeTiles {placed : List (OccupantId × Occupant)} (h : w.Recorded placed)
    (hroom : placed.length ≤ idCount) (hz : ∀ t ∈ tiles, t.position.hasValidFloor = true) :
    (tiles.foldl storeTile w).Recorded placed ∧ ∀ p, (tiles.foldl storeTile w).stock? p =
      (w.stock? p).or ((tiles.find? (·.position = p)).map (·.tile.cell.stock)) := by
  induction tiles generalizing w with
  | nil => exact ⟨h, fun p => by simp⟩
  | cons t tiles ih =>
    rw [List.forall_mem_cons] at hz
    obtain ⟨hlast, hstock⟩ := ih (recorded_storeTile h hroom t) hz.2
    refine ⟨hlast, fun p => (hstock p).trans ?_⟩
    rw [stock?_storeTile h.coherent.grid hz.1, Option.or_assoc]
    by_cases hp : t.position = p <;> simp [hp]

/-! ## Placing the occupants -/

/-- The occupant of a tile is placed if the tile has got a cell. -/
theorem placeOccupant_of_cell {roster : List Resident} (h : w.Settled roster)
    (hcell : (w.stock? t.position).isSome)
    (hroom : (roster ++ t.resident?.toList).length < idCount) :
    ∃ next, placeOccupant w t = .ok next ∧ next.Settled (roster ++ t.resident?.toList) ∧
      w.KeepsStock next := by
  cases ho : t.tile.occupant? with
  | none =>
    have hnobody : t.resident? = none := by rw [t.resident?_eq, ho, Option.map_none]
    rw [hnobody, Option.toList_none, List.append_nil]
    refine ⟨w, ?_, h, .refl h.recorded.coherent.grid⟩
    rw [placeOccupant, ho]
  | some o =>
    have hsomebody : t.resident? = some ⟨o, t.position, .south⟩ := by
      rw [t.resident?_eq, ho, Option.map_some]
    rw [hsomebody, Option.toList_some] at hroom ⊢
    rw [stock?, Option.isSome_map] at hcell
    refine ⟨w.receive o t.position, ?_, h.receive ?_ o hcell,
      .receive h.recorded.coherent.grid o t.position⟩
    · rw [placeOccupant, ho]
      dsimp only
      rw [place_of_cell hcell]
    · rwa [List.length_append, List.length_singleton] at hroom

theorem placeOccupants_of_cells {roster : List Resident} (h : w.Settled roster)
    (hcells : ∀ t ∈ tiles, (w.stock? t.position).isSome)
    (hroom : (roster ++ tiles.filterMap Placement.resident?).length < idCount) :
    ∃ last, tiles.foldlM placeOccupant w = .ok last ∧
      last.Settled (roster ++ tiles.filterMap Placement.resident?) ∧ w.KeepsStock last := by
  -- the roster grows along the tiles, while the cells stay as the first pass left them
  induction tiles generalizing w roster with
  | nil =>
    rw [List.filterMap_nil, List.append_nil]
    exact ⟨w, rfl, h, .refl h.recorded.coherent.grid⟩
  | cons t tiles ih =>
    rw [List.forall_mem_cons] at hcells
    have hsplit : roster ++ (t :: tiles).filterMap Placement.resident? =
        (roster ++ t.resident?.toList) ++ tiles.filterMap Placement.resident? := by
      rw [List.filterMap_cons, List.append_assoc]
      cases t.resident? <;> rfl
    rw [hsplit] at hroom ⊢
    obtain ⟨next, hnext, hsettled, hkeep⟩ := placeOccupant_of_cell h hcells.1 (by
      rw [List.length_append] at hroom
      omega)
    obtain ⟨last, hlast, hsettled', hkeep'⟩ := ih hsettled
      (fun t ht => by rw [hkeep.stock]; exact hcells.2 t ht) hroom
    refine ⟨last, ?_, hsettled', hkeep.trans hkeep'⟩
    rw [List.foldlM_cons, hnext]
    exact hlast

/-! ## Building -/

/-- Every layout that was read can be built under settings that are
accepted, as long as there are ids enough. The positions drawn have cells
and no others have, each with the ground, items and zone that the legend
gives for the first character drawn there. Everybody drawn is registered,
with the capabilities that the legend gives, position and facing, under the
ids from one on in reading order, and nobody else is. The lists of cells and
leaves agree with this. -/
theorem build_parsed {source : String} {l : Layout} (hparse : parse source = .ok l)
    (hroom : l.roster.length < idCount) {config : WorldConfig} (hconfig : config.check = .ok ()) :
    ∃ w, l.build config = .ok w ∧
      (∀ p, (w.cell? p).isSome ↔ ∃ t ∈ l.tiles, t.position = p) ∧
      (∀ p, (w.cell? p).map Cell.stock =
        ((l.tiles.find? (·.position = p)).bind (·.depiction?)).map Depiction.stock) ∧
      (∀ id r, w.resident? id = some r ↔ ∃ k, id.val.toNat = k + 1 ∧ l.roster[k]? = some r) ∧
      w.Consistent (census l.roster) := by
  obtain ⟨hrecorded, hstock⟩ := stock?_storeTiles (recorded_empty config) (Nat.zero_le _)
    fun t ht => hasValidFloor_of_parse hparse ht
  have hcells : ∀ t ∈ l.tiles,
      ((l.tiles.foldl storeTile (empty config)).stock? t.position).isSome := by
    intro t ht
    rw [hstock, stock?, cell?_empty, Option.map_none, Option.none_or, Option.isSome_map,
      List.find?_isSome]
    exact ⟨t, ht, decide_eq_true rfl⟩
  obtain ⟨w, hw, hsettled, hkeep⟩ := placeOccupants_of_cells hrecorded.settled hcells hroom
  have hdrawn : ∀ p, (w.cell? p).map Cell.stock =
      (l.tiles.find? (·.position = p)).map (·.tile.cell.stock) := by
    intro p
    show w.stock? p = _
    rw [hkeep.stock, hstock, stock?, cell?_empty, Option.map_none, Option.none_or]
  refine ⟨w, ?_, fun p => ?_, fun p => ?_, hsettled.resident?_iff hroom,
    hsettled.recorded.consistent ?_⟩
  · rw [build, create, hconfig]
    exact hw
  · rw [← Option.isSome_map, hdrawn, Option.isSome_map, List.find?_isSome]
    simp
  · rw [hdrawn, Option.map_bind]
    cases l.tiles.find? (·.position = p) with
    | none => rfl
    | some t => simp [Placement.depiction?, legend_glyph]
  · rw [length_census]
    exact Nat.le_of_lt hroom

/-- The ground floor is drawn twice: a player stands on a wall of the first
drawing, and somebody drawn there is numbered before it. -/
theorem build_parsed_floor_drawn_twice :
    let source := "#c\nfloor 7\n@.p"
    let l : Layout := { tiles := [⟨⟨0, 0, 7⟩, .wall⟩, ⟨⟨1, 0, 7⟩, .creature⟩,
      ⟨⟨0, 0, 7⟩, .player⟩, ⟨⟨1, 0, 7⟩, .ground⟩, ⟨⟨2, 0, 7⟩, .pushable⟩] }
    parse source = .ok l ∧ l.roster.length < idCount ∧ ({} : WorldConfig).check = .ok () ∧
      ∃ w, l.build {} = .ok w ∧
        (w.cell? ⟨0, 0, 7⟩).map Cell.stock =
          some ⟨some ⟨102, ⟨0⟩, none⟩, [⟨1284, ⟨3⟩, none⟩], ⟨0⟩⟩ ∧
        w.resident? ⟨2⟩ = some ⟨{ isPlayer := true }, ⟨0, 0, 7⟩, .south⟩ ∧
        w.Consistent (census l.roster) := by
  intro source l
  have hparse : parse source = .ok l := by decide +kernel
  have hroom : l.roster.length < idCount := by decide
  have hconfig : ({} : WorldConfig).check = .ok () := rfl
  obtain ⟨w, hw, -, hcells, hresidents, hconsistent⟩ := build_parsed hparse hroom hconfig
  refine ⟨hparse, hroom, hconfig, w, hw, hcells _, ?_, hconsistent⟩
  exact (hresidents _ _).mpr ⟨1, rfl, rfl⟩

end Layout

end TileWorld
