import TileWorld.Proofs.Reachability

/-!
# What the removal of a cell does

A removal goes through the occupants of a cell while it changes the cell,
the lists of leaves and the register. Still everybody goes where the world
before the removal would have sent it, since on the way no cell comes or
goes that could be a refuge (`fallback?_congr`). `Evacuated` follows the
clearing: those who have gone are the first of the cell's list, and world,
events and answer can be read off them and the world before.

The main statement is `removal_report`.
-/

namespace TileWorld.World

variable {w w' : World} {p q target : Position} {id : OccupantId} {r : Resident}

/-! ## Refuges -/

/-- The position is not that of the removed cell, and it holds a cell. -/
def CanHost (w : World) (removed target : Position) : Prop :=
  target ≠ removed ∧ (w.cell? target).isSome

/-- A player finds refuge at its own fallback, or at that of the world if
its own cannot host it. -/
def FindsRefuge (w : World) (removed : Position) (r : Resident) (target : Position) : Prop :=
  r.occupant.isPlayer = true ∧ w.CanHost removed target ∧
    (r.occupant.fallback = some target ∨
      (∀ own, r.occupant.fallback = some own → ¬ w.CanHost removed own) ∧
        w.config.fallback = some target)

theorem fallback?_eq_some_iff : w.fallback? r p = some target ↔ w.FindsRefuge p r target := by
  have hsome (o : Option Position) (q : Position) :
      o.toList.find? (fun q => q ≠ p && (w.cell? q).isSome) = some q ↔
        w.CanHost p q ∧ o = some q := by
    cases o with
    | none => simp
    | some own =>
        rw [Option.toList_some, List.find?_singleton, Option.ite_none_right_eq_some]
        refine and_congr_left fun hown => ?_
        obtain rfl := Option.some.inj hown
        simp [CanHost]
  have hnone (o : Option Position) :
      o.toList.find? (fun q => q ≠ p && (w.cell? q).isSome) = none ↔
        ∀ own, o = some own → ¬ w.CanHost p own := by
    simp [List.find?_eq_none, CanHost]
  unfold fallback? FindsRefuge
  split
  · rename_i hplayer
    rw [List.find?_append, Option.or_eq_some_iff, hsome, hsome, hnone]
    tauto
  · rename_i hplayer
    simp [hplayer]

/-- Refuges depend on settings and on where there are cells. -/
theorem fallback?_congr (hconfig : w'.config = w.config)
    (hcells : ∀ q, q ≠ p → (w'.cell? q).isSome = (w.cell? q).isSome) :
    w'.fallback? r p = w.fallback? r p := by
  have hhost (q : Position) : w'.CanHost p q ↔ w.CanHost p q :=
    and_congr_right fun hq => by rw [hcells q hq]
  ext target
  simp only [fallback?_eq_some_iff, FindsRefuge, hhost, hconfig]

/-- Where somebody on the cell to be removed finds refuge. -/
def refuge? (w : World) (removed : Position) (id : OccupantId) : Option Position :=
  (w.resident? id).bind (w.fallback? · removed)

/-- What the register tells of somebody once it has been sent away. -/
def resettled? (w : World) (removed : Position) (id : OccupantId) : Option Resident :=
  (w.resident? id).bind fun r =>
    (w.fallback? r removed).map fun target => { r with position := target }

/-- How the world reports that somebody has been sent away. -/
def farewell (w : World) (removed : Position) (id : OccupantId) : Event :=
  match w.refuge? removed id with
  | some target => .relocated id removed target
  | none => .evicted id removed

/-! ## Clearing a cell -/

/-- Some occupants of a cell have gone, the others are still to be sent
away. Everything but the others' cell is told by those who have gone and
the world before. -/
structure Evacuated (w : World) (p : Position) (cell : Cell) (gone rest : List OccupantId)
    (c : Clearing) : Prop where
  coherent : c.world.Coherent
  config : c.world.config = w.config
  events : c.events = gone.map (w.farewell p)
  relocated : c.relocated = gone.filter fun id => (w.refuge? p id).isSome
  evicted : c.evicted = gone.filter fun id => (w.refuge? p id).isNone
  residents : ∀ id, c.world.resident? id =
    if id ∈ gone then w.resettled? p id else w.resident? id
  here : c.world.cell? p = some { cell with occupants := rest }
  elsewhere : ∀ q, q ≠ p → c.world.cell? q = (w.cell? q).map fun b =>
    { b with occupants := b.occupants ++ gone.filter fun id => w.refuge? p id = some q }

namespace Evacuated

variable {cell : Cell} {gone rest : List OccupantId} {c : Clearing}

theorem start (hw : w.Coherent) (hcell : w.cell? p = some cell) :
    w.Evacuated p cell [] cell.occupants { world := w } where
  coherent := hw
  config := rfl
  events := rfl
  relocated := rfl
  evicted := rfl
  residents := fun _ => rfl
  here := hcell
  elsewhere := fun q _ => by simp

/-- The next one to be sent away has been on the cell all the time, and
its refuge is that of the beginning. -/
theorem next (h : w.Evacuated p cell gone (id :: rest) c) :
    ∃ r, c.world.resident? id = some r ∧ r.position = p ∧
      w.resident? id = some r ∧ c.world.fallback? r p = w.refuge? p id := by
  obtain ⟨r, hr, hp⟩ := ((h.coherent.names_cell h.here).mem_iff id).mp (List.mem_cons_self ..)
  have hstayed : id ∉ gone := by
    intro hgone
    have hsettled := h.residents id
    rw [hr, if_pos hgone, resettled?] at hsettled
    obtain ⟨r₀, -, htarget⟩ := Option.bind_eq_some_iff.mp hsettled.symm
    obtain ⟨target, hf, rfl⟩ := Option.map_eq_some_iff.mp htarget
    exact (fallback?_spec hf).1 hp
  have hbefore : w.resident? id = some r := by
    rw [← hr, h.residents id, if_neg hstayed]
  refine ⟨r, hr, hp, hbefore, ?_⟩
  rw [refuge?, hbefore, Option.bind_some]
  refine fallback?_congr h.config fun q hq => ?_
  rw [h.elsewhere q hq, Option.isSome_map]

/-- The register follows as soon as the entry of the next one is settled
and all others stay. -/
theorem residents_concat (h : w.Evacuated p cell gone rest c) {w' : World}
    (hself : w'.resident? id = w.resettled? p id)
    (hothers : ∀ i, i ≠ id → w'.resident? i = c.world.resident? i) (i : OccupantId) :
    w'.resident? i = if i ∈ gone ++ [id] then w.resettled? p i else w.resident? i := by
  by_cases hi : i = id
  · subst hi
    rw [hself, if_pos (List.mem_concat_self ..)]
  · rw [hothers i hi, h.residents i]
    simp [hi]

theorem relocate (h : w.Evacuated p cell gone (id :: rest) c)
    (hrefuge : w.refuge? p id = some target) :
    w.Evacuated p cell (gone ++ [id]) rest (sendAway p c id) := by
  obtain ⟨r, hr, rfl, hbefore, hf⟩ := h.next
  rw [hrefuge] at hf
  obtain ⟨hne, ht⟩ := fallback?_spec hf
  simp only [sendAway, hr, hf]
  constructor
  case coherent => exact h.coherent.transfer hr r.facing ht
  case config => exact h.config
  case events => simp [h.events, farewell, hrefuge]
  case relocated => simp [h.relocated, hrefuge]
  case evicted => simp [h.evicted, hrefuge]
  case residents =>
    refine h.residents_concat ?_ fun i hi => ?_
    · rw [refuge?, hbefore, Option.bind_some] at hrefuge
      rw [resident?_transfer, Register.enroll_self, resettled?, hbefore, Option.bind_some, hrefuge,
        Option.map_some]
    · rw [resident?_transfer, Register.enroll_of_ne hi]
  case here =>
    rw [cell?_transfer h.coherent.grid, h.here]
    simp [Ne.symm hne, Cell.depart]
  case elsewhere =>
    intro q hq
    rw [cell?_transfer h.coherent.grid, h.elsewhere q hq, Option.map_map]
    by_cases hqt : q = target
    · subst hqt
      simp [Function.comp_def, hq, hrefuge, Cell.arrive]
    · simp [Function.comp_def, hq, hqt, hrefuge, Ne.symm hqt]

theorem evict (h : w.Evacuated p cell gone (id :: rest) c) (hrefuge : w.refuge? p id = none) :
    w.Evacuated p cell (gone ++ [id]) rest (sendAway p c id) := by
  obtain ⟨r, hr, rfl, hbefore, hf⟩ := h.next
  rw [hrefuge] at hf
  simp only [sendAway, hr, hf]
  constructor
  case coherent => exact h.coherent.detach hr
  case config => exact h.config
  case events => simp [h.events, farewell, hrefuge]
  case relocated => simp [h.relocated, hrefuge]
  case evicted => simp [h.evicted, hrefuge]
  case residents =>
    refine h.residents_concat ?_ fun i hi => ?_
    · rw [refuge?, hbefore, Option.bind_some] at hrefuge
      rw [resident?_detach, Register.strike_self, resettled?, hbefore, Option.bind_some, hrefuge,
        Option.map_none]
    · rw [resident?_detach, Register.strike_of_ne hi]
  case here =>
    rw [cell?_detach h.coherent.grid, if_pos rfl, h.here]
    simp [Cell.depart]
  case elsewhere =>
    intro q hq
    rw [cell?_detach h.coherent.grid, if_neg hq, h.elsewhere q hq]
    simp [hrefuge]

theorem step (h : w.Evacuated p cell gone (id :: rest) c) :
    w.Evacuated p cell (gone ++ [id]) rest (sendAway p c id) := by
  cases hrefuge : w.refuge? p id with
  | some target => exact h.relocate hrefuge
  | none => exact h.evict hrefuge

theorem foldl (h : w.Evacuated p cell gone rest c) :
    w.Evacuated p cell (gone ++ rest) [] (rest.foldl (sendAway p) c) := by
  induction rest generalizing gone c with
  | nil => rwa [List.append_nil]
  | cons id rest ih =>
      rw [List.append_cons]
      exact ih h.step

end Evacuated

/-! ## The removal -/

/-- What the removal of a cell answers, reports and leaves behind. -/
structure RemovalReport (w : World) (p : Position) (cell : Cell) (out : RemovedCell)
    (events : List Event) (w' : World) : Prop where
  /-- Whom the cell lists is registered there. -/
  residents : ∀ id ∈ cell.occupants, ∃ r, w.resident? id = some r ∧ r.position = p
  refuge : ∀ id r, w.resident? id = some r →
    ∀ target, w.refuge? p id = some target ↔ w.FindsRefuge p r target
  relocated : out.relocated = cell.occupants.filter fun id => (w.refuge? p id).isSome
  evicted : out.evicted = cell.occupants.filter fun id => (w.refuge? p id).isNone
  items : out.items = cell.contents
  events : events = cell.occupants.map (w.farewell p) ++ [.cellRemoved p out.items.length]
  /-- Who finds refuge changes its position and nothing else. -/
  arrived : ∀ id ∈ cell.occupants, ∀ r target, w.resident? id = some r →
    w.refuge? p id = some target → w'.resident? id = some { r with position := target }
  left : ∀ id ∈ cell.occupants, w.refuge? p id = none → w'.resident? id = none
  others : ∀ id, id ∉ cell.occupants → w'.resident? id = w.resident? id
  /-- A cell gets those who find refuge on it, behind whom it had. -/
  cells : ∀ q, q ≠ p → w'.cell? q = (w.cell? q).map fun c =>
    { c with occupants := c.occupants ++ cell.occupants.filter fun id => w.refuge? p id = some q }
  gone : w'.cell? p = none
  nobody : ∀ id r, w'.resident? id = some r → r.position ≠ p
  coherent : w'.Coherent

/-- The removal of a cell that there is succeeds, sends everybody away in
the order of arrival and loses nobody who has a refuge. -/
theorem removal_report {w : World} (hw : w.Reachable) {p : Position} {cell : Cell}
    (hcell : w.cell? p = some cell) :
    ∃ out, (w.removeCell p).answer = some out ∧
      w.RemovalReport p cell out (w.removeCell p).events (w.removeCell p).world := by
  have hcoherent := hw.coherent
  have hnames := hcoherent.names_cell hcell
  rcases hcoherent.removeCell_cases p with ⟨hnone, -⟩ | ⟨cell', rest, hcell', -, hrest, -, hremoved⟩
  · rw [hcell] at hnone
    cases hnone
  obtain rfl := Option.some.inj (hcell.symm.trans hcell')
  have hcleared := (Evacuated.start hcoherent hcell).foldl
  rw [List.nil_append] at hcleared
  obtain rfl := Option.some.inj (hcleared.here.symm.trans hrest)
  have hslot (q : Position) := cell?_clearSlot hcleared.coherent.grid
    (Option.isSome_iff_exists.mpr ⟨_, hrest⟩) q
  have hcoherent' := hcoherent.removeCell p
  rw [hremoved] at hcoherent' ⊢
  refine ⟨_, rfl, ?_⟩
  constructor
  case residents => exact fun id hid => (hnames.mem_iff id).mp hid
  case refuge =>
    intro id r hr target
    rw [refuge?, hr, Option.bind_some, fallback?_eq_some_iff]
  case relocated => exact hcleared.relocated
  case evicted => exact hcleared.evicted
  case items => rfl
  case events => rw [hcleared.events]
  case arrived =>
    intro id hid r target hr hrefuge
    rw [refuge?, hr, Option.bind_some] at hrefuge
    refine (hcleared.residents id).trans ?_
    rw [if_pos hid, resettled?, hr, Option.bind_some, hrefuge, Option.map_some]
  case left =>
    intro id hid hrefuge
    obtain ⟨r, hr, -⟩ := (hnames.mem_iff id).mp hid
    rw [refuge?, hr, Option.bind_some] at hrefuge
    refine (hcleared.residents id).trans ?_
    rw [if_pos hid, resettled?, hr, Option.bind_some, hrefuge, Option.map_none]
  case others => exact fun id hid => (hcleared.residents id).trans (if_neg hid)
  case cells =>
    intro q hq
    rw [hslot q, if_neg hq]
    exact hcleared.elsewhere q hq
  case gone => rw [hslot p, if_pos rfl]
  case nobody =>
    intro id r hr hp
    have hlisted := ((hcleared.coherent.names_cell hrest).mem_iff id).mpr ⟨r, hr, hp⟩
    exact List.not_mem_nil hlisted
  case coherent => exact hcoherent'

/-- Four occupants leave a cell. The first player names the cell itself as
its fallback and goes to that of the world, the creature leaves the world,
the second player goes to its own fallback in the same leaf, and the third,
whose fallback has no cell, follows the first. -/
theorem removal_report_four_ways :
    let config : WorldConfig := { fallback := some ⟨8, 8, 7⟩ }
    let player (p : Position) : Occupant := { Occupant.player with fallback := some p }
    let floor := Cell.onGround ⟨1, .none, none⟩
    let w := ((empty config).run
      [.setCell ⟨7, 7, 7⟩ floor .merge, .setCell ⟨8, 8, 7⟩ floor .merge,
        .setCell ⟨6, 7, 7⟩ floor .merge, .place .player ⟨8, 8, 7⟩, .place (player ⟨7, 7, 7⟩) ⟨7, 7, 7⟩,
        .place .creature ⟨7, 7, 7⟩, .place (player ⟨6, 7, 7⟩) ⟨7, 7, 7⟩,
        .place (player ⟨9, 9, 9⟩) ⟨7, 7, 7⟩]).1
    w.Reachable ∧ w.cell? ⟨7, 7, 7⟩ = some { floor with occupants := [⟨2⟩, ⟨3⟩, ⟨4⟩, ⟨5⟩] } ∧
      ∃ out, (w.removeCell ⟨7, 7, 7⟩).answer = some out ∧ out.relocated = [⟨2⟩, ⟨4⟩, ⟨5⟩] ∧
        (w.removeCell ⟨7, 7, 7⟩).world.cell? ⟨8, 8, 7⟩ =
          some { floor with occupants := [⟨1⟩, ⟨2⟩, ⟨5⟩] } ∧
        (w.removeCell ⟨7, 7, 7⟩).events =
          [.relocated ⟨2⟩ ⟨7, 7, 7⟩ ⟨8, 8, 7⟩, .evicted ⟨3⟩ ⟨7, 7, 7⟩,
            .relocated ⟨4⟩ ⟨7, 7, 7⟩ ⟨6, 7, 7⟩, .relocated ⟨5⟩ ⟨7, 7, 7⟩ ⟨8, 8, 7⟩,
            .cellRemoved ⟨7, 7, 7⟩ 1] := by
  intro config player floor w
  have hw : w.Reachable := reachable_run _ (by decide)
  have hcell : w.cell? ⟨7, 7, 7⟩ = some { floor with occupants := [⟨2⟩, ⟨3⟩, ⟨4⟩, ⟨5⟩] } := by
    decide +kernel
  obtain ⟨out, hout, hreport⟩ := removal_report hw hcell
  refine ⟨hw, hcell, out, hout, hreport.relocated.trans ?_, (hreport.cells _ ?_).trans ?_, ?_⟩ <;>
    decide +kernel

end TileWorld.World
