import TileWorld.Proofs.GridHistory
import TileWorld.Proofs.MoveReports

/-!
# Moves of different occupants commute

A move reads the ground of the cell it leads to, the leaves, and the
register's entry for the occupant that moves, and none of these change
when somebody else moves (`move_move`). What two moves write is one
entry each and the ends of two cell lists, so their order shows where both
end on one cell and nowhere else (`moves_commute`). The lists of a leaf
follow from the register up to their order, in whatever way the leaf was
left and entered (`Coherent.sameLists`).
-/

namespace TileWorld

theorem erase_append_of_not_mem {ids arrivals : List OccupantId} {id : OccupantId}
    (h : id ∉ arrivals) : (ids ++ arrivals).erase id = ids.erase id ++ arrivals := by
  rw [List.erase_append]
  split
  · rfl
  · rename_i hout
    rw [List.erase_of_not_mem h, List.erase_of_not_mem hout]

theorem Register.enroll_comm {reg : Register} {a b : OccupantId} (h : a ≠ b) (r s : Resident) :
    (reg.enroll a r).enroll b s = (reg.enroll b s).enroll a r :=
  Function.update_comm h ..

/-- Both leaves are those of one block and list the same occupants and the
same players, each in an order of its own. -/
structure Leaf.SameLists (l l' : Leaf) : Prop where
  origin : l.origin = l'.origin
  occupants : l.occupants.Perm l'.occupants
  players : l.players.Perm l'.players

theorem Names.perm {ids ids' : List OccupantId} {P : OccupantId → Prop} (h : Names ids P)
    (h' : Names ids' P) : ids.Perm ids' :=
  (List.perm_ext_iff_of_nodup h.nodup h'.nodup).mpr fun id =>
    (h.mem_iff id).trans (h'.mem_iff id).symm

namespace World

variable {w w' : World} {a b : OccupantId} {r s : Resident} {p q : Position} {c d : Cell}

/-! ## Leaves -/

/-- The register decides whom the leaves list. -/
theorem Coherent.sameLists (hw : w.Coherent) (hw' : w'.Coherent)
    (hleaves : w.grid.SameLeaves w'.grid) (hregister : w'.resident? = w.resident?) (i : LeafId) :
    Option.Rel Leaf.SameLists (w.leaf? i) (w'.leaf? i) := by
  have hsize : w'.grid.leaves.size = w.grid.leaves.size := hleaves.size
  have hhouses : w'.grid.Houses i = w.grid.Houses i :=
    funext fun r => by rw [Grid.Houses, Grid.Houses, hleaves.leafId?]
  unfold leaf?
  by_cases hi : i < w.grid.leaves.size
  · have hl := Array.getElem?_eq_getElem hi
    have hl' := Array.getElem?_eq_getElem (hsize ▸ hi)
    have hoccupants := hw'.leaves.occupants i _ hl'
    have hplayers := hw'.leaves.players i _ hl'
    rw [hregister, hhouses] at hoccupants hplayers
    rw [hl, hl']
    exact .some ⟨hleaves.origin_eq hw.grid hl hl', (hw.leaves.occupants i _ hl).perm hoccupants,
      (hw.leaves.players i _ hl).perm hplayers⟩
  · rw [Array.getElem?_eq_none (Nat.le_of_not_lt hi),
      Array.getElem?_eq_none (hsize ▸ Nat.le_of_not_lt hi)]
    exact .none

theorem crossesLeaf_transfer (w : World) (id : OccupantId) (r : Resident)
    (p source target : Position) :
    (w.transfer id r p).crossesLeaf source target = w.crossesLeaf source target := by
  unfold crossesLeaf
  rw [(sameLeaves_transfer w id r p).leafId?, (sameLeaves_transfer w id r p).leafId?]

/-! ## A move after another -/

/-- The occupant as a move leaves it, but for its position. -/
def turned (r : Resident) (target : Position) (force : Bool) (c : Cell) : Resident :=
  { r with facing :=
      facingAfter r.position target (teleports r.position target force c) r.facing }

theorem move_move (hw : w.Coherent) (hr : w.resident? a = some r) (hs : w.resident? b = some s)
    (hba : b ≠ a) (hc : w.cell? p = some c) (hd : w.cell? q = some d) (force force' : Bool) :
    let second := (w.move a p force).world.move b q force'
    second.answer = (w.move b q force').answer ∧
      second.world = (w.transfer a (turned r p force c) p).transfer b (turned s q force' d) q := by
  intro second
  let w' := w.transfer a (turned r p force c) p
  have hsecond : second = w'.move b q force' := by
    show (w.move a p force).world.move b q force' = _
    rw [move_eq hr hc force]
    rfl
  have hs' : w'.resident? b = some s := by rw [resident?_transfer_of_ne hba, hs]
  have hd' : w'.cell? q = some
      { d with occupants := d.occupants.erase a ++ if q = p then [a] else [] } := by
    show (w.transfer a (turned r p force c) p).cell? q = _
    rw [turned, cell?_transfer_eq hw hr, hd, Option.map_some]
  rw [hsecond, move_eq hs' hd' force', move_eq hs hd force', crossesLeaf_transfer]
  exact ⟨rfl, rfl⟩

/-- Two occupants have gone one after the other: both are missing from the
lists they stood in, and the lists of their new cells end with them. -/
theorem cell?_transfer_transfer (hw : w.Coherent) (hr : w.resident? a = some r)
    (hs : w.resident? b = some s) (hab : a ≠ b) (hp : (w.cell? p).isSome)
    (facing facing' : Direction) (z : Position) :
    ((w.transfer a { r with facing } p).transfer b { s with facing := facing' } q).cell? z =
      (w.cell? z).map fun c => { c with
        occupants := ((c.occupants.erase a).erase b ++ if z = p then [a] else []) ++
          if z = q then [b] else [] } := by
  have hw' := hw.transfer hr facing hp
  have hs' : (w.transfer a { r with facing } p).resident? b = some s := by
    rw [resident?_transfer_of_ne (Ne.symm hab), hs]
  have hnot : b ∉ if z = p then [a] else [] := by
    split
    · exact fun hmem => hab (List.mem_singleton.mp hmem).symm
    · exact List.not_mem_nil
  rw [cell?_transfer_eq hw' hs', cell?_transfer_eq hw hr, Option.map_map]
  refine congrArg (Option.map · _) (funext fun c => ?_)
  simp only [Function.comp_apply, erase_append_of_not_mem hnot]

theorem resident?_transfer_transfer (hab : a ≠ b) (r s : Resident) :
    ((w.transfer a r p).transfer b s q).resident? =
      ((w.transfer b s q).transfer a r p).resident? := by
  simp only [resident?_transfer]
  exact Register.enroll_comm hab ..

theorem coherent_transfer_transfer (hw : w.Coherent) (hr : w.resident? a = some r)
    (hs : w.resident? b = some s) (hab : a ≠ b) (hp : (w.cell? p).isSome)
    (hq : (w.cell? q).isSome) (facing facing' : Direction) :
    ((w.transfer a { r with facing } p).transfer b { s with facing := facing' } q).Coherent := by
  refine (hw.transfer hr facing hp).transfer ?_ facing' ?_
  · rw [resident?_transfer_of_ne hab.symm, hs]
  · rw [cell?_transfer_eq hw hr, Option.isSome_map]
    exact hq

/-- The register after two transfers does not tell their order, so the
leaves show it in the order of their lists only. -/
theorem leaf?_transfer_transfer (hw : w.Coherent) (hr : w.resident? a = some r)
    (hs : w.resident? b = some s) (hab : a ≠ b) (hp : (w.cell? p).isSome)
    (hq : (w.cell? q).isSome) (facing facing' : Direction) (i : LeafId) :
    Option.Rel Leaf.SameLists
      (((w.transfer a { r with facing } p).transfer b { s with facing := facing' } q).leaf? i)
      (((w.transfer b { s with facing := facing' } q).transfer a { r with facing } p).leaf? i) := by
  have hcoherent := coherent_transfer_transfer hw hr hs hab hp hq facing facing'
  have hcoherent' := coherent_transfer_transfer hw hs hr hab.symm hq hp facing' facing
  have hleaves := (sameLeaves_transfer w a { r with facing } p).trans
    (sameLeaves_transfer _ b { s with facing := facing' } q)
  have hleaves' := (sameLeaves_transfer w b { s with facing := facing' } q).trans
    (sameLeaves_transfer _ a { r with facing } p)
  refine hcoherent.sameLists hcoherent' ⟨fun _ => hcoherent'.grid, fun x y => ?_, ?_⟩
    (resident?_transfer_transfer hab ..).symm i
  · exact (hleaves'.leafId? x y).trans (hleaves.leafId? x y).symm
  · exact hleaves'.size.trans hleaves.size.symm

/-- Two occupants that move onto cells, one after the other, do so with
the same outcomes in either order. All end up in the same places, facing
the same way, with the same occupants listed by the leaves, and standing
in the same order on the cells. Only if both moves lead to one cell, the
two stand at its end in the order of their moves. -/
theorem moves_commute {w : World} (hw : w.Reachable) {a b : OccupantId} (hab : a ≠ b)
    (ha : (w.resident? a).isSome) (hb : (w.resident? b).isSome) {p q : Position}
    (hp : (w.cell? p).isSome) (hq : (w.cell? q).isSome) (forceA forceB : Bool) :
    let first := w.move a p forceA
    let second := first.world.move b q forceB
    let first' := w.move b q forceB
    let second' := first'.world.move a p forceA
    (∃ outcome, first.answer = .ok outcome ∧ second'.answer = .ok outcome) ∧
    (∃ outcome, second.answer = .ok outcome ∧ first'.answer = .ok outcome) ∧
    (∀ o, second.world.resident? o = second'.world.resident? o) ∧
    (∀ i, Option.Rel Leaf.SameLists (second.world.leaf? i) (second'.world.leaf? i)) ∧
    (∀ z, ¬ (z = p ∧ z = q) → second.world.cell? z = second'.world.cell? z) ∧
    (p = q → ∃ (c : Cell) (older : List OccupantId),
      second.world.cell? p = some { c with occupants := older ++ [a, b] } ∧
      second'.world.cell? p = some { c with occupants := older ++ [b, a] }) := by
  intro first second first' second'
  obtain ⟨r, hr⟩ := Option.isSome_iff_exists.mp ha
  obtain ⟨s, hs⟩ := Option.isSome_iff_exists.mp hb
  obtain ⟨c, hc⟩ := Option.isSome_iff_exists.mp hp
  obtain ⟨d, hd⟩ := Option.isSome_iff_exists.mp hq
  have hcoherent := hw.coherent
  obtain ⟨hanswer, hsecond⟩ := move_move hcoherent hr hs hab.symm hc hd forceA forceB
  obtain ⟨hanswer', hsecond'⟩ := move_move hcoherent hs hr hab hd hc forceB forceA
  have hfirst : first.answer = .ok _ := congrArg Effect.answer (move_eq hr hc forceA)
  have hfirst' : first'.answer = .ok _ := congrArg Effect.answer (move_eq hs hd forceB)
  have hregister : second'.world.resident? = second.world.resident? := by
    rw [hsecond, hsecond', resident?_transfer_transfer hab]
  have hcell := cell?_transfer_transfer hcoherent hr hs hab hp (q := q)
    (turned r p forceA c).facing (turned s q forceB d).facing
  have hcell' := cell?_transfer_transfer hcoherent hs hr hab.symm hq (q := p)
    (turned s q forceB d).facing (turned r p forceA c).facing
  refine ⟨⟨_, hfirst, hanswer'.trans hfirst⟩, ⟨_, hanswer.trans hfirst', hfirst'⟩,
    fun o => (congrFun hregister o).symm, fun i => ?_, fun z hz => ?_, ?_⟩
  · rw [hsecond, hsecond']
    exact leaf?_transfer_transfer hcoherent hr hs hab hp hq _ _ i
  · rw [hsecond, hsecond']
    refine (hcell z).trans (Eq.trans ?_ (hcell' z).symm)
    -- Of the two ends, one at most is written where the targets differ.
    have hends : (if z = p then [a] else []) ++ (if z = q then [b] else []) =
        (if z = q then [b] else []) ++ if z = p then [a] else [] := by
      by_cases hzp : z = p
      · rw [if_neg fun hzq => hz ⟨hzp, hzq⟩, List.append_nil, List.nil_append]
      · rw [if_neg hzp, List.append_nil, List.nil_append]
    simp only [List.append_assoc, hends, List.erase_comm a b]
  · rintro rfl
    rw [hsecond, hsecond']
    refine ⟨c, (c.occupants.erase a).erase b, (hcell p).trans ?_, (hcell' p).trans ?_⟩
    · simp [hc]
    · simp [hc, List.erase_comm a b]

/-- From one cell to one cell over the edge of a leaf, past a third
occupant. -/
theorem moves_commute_shared_ends :
    let floor : Cell := { ground := some ⟨1, .none, none⟩ }
    let w := ((empty {}).run
      [.setCell ⟨8, 8, 7⟩ floor .merge, .setCell ⟨7, 8, 7⟩ floor .merge,
        .place .player ⟨8, 8, 7⟩, .place .creature ⟨8, 8, 7⟩, .place .creature ⟨7, 8, 7⟩]).1
    let w' := ((w.move ⟨1⟩ ⟨7, 8, 7⟩ false).world.move ⟨2⟩ ⟨7, 8, 7⟩ true).world
    let w'' := ((w.move ⟨2⟩ ⟨7, 8, 7⟩ true).world.move ⟨1⟩ ⟨7, 8, 7⟩ false).world
    w.Reachable ∧ w'.cell? ⟨7, 8, 7⟩ = some { floor with occupants := [⟨3⟩, ⟨1⟩, ⟨2⟩] } ∧
      w''.cell? ⟨7, 8, 7⟩ = some { floor with occupants := [⟨3⟩, ⟨2⟩, ⟨1⟩] } ∧
      w'.cell? ⟨8, 8, 7⟩ = w''.cell? ⟨8, 8, 7⟩ ∧ w'.resident? ⟨2⟩ = w''.resident? ⟨2⟩ := by
  intro floor w w' w''
  have hw : w.Reachable := reachable_run _ (by decide)
  obtain ⟨-, -, hregister, -, hcell, hshared⟩ := moves_commute hw (a := ⟨1⟩) (b := ⟨2⟩) (by decide)
    (by decide +kernel) (by decide +kernel) (p := ⟨7, 8, 7⟩) (q := ⟨7, 8, 7⟩)
    (by decide +kernel) (by decide +kernel) false true
  obtain ⟨⟨_, _, _, _⟩, older, hc, hc'⟩ := hshared rfl
  have hend : w'.cell? ⟨7, 8, 7⟩ = some { floor with occupants := [⟨3⟩, ⟨1⟩, ⟨2⟩] } := by
    decide +kernel
  obtain ⟨rfl, rfl, hlist, rfl⟩ := Cell.mk.inj (Option.some.inj (hend.symm.trans hc))
  have hlist : [⟨3⟩] ++ [⟨1⟩, ⟨2⟩] = older ++ [⟨1⟩, ⟨2⟩] := hlist
  obtain rfl := List.append_cancel_right hlist
  exact ⟨hw, hend, hc', hcell _ (by decide), hregister _⟩

end World

end TileWorld
