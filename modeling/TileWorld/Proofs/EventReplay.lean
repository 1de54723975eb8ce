import TileWorld.Proofs.Reachability

/-!
# Replaying events

Who follows a world from outside learns of it through its events alone.
`Replica` is what can be told in this way: where there are cells, who
stands on them in order of arrival, and where everybody stands and faces.
`Replica.apply` keeps a replica up to date with one event.

`World.Tells w events w'` says that the events lead from the replica of
one world to that of another, and that each of them names as its source
the position that the replica holds at that moment. Every operation tells
all that it did (`tells_perform`), so a history can be replayed from
nothing (`replay_run`).
-/

namespace TileWorld

/-! ## Replicas -/

/-- Where an occupant stands and faces. -/
structure Stance where
  position : Position
  facing : Direction
  deriving DecidableEq, Repr

/-- A world as far as its events tell of it. -/
structure Replica where
  /-- Who stands on the cell at a position, in order of arrival. A position
  without a cell has no list. -/
  lists : Position → Option (List OccupantId)
  stances : OccupantId → Option Stance

/-- Whom an event takes away from a cell, and from which one. -/
def Event.source? : Event → Option (OccupantId × Position)
  | .moved id source _ _ _ _ _ | .removed id source | .relocated id source _ | .evicted id source =>
    some (id, source)
  | .cellSet _ _ | .cellRemoved _ _ | .placed _ _ => none

namespace Replica

def empty : Replica := ⟨fun _ => none, fun _ => none⟩

/-- The list of a position given anew, or taken away. -/
def setList (m : Replica) (p : Position) (ids : Option (List OccupantId)) : Replica :=
  { m with lists := Function.update m.lists p ids }

def setStance (m : Replica) (id : OccupantId) (s : Option Stance) : Replica :=
  { m with stances := Function.update m.stances id s }

/-- An occupant is added behind those on a cell. -/
def arrive (m : Replica) (id : OccupantId) (p : Position) : Replica :=
  m.setList p ((m.lists p).map (· ++ [id]))

/-- An occupant is deleted from the list of a cell. -/
def depart (m : Replica) (id : OccupantId) (p : Position) : Replica :=
  m.setList p ((m.lists p).map (·.erase id))

@[simp] theorem lists_setList (m : Replica) (p : Position) (ids : Option (List OccupantId)) :
    (m.setList p ids).lists = Function.update m.lists p ids := rfl

@[simp] theorem stances_setList (m : Replica) (p : Position) (ids : Option (List OccupantId)) :
    (m.setList p ids).stances = m.stances := rfl

@[simp] theorem lists_setStance (m : Replica) (id : OccupantId) (s : Option Stance) :
    (m.setStance id s).lists = m.lists := rfl

@[simp] theorem stances_setStance (m : Replica) (id : OccupantId) (s : Option Stance) :
    (m.setStance id s).stances = Function.update m.stances id s := rfl

@[simp] theorem lists_arrive (m : Replica) (id : OccupantId) (p q : Position) :
    (m.arrive id p).lists q = if q = p then (m.lists p).map (· ++ [id]) else m.lists q :=
  Function.update_apply ..

@[simp] theorem lists_depart (m : Replica) (id : OccupantId) (p q : Position) :
    (m.depart id p).lists q = if q = p then (m.lists p).map (·.erase id) else m.lists q :=
  Function.update_apply ..

@[simp] theorem stances_arrive (m : Replica) (id : OccupantId) (p : Position) :
    (m.arrive id p).stances = m.stances := rfl

@[simp] theorem stances_depart (m : Replica) (id : OccupantId) (p : Position) :
    (m.depart id p).stances = m.stances := rfl

/-- The replica after an event. -/
def apply (m : Replica) : Event → Replica
  | .cellSet p .inserted => m.setList p (some [])
  | .cellSet _ .merged | .cellSet _ .discarded => m
  | .cellRemoved p _ => m.setList p none
  | .placed id p => (m.arrive id p).setStance id (some ⟨p, .south⟩)
  | .moved id source target _ facing _ _ =>
    ((m.depart id source).arrive id target).setStance id (some ⟨target, facing⟩)
  | .relocated id source target =>
    ((m.depart id source).arrive id target).setStance id
      ((m.stances id).map ({ · with position := target }))
  | .removed id source | .evicted id source => (m.depart id source).setStance id none

/-- The replica after some events, one after another. -/
def replay (m : Replica) (events : List Event) : Replica :=
  events.foldl apply m

/-- An event that takes an occupant away takes it from where it stands. -/
def Finds (m : Replica) (e : Event) : Prop :=
  ∀ id p, e.source? = some (id, p) → (m.stances id).map Stance.position = some p

/-- Whenever one of the events is replayed, it finds its occupant. -/
def FindsAll (m : Replica) : List Event → Prop
  | [] => True
  | e :: rest => m.Finds e ∧ (m.apply e).FindsAll rest

theorem replay_append (m : Replica) (events later : List Event) :
    m.replay (events ++ later) = (m.replay events).replay later :=
  List.foldl_append ..

theorem findsAll_append {m : Replica} {events later : List Event} :
    m.FindsAll (events ++ later) ↔ m.FindsAll events ∧ (m.replay events).FindsAll later := by
  induction events generalizing m with
  | nil => exact ⟨fun h => ⟨trivial, h⟩, And.right⟩
  | cons e rest ih =>
      show m.Finds e ∧ (m.apply e).FindsAll (rest ++ later) ↔ _
      rw [ih, ← and_assoc]
      rfl

end Replica

namespace World

variable {w w' w'' : World}

/-! ## Replicas of worlds -/

/-- What events should tell of a world. -/
def replica (w : World) : Replica where
  lists p := (w.cell? p).map (·.occupants)
  stances id := (w.resident? id).map fun r => ⟨r.position, r.facing⟩

@[simp] theorem lists_replica (w : World) (p : Position) :
    w.replica.lists p = (w.cell? p).map (·.occupants) := rfl

theorem replica_eq {m : Replica} (hlists : ∀ p, (w.cell? p).map (·.occupants) = m.lists p)
    (hstances : ∀ id, (w.resident? id).map (fun r => (⟨r.position, r.facing⟩ : Stance)) =
      m.stances id) : w.replica = m := by
  obtain ⟨lists, stances⟩ := m
  rw [replica, Replica.mk.injEq]
  exact ⟨funext hlists, funext hstances⟩

theorem replica_empty (config : WorldConfig) : (empty config).replica = .empty := by
  refine replica_eq (fun p => ?_) fun id => ?_
  · rw [cell?_empty]
    rfl
  · rw [resident?_empty]
    rfl

theorem stances_enroll {id : OccupantId} {r : Resident}
    (h : w'.resident? = Register.enroll w.resident? id r) (i : OccupantId) :
    (w'.resident? i).map (fun r => (⟨r.position, r.facing⟩ : Stance)) =
      Function.update w.replica.stances id (some ⟨r.position, r.facing⟩) i := by
  rw [h]
  by_cases hi : i = id
  · subst hi
    simp
  · rw [Register.enroll_of_ne hi, Function.update_of_ne hi]
    rfl

theorem replica_ensureLeaf (hg : w.grid.WellFormed) (x y : UInt16) :
    (w.ensureLeaf x y).2.replica = w.replica :=
  replica_eq (fun p => by rw [cell?_ensureLeaf hg]; rfl) fun _ => rfl

theorem replica_fill (hg : w.grid.WellFormed) {p : Position} (hz : p.hasValidFloor = true)
    (hleaf : (w.grid.leafId? p.x p.y).isSome) (c : Cell) :
    (w.fill p c).replica = w.replica.setList p (some []) := by
  refine replica_eq (fun q => ?_) fun _ => rfl
  rw [cell?_fill hg hz hleaf, Replica.lists_setList, Function.update_apply]
  split <;> rfl

theorem replica_foldIn (hg : w.grid.WellFormed) (p : Position) (c : Cell) :
    (w.foldIn p c).replica = w.replica := by
  refine replica_eq (fun q => ?_) fun _ => rfl
  rw [cell?_foldIn hg, lists_replica]
  split
  · rename_i hq
    rw [hq, Option.map_map]
    rfl
  · rfl

theorem replica_clearSlot (hg : w.grid.WellFormed) {p : Position} (hp : (w.cell? p).isSome) :
    (w.clearSlot p).replica = w.replica.setList p none := by
  refine replica_eq (fun q => ?_) fun _ => rfl
  rw [cell?_clearSlot hg hp, Replica.lists_setList, Function.update_apply]
  split <;> rfl

theorem replica_receive (hg : w.grid.WellFormed) (o : Occupant) (p : Position) :
    (w.receive o p).replica =
      (w.replica.arrive ⟨w.nextNumber⟩ p).setStance ⟨w.nextNumber⟩ (some ⟨p, .south⟩) := by
  refine replica_eq (fun q => ?_) (stances_enroll (resident?_receive w o p))
  rw [cell?_receive hg]
  simp only [Replica.lists_setStance, Replica.lists_arrive, lists_replica]
  split <;> simp [Function.comp_def, Cell.arrive]

theorem replica_detach (hg : w.grid.WellFormed) (id : OccupantId) (r : Resident) :
    (w.detach id r).replica = (w.replica.depart id r.position).setStance id none := by
  refine replica_eq (fun q => ?_) fun i => ?_
  · rw [cell?_detach hg]
    simp only [Replica.lists_setStance, Replica.lists_depart, lists_replica]
    split <;> simp [Function.comp_def, Cell.depart]
  · rw [resident?_detach, Replica.stances_setStance, Replica.stances_depart]
    by_cases hi : i = id
    · subst hi
      simp
    · rw [Register.strike_of_ne hi, Function.update_of_ne hi]
      rfl

/-- The list of the target gets the occupant after the list of the source
has lost it, so that on its own cell the occupant goes to the end. -/
theorem replica_transfer (hg : w.grid.WellFormed) (id : OccupantId) (r : Resident)
    (target : Position) : (w.transfer id r target).replica =
      ((w.replica.depart id r.position).arrive id target).setStance id
        (some ⟨target, r.facing⟩) := by
  refine replica_eq (fun q => ?_) (stances_enroll (resident?_transfer w id r target))
  rw [cell?_transfer hg]
  simp only [Replica.lists_setStance, Replica.lists_arrive, Replica.lists_depart, lists_replica]
  by_cases ht : q = target
  · subst ht
    by_cases hs : q = r.position
    · simp [← hs, Function.comp_def, Cell.arrive, Cell.depart]
    · simp [hs, Function.comp_def, Cell.arrive]
  · by_cases hs : q = r.position
    · simp [ht, ← hs, Function.comp_def, Cell.depart]
    · simp [ht, hs]

/-! ## What events tell -/

/-- The events lead from the replica of one world to that of another, and
each of them finds its occupant. -/
structure Tells (w : World) (events : List Event) (w' : World) : Prop where
  finds : w.replica.FindsAll events
  replay : w.replica.replay events = w'.replica

namespace Tells

variable {events later : List Event}

theorem nothing (h : w'.replica = w.replica) : w.Tells [] w' := ⟨trivial, h.symm⟩

theorem trans (h : w.Tells events w') (h' : w'.Tells later w'') :
    w.Tells (events ++ later) w'' := by
  refine ⟨Replica.findsAll_append.mpr ⟨h.finds, ?_⟩, ?_⟩
  · rw [h.replay]
    exact h'.finds
  · rw [Replica.replay_append, h.replay, h'.replay]

theorem one {e : Event} (hfinds : w.replica.Finds e) (happly : w.replica.apply e = w'.replica) :
    w.Tells [e] w' :=
  ⟨⟨hfinds, trivial⟩, happly⟩

/-- An event without a source finds what it needs. -/
theorem one_of_sourceless {e : Event} (hsource : e.source? = none)
    (happly : w.replica.apply e = w'.replica) : w.Tells [e] w' := by
  refine one ?_ happly
  intro id p h
  rw [hsource] at h
  cases h

/-- An event with the position of a registered occupant as its source finds
the occupant. -/
theorem finds_of_resident {id : OccupantId} {r : Resident} (hr : w.resident? id = some r)
    {e : Event} (hsource : e.source? = some (id, r.position)) : w.replica.Finds e := by
  intro i p h
  obtain ⟨rfl, rfl⟩ := Prod.mk.inj (Option.some.inj (hsource.symm.trans h))
  simp [replica, hr]

theorem setCell (hg : w.grid.WellFormed) (p : Position) (c : Cell) (policy : StorePolicy) :
    w.Tells (w.setCell p c policy).events (w.setCell p c policy).world := by
  rcases setCell_cases hg p c policy with
    ⟨-, h⟩ | ⟨hz, -, h⟩ | ⟨-, -, h⟩ | ⟨-, -, h⟩ <;> rw [h]
  · exact nothing rfl
  · refine one_of_sourceless rfl ?_
    have hleaf := Option.isSome_of_eq_some (w.leafId?_ensureLeaf p.x p.y)
    rw [replica_fill (wellFormed_ensureLeaf hg p.x p.y) hz hleaf, replica_ensureLeaf hg]
    rfl
  · exact one_of_sourceless rfl (replica_foldIn hg p c).symm
  · exact one_of_sourceless rfl rfl

theorem place (hg : w.grid.WellFormed) (o : Occupant) (p : Position) :
    w.Tells (w.place o p).events (w.place o p).world := by
  rcases place_cases w o p with ⟨-, h⟩ | ⟨-, -, h⟩ | ⟨-, h⟩ <;> rw [h]
  · exact nothing rfl
  · exact nothing rfl
  · exact one_of_sourceless rfl (replica_receive hg o p).symm

theorem remove (hg : w.grid.WellFormed) (id : OccupantId) :
    w.Tells (w.remove id).events (w.remove id).world := by
  rcases remove_cases w id with ⟨-, h⟩ | ⟨r, hr, h⟩ <;> rw [h]
  · exact nothing rfl
  · exact one (finds_of_resident hr rfl) (replica_detach hg id r).symm

theorem move (hg : w.grid.WellFormed) (id : OccupantId) (target : Position) (force : Bool) :
    w.Tells (w.move id target force).events (w.move id target force).world := by
  rcases move_cases w id target force with
    ⟨-, h⟩ | ⟨-, -, h⟩ | ⟨-, -, -, h⟩ | ⟨r, c, hr, -, h⟩ <;> rw [h]
  · exact nothing rfl
  · exact nothing rfl
  · exact nothing rfl
  · refine one (finds_of_resident hr rfl) ?_
    show _ = (w.transfer id _ target).replica
    rw [replica_transfer hg]
    rfl

/-- Sending somebody away adds one event, which tells where it went. -/
theorem sendAway {p : Position} {c : Clearing} {id : OccupantId} {rest : List OccupantId}
    (hclears : Clears p c (id :: rest)) (h : w.Tells c.events c.world) :
    w.Tells (World.sendAway p c id).events (World.sendAway p c id).world := by
  obtain ⟨hw, cell, hcell, hids⟩ := hclears
  have hmem : id ∈ cell.occupants := hids ▸ List.mem_cons_self ..
  obtain ⟨r, hr, hp⟩ := ((hw.names_cell hcell).mem_iff id).mp hmem
  subst hp
  rcases sendAway_cases r.position c id with ⟨hnone, -⟩ | ⟨r', hr', hway⟩
  · rw [hr] at hnone
    cases hnone
  · obtain rfl := Option.some.inj (hr.symm.trans hr')
    rcases hway with ⟨target, -, hsent⟩ | ⟨-, hsent⟩ <;> rw [hsent]
    · refine h.trans (one (finds_of_resident hr rfl) ?_)
      rw [replica_transfer hw.grid id r target, Replica.apply]
      simp [replica, hr]
    · exact h.trans (one (finds_of_resident hr rfl) (replica_detach hw.grid id r).symm)

theorem clear {p : Position} {ids : List OccupantId} {c : Clearing} (hclears : Clears p c ids)
    (h : w.Tells c.events c.world) :
    w.Tells (ids.foldl (World.sendAway p) c).events (ids.foldl (World.sendAway p) c).world := by
  induction ids generalizing c with
  | nil => exact h
  | cons id rest ih => exact ih hclears.step (h.sendAway hclears)

theorem removeCell (hw : w.Coherent) (p : Position) :
    w.Tells (w.removeCell p).events (w.removeCell p).world := by
  rcases hw.removeCell_cases p with ⟨-, h⟩ | ⟨cell, rest, hcell, hw', hrest, -, h⟩ <;> rw [h]
  · exact nothing rfl
  · have hstart : Clears p { world := w } cell.occupants := ⟨hw, cell, hcell, rfl⟩
    refine (clear hstart (nothing rfl)).trans (one_of_sourceless rfl ?_)
    exact (replica_clearSlot hw'.grid (Option.isSome_iff_exists.mpr ⟨rest, hrest⟩)).symm

/-- The events of an action tell all that it did. -/
theorem perform (hw : w.Coherent) (a : Action) : w.Tells (w.perform a).2 (w.perform a).1 := by
  cases a with
  | ensureLeaf x y => exact nothing (replica_ensureLeaf hw.grid x y)
  | setCell p c policy => exact setCell hw.grid p c policy
  | removeCell p => exact removeCell hw p
  | place o p => exact place hw.grid o p
  | remove id => exact remove hw.grid id
  | move id target force => exact move hw.grid id target force

/-- The events of a history tell all that it did, as long as there are ids
enough. -/
theorem run {placed : List (OccupantId × Occupant)} (h : w.Recorded placed)
    (actions : List Action) (hroom : (placed ++ w.placements actions).length ≤ idCount) :
    w.Tells (w.run actions).2 (w.run actions).1 := by
  induction actions generalizing w placed with
  | nil => exact nothing rfl
  | cons a rest ih =>
      rw [placements, ← List.append_assoc] at hroom
      have hfirst : (placed ++ w.placedBy a).length ≤ idCount := by
        rw [List.length_append] at hroom
        omega
      exact (perform h.coherent a).trans (ih (h.perform a hfirst) hroom)

end Tells

/-- The events of a history that starts from an empty world, replayed from
nothing, tell exactly which positions hold a cell, who stands there in
order of arrival, and where everybody stands and faces. Whenever an event
is replayed, the position that it names as its source is the one that the
replica holds for the occupant. -/
theorem replay_run (config : WorldConfig) (actions : List Action)
    (hroom : ((empty config).placements actions).length ≤ idCount) :
    let w := ((empty config).run actions).1
    let events := ((empty config).run actions).2
    let replica := Replica.empty.replay events
    (∀ p, replica.lists p = (w.cell? p).map (·.occupants)) ∧
      (∀ id, (replica.stances id).map Stance.position = w.position? id ∧
        (replica.stances id).map Stance.facing = w.facing? id) ∧
      ∀ earlier e later, events = earlier ++ e :: later → ∀ id p, e.source? = some (id, p) →
        ((Replica.empty.replay earlier).stances id).map Stance.position = some p := by
  intro w events replica
  obtain ⟨hfinds, hreplay⟩ := Tells.run (recorded_empty config) actions hroom
  rw [replica_empty] at hfinds hreplay
  have hreplica : replica = w.replica := hreplay
  refine ⟨fun p => by rw [hreplica]; rfl, fun id => ?_, ?_⟩
  · rw [hreplica]
    simp only [World.replica, Option.map_map, position?, facing?]
    exact ⟨rfl, rfl⟩
  · intro earlier e later hevents id p hsource
    rw [show ((empty config).run actions).2 = earlier ++ e :: later from hevents,
      Replica.findsAll_append] at hfinds
    exact hfinds.2.1 id p hsource

/-- Two players go from a removed cell to the fallback of the world in the
order of their arrival, one of which moved onto its own cell before. The
creature between them is gone, and a placement without a cell tells
nothing. -/
theorem replay_run_removed_cell :
    let config : WorldConfig := { fallback := some ⟨8, 8, 7⟩ }
    let actions : List Action :=
      [.setCell ⟨7, 7, 7⟩ .empty .merge, .setCell ⟨8, 8, 7⟩ .empty .merge,
        .place .player ⟨7, 7, 7⟩, .place .creature ⟨7, 7, 7⟩, .place .player ⟨8, 8, 7⟩,
        .move ⟨3⟩ ⟨7, 7, 7⟩ false, .move ⟨1⟩ ⟨7, 7, 7⟩ false, .place .player ⟨9, 9, 9⟩,
        .removeCell ⟨7, 7, 7⟩]
    ((empty config).placements actions).length ≤ idCount ∧
      (Replica.empty.replay ((empty config).run actions).2).lists ⟨7, 7, 7⟩ = none ∧
      (Replica.empty.replay ((empty config).run actions).2).lists ⟨8, 8, 7⟩ =
        some [⟨3⟩, ⟨1⟩] ∧
      ((Replica.empty.replay ((empty config).run actions).2).stances ⟨3⟩).map Stance.facing =
        some .west ∧
      ((Replica.empty.replay ((empty config).run actions).2).stances ⟨2⟩).map Stance.position =
        none := by
  intro config actions
  have hroom : ((empty config).placements actions).length ≤ idCount :=
    (length_placements_le _ actions).trans (by decide)
  obtain ⟨hlists, hstances, -⟩ := replay_run config actions hroom
  refine ⟨hroom, (hlists _).trans ?_, (hlists _).trans ?_, (hstances _).2.trans ?_,
    (hstances _).1.trans ?_⟩ <;> decide +kernel

end World

end TileWorld
