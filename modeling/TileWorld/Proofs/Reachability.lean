import TileWorld.Proofs.Coherence

/-!
# Reachable worlds

`World.placements` lists whom a history places and the ids they get. They
are given in turn, and everybody registered is somebody placed, under the
id and with the capabilities of that placement (`Numbered`). As long as
there are ids enough, a world that arose from an empty one is coherent
too, and no id was given twice (`Recorded.run`). `World.Reachable`
collects these worlds.
-/

namespace TileWorld.World

def idCount : Nat := 4294967296

/-! ## Placements -/

/-- Whom an action places, with the id given. -/
def placedBy (w : World) : Action → List (OccupantId × Occupant)
  | .place o p =>
    match (w.place o p).answer with
    | .ok id => [(id, o)]
    | .error _ => []
  | _ => []

/-- Whom a history places, in order, with the ids given. -/
def placements (w : World) : List Action → List (OccupantId × Occupant)
  | [] => []
  | action :: rest => w.placedBy action ++ (w.perform action).1.placements rest

theorem length_placedBy_le (w : World) (a : Action) : (w.placedBy a).length ≤ 1 := by
  cases a with
  | place o p =>
      simp only [placedBy]
      split
      · exact Nat.le_refl _
      · exact Nat.zero_le _
  | _ => exact Nat.zero_le _

/-- A history places at most one occupant with each action. -/
theorem length_placements_le (w : World) (actions : List Action) :
    (w.placements actions).length ≤ actions.length := by
  induction actions generalizing w with
  | nil => exact Nat.le_refl _
  | cons a rest ih =>
      have hone := w.length_placedBy_le a
      have hrest := ih (w.perform a).1
      simp only [placements, List.length_append, List.length_cons]
      omega

/-- An action places nobody, or its world is that with the newcomer. -/
theorem placedBy_cases (w : World) (a : Action) :
    w.placedBy a = [] ∨ ∃ o p, (w.cell? p).isSome ∧ w.placedBy a = [(⟨w.nextNumber⟩, o)] ∧
      (w.perform a).1 = w.receive o p := by
  cases a with
  | place o p =>
      rcases place_cases w o p with ⟨-, h⟩ | ⟨-, -, h⟩ | ⟨hp, h⟩
      · exact Or.inl (by rw [placedBy, h])
      · exact Or.inl (by rw [placedBy, h])
      · refine Or.inr ⟨o, p, hp, by rw [placedBy, h], ?_⟩
        rw [World.perform, h]
        rfl
  | _ => exact Or.inl rfl

/-- Every action that places nobody keeps a world coherent. -/
theorem Coherent.perform {w : World} (hw : w.Coherent) {a : Action} (ha : w.placedBy a = []) :
    (w.perform a).1.Coherent := by
  cases a with
  | ensureLeaf x y => exact hw.ensureLeaf x y
  | setCell p c policy => exact hw.setCell p c policy
  | removeCell p => exact hw.removeCell p
  | place o p =>
      show (w.place o p).world.Coherent
      rcases place_cases w o p with ⟨-, h⟩ | ⟨-, -, h⟩ | ⟨-, h⟩
      · rw [h]
        exact hw
      · rw [h]
        exact hw
      · rw [placedBy, h] at ha
        cases ha
  | remove id => exact hw.remove id
  | move id target force => exact hw.move id target force

/-! ## Who may be registered -/

/-- Nobody is registered anew or with other capabilities, and no id was given. -/
structure Descends (w w' : World) : Prop where
  nextNumber : w'.nextNumber = w.nextNumber
  known : ∀ id r', w'.resident? id = some r' →
    ∃ r, w.resident? id = some r ∧ r'.occupant = r.occupant

namespace Descends

variable {w w' w'' : World}

theorem refl (w : World) : w.Descends w := ⟨rfl, fun _ r' hr' => ⟨r', hr', rfl⟩⟩

theorem trans (h : w.Descends w') (h' : w'.Descends w'') : w.Descends w'' := by
  refine ⟨h'.nextNumber.trans h.nextNumber, fun id r'' hr'' => ?_⟩
  obtain ⟨r', hr', ho'⟩ := h'.known id r'' hr''
  obtain ⟨r, hr, ho⟩ := h.known id r' hr'
  exact ⟨r, hr, ho'.trans ho⟩

theorem of_residents (hn : w'.nextNumber = w.nextNumber) (hr : w'.residents = w.residents) :
    w.Descends w' :=
  ⟨hn, fun id r' hr' => ⟨r', by rwa [resident?, ← hr], rfl⟩⟩

theorem detach (w : World) (id : OccupantId) (r : Resident) : w.Descends (w.detach id r) := by
  refine ⟨rfl, fun i r' hr' => ⟨r', ?_, rfl⟩⟩
  rw [resident?_detach] at hr'
  by_cases hi : i = id
  · subst hi
    rw [Register.strike_self] at hr'
    cases hr'
  · rwa [Register.strike_of_ne hi] at hr'

theorem transfer {id : OccupantId} {r : Resident} (hr : w.resident? id = some r)
    (facing : Direction) (target : Position) :
    w.Descends (w.transfer id { r with facing } target) := by
  refine ⟨rfl, fun i r' hr' => ?_⟩
  rw [resident?_transfer] at hr'
  by_cases hi : i = id
  · subst hi
    rw [Register.enroll_self] at hr'
    obtain rfl := Option.some.inj hr'
    exact ⟨r, hr, rfl⟩
  · rw [Register.enroll_of_ne hi] at hr'
    exact ⟨r', hr', rfl⟩

theorem sendAway (p : Position) (c : Clearing) (id : OccupantId) :
    c.world.Descends (sendAway p c id).world := by
  rcases sendAway_cases p c id with ⟨-, h⟩ | ⟨r, hr, ⟨target, -, h⟩ | ⟨-, h⟩⟩ <;> rw [h]
  · exact refl _
  · exact transfer hr r.facing target
  · exact detach _ id r

theorem clear (p : Position) : ∀ (ids : List OccupantId) (c : Clearing),
    c.world.Descends (ids.foldl (World.sendAway p) c).world
  | [], c => refl c.world
  | id :: ids, c => (sendAway p c id).trans (clear p ids _)

theorem removeCell (w : World) (p : Position) : w.Descends (w.removeCell p).world := by
  rcases removeCell_cases w p with ⟨-, h⟩ | ⟨cell, -, ⟨-, h⟩ | ⟨rest, -, h⟩⟩ <;> rw [h]
  · exact refl w
  · exact clear p cell.occupants { world := w }
  · exact (clear p cell.occupants { world := w }).trans (of_residents rfl rfl)

/-- Every action but placing. -/
theorem perform (w : World) {a : Action} (ha : w.placedBy a = []) (hw : w.grid.WellFormed) :
    w.Descends (w.perform a).1 := by
  cases a with
  | ensureLeaf x y => exact of_residents rfl rfl
  | setCell p c policy =>
      show w.Descends (w.setCell p c policy).world
      rcases setCell_cases hw p c policy with ⟨-, h⟩ | ⟨-, -, h⟩ | ⟨-, -, h⟩ | ⟨-, -, h⟩ <;> rw [h]
      · exact refl w
      · exact of_residents rfl rfl
      · exact of_residents rfl rfl
      · exact refl w
  | removeCell p => exact removeCell w p
  | place o p =>
      show w.Descends (w.place o p).world
      rcases place_cases w o p with ⟨-, h⟩ | ⟨-, -, h⟩ | ⟨-, h⟩ <;> rw [h]
      · exact refl w
      · exact refl w
      · rw [placedBy, h] at ha
        cases ha
  | remove id =>
      show w.Descends (w.remove id).world
      rcases remove_cases w id with ⟨-, h⟩ | ⟨r, -, h⟩ <;> rw [h]
      · exact refl w
      · exact detach w id r
  | move id target force =>
      show w.Descends (w.move id target force).world
      rcases move_cases w id target force with
        ⟨-, h⟩ | ⟨-, -, h⟩ | ⟨-, -, -, h⟩ | ⟨r, c, hr, -, h⟩ <;> rw [h]
      · exact refl w
      · exact refl w
      · exact refl w
      · exact transfer hr _ target

end Descends

/-! ## Numbers -/

/-- The list records whom the history of the world placed: the ids are
given in order of number, and everybody registered is in it. -/
structure Numbered (w : World) (placed : List (OccupantId × Occupant)) : Prop where
  nextNumber : w.nextNumber.toNat = (placed.length + 1) % idCount
  numbers : ∀ k id o, placed[k]? = some (id, o) → id.val.toNat = (k + 1) % idCount
  known : ∀ id r, w.resident? id = some r → (id, r.occupant) ∈ placed

theorem numbered_empty (config : WorldConfig) : (empty config).Numbered [] := by
  refine ⟨rfl, ?_, ?_⟩
  · intro k id o h
    cases h
  · intro id r hr
    rw [resident?_empty] at hr
    cases hr

namespace Numbered

variable {w : World} {placed : List (OccupantId × Occupant)}

/-- Who bears the next number has borne it since the numbers last came round. -/
theorem of_resident (h : w.Numbered placed) {r : Resident}
    (hr : w.resident? ⟨w.nextNumber⟩ = some r) :
    ∃ k, k + idCount ≤ placed.length ∧ placed[k]? = some (⟨w.nextNumber⟩, r.occupant) := by
  obtain ⟨k, hk⟩ := List.mem_iff_getElem?.mp (h.known _ r hr)
  have hlt : k < placed.length := (List.getElem?_eq_some_iff.mp hk).1
  have hnum := h.numbers k _ _ hk
  have hnext := h.nextNumber
  refine ⟨k, ?_, hk⟩
  simp only [idCount] at *
  omega

/-- While there are ids left, the next one is nobody's. -/
theorem fresh (h : w.Numbered placed) (hroom : placed.length < idCount) :
    w.resident? ⟨w.nextNumber⟩ = none := by
  cases hr : w.resident? ⟨w.nextNumber⟩ with
  | none => rfl
  | some r =>
      obtain ⟨k, hk, -⟩ := h.of_resident hr
      omega

theorem of_descends (h : w.Numbered placed) {w' : World} (hd : w.Descends w') :
    w'.Numbered placed where
  nextNumber := by rw [hd.nextNumber, h.nextNumber]
  numbers := h.numbers
  known := fun id r' hr' => by
    obtain ⟨r, hr, ho⟩ := hd.known id r' hr'
    rw [ho]
    exact h.known id r hr

theorem receive (h : w.Numbered placed) (o : Occupant) (p : Position) :
    (w.receive o p).Numbered (placed ++ [(⟨w.nextNumber⟩, o)]) where
  nextNumber := by
    show (w.nextNumber + 1).toNat = _
    have hnext := h.nextNumber
    rw [UInt32.toNat_add, hnext, List.length_append, List.length_singleton]
    simp only [idCount, UInt32.reduceToNat]
    omega
  numbers := by
    intro k id o' hk
    by_cases hlt : k < placed.length
    · rw [List.getElem?_append_left hlt] at hk
      exact h.numbers k id o' hk
    · rw [List.getElem?_append_right (Nat.le_of_not_lt hlt),
        List.getElem?_singleton] at hk
      split at hk
      · rename_i hlast
        obtain ⟨rfl, rfl⟩ := Prod.mk.inj (Option.some.inj hk)
        rw [h.nextNumber, show k = placed.length by omega]
      · cases hk
  known := by
    intro id r hr
    rw [resident?_receive] at hr
    by_cases hi : id = ⟨w.nextNumber⟩
    · subst hi
      rw [Register.enroll_self] at hr
      obtain rfl := Option.some.inj hr
      exact List.mem_append_right _ (List.mem_singleton_self _)
    · rw [Register.enroll_of_ne hi] at hr
      exact List.mem_append_left _ (h.known id r hr)

/-- Every action continues the numbering, also when the numbers come round. -/
theorem perform (h : w.Numbered placed) (hg : w.grid.WellFormed) (a : Action) :
    (w.perform a).1.Numbered (placed ++ w.placedBy a) := by
  rcases placedBy_cases w a with hnobody | ⟨o, p, -, hplaced, hworld⟩
  · rw [hnobody, List.append_nil]
    exact h.of_descends (.perform w hnobody hg)
  · rw [hplaced, hworld]
    exact h.receive o p

end Numbered

/-! ## Runs -/

/-- The list records whom the history of the world placed, and the world is
coherent. -/
structure Recorded (w : World) (placed : List (OccupantId × Occupant)) : Prop
    extends w.Numbered placed where
  coherent : w.Coherent

theorem recorded_empty (config : WorldConfig) : (empty config).Recorded [] :=
  ⟨numbered_empty config, coherent_empty config⟩

namespace Recorded

variable {w : World} {placed : List (OccupantId × Occupant)}

/-- No id is given twice. -/
theorem unique (h : w.Recorded placed) (hroom : placed.length ≤ idCount) {id : OccupantId}
    {o o' : Occupant} (ho : (id, o) ∈ placed) (ho' : (id, o') ∈ placed) : o = o' := by
  obtain ⟨k, hk⟩ := List.mem_iff_getElem?.mp ho
  obtain ⟨k', hk'⟩ := List.mem_iff_getElem?.mp ho'
  have hlt : k < placed.length := (List.getElem?_eq_some_iff.mp hk).1
  have hlt' : k' < placed.length := (List.getElem?_eq_some_iff.mp hk').1
  have hnum := h.numbers k _ _ hk
  have hnum' := h.numbers k' _ _ hk'
  have hkk : k = k' := by
    simp only [idCount] at *
    omega
  subst hkk
  rw [hk] at hk'
  exact (Prod.mk.inj (Option.some.inj hk')).2

/-- Every action keeps the record, as long as there are ids enough. -/
theorem perform (h : w.Recorded placed) (a : Action)
    (hroom : (placed ++ w.placedBy a).length ≤ idCount) :
    (w.perform a).1.Recorded (placed ++ w.placedBy a) := by
  refine ⟨h.toNumbered.perform h.coherent.grid a, ?_⟩
  rcases placedBy_cases w a with hnobody | ⟨o, p, hp, hplaced, hworld⟩
  · exact h.coherent.perform hnobody
  · rw [hplaced, List.length_append, List.length_singleton] at hroom
    rw [hworld]
    exact h.coherent.receive (h.fresh (by omega)) o hp

/-- Every history keeps the record, as long as there are ids enough. -/
theorem run (h : w.Recorded placed) (actions : List Action)
    (hroom : (placed ++ w.placements actions).length ≤ idCount) :
    (w.run actions).1.Recorded (placed ++ w.placements actions) := by
  induction actions generalizing w placed with
  | nil =>
      rw [show w.placements [] = [] from rfl, List.append_nil]
      exact h
  | cons a rest ih =>
      rw [placements, ← List.append_assoc] at hroom ⊢
      refine ih (h.perform a ?_) hroom
      rw [List.length_append] at hroom
      omega

end Recorded

/-- The world arises from an empty one by a history with ids enough for
all that it places. -/
def Reachable (w : World) : Prop :=
  ∃ (config : WorldConfig) (actions : List Action),
    ((empty config).placements actions).length ≤ idCount ∧ w = ((empty config).run actions).1

theorem reachable_run (config : WorldConfig) {actions : List Action}
    (h : actions.length ≤ idCount) : ((empty config).run actions).1.Reachable :=
  ⟨config, actions, (length_placements_le _ actions).trans h, rfl⟩

theorem Reachable.recorded {w : World} (h : w.Reachable) :
    ∃ placed : List (OccupantId × Occupant), placed.length ≤ idCount ∧ w.Recorded placed := by
  obtain ⟨config, actions, hroom, rfl⟩ := h
  refine ⟨(empty config).placements actions, hroom, ?_⟩
  exact (recorded_empty config).run actions hroom

theorem Reachable.coherent {w : World} (h : w.Reachable) : w.Coherent := by
  obtain ⟨placed, -, hrecorded⟩ := h.recorded
  exact hrecorded.coherent

end TileWorld.World
