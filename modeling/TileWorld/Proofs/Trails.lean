import Mathlib.Algebra.Ring.Nat
import TileWorld.Proofs.EntryCharges
import TileWorld.Proofs.PositionLaws

/-!
# Trails

A route names steps. `Position.trail?` are the cells that the steps enter,
`Quest.Admissible` the routes that a mover may take under the parameters
of a search, and `Quest.routeCost` what a route costs, as a natural number
without a bound. Search costs are words: they stop at the largest one, so
they are routes' costs up to `cap`.
-/

namespace TileWorld

/-! ## Steps -/

/-- The cells entered on a way, in order, unless it leads off the map. -/
def Position.trail? (p : Position) : List Direction → Option (List Position)
  | [] => some []
  | d :: later => do
    let next ← p.step? d
    let entered ← next.trail? later
    return next :: entered

namespace Position

/-- Where a way ends that enters the given cells. -/
def endOf (p : Position) (entered : List Position) : Position :=
  entered.getLast?.getD p

@[simp] theorem endOf_nil (p : Position) : p.endOf [] = p := rfl

@[simp] theorem endOf_cons (p next : Position) (entered : List Position) :
    p.endOf (next :: entered) = next.endOf entered := by
  simp [endOf, List.getLast?_cons]

@[simp] theorem endOf_concat (p last : Position) (entered : List Position) :
    p.endOf (entered ++ [last]) = last := by
  simp [endOf]

theorem trail?_cons {p : Position} {d : Direction} {later : List Direction}
    {entered : List Position} : p.trail? (d :: later) = some entered ↔
      ∃ next rest, p.step? d = some next ∧ next.trail? later = some rest ∧
        entered = next :: rest := by
  simp only [trail?, Option.bind_eq_bind, Option.bind_eq_some_iff, Option.pure_def,
    Option.some.injEq]
  constructor
  · rintro ⟨next, hnext, rest, hrest, rfl⟩
    exact ⟨next, rest, hnext, hrest, rfl⟩
  · rintro ⟨next, rest, hnext, hrest, rfl⟩
    exact ⟨next, hnext, rest, hrest, rfl⟩

theorem trail?_concat {p : Position} {directions : List Direction} {entered : List Position}
    {d : Direction} {next : Position} (h : p.trail? directions = some entered)
    (hd : (p.endOf entered).step? d = some next) :
    p.trail? (directions ++ [d]) = some (entered ++ [next]) := by
  induction directions generalizing p entered with
  | nil =>
      obtain rfl := Option.some.inj h
      exact trail?_cons.mpr ⟨next, [], hd, rfl, rfl⟩
  | cons c later ih =>
      obtain ⟨q, rest, hq, hrest, rfl⟩ := trail?_cons.mp h
      rw [endOf_cons] at hd
      exact trail?_cons.mpr ⟨q, rest ++ [next], hq, ih hrest hd, rfl⟩

end Position

/-! ## Costs as words and as numbers -/

/-- The cost that a word can hold: the number itself, or the largest word
for numbers beyond it. -/
def cap (n : Nat) : Nat :=
  min 4294967295 n

theorem cap_le (n : Nat) : cap n ≤ n := Nat.min_le_right ..

namespace Quest

variable {q : Quest}

/-- What a step in a direction costs, without the cell entered. -/
def directionCost (q : Quest) (d : Direction) : UInt32 :=
  q.stepCost d.offset.1 d.offset.2

/-- The mover may enter the cell at a position in the course of the search. -/
def mayEnter (q : Quest) (p : Position) : Bool :=
  (q.walkable? p).isSome && q.isAllowed p

/-- The steps follow each other on the map, enter cells only that may be
entered, and from the second on are diagonal only if diagonal steps are
allowed. -/
structure Admissible (q : Quest) (directions : List Direction) (entered : List Position) :
    Prop where
  trail : q.start.trail? directions = some entered
  straight : q.params.allowDiagonal = false → ∀ d ∈ directions.tail, d.isDiagonal = false
  mayEnter : ∀ p ∈ entered, q.mayEnter p = true

/-- The sum of what the steps and the cells entered cost. -/
def routeCost (q : Quest) (directions : List Direction) (entered : List Position) : Nat :=
  (List.zipWith (fun d p => (q.directionCost d).toNat + q.entryCost p)
    directions entered).sum

@[simp] theorem routeCost_nil (q : Quest) : q.routeCost [] [] = 0 := rfl

theorem routeCost_cons (q : Quest) (d : Direction) (p : Position) (directions : List Direction)
    (entered : List Position) : q.routeCost (d :: directions) (p :: entered) =
      (q.directionCost d).toNat + q.entryCost p + q.routeCost directions entered :=
  rfl

end Quest

theorem Position.length_of_trail? {p : Position} {directions : List Direction}
    {entered : List Position} (h : p.trail? directions = some entered) :
    entered.length = directions.length := by
  induction directions generalizing p entered with
  | nil =>
      obtain rfl := Option.some.inj h
      rfl
  | cons d later ih =>
      obtain ⟨next, rest, -, hrest, rfl⟩ := Position.trail?_cons.mp h
      rw [List.length_cons, List.length_cons, ih hrest]

namespace Quest

variable {q : Quest}

theorem routeCost_concat {directions : List Direction} {entered : List Position}
    (h : entered.length = directions.length) (d : Direction) (p : Position) :
    q.routeCost (directions ++ [d]) (entered ++ [p]) =
      q.routeCost directions entered + ((q.directionCost d).toNat + q.entryCost p) := by
  unfold routeCost
  rw [List.zipWith_append h.symm, List.sum_append]
  rfl

theorem admissible_nil (q : Quest) : q.Admissible [] [] :=
  ⟨rfl, fun _ _ => nofun, fun _ => nofun⟩

theorem Admissible.concat {directions : List Direction} {entered : List Position}
    (h : q.Admissible directions entered) {d : Direction} {next : Position}
    (hd : (q.start.endOf entered).step? d = some next) (hnext : q.mayEnter next = true)
    (hdiagonal : d.isDiagonal = true → q.params.allowDiagonal = true ∨ directions = []) :
    q.Admissible (directions ++ [d]) (entered ++ [next]) where
  trail := Position.trail?_concat h.trail hd
  straight := by
    intro hstraight c hc
    cases directions with
    | nil => cases hc
    | cons first later =>
        rw [List.cons_append, List.tail_cons, List.mem_append, List.mem_singleton] at hc
        rcases hc with hc | rfl
        · exact h.straight hstraight c hc
        · rw [← Bool.not_eq_true]
          intro hd
          rcases hdiagonal hd with hallow | hnil
          · rw [hstraight] at hallow
            cases hallow
          · cases hnil
  mayEnter := by
    intro p hp
    rcases List.mem_append.mp hp with hp | hp
    · exact h.mayEnter p hp
    · rw [List.mem_singleton.mp hp]
      exact hnext

end Quest

end TileWorld
