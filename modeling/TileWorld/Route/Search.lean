import TileWorld.Route.Condition
import TileWorld.Route.Config
import TileWorld.Route.Neighbors
import TileWorld.World.View

/-!
# Searching a route

A search runs on one floor. Again and again it selects the cheapest open
node, asks the condition about its cell, expands its neighbors and closes
it. `Search.select?` finds no node once the search is over: an exact match
was found, an expansion broke off, no node is open, or the closed-node
budget is spent. `Search.run` takes turns up to a number; as no node is
selected twice, the capacity of the pool is number enough.

An expansion breaks off when the pool is full, which is an end like any
other, or when the extra cost of a cell is no word, which is a failure.
-/

namespace TileWorld

/-- What a search is about. -/
structure Quest where
  config : SearchConfig
  world : World
  mover : Occupant
  start : Position
  condition : PathCondition
  params : SearchParams

namespace Quest

/-- The cell at a position, if the mover may plan a step onto it. -/
def walkable? (q : Quest) (p : Position) : Option Cell :=
  (q.world.cell? p).filter fun cell =>
    cell.hasGround && !cell.hasFlag Flags.blocksPath &&
      (q.mover.isPlayer || !cell.hasFlag (Flags.protectionZone.union Flags.floorChange))

/-- Extra cost of a cell whose top occupant, as the mover sees it, is not
to be shoved aside. -/
def blockingCost (q : Quest) (p : Position) : UInt32 :=
  match q.world.topVisible? p q.mover with
  | some (_, top) => if top.isPushable && q.mover.pushes then 0 else q.config.blockingCost
  | none => 0

/-- Extra cost of a cell covered by a field that harms the mover. -/
def hazardCost (q : Quest) (c : Cell) : UInt32 :=
  match c.hazard with
  | some h => if q.mover.isImmuneTo h || q.mover.tolerates h then 0 else q.config.hazardCost
  | none => 0

/-- Extra cost of entering a cell, if it is a word. -/
def cellCost? (q : Quest) (p : Position) (c : Cell) : Option UInt32 :=
  checkedAdd (q.blockingCost p) (q.hazardCost c)

/-- Cost of arriving at a position from a node by a step of the given cost.
Only a cell there has an extra cost. -/
def arrivalCost? (q : Quest) (n : Node) (step : UInt32) (p : Position) (c : Option Cell) :
    Option UInt32 :=
  (c.elim (some 0) (q.cellCost? p)).map (saturatingAdd (saturatingAdd n.f step))

/-- Cost of a step by an offset, without what the cell entered costs. -/
def stepCost (q : Quest) (dx dy : Int) : UInt32 :=
  if dx ≠ 0 ∧ dy ≠ 0 then q.config.diagonalCost else q.config.straightCost

/-- The position is within the limit of distance from the start, and in
range if the distance to the target is to be kept. -/
def isAllowed (q : Quest) (p : Position) : Bool :=
  (q.params.maxSearch = 0 ||
      q.start.distanceX p ≤ q.params.maxSearch.toNat &&
        q.start.distanceY p ≤ q.params.maxSearch.toNat) &&
    (!q.params.keepDistance || q.condition.isInRange q.start p q.params)

end Quest

/-- One question to the condition, and its answer. -/
structure Visit where
  node : NodeIndex
  position : Position
  verdict : Verdict
  deriving DecidableEq, Repr

/-- Why an expansion breaks off. -/
inductive Halt where
  /-- There is no room for a node. -/
  | full
  /-- The extra cost of a cell is no word. -/
  | overflow
  deriving DecidableEq, Repr

/-- The state of a search between two turns. -/
structure Search where
  pool : Pool
  /-- Quality of the best match so far. -/
  best : Int := 0
  /-- The node matched last. -/
  found : Option NodeIndex := none
  /-- Number of neighbor offsets looked at. -/
  examined : Nat := 0
  /-- An exact match was found. -/
  finished : Bool := false
  /-- An expansion broke off. -/
  halt : Option Halt := none
  /-- The questions asked, latest first. -/
  visits : List Visit := []

namespace Search

/-- The search after a neighboring position has been reached from a
selected node by a step of the given cost. A known cell changes hands if
this way is cheaper. An unknown one gets a node if the mover may enter it
and there is room. -/
def reach (q : Quest) (current : NodeIndex) (n : Node) (step : UInt32) (p : Position)
    (s : Search) : Search :=
  match s.pool.find? p.x p.y with
  | some known =>
    match q.arrivalCost? n step p (q.world.cell? p) with
    | none => { s with halt := some .overflow }
    | some f =>
      if (s.pool.nodes[known]?).any (f < ·.f) then
        { s with pool := s.pool.reopen known current f }
      else s
  | none =>
    match q.walkable? p with
    | none => s
    | some cell =>
      match q.arrivalCost? n step p (some cell) with
      | none => { s with halt := some .overflow }
      | some f =>
        if s.pool.isFull then { s with halt := some .full }
        else { s with pool := s.pool.add ⟨p.x, p.y, f, some current⟩ }

/-- The search after the neighbor of a selected node at an offset has been
looked at. -/
def examine (q : Quest) (current : NodeIndex) (n : Node) (offset : Int × Int)
    (s : Search) : Search :=
  let s := { s with examined := s.examined + 1 }
  match (n.position q.start.z).offset? offset.1 offset.2 with
  | none => s
  | some p =>
    if q.isAllowed p then s.reach q current n (q.stepCost offset.1 offset.2) p else s

/-- The search after the neighbors of a selected node at the given offsets
have been looked at in order, unless one of them makes it break off. -/
def expand (q : Quest) (current : NodeIndex) (n : Node) : List (Int × Int) → Search → Search
  | [], s => s
  | offset :: rest, s =>
    let s := s.examine q current n offset
    if s.halt.isSome then s else expand q current n rest s

/-- The budget of closed nodes is spent. Under a limit of distance there is
no budget. -/
def isSpent (q : Quest) (s : Search) : Bool :=
  q.params.maxSearch = 0 && q.config.closedBudget ≤ s.pool.closed

/-- The search after the condition has been asked about a node. -/
def ask (q : Quest) (s : Search) (current : NodeIndex) (n : Node) : Search :=
  let position := n.position q.start.z
  let verdict := q.condition.judge q.world q.start position q.params s.best
  { s with
    best := verdict.best
    found := if verdict.accepted then some current else s.found
    finished := verdict.accepted && verdict.best == 0
    visits := ⟨current, position, verdict⟩ :: s.visits }

/-- The open node to be expanded next, unless the search is over. -/
def select? (q : Quest) (s : Search) : Option NodeIndex :=
  if s.finished || s.halt.isSome || s.isSpent q then none else s.pool.best?

/-- The search after one turn, in which the given node is selected. -/
def turn (q : Quest) (s : Search) (current : NodeIndex) : Search :=
  match s.pool.nodes[current]? with
  | none => s
  | some n =>
    let s := s.ask q current n
    if s.finished then s
    else
      let offsets := s.pool.neighbors n q.params.allowDiagonal
      let s := s.expand q current n offsets
      if s.halt.isSome then s else { s with pool := s.pool.close current }

/-- The search after at most so many turns. -/
def run (q : Quest) : Nat → Search → Search
  | 0, s => s
  | turns + 1, s =>
    match s.select? q with
    | none => s
    | some current => run q turns (s.turn q current)

end Search

end TileWorld
