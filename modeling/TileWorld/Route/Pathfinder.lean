import TileWorld.Route.Search

/-!
# The pathfinder

A pathfinder answers one search after another under the same limits and
costs. It keeps the nodes and the statistics of its last search, and a
search starts by clearing the nodes.
-/

namespace TileWorld

/-- A way from the start of a search to the cell it ended on. -/
structure Route where
  /-- The steps in order. -/
  directions : List Direction
  destination : Position
  cost : UInt32
  deriving DecidableEq, Repr

/-- Statistics of a search. -/
structure SearchStats where
  /-- Number of nodes allocated. -/
  allocated : Nat := 0
  /-- Number of nodes closed in the end. -/
  closed : Nat := 0
  /-- Number of neighbor offsets looked at. -/
  examined : Nat := 0
  /-- The search broke off because the pool was full. -/
  exhausted : Bool := false
  deriving DecidableEq, Repr

namespace Pool

/-- The steps that lead from the start to a node, followed by the given
ones, found by following at most so many parents. -/
def stepsTo (p : Pool) : Nat → Node → List Direction → List Direction
  | 0, _, later => later
  | links + 1, n, later =>
    match n.parent.bind (p.nodes[·]?) with
    | none => later
    | some parent =>
      let dx := (n.x.toNat : Int) - parent.x.toNat
      let dy := (n.y.toNat : Int) - parent.y.toNat
      stepsTo p links parent ((Direction.ofOffset? dx dy).toList ++ later)

/-- The route from the start to a node. -/
def route? (p : Pool) (i : NodeIndex) (z : UInt8) : Option Route :=
  p.nodes[i]?.map fun n =>
    { directions := p.stepsTo p.nodes.size n []
      destination := n.position z
      cost := n.f }

end Pool

namespace Search

def stats (s : Search) : SearchStats where
  allocated := s.pool.size
  closed := s.pool.closed
  examined := s.examined
  exhausted := s.halt == some .full

end Search

/-- Answers searches under fixed limits and costs. -/
structure Pathfinder where
  config : SearchConfig
  pool : Pool
  lastSearch : SearchStats := {}

/-- What a pathfinder answers to a search. -/
structure SearchReport where
  /-- The route to the cell matched last, if any cell matched. -/
  route : Option Route
  /-- The questions put to the condition, in order. -/
  visits : List Visit

namespace Pathfinder

def fresh (config : SearchConfig) : Pathfinder where
  config := config
  pool := .empty config.nodeCapacity

/-- A pathfinder that has not searched yet, if its settings pass their
check. -/
def create (config : SearchConfig) : Except SearchConfigError Pathfinder := do
  config.check
  return fresh config

/-- The search for a quest, taken to its end. -/
def search (f : Pathfinder) (q : Quest) : Search :=
  Search.run q f.config.nodeCapacity { pool := f.pool.restart q.start.x q.start.y }

/-- Searches a route from a start to a cell that the condition accepts. An
exact match ends the search. Otherwise it ends when nodes, budget or open
cells run out, and the cell matched last is taken. A start on a floor that
the map does not have leads nowhere. A search that comes upon an extra cost
that is no word fails: there is no answer then, and no pathfinder left to
ask again. -/
def find (f : Pathfinder) (w : World) (mover : Occupant) (start : Position)
    (condition : PathCondition) (params : SearchParams) : Option (Pathfinder × SearchReport) :=
  if !start.hasValidFloor then
    some ({ f with lastSearch := {} }, { route := none, visits := [] })
  else
    let q : Quest := ⟨f.config, w, mover, start, condition, params⟩
    let s := f.search q
    if s.halt = some .overflow then none
    else
      some ({ f with pool := s.pool, lastSearch := s.stats },
        { route := s.found.bind fun i => s.pool.route? i start.z
          visits := s.visits.reverse })

end Pathfinder

end TileWorld
