import Std.Data.TreeMap
import TileWorld.Position
import TileWorld.Route.Config

/-!
# The nodes of a search

A search keeps one node for every cell that it has reached, in order of
discovery and up to a fixed capacity. A node is open until the search has
expanded it. Cells are found again by their packed column and row.
-/

namespace TileWorld

/-- Place of a node in its pool. -/
abbrev NodeIndex := Nat

/-- A cell that a search has reached. -/
structure Node where
  x : UInt16
  y : UInt16
  /-- Cost of the best route known from the start. -/
  f : UInt32
  /-- The node before it on that route. -/
  parent : Option NodeIndex
  deriving DecidableEq, Repr, Inhabited

namespace Node

/-- The cell of a node on a floor. -/
def position (n : Node) (z : UInt8) : Position :=
  ⟨n.x, n.y, z⟩

end Node

/-- The nodes of a search. -/
structure Pool where
  capacity : Nat
  nodes : Array Node := #[]
  /-- The open nodes, in no particular order. -/
  frontier : List NodeIndex := []
  /-- The nodes by packed column and row. -/
  byPlace : Std.TreeMap UInt32 NodeIndex := ∅
  /-- Number of nodes that are not open. -/
  closed : Nat := 0

namespace Pool

def empty (capacity : Nat) : Pool := { capacity }

def key (x y : UInt16) : UInt32 :=
  (⟨x, y, 0⟩ : Position).packed

def size (p : Pool) : Nat :=
  p.nodes.size

def find? (p : Pool) (x y : UInt16) : Option NodeIndex :=
  p.byPlace[key x y]?

def isOpen (p : Pool) (i : NodeIndex) : Bool :=
  p.frontier.contains i

def isFull (p : Pool) : Bool :=
  p.capacity ≤ p.nodes.size || maxNodeCapacity ≤ p.nodes.size

/-- The pool with one more open node. -/
def add (p : Pool) (n : Node) : Pool :=
  let i := p.nodes.size
  { p with
    nodes := p.nodes.push n
    frontier := i :: p.frontier
    byPlace := p.byPlace.insert (key n.x n.y) i }

/-- The pool with nothing but an open node for the start, if there is room
for it. -/
def restart (p : Pool) (x y : UInt16) : Pool :=
  let cleared := empty p.capacity
  if cleared.isFull then cleared else cleared.add ⟨x, y, 0, none⟩

/-- The better of a node and the best one so far, which is held with its
cost: the cheaper one, and of two that cost the same the one found first. -/
def better (p : Pool) (best : Option (UInt32 × NodeIndex)) (i : NodeIndex) :
    Option (UInt32 × NodeIndex) :=
  match p.nodes[i]?, best with
  | none, _ => best
  | some n, none => some (n.f, i)
  | some n, some (f, j) => if n.f < f || n.f == f && i < j then some (n.f, i) else best

/-- The cheapest open node, and of several the one found first. -/
def best? (p : Pool) : Option NodeIndex :=
  (p.frontier.foldl p.better none).map (·.2)

/-- The pool after a cheaper way to a known node has been found. A node
that was closed becomes open again. -/
def reopen (p : Pool) (i parent : NodeIndex) (f : UInt32) : Pool :=
  let wasOpen := p.isOpen i
  let p := { p with nodes := p.nodes.modify i fun n => { n with f, parent := some parent } }
  if wasOpen then p else { p with frontier := i :: p.frontier, closed := p.closed - 1 }

/-- The pool after a node has been expanded. Only an open one is closed. -/
def close (p : Pool) (i : NodeIndex) : Pool :=
  if p.isOpen i then { p with frontier := p.frontier.erase i, closed := p.closed + 1 } else p

end Pool

end TileWorld
