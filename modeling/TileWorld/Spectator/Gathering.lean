import Std.Data.TreeSet
import TileWorld.Occupant

/-!
# Gatherings of spectators

A gathering lists occupants in the order in which they were found, each
once. Membership is answered from a search tree, which the type keeps in
step with the list.
-/

namespace TileWorld

/-- Occupants in the order of discovery, without repetition. -/
structure Gathering where
  /-- The occupants, latest first. -/
  latestFirst : List OccupantId := []
  known : Std.TreeSet OccupantId := ∅
  mem_known_iff : ∀ id, id ∈ known ↔ id ∈ latestFirst := by simp
  nodup : latestFirst.Nodup := by simp

namespace Gathering

def empty : Gathering := {}

/-- The occupants in the order of discovery. -/
def ids (s : Gathering) : List OccupantId :=
  s.latestFirst.reverse

def size (s : Gathering) : Nat :=
  s.latestFirst.length

def isEmpty (s : Gathering) : Bool :=
  s.latestFirst.isEmpty

def contains (s : Gathering) (id : OccupantId) : Bool :=
  s.known.contains id

/-- The gathering with one more occupant at its end, unless it is known. -/
def add (s : Gathering) (id : OccupantId) : Gathering :=
  if h : id ∈ s.known then s
  else
    { latestFirst := id :: s.latestFirst
      known := s.known.insert id
      mem_known_iff := fun other => by
        rw [Std.TreeSet.mem_insert, s.mem_known_iff, List.mem_cons,
          Std.LawfulEqCmp.compare_eq_iff_eq, eq_comm]
      nodup := List.nodup_cons.2 ⟨mt (s.mem_known_iff id).2 h, s.nodup⟩ }

/-- The gathering with all of a list added in order. -/
def addAll (s : Gathering) (ids : List OccupantId) : Gathering :=
  ids.foldl add s

/-- The gathering joined by everybody of another who is not yet known. -/
def merge (s other : Gathering) : Gathering :=
  s.addAll other.ids

end Gathering

end TileWorld
