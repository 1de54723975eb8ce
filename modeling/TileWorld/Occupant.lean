import Std.Data.TreeMap
import TileWorld.Item
import TileWorld.Position

/-!
# Occupants

An occupant is an entity standing on a cell, known to the world only by
its capabilities. The world names each occupant by an identifier of its
own and never looks at anything else.
-/

namespace TileWorld

/-- The number under which the world knows an occupant. -/
structure OccupantId where
  val : UInt32
  deriving DecidableEq, Repr, Inhabited

/-- Identifiers are ordered by their numbers. -/
instance : Ord OccupantId := ⟨fun a b => compare a.val b.val⟩

instance : Std.TransOrd OccupantId where
  eq_swap {a b} := @Std.OrientedCmp.eq_swap UInt32 compare _ a.val b.val
  isLE_trans {a b c} := @Std.TransCmp.isLE_trans UInt32 compare _ a.val b.val c.val

instance : Std.LawfulEqOrd OccupantId where
  eq_of_compare {a b} h := by
    have same : a.val = b.val :=
      @Std.LawfulEqCmp.eq_of_compare UInt32 compare _ a.val b.val h
    cases a
    cases b
    exact congrArg OccupantId.mk same

/-- Capabilities of an entity. The defaults describe an ordinary visible
creature that stays where it stands. -/
structure Occupant where
  /-- Controlled by a player. -/
  isPlayer : Bool := false
  /-- May be shoved aside by others. -/
  isPushable : Bool := false
  /-- Shoves pushable occupants out of its way. -/
  pushes : Bool := false
  /-- Hidden from ordinary observers. -/
  isInvisible : Bool := false
  /-- Perceives invisible occupants. -/
  seesInvisible : Bool := false
  /-- Fields that do it no damage. -/
  immunities : List Hazard := []
  /-- Fields it walks over despite the damage. -/
  tolerated : List Hazard := []
  /-- Where a player goes when its cell disappears. -/
  fallback : Option Position := none
  deriving DecidableEq, Repr, Inhabited

namespace Occupant

def player : Occupant := { isPlayer := true }

def creature : Occupant := {}

def isImmuneTo (o : Occupant) (h : Hazard) : Bool :=
  o.immunities.contains h

/-- The occupant walks over the field anyway. -/
def tolerates (o : Occupant) (h : Hazard) : Bool :=
  o.tolerated.contains h

/-- Only an observer that sees the invisible perceives a hidden target.
Everybody perceives itself; callers compare identities first. -/
def perceives (observer target : Occupant) : Bool :=
  !target.isInvisible || observer.seesInvisible

end Occupant

end TileWorld
