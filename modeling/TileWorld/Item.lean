/-!
# Items and their properties

An item lies on a cell, as its ground or in the stack on top of it. It
carries property flags and may be a damaging field.
-/

namespace TileWorld

/-- A set of property bits carried by an item or by a cell. -/
structure Flags where
  bits : UInt16
  deriving DecidableEq, Repr, Inhabited

namespace Flags

def none : Flags := ⟨0⟩

/-- Occupants cannot walk onto the cell. -/
def blocksPath : Flags := ⟨1⟩

/-- Projectiles and sight lines stop at the cell. -/
def blocksProjectile : Flags := ⟨2⟩

/-- Stepping onto the cell leads to another floor. -/
def floorChange : Flags := ⟨4⟩

/-- Combat is disabled on the cell. -/
def protectionZone : Flags := ⟨8⟩

/-- The item is drawn above occupants. -/
def alwaysOnTop : Flags := ⟨16⟩

def contains (a b : Flags) : Bool :=
  a.bits &&& b.bits == b.bits

def intersects (a b : Flags) : Bool :=
  a.bits &&& b.bits != 0

def isEmpty (a : Flags) : Bool :=
  a.bits == 0

def union (a b : Flags) : Flags :=
  ⟨a.bits ||| b.bits⟩

end Flags

/-- Kinds of damaging fields that may cover a cell. -/
inductive Hazard where
  | fire
  | energy
  | poison
  deriving DecidableEq, Repr, Inhabited

namespace Hazard

def all : List Hazard := [fire, energy, poison]

def name : Hazard → String
  | fire => "Fire"
  | energy => "Energy"
  | poison => "Poison"

end Hazard

/-- An item lying on a cell. -/
structure Item where
  kind : UInt16
  flags : Flags := Flags.none
  hazard : Option Hazard := none
  deriving DecidableEq, Repr, Inhabited

namespace Item

/-- The item is drawn above occupants. -/
def isAlwaysOnTop (i : Item) : Bool :=
  i.flags.contains Flags.alwaysOnTop

end Item

end TileWorld
