import TileWorld.Spectator.Range

/-!
# World settings

How far movement is noticed, and where players go whose cell disappears.
A world is only created from settings that pass `WorldConfig.check`.
-/

namespace TileWorld

/-- Settings of a world. -/
structure WorldConfig where
  /-- Columns over which a movement is noticed, on each side. -/
  viewportX : UInt16 := 11
  /-- Rows over which a movement is noticed, on each side. -/
  viewportY : UInt16 := 11
  /-- Where players go whose cell is removed and who name no place
  themselves. -/
  fallback : Option Position := none
  deriving DecidableEq, Repr, Inhabited

/-- Why settings of a world are refused. -/
inductive WorldConfigError where
  | emptyViewport (x y : UInt16)
  | fallbackOutOfBounds (p : Position)
  deriving DecidableEq, Repr

namespace WorldConfigError

def message : WorldConfigError → String
  | emptyViewport x y => s!"viewport must be non-empty, got {x.toNat}x{y.toNat}"
  | fallbackOutOfBounds p => s!"fallback position {p.text} is outside the tracked floors"

end WorldConfigError

namespace WorldConfig

/-- Refuses a viewport in which nobody would notice a movement, and then a
fallback on a floor that the map does not have. -/
def check (c : WorldConfig) : Except WorldConfigError Unit :=
  if c.viewportX = 0 ∨ c.viewportY = 0 then
    .error (.emptyViewport c.viewportX c.viewportY)
  else
    match c.fallback with
    | some p => if p.hasValidFloor then .ok () else .error (.fallbackOutOfBounds p)
    | none => .ok ()

/-- The range in which a movement is noticed. -/
def viewport (c : WorldConfig) : SpectatorRange :=
  .symmetric c.viewportX.toNat c.viewportY.toNat

end WorldConfig

end TileWorld
