import TileWorld.Data.Record
import TileWorld.Occupant
import TileWorld.Route.Config
import TileWorld.Route.Params
import TileWorld.World.Config
import TileWorld.World.Event

/-!
# Stored forms

How each type of the library is read from a stored value (`ofValue?`) and
written as one (`toValue`). Types with a single number or a choice of
constants are stored as that number or as the constant's name; all other
types are records.
-/

namespace TileWorld

open Data (Value ListRule FieldReader)

namespace Position

def ofValue? (rule : ListRule) : Value → Option Position :=
  Value.fields? rule do
    let x ← .required "x" Value.uint16?
    let y ← .required "y" Value.uint16?
    let z ← .required "z" Value.uint8?
    return ⟨x, y, z⟩

def toValue (p : Position) : Value :=
  .record [("x", .int p.x.toNat), ("y", .int p.y.toNat), ("z", .int p.z.toNat)]

end Position

namespace Direction

def ofValue? : Value → Option Direction := Value.constant? all name

def toValue (d : Direction) : Value := .text d.name

end Direction

namespace OccupantId

def ofValue? (v : Value) : Option OccupantId := v.uint32?.map OccupantId.mk

def toValue (id : OccupantId) : Value := .int id.val.toNat

end OccupantId

namespace Hazard

def ofValue? : Value → Option Hazard := Value.constant? all name

def toValue (h : Hazard) : Value := .text h.name

end Hazard

namespace Flags

def ofValue? (v : Value) : Option Flags := v.uint16?.map Flags.mk

def toValue (f : Flags) : Value := .int f.bits.toNat

end Flags

namespace Item

def ofValue? (rule : ListRule) : Value → Option Item :=
  Value.fields? rule do
    let kind ← .required "kind" Value.uint16?
    let flags ← .required "flags" Flags.ofValue?
    let hazard ← .optional "hazard" (Value.option? Hazard.ofValue?) none
    return { kind, flags, hazard }

def toValue (i : Item) : Value :=
  .record [("kind", .int i.kind.toNat), ("flags", i.flags.toValue),
    ("hazard", (i.hazard.map Hazard.toValue).getD .null)]

end Item

namespace SearchParams

def ofValue? (rule : ListRule) : Value → Option SearchParams :=
  Value.fields? rule do
    let maxSearch ← .required "max_search_dist" Value.uint16?
    let minTarget ← .required "min_target_dist" Value.int32?
    let maxTarget ← .required "max_target_dist" Value.int32?
    let allowDiagonal ← .required "allow_diagonal" Value.bool?
    let keepDistance ← .required "keep_distance" Value.bool?
    let fullSearch ← .required "full_path_search" Value.bool?
    let clearSight ← .required "clear_sight" Value.bool?
    return { maxSearch, minTarget, maxTarget, allowDiagonal, keepDistance, fullSearch, clearSight }

def toValue (p : SearchParams) : Value :=
  .record [("max_search_dist", .int p.maxSearch.toNat),
    ("min_target_dist", .int p.minTarget.toInt), ("max_target_dist", .int p.maxTarget.toInt),
    ("allow_diagonal", .bool p.allowDiagonal), ("keep_distance", .bool p.keepDistance),
    ("full_path_search", .bool p.fullSearch), ("clear_sight", .bool p.clearSight)]

end SearchParams

namespace StorePolicy

def ofValue? : Value → Option StorePolicy := Value.constant? all name

def toValue (p : StorePolicy) : Value := .text p.name

end StorePolicy

namespace PlacementError

def ofValue? : Value → Option PlacementError := Value.constant? all name

def toValue (e : PlacementError) : Value := .text e.name

end PlacementError

namespace WorldConfig

def ofValue? (rule : ListRule) : Value → Option WorldConfig :=
  let default : WorldConfig := {}
  Value.fields? rule do
    let viewportX ← .defaulted "viewport_x" Value.uint16? default.viewportX
    let viewportY ← .defaulted "viewport_y" Value.uint16? default.viewportY
    let fallback ← .defaulted "fallback_position" (Value.option? (Position.ofValue? rule))
      default.fallback
    return { viewportX, viewportY, fallback }

end WorldConfig

namespace SearchConfig

def ofValue? (rule : ListRule) : Value → Option SearchConfig :=
  let default : SearchConfig := {}
  Value.fields? rule do
    let nodeCapacity ← .defaulted "node_capacity" Value.count? default.nodeCapacity
    let closedBudget ← .defaulted "closed_budget" Value.count? default.closedBudget
    let straightCost ← .defaulted "straight_cost" Value.uint32? default.straightCost
    let diagonalCost ← .defaulted "diagonal_cost" Value.uint32? default.diagonalCost
    let blockingCost ← .defaulted "blocking_occupant_cost" Value.uint32? default.blockingCost
    let hazardCost ← .defaulted "hazard_cost" Value.uint32? default.hazardCost
    return { nodeCapacity, closedBudget, straightCost, diagonalCost, blockingCost, hazardCost }

end SearchConfig

end TileWorld
