/-!
# Stored values

The values of this library are stored in formats that have scalars, lists
and records, and nothing else is assumed of a format here but its
`ListRule`.
-/

namespace TileWorld.Data

/-- A stored value. -/
inductive Value where
  | null
  | bool (value : Bool)
  | int (value : Int)
  /-- A number that is not written as an integer. -/
  | fraction
  | text (value : String)
  | list (elements : List Value)
  | record (fields : List (String × Value))
  deriving Repr, Inhabited

/-- What becomes of the elements left over when a list is read as the
fields of a record in order. -/
inductive ListRule where
  | refuseSurplus
  | ignoreSurplus
  deriving DecidableEq, Repr

end TileWorld.Data
