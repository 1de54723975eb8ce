import TileWorld.Data.Value

/-!
# Tables of TOML

A text fills its tables bit by bit. Each table remembers how it came to be,
since that decides who may add to it: a table that a header or an inline
value has defined is complete, while dotted keys may add to tables that
dotted keys have made, and headers to all that are no values.
-/

namespace TileWorld.Toml

open Data (Value)

/-- How a table came to be. -/
inductive TableOrigin where
  /-- Its own header. -/
  | header
  /-- The header of a table inside of it. -/
  | implied
  /-- A dotted key. -/
  | dotted
  deriving DecidableEq, Repr

/-- What a key stands for. -/
inductive Node where
  | value (v : Value)
  | table (origin : TableOrigin) (entries : List (String × Node))
  /-- The tables that were given one by one under headers in double
  brackets, latest first. -/
  | tables (rows : List (List (String × Node)))

/-- The entries of a table. -/
abbrev Entries := List (String × Node)

namespace Entries

/-- The entries with what a key stands for put in place. -/
def set (key : String) (n : Node) : Entries → Entries
  | [] => [(key, n)]
  | (k, old) :: rest => if k = key then (key, n) :: rest else (k, old) :: set key n rest

/-- Changes the entries of the table that a path leads to. Tables missing on
the way are made as given. Only dotted keys made with dotted keys are open
to further ones. -/
def updateAt (made : TableOrigin) (update : TableOrigin → Entries → Option Entries) :
    (path : List String) → (here : TableOrigin) → Entries → Option Entries
  | [], here, entries => update here entries
  | key :: path, _, entries =>
    match entries.lookup key with
    | none => do
      return set key (.table made (← updateAt made update path made [])) entries
    | some (.table origin inner) =>
      if made = .dotted ∧ origin = .header then none
      else do return set key (.table origin (← updateAt made update path origin inner)) entries
    | some (.tables (row :: rows)) => do
      return set key (.tables ((← updateAt made update path .header row) :: rows)) entries
    | some (.tables []) => none
    | some (.value _) => none

/-- The entries with a value added under a new key. -/
def addNew (key : String) (n : Node) (entries : Entries) : Option Entries :=
  match entries.lookup key with
  | none => some (set key n entries)
  | some _ => none

/-- The entries with a value assigned to a key of one or several parts. All
parts but the last name tables that dotted keys have made, or make now. -/
def assign (path : List String) (v : Value) (entries : Entries) : Option Entries :=
  match path.getLast? with
  | none => none
  | some key =>
    let update (here : TableOrigin) (entries : Entries) : Option Entries :=
      if path.length ≠ 1 ∧ here ≠ .dotted then none else addNew key (.value v) entries
    updateAt .dotted update path.dropLast .header entries

/-- The entries with the table of a header made. It may only exist because
of headers of tables inside of it. -/
def openTable (path : List String) (entries : Entries) : Option Entries :=
  match path.getLast? with
  | none => none
  | some key =>
    let update (_ : TableOrigin) (entries : Entries) : Option Entries :=
      match entries.lookup key with
      | none => some (set key (.table .header []) entries)
      | some (.table .implied inner) => some (set key (.table .header inner) entries)
      | some _ => none
    updateAt .implied update path.dropLast .header entries

/-- The entries with one more table in a list of tables. -/
def openRow (path : List String) (entries : Entries) : Option Entries :=
  match path.getLast? with
  | none => none
  | some key =>
    let update (_ : TableOrigin) (entries : Entries) : Option Entries :=
      match entries.lookup key with
      | none => some (set key (.tables [[]]) entries)
      | some (.tables rows) => some (set key (.tables ([] :: rows)) entries)
      | some _ => none
    updateAt .implied update path.dropLast .header entries

/-- Changes the entries of the table that a header has opened, where the
last of several tables of one name counts. -/
def within (path : List String) (update : Entries → Option Entries) (entries : Entries) :
    Option Entries :=
  updateAt .implied (fun _ => update) path .header entries

end Entries

mutual

/-- What a key stands for, as a stored value. -/
def Node.toValue : Node → Value
  | .value v => v
  | .table _ entries => .record (entriesToFields entries)
  | .tables rows => .list (rowsToValues rows).reverse

/-- The entries of a table as the fields of a record. -/
def entriesToFields : List (String × Node) → List (String × Value)
  | [] => []
  | (key, n) :: rest => (key, n.toValue) :: entriesToFields rest

/-- Several tables as stored values. -/
def rowsToValues : List (List (String × Node)) → List Value
  | [] => []
  | row :: rows => .record (entriesToFields row) :: rowsToValues rows

end

end TileWorld.Toml
