import TileWorld.Toml.Date
import TileWorld.Toml.Number
import TileWorld.Toml.Table

/-!
# TOML documents

A document is a table without a header, followed by sections that each have
one. `Toml.parse?` reads a document into a record; it fails on any text that
is no document, on keys given twice, and on tables that are added to after
they were complete. Values may only be nested to a limited depth.
-/

namespace TileWorld.Toml

open Data (Value)
open Text (Parser)

/-- An assignment as written: the parts of its key, and its value. -/
abbrev Assignment := List String × Value

/-- The header of a section. -/
inductive Header where
  | table (path : List String)
  /-- One more table of a list. -/
  | row (path : List String)
  deriving Repr

/-- A header and the assignments after it. -/
structure Section where
  header : Header
  assignments : List Assignment

/-- The stored form of a date or time: a record whose only field no type
has. -/
def dateValue : Value := .record [("$date-time", .null)]

/-- The entries with values assigned one after another. -/
def assignAll (assignments : List Assignment) (entries : Entries) : Option Entries :=
  assignments.foldlM (fun entries (path, v) => entries.assign path v) entries

/-- Reads a value that is neither a list nor an inline table. -/
def scalar : Parser Value :=
  (Value.text <$> string) <|>
    (do Parser.word "true"; return .bool true) <|>
    (do Parser.word "false"; return .bool false) <|>
    (do dateTime; return dateValue) <|>
    (do decimalFraction; return .fraction) <|>
    (do specialNumber; return .fraction) <|>
    (Value.int <$> integer)

/-- Reads the elements of a list, of which the last may be followed by a
comma, and takes its end. -/
def listElements (element : Parser Value) : Parser (List Value) := do
  let elements ← Parser.optional <|
    Parser.separated (do blankLines; let v ← element; blankLines; return v) (Parser.char ',')
  if elements.isSome then discard <| Parser.optional (Parser.char ',')
  blankLines
  Parser.char ']'
  return elements.getD []

/-- Reads an assignment whose value is followed by blanks only. -/
def assignment (element : Parser Value) : Parser Assignment := do
  let path ← key
  Parser.char '='
  spaces
  let v ← element
  return (path, v)

def inlineEntries (element : Parser Value) : Parser Entries := do
  let assignments ← Parser.optional <|
    Parser.separated (do let a ← assignment element; spaces; return a) (Parser.char ',')
  spaces
  Parser.char '\x7d'
  assignAll (assignments.getD []) []

/-- Reads a value with lists and inline tables nested to a given depth. -/
def value : (depth : Nat) → Parser Value
  | 0 => scalar
  | depth + 1 => do
    match ← Parser.peek? with
    | some '[' =>
      Parser.char '['
      return .list (← listElements (value depth))
    | some '\x7b' =>
      Parser.char '\x7b'
      return .record (entriesToFields (← inlineEntries (value depth)))
    | _ => scalar

/-- Reads the lines up to the next header: assignments, comments and blank
lines. -/
def assignmentLines : Parser (List Assignment) := do
  blankLines
  Parser.many do
    let a ← assignment (value maxDepth)
    restOfLine
    blankLines
    return a

def header : Parser Header := do
  Parser.char '['
  let isRow := (← Parser.optional (Parser.char '[')).isSome
  let path ← key
  Parser.char ']'
  if isRow then Parser.char ']'
  restOfLine
  return if isRow then .row path else .table path

def section? : Parser Section := do
  let header ← header
  let assignments ← assignmentLines
  return { header, assignments }

def sections : Parser (List Assignment × List Section) := do
  discard <| Parser.optional (Parser.char '\uFEFF')
  let first ← assignmentLines
  let later ← Parser.many section?
  discard <| Parser.optional comment
  return (first, later)

/-- The entries of the document with a section added. -/
def addSection (entries : Entries) (s : Section) : Option Entries :=
  match s.header with
  | .table path => do
    let opened ← entries.openTable path
    opened.within path (assignAll s.assignments)
  | .row path => do
    let opened ← entries.openRow path
    opened.within path (assignAll s.assignments)

/-- Reads a document into a record. -/
def parse? (source : String) : Option Value := do
  let (first, later) ← Parser.parseAll? sections source.toList
  let entries ← later.foldlM addSection (← assignAll first [])
  return .record (entriesToFields entries)

end TileWorld.Toml
