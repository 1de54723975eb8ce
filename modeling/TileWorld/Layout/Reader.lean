import TileWorld.Layout.Basic
import TileWorld.Text.Blank
import TileWorld.Text.Lines
import TileWorld.Text.Numeral

/-!
# Reading layouts

Every line of a layout is a header or a row. A header is the word `floor`,
a space and a floor number; the rows after it are drawn on that floor from
its first row on. Rows before any header belong to the ground level. In a
row each character stands for the cell of its column, a space for none.
A blank line is a row without tiles.

Reading stops at the first line with a fault, and within a row at the
first character with one.
-/

namespace TileWorld.Layout

/-- Where the next row is drawn. -/
structure Cursor where
  floor : UInt8 := surfaceFloor
  row : Nat := 0
  deriving DecidableEq, Repr

def headerWord : List Char := "floor ".toList

/-- The text after the word of a header, if the line is one. -/
def header? (line : List Char) : Option (List Char) :=
  let text := Text.trim line
  if headerWord.isPrefixOf text then some (Text.trim (text.drop headerWord.length)) else none

def readFloor (value : List Char) (line : Nat) : Except LayoutError UInt8 :=
  match Text.numeral8? value with
  | some floor =>
    if floor ≤ lastFloor then .ok floor
    else .error (.invalidFloor (String.ofList value) line)
  | none => .error (.invalidFloor (String.ofList value) line)

/-- The tiles of a row from a column on. -/
def readGlyphs (floor : UInt8) (y : UInt16) (line : Nat) :
    (column : Nat) → List Char → Except LayoutError (List Placement)
  | _, [] => .ok []
  | column, glyph :: rest =>
    if glyph = ' ' then readGlyphs floor y line (column + 1) rest
    else
      match Tile.ofGlyph? glyph, coordinate? column with
      | none, _ => .error (.unknownGlyph glyph line (column + 1))
      | some _, none => .error (.tooLarge line)
      | some tile, some x => do
        let later ← readGlyphs floor y line (column + 1) rest
        return ⟨⟨x, y, floor⟩, tile⟩ :: later

/-- Reads one line: where the next row is drawn, and the tiles of this one. -/
def readLine (cursor : Cursor) (line : Nat) (text : List Char) :
    Except LayoutError (Cursor × List Placement) :=
  match header? text with
  | some value => do
    let floor ← readFloor value line
    return ({ floor }, [])
  | none =>
    match coordinate? cursor.row with
    | none => .error (.tooLarge line)
    | some y => do
      let tiles ← readGlyphs cursor.floor y line 0 (Text.trimEnd text)
      return ({ cursor with row := cursor.row + 1 }, tiles)

/-- Reads the lines from one with the given number on. -/
def readLines : Cursor → (line : Nat) → List (List Char) → Except LayoutError (List Placement)
  | _, _, [] => .ok []
  | cursor, line, text :: rest => do
    let (cursor, tiles) ← readLine cursor line text
    let later ← readLines cursor (line + 1) rest
    return tiles ++ later

def parse (source : String) : Except LayoutError Layout := do
  let tiles ← readLines {} 1 (Text.lines source.toList)
  if tiles.isEmpty then throw .empty else return { tiles }

end TileWorld.Layout
