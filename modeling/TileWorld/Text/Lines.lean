/-!
# Lines of a text

A line ends at a line feed, and a carriage return directly before the line
feed belongs to the line's end. A carriage return anywhere else is part of
its line. What follows the last line feed is a line unless it is empty.
-/

namespace TileWorld.Text

/-- A line without the carriage return at its end, given and answered with
its last character first. -/
def withoutReturn : List Char → List Char
  | '\r' :: line => line
  | line => line

/-- The lines of a text whose first line continues the given one, which is
held with its last character first. -/
def linesAfter : (line : List Char) → List Char → List (List Char)
  | [], [] => []
  | line, [] => [line.reverse]
  | line, '\n' :: rest => (withoutReturn line).reverse :: linesAfter [] rest
  | line, c :: rest => linesAfter (c :: line) rest

def lines (s : List Char) : List (List Char) :=
  linesAfter [] s

end TileWorld.Text
