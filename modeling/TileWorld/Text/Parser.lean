/-!
# Parsers

A parser takes characters from the front of a text, or fails and leaves
the choice to an alternative. Repetition takes at most as many turns as
there are characters left, which is enough for parsers that take something
in every turn.
-/

namespace TileWorld.Text

/-- Reads a value from the front of a text. -/
abbrev Parser (α : Type) := StateT (List Char) Option α

namespace Parser

/-- Reads a value from a whole text. -/
def parseAll? {α : Type} (p : Parser α) (s : List Char) : Option α :=
  match p s with
  | some (a, []) => some a
  | _ => none

/-- Takes a character of a class. -/
def satisfy (accepts : Char → Bool) : Parser Char := fun s =>
  match s with
  | c :: rest => if accepts c then some (c, rest) else none
  | [] => none

def char (c : Char) : Parser Unit := do
  discard <| satisfy (· == c)

def oneOf (cs : List Char) : Parser Char := satisfy cs.contains

def word (w : String) : Parser Unit :=
  w.toList.forM char

/-- Takes the longest run of characters of a class. -/
def run (accepts : Char → Bool) : Parser (List Char) := fun s =>
  some (s.span accepts)

/-- Takes the longest run of characters of a class, which is not empty. -/
def run1 (accepts : Char → Bool) : Parser (List Char) := do
  return (← satisfy accepts) :: (← run accepts)

/-- Takes exactly so many characters of a class. -/
def exactly (accepts : Char → Bool) : Nat → Parser (List Char)
  | 0 => return []
  | n + 1 => do return (← satisfy accepts) :: (← exactly accepts n)

/-- The next character, which stays where it is. -/
def peek? : Parser (Option Char) := fun s => some (s.head?, s)

def atEnd : Parser Unit := fun s => if s.isEmpty then some ((), s) else none

def optional {α : Type} (p : Parser α) : Parser (Option α) :=
  (some <$> p) <|> pure none

/-- Reads values one after another, at most as many as the list given has
elements. -/
def upTo {α : Type} (p : Parser α) : List Char → Parser (List α)
  | [] => return []
  | _ :: turns => do
    match ← optional p with
    | none => return []
    | some a => return a :: (← upTo p turns)

/-- Reads values one after another, as many as there are. -/
def many {α : Type} (p : Parser α) : Parser (List α) := do
  upTo p (← get)

/-- Reads values with a separator between each two of them, one at least. -/
def separated {α : Type} (p : Parser α) (separator : Parser Unit) : Parser (List α) := do
  let first ← p
  let rest ← many do
    separator
    p
  return first :: rest

end Parser

end TileWorld.Text
