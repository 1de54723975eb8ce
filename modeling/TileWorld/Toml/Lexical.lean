import TileWorld.Text.Parser

/-!
# Characters, strings and keys of TOML

The character classes of the format, its blanks, comments and line ends,
the four kinds of strings, and keys. A line end inside a string is read as
a line feed however it is written.
-/

namespace TileWorld.Toml

open Text (Parser)

def isSpace (c : Char) : Bool := c == ' ' || c == '\t'

/-- Characters that a text may hold at all within a line: the tab, and
everything else but control characters. -/
def isPrintable (c : Char) : Bool :=
  c == '\t' || 0x20 ≤ c.toNat && c.toNat ≤ 0x7E || 0x80 ≤ c.toNat

def spaces : Parser Unit := do discard <| Parser.run isSpace

def newline : Parser Unit := do
  discard <| Parser.optional (Parser.char '\r')
  Parser.char '\n'

/-- Takes a comment without its line end. -/
def comment : Parser Unit := do
  Parser.char '#'
  discard <| Parser.run isPrintable

/-- Takes what may follow a value or a header on its line, and the line's
end. -/
def restOfLine : Parser Unit := do
  spaces
  discard <| Parser.optional comment
  newline <|> Parser.atEnd

/-- Takes blanks, line ends and comments. -/
def blankLines : Parser Unit := do
  discard <| Parser.many <|
    (do discard <| Parser.run1 isSpace) <|> newline <|> (do comment; newline)

def hexDigit? (c : Char) : Option Nat :=
  if '0' ≤ c ∧ c ≤ '9' then some (c.toNat - '0'.toNat)
  else if 'a' ≤ c ∧ c ≤ 'f' then some (c.toNat - 'a'.toNat + 10)
  else if 'A' ≤ c ∧ c ≤ 'F' then some (c.toNat - 'A'.toNat + 10)
  else none

/-- Number written by digits of a base, the most significant first. -/
def ofDigits (base : Nat) (digits : List Char) : Nat :=
  digits.foldl (fun n c => n * base + (hexDigit? c).getD 0) 0

/-- Reads the code point that so many hexadecimal digits name. -/
def codePoint (length : Nat) : Parser Char := do
  let digits ← Parser.exactly (fun c => (hexDigit? c).isSome) length
  let n := ofDigits 16 digits
  if n.isValidChar then return Char.ofNat n else failure

/-- Reads an escape, which starts with a backslash. -/
def escape : Parser Char := do
  Parser.char '\\'
  match ← Parser.oneOf ['b', 't', 'n', 'f', 'r', 'u', 'U', '"', '\\'] with
  | 'b' => return '\x08'
  | 't' => return '\t'
  | 'n' => return '\n'
  | 'f' => return '\x0c'
  | 'r' => return '\r'
  | 'u' => codePoint 4
  | 'U' => codePoint 8
  | c => return c

/-- Characters that stand for themselves in a basic string. -/
def isBasic (c : Char) : Bool := isPrintable c && c != '"' && c != '\\'

/-- Characters of a literal string. -/
def isLiteral (c : Char) : Bool := isPrintable c && c != '\''

/-- Reads a string in double quotes on one line. -/
def basicString : Parser String := do
  Parser.char '"'
  let parts ← Parser.many <| Parser.run1 isBasic <|> (do return [← escape])
  Parser.char '"'
  return String.ofList parts.flatten

/-- Reads a string in single quotes on one line. -/
def literalString : Parser String := do
  Parser.char '\''
  let body ← Parser.run isLiteral
  Parser.char '\''
  return String.ofList body

/-- Takes a backslash at the end of a line, with all blanks and line ends
after it. -/
def lineContinuation : Parser (List Char) := do
  Parser.char '\\'
  spaces
  newline
  discard <| Parser.many <| (do discard <| Parser.run1 isSpace) <|> newline
  return []

/-- Reads one or two quotes that stand before something else than a quote,
inside of a string that three quotes end. -/
def innerQuotes (quote : Char) : Parser (List Char) := do
  let quotes ← Parser.run (· == quote)
  match quotes.length with
  | 1 | 2 => return quotes
  | _ => failure

/-- Reads the end of a string that three quotes end. One or two quotes may
stand before them and belong to the string. -/
def closingQuotes (quote : Char) : Parser (List Char) := do
  let quotes ← Parser.run (· == quote)
  if 3 ≤ quotes.length ∧ quotes.length ≤ 5 then return quotes.drop 3 else failure

/-- Reads a string between triple quotes, made of the given parts, of line
ends and of quotes. A line end right after the opening quotes is dropped. -/
def tripleQuoted (quote : Char) (part : Parser (List Char)) : Parser String := do
  discard <| Parser.exactly (· == quote) 3
  discard <| Parser.optional newline
  let parts ← Parser.many <| part <|> (do newline; return ['\n']) <|> innerQuotes quote
  let last ← closingQuotes quote
  return String.ofList (parts.flatten ++ last)

def string : Parser String :=
  tripleQuoted '"' (Parser.run1 isBasic <|> lineContinuation <|> (do return [← escape])) <|>
    basicString <|> tripleQuoted '\'' (Parser.run1 isLiteral) <|> literalString

/-- Characters of a key without quotes. -/
def isBare (c : Char) : Bool :=
  c.isAlphanum || c == '-' || c == '_'

/-- Largest number of keys or of nested values that a text may hold one in
another. -/
def maxDepth : Nat := 79

def simpleKey : Parser String :=
  basicString <|> literalString <|> (do return String.ofList (← Parser.run1 isBare))

def key : Parser (List String) := do
  let parts ← Parser.separated (do spaces; let k ← simpleKey; spaces; return k) (Parser.char '.')
  if parts.length ≤ maxDepth then return parts else failure

end TileWorld.Toml
