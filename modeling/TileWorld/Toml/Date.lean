import TileWorld.Toml.Lexical

/-!
# Dates and times of TOML

A date, a time of day, or both, and with both perhaps an offset. Only their
validity matters here.
-/

namespace TileWorld.Toml

open Text (Parser)

/-- Reads a number of so many decimal digits between two bounds. -/
def numberOf (length lowest largest : Nat) : Parser Nat := do
  let n := ofDigits 10 (← Parser.exactly Char.isDigit length)
  if lowest ≤ n ∧ n ≤ largest then return n else failure

def daysOf (year month : Nat) : Nat :=
  let isLeap := year % 4 = 0 ∧ (year % 100 ≠ 0 ∨ year % 400 = 0)
  if month = 2 then if isLeap then 29 else 28
  else if [4, 6, 9, 11].contains month then 30
  else 31

def date : Parser Unit := do
  let year ← numberOf 4 0 9999
  Parser.char '-'
  let month ← numberOf 2 1 12
  Parser.char '-'
  discard <| numberOf 2 1 (daysOf year month)

def time : Parser Unit := do
  discard <| numberOf 2 0 23
  Parser.char ':'
  discard <| numberOf 2 0 59
  Parser.char ':'
  discard <| numberOf 2 0 60
  discard <| Parser.optional (do Parser.char '.'; discard <| Parser.run1 Char.isDigit)

def offset : Parser Unit := do
  match ← Parser.oneOf ['Z', 'z', '+', '-'] with
  | 'Z' | 'z' => return
  | _ =>
    discard <| numberOf 2 0 23
    Parser.char ':'
    discard <| numberOf 2 0 59

/-- Takes a date, a time of day, or both. -/
def dateTime : Parser Unit :=
  (do
    date
    discard <| Parser.optional do
      discard <| Parser.oneOf ['T', 't', ' ']
      time
      discard <| Parser.optional offset) <|> time

end TileWorld.Toml
