import TileWorld.Toml.Lexical

/-!
# Numbers of TOML

Integers are decimal, hexadecimal, octal or binary, and single underscores
may stand between digits. An integer fits sixty-four bits. A number with a
fraction or an exponent is none, but it must not be too large for a binary
number of double precision.
-/

namespace TileWorld.Toml

open Text (Parser)

/-- Reads digits of a class with single underscores between them, and
drops the underscores. -/
def grouped (isDigit : Char → Bool) : Parser (List Char) := do
  let first ← Parser.satisfy isDigit
  let rest ← Parser.many <| Parser.satisfy isDigit <|> (do Parser.char '_'; Parser.satisfy isDigit)
  return first :: rest

/-- The optional sign of a number. It is negative after a minus. -/
def isNegative : Parser Bool := do
  return (← Parser.optional (Parser.oneOf ['+', '-'])) == some '-'

/-- Reads the digits of a decimal integer. Zero is the only one that
starts with a zero. -/
def decimalDigits : Parser (List Char) := do
  match ← Parser.peek? with
  | some '0' =>
    Parser.char '0'
    return ['0']
  | _ => grouped Char.isDigit

/-- An integer of sixty-four bits. -/
def fitting (n : Int) : Parser Int :=
  if -9223372036854775808 ≤ n ∧ n ≤ 9223372036854775807 then return n else failure

def decimalInteger : Parser Int := do
  let negative ← isNegative
  let n := ofDigits 10 (← decimalDigits)
  fitting (if negative then -(n : Int) else n)

/-- Reads an integer of a base that is named in front of its digits. -/
def basedInteger (mark : String) (base : Nat) : Parser Int := do
  Parser.word mark
  fitting (ofDigits base (← grouped fun c => (hexDigit? c).any (· < base)))

def integer : Parser Int :=
  basedInteger "0x" 16 <|> basedInteger "0o" 8 <|> basedInteger "0b" 2 <|> decimalInteger

/-- The least number that rounds to no finite number of double precision:
the midpoint between the largest finite one and the next power of two. -/
def doubleLimit : Nat := Nat.pow 2 1024 - Nat.pow 2 970

/-- The decimal number with the given digits and exponent of ten is too
large for double precision. The number of digits decides at once unless it
is close to that of the limit. -/
def exceedsDouble (digits : List Char) (exponent : Int) : Bool :=
  let significant := digits.dropWhile (· == '0')
  let magnitude := significant.length + exponent
  if significant.isEmpty || magnitude < 300 then false
  else if 320 < magnitude then true
  else
    let n := ofDigits 10 significant
    if 0 ≤ exponent then doubleLimit ≤ n * Nat.pow 10 exponent.toNat
    else doubleLimit * Nat.pow 10 (-exponent).toNat ≤ n

/-- The size of the exponent that is written by the digits. It stays a small
number: a digit counts only as long as the size is below a bound, which is
far beyond all exponents of double precision. -/
def exponentSize (digits : List Char) : Nat :=
  digits.foldl (fun n c => if n < 65536 then 10 * n + ofDigits 10 [c] else n) 0

def exponent : Parser Int := do
  discard <| Parser.oneOf ['e', 'E']
  let negative ← isNegative
  let n := exponentSize (← grouped Char.isDigit)
  return if negative then -(n : Int) else n

/-- Takes a number with a fraction or an exponent. -/
def decimalFraction : Parser Unit := do
  let negative ← isNegative
  let whole ← decimalDigits
  let fraction ← Parser.optional (do Parser.char '.'; grouped Char.isDigit)
  let power ← if fraction.isSome then (·.getD 0) <$> Parser.optional exponent else exponent
  let places := fraction.getD []
  if !negative && exceedsDouble (whole ++ places) (power - places.length) then failure

/-- Takes the name of infinity or of what is no number. -/
def specialNumber : Parser Unit := do
  discard isNegative
  Parser.word "inf" <|> Parser.word "nan"

end TileWorld.Toml
