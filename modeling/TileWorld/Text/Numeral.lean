/-!
# Decimal numerals

A numeral is a run of ASCII digits, with a sign in front if it likes: a
plus always, a minus if the range of the numbers asked for has negative
ones. Reading stops at the first fault, so a numeral that leaves the range
is too large even if something else than a digit follows.
-/

namespace TileWorld.Text

/-- Why a text is no numeral of the range asked for. -/
inductive NumeralFault where
  | empty
  | invalidDigit
  | tooLarge
  | tooSmall
  deriving DecidableEq, Repr

namespace NumeralFault

def message : NumeralFault → String
  | empty => "cannot parse integer from empty string"
  | invalidDigit => "invalid digit found in string"
  | tooLarge => "number too large to fit in target type"
  | tooSmall => "number too small to fit in target type"

end NumeralFault

def digit? (c : Char) : Option Nat :=
  if '0' ≤ c ∧ c ≤ '9' then some (c.toNat - '0'.toNat) else none

/-- Reads the digits that follow a number read so far, none of them beyond
the limit. -/
def digits (limit : Nat) (fault : NumeralFault) (value : Nat) :
    List Char → Except NumeralFault Nat
  | [] => .ok value
  | c :: rest =>
    match digit? c with
    | none => .error .invalidDigit
    | some d =>
      if limit < value * 10 + d then .error fault
      else digits limit fault (value * 10 + d) rest

/-- Reads the numeral of a number from `lowest` to `largest`. -/
def numeral (lowest largest : Int) (s : List Char) : Except NumeralFault Int :=
  let positive (s : List Char) : Except NumeralFault Int :=
    (digits largest.toNat .tooLarge 0 s).map Int.ofNat
  match s with
  | [] => .error .empty
  | ['+'] | ['-'] => .error .invalidDigit
  | '+' :: rest => positive rest
  | '-' :: rest =>
    if lowest < 0 then (digits (-lowest).toNat .tooSmall 0 rest).map fun n => -(n : Int)
    else .error .invalidDigit
  | _ => positive s

def numeral8? (s : List Char) : Option UInt8 :=
  (numeral 0 255 s).toOption.map fun n => UInt8.ofNat n.toNat

def numeral16? (s : List Char) : Option UInt16 :=
  (numeral 0 65535 s).toOption.map fun n => UInt16.ofNat n.toNat

end TileWorld.Text
