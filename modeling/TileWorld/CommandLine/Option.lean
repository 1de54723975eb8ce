import TileWorld.Position
import TileWorld.Text.Blank
import TileWorld.Text.Numeral
import TileWorld.Text.Terminal

/-!
# Options of a command line

An option has a name, which is written after two dashes, and perhaps a
letter, which is written after one. A switch stands for itself, and so does a
request for help. Every other option has a value, which must be one of the
option's kind.
-/

namespace TileWorld.CommandLine

/-- Kinds of options. -/
inductive OptionKind where
  | switch
  /-- A switch that asks for help, about one command or about all. -/
  | help (command : Option String)
  | path
  | position
  /-- An integer between two bounds. -/
  | integer (lowest largest : Int)
  deriving DecidableEq, Repr

/-- An option that a command line may have. -/
structure OptionSpec where
  name : String
  letter : Option Char := none
  kind : OptionKind
  /-- The option has to be given. -/
  required : Bool := false
  /-- What the option is for. -/
  summary : String
  deriving DecidableEq, Repr

/-- The value of an option that was given. -/
inductive OptionValue where
  | on
  | path (name : String)
  | position (p : Position)
  | integer (n : Int)
  deriving DecidableEq, Repr

/-- Why a command line is refused. -/
inductive UsageError where
  /-- The text is no value of the option, for a reason. -/
  | invalidValue (option : OptionSpec) (value reason : String)
  | missingValue (option : OptionSpec)
  | unexpectedValue (option : OptionSpec) (value : String)
  | repeated (option : OptionSpec)
  | missing (option : OptionSpec)
  | unknownArgument (argument : String)
  | missingCommand
  deriving DecidableEq, Repr

/-- Why the arguments are read no further and make no request. -/
inductive Halt where
  | refused (error : UsageError)
  /-- Help was asked for, about one command or about all. -/
  | help (command : Option String)
  deriving DecidableEq, Repr

/-- A refusal halts the reading. -/
instance : MonadLift (Except UsageError) (Except Halt) where
  monadLift x := x.mapError .refused

namespace OptionSpec

def shown (o : OptionSpec) : String :=
  match o.kind with
  | .switch | .help _ => s!"--{o.name}"
  | _ =>
    let word := o.name.toUpper.replace "-" "_"
    s!"--{o.name} <{word}>"

end OptionSpec

namespace UsageError

/-- What is wrong, for a terminal. Options are bold, and what is refused is
yellow. -/
def reason : UsageError → String
  | invalidValue o value reason =>
    let refused := Text.styled [.yellow] value
    let shown := Text.styled [.bold] o.shown
    s!"invalid value '{refused}' for '{shown}': {reason}"
  | missingValue o =>
    let shown := Text.styled [.bold] o.shown
    s!"a value is required for '{shown}' but none was supplied"
  | unexpectedValue o value =>
    let refused := Text.styled [.yellow] value
    let shown := Text.styled [.bold] o.shown
    s!"unexpected value '{refused}' for '{shown}'"
  | repeated o =>
    let refused := Text.styled [.yellow] o.shown
    s!"the argument '{refused}' cannot be used multiple times"
  | missing o =>
    let shown := Text.styled [.bold] o.shown
    s!"the argument '{shown}' was not provided"
  | unknownArgument argument =>
    let refused := Text.styled [.yellow] argument
    s!"unexpected argument '{refused}'"
  | missingCommand => "a command is required but none was provided"

def notice (e : UsageError) : String :=
  let heading := Text.styled [.bold, .red] "error:"
  let help := Text.styled [.bold] "--help"
  s!"{heading} {e.reason}\n\nFor more information, try '{help}'."

/-- Text of the refusal. A control sequence in an argument is taken away
along with those of the notice, and one that is still open at the end of the
argument takes some of the notice with it. -/
def message (e : UsageError) : String :=
  Text.plain e.notice

end UsageError

def commaParts (s : List Char) : List (List Char) :=
  s.splitOnP (· == ',')

/-- Reads a position written as column, row and floor with commas between
them. Blanks around the three numbers do not count. -/
def readPosition (value : String) : Except String Position :=
  match (commaParts value.toList).map Text.trim with
  | [x, y, z] =>
    match Text.numeral16? x, Text.numeral16? y, Text.numeral8? z with
    | none, _, _ => .error s!"invalid column '{String.ofList x}'"
    | _, none, _ => .error s!"invalid row '{String.ofList y}'"
    | _, _, none => .error s!"invalid floor '{String.ofList z}'"
    | some x, some y, some z => .ok ⟨x, y, z⟩
  | _ => .error s!"expected x,y,z but got '{value}'"

/-- Reads an integer between two bounds. It must be one of sixty-four bits
before it is compared with them. -/
def readInteger (lowest largest : Int) (value : String) : Except String Int :=
  match Text.numeral (-9223372036854775808) 9223372036854775807 value.toList with
  | .error fault => .error fault.message
  | .ok n =>
    if lowest ≤ n ∧ n ≤ largest then .ok n
    else .error s!"{n} is not in {lowest}..={largest}"

namespace OptionSpec

def read (o : OptionSpec) (value : String) : Except UsageError OptionValue :=
  match o.kind with
  | .switch | .help _ => .error (.unexpectedValue o value)
  | .path => if value.isEmpty then .error (.missingValue o) else .ok (.path value)
  | .position => ((readPosition value).map .position).mapError (.invalidValue o value)
  | .integer lowest largest =>
    ((readInteger lowest largest value).map .integer).mapError (.invalidValue o value)

end OptionSpec

end TileWorld.CommandLine
