import TileWorld.CommandLine.Option

/-!
# Scanning a command line

Arguments are taken from left to right. The value of an option is attached
to its name with an equals sign, or is the next argument; an argument that
starts with a dash is never a value, unless it is a single dash. A value of
the second sort stays pending, and is only read once the next option has
been recognized or the arguments are at an end. So a faulty value is passed
over for an unknown argument right after it, but not for a request for help.
-/

namespace TileWorld.CommandLine

/-- What a scan has found so far. -/
structure Scan where
  /-- Options and their values, latest first. -/
  found : List (String × OptionValue) := []
  /-- An option whose value has not been read, and the value unless it is
  still to come. -/
  pending : Option (OptionSpec × Option String) := none
  deriving Repr

namespace Scan

def isAwaiting (s : Scan) : Bool :=
  match s.pending with
  | some (_, none) => true
  | _ => false

def record (s : Scan) (o : OptionSpec) (v : OptionValue) : Scan :=
  { s with found := (o.name, v) :: s.found }

def has (s : Scan) (o : OptionSpec) : Bool :=
  s.found.any (·.1 == o.name)

/-- Reads the value of an option that may only be given once. -/
def assign (s : Scan) (o : OptionSpec) (value : String) : Except UsageError Scan :=
  if s.has o then .error (.repeated o) else (o.read value).map (s.record o)

/-- The scan with its pending value read. -/
def settle (s : Scan) : Except UsageError Scan :=
  match s.pending with
  | none => .ok s
  | some (o, none) => .error (.missingValue o)
  | some (o, some value) => { s with pending := none }.assign o value

/-- The scan after an option has been recognized, perhaps with a value
attached to it. A request for help halts the scan. -/
def meet (s : Scan) (o : OptionSpec) (attached : Option String) : Except Halt Scan :=
  match o.kind, attached with
  | .switch, some value | .help _, some value => throw (.refused (.unexpectedValue o value))
  | .switch, none => do
    let s ← s.settle
    if s.has o then throw (.refused (.repeated o)) else return s.record o .on
  | .help command, none => do
    discard s.settle
    throw (.help command)
  | _, some value => do (← s.settle).assign o value
  | _, none => do return { (← s.settle) with pending := some (o, none) }

/-- The name of an option as written, and the value attached to it. -/
def splitName (s : List Char) : String × Option String :=
  match s.span (· != '=') with
  | (name, _ :: value) => (String.ofList name, some (String.ofList value))
  | (name, []) => (String.ofList name, none)

/-- The scan after letters of options behind a single dash. The letter of an
option with a value takes all that follows for its value. -/
def meetLetters (specs : List OptionSpec) (argument : String) :
    List Char → Scan → Except Halt Scan
  | [], s => .ok s
  | c :: rest, s =>
    match specs.find? (·.letter == some c) with
    | none => throw (.refused (.unknownArgument argument))
    | some o =>
      match o.kind, rest with
      | .switch, _ | .help _, _ => do meetLetters specs argument rest (← s.meet o none)
      | _, [] => s.meet o none
      | _, '=' :: value => s.meet o (some (String.ofList value))
      | _, value => s.meet o (some (String.ofList value))

/-- Scans arguments up to the name of a command, which is answered together
with the arguments after it. Two dashes end the options; nothing may follow
them. -/
def arguments (specs : List OptionSpec) (commands : List String) :
    List String → Scan → Except Halt (Scan × Option (String × List String))
  | [], s => .ok (s, none)
  | argument :: rest, s =>
    if !s.isAwaiting && commands.contains argument then .ok (s, some (argument, rest))
    else
      match argument.toList with
      | ['-', '-'] =>
        match rest with
        | [] => .ok (s, none)
        | extra :: _ => throw (.refused (.unknownArgument extra))
      | '-' :: '-' :: text =>
        let (name, attached) := splitName text
        match specs.find? (·.name == name) with
        | none => throw (.refused (.unknownArgument argument))
        | some o => do arguments specs commands rest (← s.meet o attached)
      | '-' :: c :: letters => do
        arguments specs commands rest (← meetLetters specs argument (c :: letters) s)
      | _ =>
        match s.pending with
        | some (o, none) => arguments specs commands rest { s with pending := some (o, some argument) }
        | _ => throw (.refused (.unknownArgument argument))

def value? (s : Scan) (o : OptionSpec) : Option OptionValue :=
  s.found.lookup o.name

def isOn (s : Scan) (o : OptionSpec) : Bool :=
  (s.value? o).isSome

def path? (s : Scan) (o : OptionSpec) : Option String :=
  match s.value? o with
  | some (.path name) => some name
  | _ => none

def position (s : Scan) (o : OptionSpec) : Except UsageError Position :=
  match s.value? o with
  | some (.position p) => .ok p
  | _ => .error (.missing o)

def integer? (s : Scan) (o : OptionSpec) : Option Int :=
  match s.value? o with
  | some (.integer n) => some n
  | _ => none

end Scan

end TileWorld.CommandLine
