import TileWorld.CommandLine.Scan

/-!
# Requests on the command line

A command line names a layout, perhaps a settings file, and one of three
commands, or it asks for help. `Request.ofArguments` reads it. What a command
itself lacks is noticed before what its surroundings lack.
-/

namespace TileWorld.CommandLine

/-- What to ask about a world. -/
inductive Command where
  /-- A route between two cells of one floor. -/
  | path (source target : Position) (minDistance maxDistance : Int32) (maxSearch : UInt16)
      (orthogonal clearSight player : Bool)
  /-- Whether one cell can see another. -/
  | sight (source target : Position) (floorPenalty : UInt8)
  /-- Who observes a cell. Without a range, the viewport counts. -/
  | spectators (center : Position) (rangeX rangeY : Option Int32)
      (playersOnly singleFloor : Bool)
  deriving DecidableEq, Repr

/-- A command, and the files to take world and settings from. -/
structure Request where
  layout : String
  config : Option String
  command : Command
  deriving DecidableEq, Repr

/-! ## The options -/

namespace Options

def switch (name summary : String) : OptionSpec :=
  { name, summary, kind := .switch }

def position (name summary : String) : OptionSpec :=
  { name, summary, kind := .position, required := true }

def integer (name : String) (lowest largest : Int) (summary : String) : OptionSpec :=
  { name, summary, kind := .integer lowest largest }

def integer32 (name summary : String) : OptionSpec :=
  integer name (-2147483648) 2147483647 summary

def help (command : Option String) : OptionSpec :=
  { name := "help", letter := some 'h', kind := .help command, summary := "Print help" }

def layout : OptionSpec :=
  { name := "layout", letter := some 'l', kind := .path, required := true
    summary := "Layout file describing the cells to load" }

def config : OptionSpec :=
  { name := "config", letter := some 'c', kind := .path
    summary := "TOML file with optional [world] and [pathfinder] tables" }

def source : OptionSpec := position "from" "Start cell as x,y,z"

def target : OptionSpec := position "to" "Target cell as x,y,z"

def center : OptionSpec := position "at" "Observed position as x,y,z"

def minDistance : OptionSpec :=
  integer32 "min-distance" "Smallest acceptable distance to the target, zero by default"

def maxDistance : OptionSpec :=
  integer32 "max-distance" "Largest acceptable distance to the target, zero by default"

def maxSearch : OptionSpec :=
  integer "max-search" 0 65535 "Caps the column and row distance from the start, if not zero"

def orthogonal : OptionSpec := switch "orthogonal" "Forbids diagonal steps after the first one"

def clearSight : OptionSpec :=
  switch "clear-sight" "Requires a clear line from the destination to the target"

def player : OptionSpec := switch "player" "Plans as a player, who may cross protection zones"

def floorPenalty : OptionSpec :=
  integer "floor-penalty" 0 255 "Floors that the eye may sink and its line may climb"

def rangeX : OptionSpec := integer32 "range-x" "Horizontal reach, by default that of the viewport"

def rangeY : OptionSpec := integer32 "range-y" "Vertical reach, by default that of the viewport"

def playersOnly : OptionSpec := switch "players-only" "Only reports players"

def singleFloor : OptionSpec :=
  switch "single-floor" "Only inspects the floor of the observed position"

end Options

/-! ## Reading requests -/

namespace Command

def summaries : List (String × String) :=
  [("path", "Searches a route between two cells of one floor"),
    ("sight", "Tests whether one cell can see another"),
    ("spectators", "Lists occupants that observe a cell")]

def names : List String := summaries.map (·.1)

def specs (name : String) : List OptionSpec :=
  let own := match name with
    | "path" =>
      [Options.source, Options.target, Options.minDistance, Options.maxDistance,
        Options.maxSearch, Options.orthogonal, Options.clearSight, Options.player]
    | "sight" => [Options.source, Options.target, Options.floorPenalty]
    | _ =>
      [Options.center, Options.rangeX, Options.rangeY, Options.playersOnly, Options.singleFloor]
  own ++ [Options.help (some name)]

/-- The command of a name with the options found for it. -/
def ofScan (name : String) (s : Scan) : Except UsageError Command := do
  match name with
  | "path" =>
    let source ← s.position Options.source
    let target ← s.position Options.target
    let minDistance := Int32.ofInt ((s.integer? Options.minDistance).getD 0)
    let maxDistance := Int32.ofInt ((s.integer? Options.maxDistance).getD 0)
    let maxSearch := UInt16.ofNat ((s.integer? Options.maxSearch).getD 0).toNat
    return .path source target minDistance maxDistance maxSearch (s.isOn Options.orthogonal)
      (s.isOn Options.clearSight) (s.isOn Options.player)
  | "sight" =>
    let source ← s.position Options.source
    let target ← s.position Options.target
    return .sight source target (UInt8.ofNat ((s.integer? Options.floorPenalty).getD 0).toNat)
  | _ =>
    let center ← s.position Options.center
    return .spectators center ((s.integer? Options.rangeX).map Int32.ofInt)
      ((s.integer? Options.rangeY).map Int32.ofInt) (s.isOn Options.playersOnly)
      (s.isOn Options.singleFloor)

/-- Reads the arguments after the name of a command. -/
def ofArguments (name : String) (arguments : List String) : Except Halt Command := do
  let (s, _) ← Scan.arguments (specs name) [] arguments {}
  ofScan name (← s.settle)

end Command

namespace Request

def specs : List OptionSpec := [Options.layout, Options.config, Options.help none]

def helpName : String := "help"

/-- What the names after the request for help ask for. -/
def helpTopic : List String → Halt
  | [] => .help none
  | name :: rest =>
    if Command.names.contains name then
      match rest with
      | [] => .help (some name)
      | extra :: _ => .refused (.unknownArgument extra)
    else if name = helpName ∧ rest = [] then .help none
    else .refused (.unknownArgument name)

/-- Reads a command line. -/
def ofArguments (arguments : List String) : Except Halt Request := do
  let (s, rest) ← Scan.arguments specs (helpName :: Command.names) arguments {}
  match rest with
  | none =>
    discard s.settle
    throw (.refused .missingCommand)
  | some (name, arguments) =>
    if name = helpName then throw (helpTopic arguments)
    let command ← Command.ofArguments name arguments
    let s ← s.settle
    match s.path? Options.layout with
    | none => throw (.refused (.missing Options.layout))
    | some layout => return { layout, config := s.path? Options.config, command }

end Request

end TileWorld.CommandLine
