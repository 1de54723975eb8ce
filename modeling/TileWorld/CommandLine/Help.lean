import TileWorld.CommandLine.Request

/-!
# Help

The text that explains all commands, or the options of one. It is made of
the options that the reading of a command line goes by.
-/

namespace TileWorld.CommandLine

/-- Lines of two columns. The second starts behind the longest entry of the
first. -/
def twoColumns (rows : List (String × String)) : List String :=
  let width := (rows.map (·.1.length)).foldl max 0 + 2
  rows.map fun (left, right) => left.pushn ' ' (width - left.length) ++ right

namespace OptionSpec

def entry (o : OptionSpec) : String × String :=
  match o.letter with
  | some c => (s!"  -{c}, {o.shown}", o.summary)
  | none => (s!"      {o.shown}", o.summary)

end OptionSpec

namespace Help

/-- What all commands have in common. -/
def about : String := "Query paths, sight lines and spectators on an ASCII layout"

def requiredOptions (specs : List OptionSpec) : List String :=
  (specs.filter (·.required)).map OptionSpec.shown

def usage (command : Option String) : List String :=
  let outer := requiredOptions Request.specs
  match command with
  | none => ["tileworld", "[OPTIONS]"] ++ outer ++ ["<COMMAND>"]
  | some name =>
    ["tileworld"] ++ outer ++ [name, "[OPTIONS]"] ++ requiredOptions (Command.specs name)

def optionLines (specs : List OptionSpec) : List String :=
  "Options:" :: twoColumns (specs.map OptionSpec.entry)

def commandLines : List String :=
  let rows := Command.summaries ++ [(Request.helpName, "Print help, about a command if it is named")]
  "Commands:" :: twoColumns (rows.map fun (name, summary) => ("  " ++ name, summary))

/-- The lines of the help about a command, or about all. -/
def lines (command : Option String) : List String :=
  let call := ["", "Usage: " ++ " ".intercalate (usage command), ""]
  match command with
  | none => about :: call ++ commandLines ++ [""] ++ optionLines Request.specs
  | some name =>
    (Command.summaries.lookup name).getD about :: call ++ optionLines (Command.specs name)

end Help

end TileWorld.CommandLine
