import TileWorld.CommandLine.Help
import TileWorld.Layout.Build
import TileWorld.Layout.Reader
import TileWorld.Route.Pathfinder
import TileWorld.Settings

/-!
# Running a command line

A run is a function of the arguments and of the files at hand. It
ends with what goes to standard output, with a refusal of the command line,
with a failure that has a chain of causes, or broken off by a search that
fails. Help is output as well.
-/

namespace TileWorld.CommandLine

/-- Why a run fails, and what lies behind it. Each cause is the reason for
the one before it. -/
structure Failure where
  what : String
  causes : List String
  deriving DecidableEq, Repr

namespace Failure

/-- The causes as lines. Several causes are numbered. -/
def causeLines : List String → List String
  | [cause] => ["    " ++ cause]
  | causes => causes.zipIdx.map fun (cause, i) => s!"    {i}: {cause}"

def message (f : Failure) : String :=
  let title := s!"Error: {f.what}"
  match f.causes with
  | [] => title
  | causes => "\n".intercalate (title :: "" :: "Caused by:" :: causeLines causes)

end Failure

/-- How a run ends. -/
inductive Outcome where
  | success (output : String)
  | refused (error : UsageError)
  | failed (failure : Failure)
  /-- A search came upon an extra cost that is no word. -/
  | aborted
  deriving DecidableEq, Repr

namespace Outcome

def exitCode : Outcome → UInt8
  | success _ => 0
  | refused _ => 2
  | failed _ => 1
  | aborted => 101

def output : Outcome → String
  | success output => output
  | _ => ""

def errorText : Outcome → String
  | success _ => ""
  | refused error => error.message
  | failed failure => failure.message
  | aborted => "attempt to add with overflow"

end Outcome

/-- Why a file cannot be read as a text. -/
inductive FileFault where
  | missing
  | denied
  | directory
  /-- What stands before a slash is no directory. -/
  | notDirectory
  | nameTooLong
  /-- The file is there, but its bytes are no text. -/
  | notText
  | other (reason : String)
  deriving DecidableEq, Repr

def FileFault.message : FileFault → String
  | missing => "No such file or directory (os error 2)"
  | denied => "Permission denied (os error 13)"
  | directory => "Is a directory (os error 21)"
  | notDirectory => "Not a directory (os error 20)"
  | nameTooLong => "File name too long (os error 36)"
  | notText => "stream did not contain valid UTF-8"
  | other reason => reason

/-- The files at hand: the text of each by its name. -/
abbrev Files := String → Except FileFault String

/-- Reads a settings file; without one, everything keeps its default. -/
def loadSettings (files : Files) : Option String → Except Failure Settings
  | none => .ok {}
  | some name =>
    match files name with
    | .error fault => .error ⟨s!"failed to read settings file {name}", [fault.message]⟩
    | .ok text =>
      (Settings.parse text).mapError fun e => ⟨s!"invalid settings in {name}", e.chain⟩

def loadLayout (files : Files) (name : String) : Except Failure Layout :=
  match files name with
  | .error fault => .error ⟨s!"failed to read layout {name}", [fault.message]⟩
  | .ok text => (Layout.parse text).mapError fun e => ⟨s!"invalid layout {name}", e.chain⟩

/-- The answer to a request for a route: the route in two lines, or one line
if there is none or it has no steps. -/
def routeLines (source target : Position) : Option Route → List String
  | none => [s!"no path {source.text} -> {target.text}"]
  | some r =>
    let summary := s!"path {source.text} -> {r.destination.text}: " ++
      s!"cost {r.cost.toNat}, {r.directions.length} steps"
    if r.directions.isEmpty then [summary]
    else [summary, "  " ++ " ".intercalate (r.directions.map Direction.name)]

def spectatorLine (w : World) (id : OccupantId) : Option String :=
  (w.resident? id).map fun r =>
    let role := if r.occupant.isPlayer then "player" else "creature"
    s!"  #{id.val.toNat} {role} at {r.position.text}"

/-- The answer to a request. There is none if its search fails. -/
def answer (settings : Settings) (w : World) : Command → Option (List String)
  | .path source target minDistance maxDistance maxSearch orthogonal clearSight player =>
    let params : SearchParams :=
      { maxSearch, minTarget := minDistance, maxTarget := maxDistance
        allowDiagonal := !orthogonal, clearSight }
    let mover := if player then Occupant.player else Occupant.creature
    let condition : TargetCondition := { target }
    let found := (Pathfinder.fresh settings.pathfinder).find w mover source
      condition.toPathCondition params
    found.map fun (_, report) => routeLines source target report.route
  | .sight source target floorPenalty =>
    let verdict := if w.canSee source target floorPenalty then "visible" else "blocked"
    some [s!"{source.text} -> {target.text}: {verdict}"]
  | .spectators center rangeX rangeY playersOnly singleFloor =>
    let x := (rangeX.map Int32.toInt).getD settings.world.viewportX.toNat
    let y := (rangeY.map Int32.toInt).getD settings.world.viewportY.toNat
    let found := w.spectators center (!singleFloor) playersOnly (.symmetric x y)
    let title := s!"{found.size} spectators of {center.text}"
    some (title :: found.ids.filterMap (spectatorLine w))

def unlines (lines : List String) : String :=
  String.join (lines.map (· ++ "\n"))

/-- The output of a request, whose settings are read before its layout. -/
def perform (files : Files) (r : Request) : Except Failure (Option String) := do
  let settings ← loadSettings files r.config
  let layout ← loadLayout files r.layout
  let world ← (layout.build settings.world).mapError fun e => ⟨e.message, e.chain.drop 1⟩
  return (answer settings world r.command).map unlines

def run (files : Files) (arguments : List String) : Outcome :=
  match Request.ofArguments arguments with
  | .error (.refused error) => .refused error
  | .error (.help command) => .success (unlines (Help.lines command))
  | .ok request =>
    match perform files request with
    | .ok (some output) => .success output
    | .ok none => .aborted
    | .error failure => .failed failure

end TileWorld.CommandLine
