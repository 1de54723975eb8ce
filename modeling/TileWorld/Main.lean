import TileWorld.CommandLine.Run

/-!
# The program

Reads the files that the command line names and performs it.
-/

namespace TileWorld

open CommandLine (FileFault Request)

/-- What a fault of the system means for a file that was to be read. -/
def fileFault : IO.Error → FileFault
  | .noFileOrDirectory .. => .missing
  | .permissionDenied .. => .denied
  | .inappropriateType none _ _ => .directory
  | .inappropriateType (some _) _ _ => .notDirectory
  | .invalidArgument _ _ "name too long" => .nameTooLong
  | error => .other (toString error)

/-- The text of a file. -/
def readText (name : String) : IO (Except FileFault String) := do
  match ← (IO.FS.readBinFile name).toBaseIO with
  | .error error => return .error (fileFault error)
  | .ok bytes =>
    match String.fromUTF8? bytes with
    | some text => return .ok text
    | none => return .error .notText

/-- The files that a command line names, each with its text. -/
def namedFiles (arguments : List String) : IO (List (String × Except FileFault String)) := do
  match Request.ofArguments arguments with
  | .error _ => return []
  | .ok request =>
    (request.layout :: request.config.toList).mapM fun name => return (name, ← readText name)

end TileWorld

/-- Runs the command line and ends with its exit code. -/
def main (arguments : List String) : IO UInt32 := do
  let files ← TileWorld.namedFiles arguments
  let file (name : String) := (files.lookup name).getD (.error .missing)
  let outcome := TileWorld.CommandLine.run file arguments
  IO.print outcome.output
  unless outcome.errorText.isEmpty do IO.eprintln outcome.errorText
  return outcome.exitCode.toUInt32
