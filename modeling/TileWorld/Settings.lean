import TileWorld.Data.Codec
import TileWorld.Toml.Document

/-!
# Settings files

A settings file is a TOML document with two optional tables, one for the
world and one for the pathfinder. Unknown keys in the tables are ignored,
unknown tables are refused. What the file leaves out keeps its default.
-/

namespace TileWorld

open Data (Value FieldReader)

/-- Settings of a world and of the pathfinder on it. -/
structure Settings where
  world : WorldConfig := {}
  pathfinder : SearchConfig := {}
  deriving DecidableEq, Repr, Inhabited

/-- Why a settings file is refused. -/
inductive SettingsError where
  /-- The text is no document, or a value in it is not of its type. -/
  | malformed
  | world (error : WorldConfigError)
  | pathfinder (error : SearchConfigError)
  deriving DecidableEq, Repr

namespace SettingsError

def message : SettingsError → String
  | malformed => "failed to parse settings toml"
  | world error => error.message
  | pathfinder error => error.message

/-- Texts of the refusal and of what lies behind it, the first one first. -/
def chain : SettingsError → List String
  | malformed => [message malformed, "not a TOML document with values of the expected types"]
  | error => [error.message]

end SettingsError

namespace Settings

def tableNames : List String := ["world", "pathfinder"]

/-- Every field of a record has one of the names of the tables. -/
def hasKnownTables : Value → Bool
  | .record fields => fields.all fun (name, _) => tableNames.contains name
  | _ => false

def ofValue? (v : Value) : Option Settings :=
  let default : Settings := {}
  if !hasKnownTables v then none
  else
    v.fields? .ignoreSurplus do
      let world ← .defaulted "world" (WorldConfig.ofValue? .ignoreSurplus) default.world
      let pathfinder ← .defaulted "pathfinder" (SearchConfig.ofValue? .ignoreSurplus)
        default.pathfinder
      return { world, pathfinder }

/-- Refuses settings that the world refuses, and then those that the
pathfinder refuses. -/
def check (s : Settings) : Except SettingsError Unit := do
  s.world.check.mapError .world
  s.pathfinder.check.mapError .pathfinder

def parse (source : String) : Except SettingsError Settings :=
  match (Toml.parse? source).bind ofValue? with
  | none => .error .malformed
  | some settings => do
    settings.check
    return settings

end Settings

end TileWorld
