/-
**Running commands.**

`Command.run` says what a command prints in given surroundings. The request is read before the
settings; these come from a file, then from the environment, then from flags, and the later
overrides the earlier.
-/

import Loadout.Command.Arguments
import Loadout.Command.Surroundings
import Loadout.Command.Transcript
import Loadout.Config.File
import Loadout.Json.Reader
import Loadout.Request.Json
import Loadout.Resolver

namespace Loadout

namespace Command

/-- How many arrays and objects of a request may lie within each other. -/
def requestDepth : Nat :=
  127

/-- Reads a file, given how its text is read. -/
def load {α : Type} (surroundings : Surroundings) (read? : String → Option α) (path : String) :
    Except Failure α :=
  match surroundings.text? path with
  | none => .error (.cannotRead path)
  | some text =>
    match read? text with
    | none => .error (.cannotParse path)
    | some value => .ok value

/-- Reads a request. -/
def loadRequest (surroundings : Surroundings) (path : String) : Except Failure Request :=
  load surroundings (fun text => (Json.parse requestDepth text).bind Request.ofJson?) path

/-- Reads the settings, from a given file or from the nearest one, and overrides them by the
environment. -/
def loadConfig (surroundings : Surroundings) (configFile : Option String) :
    Except Failure Config := do
  let config ← match configFile <|> surroundings.nearest? with
    | some path => load surroundings Config.ofFile? path
    | none => pure .standard
  return config.overlay surroundings.environment

/-- Resolves a request. -/
def runResolve (surroundings : Surroundings) (path : String) (options : ResolveOptions) :
    Except Failure Transcript := do
  let request ← loadRequest surroundings path
  let config ← loadConfig surroundings options.configFile
  match ((Resolver.ofConfig (options.override config)).resolve request).1 with
  | .ok outcome => return if options.json then outcome.jsonTranscript else outcome.transcript
  | .error cause => throw (.cannotResolve path cause)

/-- Checks a request. -/
def runCheck (surroundings : Surroundings) (path : String) (strict : Bool) :
    Except Failure Transcript := do
  let request ← loadRequest surroundings path
  return (Inspection.ofRequest request).transcript strict

/-- What a command prints. -/
def run (surroundings : Surroundings) (command : Command) : Transcript :=
  let result := match command with
    | .resolve path options => runResolve surroundings path options
    | .check path strict => runCheck surroundings path strict
    | .version => .ok ⟨0, linesText [versionText], ""⟩
    | .help => .ok ⟨0, helpText, ""⟩
  match result with
  | .ok transcript => transcript
  | .error failure => failure.transcript

/-- What is printed for some arguments. -/
def runArguments (surroundings : Surroundings) (arguments : List String) : Transcript :=
  match ofArguments? arguments with
  | .ok command => command.run surroundings
  | .error error => error.transcript

/-- The paths at which a command may look for files in a directory. -/
def paths (directory : List String) : Command → List String
  | .resolve request options =>
    request :: (options.configFile.map fun path => [path]).getD
      (Surroundings.settingsPaths directory)
  | .check request _ => [request]
  | _ => []

end Command

end Loadout
