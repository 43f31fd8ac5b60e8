/-
**The program.**

It looks up the files that its arguments may be about and the environment, and prints what the
command says.
-/

import Loadout.Command
import Loadout.Command.Folder

open Loadout

/-- What is found around the program at some paths. -/
def lookAround (paths : List String) : IO Surroundings := do
  let directory ← IO.currentDir
  let found ← paths.mapM fun (path : String) => do
    let isFile ← try pure ((← (directory / path).metadata).type == .file) catch _ => pure false
    let text? ← try pure (some (← IO.FS.readFile path)) catch _ => pure none
    return (path, isFile, text?)
  let values ← Environment.names.mapM fun name => do return (name, ← IO.getEnv name)
  return {
    directory := Folder.names directory.toString
    isFile := fun path => ((found.lookup path).map Prod.fst).getD false
    text? := fun path => (found.lookup path).bind Prod.snd
    environment := .ofLookup fun name => (values.lookup name).join }

def main (arguments : List String) : IO UInt32 := do
  let directory := Folder.names (← IO.currentDir).toString
  let paths := match Command.ofArguments? arguments with
    | .ok command => command.paths directory
    | .error _ => []
  let transcript := Command.runArguments (← lookAround paths) arguments
  IO.print transcript.output
  IO.eprint transcript.complaints
  return transcript.exit.toUInt32
