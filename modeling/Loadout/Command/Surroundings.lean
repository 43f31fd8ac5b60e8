/-
**What a command finds around it.**

A command reads files and environment variables, and it runs in a directory. Settings come from the
nearest file `modsolve.toml`, in the directory itself or above it (`Surroundings.nearest?`).
-/

import Loadout.Config

namespace Loadout

/-- What a command finds around it. -/
structure Surroundings where
  /-- The names of the directories on the way from the root to the one in which the command runs. -/
  directory : List String
  /-- Whether there is a regular file at a path. -/
  isFile : String → Bool
  /-- The text that can be read at a path. -/
  text? : String → Option String
  environment : Environment

namespace Surroundings

/-- The name of a settings file. -/
def settingsName : String :=
  "modsolve.toml"

/-- The absolute path that leads over some names. -/
def absolutePath (names : List String) : String :=
  String.join (names.map ("/" ++ ·))

/-- The paths of the settings files in a directory and above it, nearest first. -/
def settingsPaths (directory : List String) : List String :=
  (List.range (directory.length + 1)).reverse.map fun depth =>
    absolutePath (directory.take depth ++ [settingsName])

/-- The path of the nearest settings file. -/
def nearest? (surroundings : Surroundings) : Option String :=
  (settingsPaths surroundings.directory).find? surroundings.isFile

end Surroundings

end Loadout
