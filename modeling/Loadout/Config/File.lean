/-
**Settings in files.**

A settings file is a TOML document; the settings stand in its table `resolver`, and all else in it
is passed over.
-/

import Loadout.Config.Json
import Loadout.Toml.Reader

namespace Loadout

namespace Config

/-- Reads the table of settings of a file. Instead of a table it may be an array of the settings in
order, of which further elements are passed over. -/
def ofSection? : Json → Option Config
  | .array elements => ofJson? (.array (elements.take 4))
  | value => ofJson? value

/-- Reads a settings file. -/
def ofFile? (text : String) : Option Config :=
  match (Toml.parse text).bind (Json.objectRecord? ["resolver"]) with
  | some [settings] => Json.optional ofSection? standard settings
  | _ => none

end Config

end Loadout
