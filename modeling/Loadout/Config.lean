/-
**Settings of a resolution.**

Every setting has a default. The environment may override them (`Config.overlay`): an empty
variable is ignored, and so is one that does not read as the setting's value. Numbers keep to the
64 bits that they have in files and variables.
-/

import Loadout.Text.Blank
import Loadout.Text.Digit

namespace Loadout

/-- The least number that a signed word of 64 bits holds. -/
def weightMin : Int :=
  -(signedLimit : Int)

/-- The greatest number that a signed word of 64 bits holds. -/
def weightMax : Int :=
  (signedLimit : Int) - 1

/-- The settings of a resolution. -/
structure Config where
  /-- What is taken off the weight of every candidate that need not be loaded. -/
  inclusionBias : Int
  /-- The time limit in milliseconds, shared by all searches of a resolution. -/
  timeoutMs : Option Nat
  /-- Whether the rules behind a conflict are reduced to a minimal set. -/
  minimizeCores : Bool
  /-- The number of problems after which no further one is looked for. -/
  maxReportedErrors : Option Nat
deriving DecidableEq, Repr, Inhabited

/-- The values of the environment variables that hold settings, where they are set. -/
structure Environment where
  timeoutMs : Option String
  inclusionBias : Option String
  minimizeCores : Option String
  maxErrors : Option String
deriving DecidableEq, Repr, Inhabited

namespace Environment

/-- The names of the variables, in the order of the fields. -/
def names : List String :=
  ["MODSOLVE_TIMEOUT_MS", "MODSOLVE_INCLUSION_BIAS", "MODSOLVE_MINIMIZE_CORES",
    "MODSOLVE_MAX_ERRORS"]

/-- The environment in which the variables have the values of a look-up. -/
def ofLookup (value? : String → Option String) : Environment where
  timeoutMs := value? "MODSOLVE_TIMEOUT_MS"
  inclusionBias := value? "MODSOLVE_INCLUSION_BIAS"
  minimizeCores := value? "MODSOLVE_MINIMIZE_CORES"
  maxErrors := value? "MODSOLVE_MAX_ERRORS"

end Environment

namespace Config

/-- The settings where nothing is said. -/
def standard : Config where
  inclusionBias := 1000
  timeoutMs := none
  minimizeCores := true
  maxReportedErrors := none

/-- Reads the value of a variable that holds a natural number. -/
def readCount (value : String) : Option Nat :=
  readNatural wordLimit (trimBlank value.toList)

/-- Reads the value of a variable that holds a weight. -/
def readWeight (value : String) : Option Int :=
  readInteger weightMin weightMax (trimBlank value.toList)

/-- Reads the value of a variable that switches something on or off. -/
def readSwitch (value : String) : Option Bool :=
  let word := String.ofList (value.toList.map Char.toLower)
  if ["1", "true", "yes", "on"].contains word then some true
  else if ["0", "false", "no", "off"].contains word then some false
  else none

/-- The settings with those that the environment overrides. -/
def overlay (environment : Environment) (config : Config) : Config where
  inclusionBias := (environment.inclusionBias.bind readWeight).getD config.inclusionBias
  timeoutMs := environment.timeoutMs.bind readCount <|> config.timeoutMs
  minimizeCores := (environment.minimizeCores.bind readSwitch).getD config.minimizeCores
  maxReportedErrors := environment.maxErrors.bind readCount <|> config.maxReportedErrors

/-! ### Single settings -/

/-- Sets the time limit to a number of milliseconds, or to the greatest that fits. -/
def withTimeoutMs (milliseconds : Nat) (config : Config) : Config :=
  { config with timeoutMs := some (min milliseconds (wordLimit - 1)) }

/-- Sets the time limit to a number of seconds, or to the greatest that fits. -/
def withTimeoutSeconds (seconds : Nat) (config : Config) : Config :=
  config.withTimeoutMs (1000 * seconds)

/-- Sets what is taken off the weight of candidates that need not be loaded. -/
def withInclusionBias (bias : Int) (config : Config) : Config :=
  { config with inclusionBias := bias }

/-- Switches the reduction of conflicts on or off. -/
def withMinimizeCores (minimize : Bool) (config : Config) : Config :=
  { config with minimizeCores := minimize }

/-- Sets the number of problems after which no further one is looked for. -/
def withMaxReportedErrors (count : Nat) (config : Config) : Config :=
  { config with maxReportedErrors := some count }

end Config

end Loadout
