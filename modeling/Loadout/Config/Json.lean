/-
**Settings in JSON.**

Every setting may be left out. The time limit and the number of problems are not written where
there is none.
-/

import Loadout.Config
import Loadout.Json.Record

namespace Loadout

namespace Config

/-- Reads settings. -/
def ofJson? (value : Json) : Option Config :=
  match value.record? ["inclusion-bias", "timeout-ms", "minimize-cores", "max-reported-errors"] with
  | some [bias, timeout, minimize, count] => do
    return {
      inclusionBias :=
        ← Json.optional (Json.integer? weightMin weightMax) standard.inclusionBias bias
      timeoutMs := ← Json.optional (Json.nullable Json.natural?) standard.timeoutMs timeout
      minimizeCores := ← Json.optional Json.bool? standard.minimizeCores minimize
      maxReportedErrors :=
        ← Json.optional (Json.nullable Json.natural?) standard.maxReportedErrors count }
  | _ => none

/-- Writes settings. -/
def toJson (config : Config) : Json :=
  let count (value : Nat) : Json := .integer value
  .object ([("inclusion-bias", .integer config.inclusionBias)] ++
    Json.ifPresent "timeout-ms" count config.timeoutMs ++
    [("minimize-cores", .bool config.minimizeCores)] ++
    Json.ifPresent "max-reported-errors" count config.maxReportedErrors)

end Config

end Loadout
