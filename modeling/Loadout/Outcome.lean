/-
**Outcomes of a resolution.**

A request is solved by a `Resolution`, which says for every mod id what was chosen, or it has no
solution, for which there are `Problem`s. In JSON an outcome is an object with the one field
`solved` or `infeasible`.
-/

import Loadout.Diagnosis
import Loadout.Json.Record
import Loadout.OrderedMap

namespace Loadout

/-- What is loaded and what is not. -/
structure Resolution where
  /-- The key of the candidate that is loaded for a mod id. -/
  selected : OrderedMap String
  /-- The key of the candidate that provides a mod id. -/
  provided : OrderedMap String
  /-- The keys of the candidates that are not loaded, by mod id. -/
  rejected : OrderedMap (List String)
deriving Inhabited

/-- What a resolution comes to. -/
inductive Outcome
  | solved (resolution : Resolution)
  | infeasible (problems : List Problem)

/-! ### JSON -/

/-- Writes a list of texts. -/
def textsToJson (texts : List String) : Json :=
  .array (texts.map .string)

/-- Writes a map. -/
def OrderedMap.toJson {α : Type} (write : α → Json) (map : OrderedMap α) : Json :=
  .object (map.entries.map fun (key, value) => (key, write value))

/-- Reads a map. -/
def OrderedMap.ofJson? {α : Type} (read : Json → Option α) (value : Json) :
    Option (OrderedMap α) :=
  (Json.entries? read value).map .ofList

/-- Reads a problem. -/
def Problem.ofJson? (value : Json) : Option Problem :=
  match value.record? ["root_cause_ids", "message", "rules"] with
  | some [rootCauses, message, rules] => do
    return {
      rootCauses := ← Json.required (Json.list? Json.text?) rootCauses
      message := ← Json.required Json.text? message
      rules := ← Json.required (Json.list? Json.text?) rules }
  | _ => none

/-- Writes a problem. -/
def Problem.toJson (problem : Problem) : Json :=
  .object [("root_cause_ids", textsToJson problem.rootCauses),
    ("message", .string problem.message), ("rules", textsToJson problem.rules)]

/-- Reads a resolution. -/
def Resolution.ofJson? (value : Json) : Option Resolution :=
  match value.record? ["selected", "provided", "rejected"] with
  | some [selected, provided, rejected] => do
    return {
      selected := ← Json.required (OrderedMap.ofJson? Json.text?) selected
      provided := ← Json.required (OrderedMap.ofJson? Json.text?) provided
      rejected :=
        ← Json.optional (OrderedMap.ofJson? (Json.list? Json.text?)) .empty rejected }
  | _ => none

/-- Writes a resolution; the rejected candidates are left out when there are none. -/
def Resolution.toJson (resolution : Resolution) : Json :=
  .object ([("selected", resolution.selected.toJson .string),
    ("provided", resolution.provided.toJson .string)] ++
    if resolution.rejected.entries.isEmpty then []
    else [("rejected", resolution.rejected.toJson textsToJson)])

namespace Outcome

/-- Reads an outcome. -/
def ofJson? : Json → Option Outcome
  | .object [("solved", value)] => (Resolution.ofJson? value).map .solved
  | .object [("infeasible", value)] => (Json.list? Problem.ofJson? value).map .infeasible
  | _ => none

/-- Writes an outcome. -/
def toJson : Outcome → Json
  | .solved resolution => .object [("solved", resolution.toJson)]
  | .infeasible problems => .object [("infeasible", .array (problems.map Problem.toJson))]

end Outcome

end Loadout
