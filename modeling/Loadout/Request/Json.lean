/-
**Requests in JSON.**

The fields of a candidate other than its key and version may be left out, and so may the versions
of a link, which are any then. Empty lists and missing exceptions are not written. A dependency or
breakage is read as a composite where that is possible, and as a link to one mod id otherwise.

A composite is nested no deeper than the value that it is read from, so the depth of the value
(`Json.depth`) bounds the reading.
-/

import Loadout.Config
import Loadout.Constraint.Parser
import Loadout.Json.Record
import Loadout.Request

namespace Loadout

/-! ### Depth -/

mutual

/-- How many arrays and objects lie around the innermost value, that value included. -/
def Json.depth : Json → Nat
  | .array elements => Json.listDepth elements + 1
  | .object fields => Json.fieldsDepth fields + 1
  | _ => 1

/-- The depth of the deepest element. -/
def Json.listDepth : List Json → Nat
  | [] => 0
  | element :: rest => max element.depth (Json.listDepth rest)

/-- The depth of the deepest field. -/
def Json.fieldsDepth : List (String × Json) → Nat
  | [] => 0
  | (_, value) :: rest => max value.depth (Json.fieldsDepth rest)

end

/-! ### Versions and constraints -/

/-- Reads a version. -/
def Version.ofJson? (value : Json) : Option Version :=
  value.text?.bind fun text => (Version.parse text).toOption

/-- Writes a version as its text. -/
def Version.toJson (version : Version) : Json :=
  .string version.text

/-- Reads a constraint; a text at which the reading stops is not told from one that is refused. -/
def Constraint.ofJson? (value : Json) : Option Constraint :=
  value.text?.bind fun text => (Constraint.parse text).toOption

/-- Writes a constraint as its text. -/
def Constraint.toJson (constraint : Constraint) : Json :=
  .string constraint.text

/-! ### Links -/

/-- Reads a link to one mod id, given how its exception is read. -/
def Target.read? (exception? : Json → Option Dependency) (value : Json) : Option Target :=
  match value.record? ["id", "versions", "optional", "unless"] with
  | some [modId, versions, optional, exception] => do
    return {
      modId := ← Json.required Json.text? modId
      versions := ← Json.optional Constraint.ofJson? .any versions
      optional := ← Json.optional Json.bool? false optional
      exception := ← Json.optional (Json.nullable exception?) none exception }
  | _ => none

/-- Reads a composite whose parts stand in a field, given how its parts and its exception are
read. -/
def readComposite? {α : Type} (name : String) (part? : Json → Option α)
    (exception? : Json → Option Dependency) (value : Json) :
    Option (List α × Option Dependency) :=
  match value.objectRecord? [name, "unless"] with
  | some [parts, exception] => do
    return (← Json.required (Json.list? part?) parts,
      ← Json.optional (Json.nullable exception?) none exception)
  | _ => none

/-- Reads a dependency from a value of at most a depth. -/
def Dependency.read? : Nat → Json → Option Dependency
  | 0, _ => none
  | depth + 1, value =>
    match readComposite? "any" (Dependency.read? depth) (Dependency.read? depth) value with
    | some (alternatives, exception) => some (.any alternatives exception)
    | none => (Target.read? (Dependency.read? depth) value).map Target.dependency

/-- Reads a dependency. -/
def Dependency.ofJson? (value : Json) : Option Dependency :=
  Dependency.read? value.depth value

/-- Reads a link to one mod id. -/
def Target.ofJson? (value : Json) : Option Target :=
  Target.read? Dependency.ofJson? value

/-- Reads a breakage from a value of at most a depth. -/
def Breakage.read? : Nat → Json → Option Breakage
  | 0, _ => none
  | depth + 1, value =>
    match readComposite? "all" (Breakage.read? depth) Dependency.ofJson? value with
    | some (parts, exception) => some (.all parts exception)
    | none => (Target.ofJson? value).map Target.breakage

/-- Reads a breakage. -/
def Breakage.ofJson? (value : Json) : Option Breakage :=
  Breakage.read? value.depth value

/-- The fields of a link to one mod id that stand before its exception. -/
def linkFields (modId : String) (versions : Constraint) (optional : Bool) :
    List (String × Json) :=
  [("id", .string modId), ("versions", versions.toJson), ("optional", .bool optional)]

mutual

/-- Writes a dependency. -/
def Dependency.toJson : Dependency → Json
  | .only modId versions optional exception =>
    .object (linkFields modId versions optional ++ Dependency.exceptionFields exception)
  | .any alternatives exception =>
    .object (("any", .array (Dependency.listToJson alternatives)) ::
      Dependency.exceptionFields exception)

/-- The field of an exception, which is left out where there is none. -/
def Dependency.exceptionFields : Option Dependency → List (String × Json)
  | none => []
  | some exception => [("unless", exception.toJson)]

/-- Writes dependencies. -/
def Dependency.listToJson : List Dependency → List Json
  | [] => []
  | dependency :: rest => dependency.toJson :: Dependency.listToJson rest

end

/-- Writes a link to one mod id. -/
def Target.toJson (target : Target) : Json :=
  target.dependency.toJson

mutual

/-- Writes a breakage. -/
def Breakage.toJson : Breakage → Json
  | .only modId versions optional exception =>
    .object (linkFields modId versions optional ++ Dependency.exceptionFields exception)
  | .all parts exception =>
    .object (("all", .array (Breakage.listToJson parts)) :: Dependency.exceptionFields exception)

/-- Writes breakages. -/
def Breakage.listToJson : List Breakage → List Json
  | [] => []
  | breakage :: rest => breakage.toJson :: Breakage.listToJson rest

end

/-! ### Candidates and requests -/

/-- Reads a further mod id that a candidate stands for. -/
def Provided.ofJson? (value : Json) : Option Provided :=
  match value.record? ["id", "version"] with
  | some [modId, version] => do
    return {
      modId := ← Json.required Json.text? modId
      version := ← Json.optional (Json.nullable Version.ofJson?) none version }
  | _ => none

/-- Writes a further mod id that a candidate stands for. -/
def Provided.toJson (provided : Provided) : Json :=
  .object (("id", .string provided.modId) ::
    Json.ifPresent "version" Version.toJson provided.version)

/-- Reads a candidate. Its dependencies and breakages are tried in several forms, so even the fields
that they pass over have to be readable. -/
def Candidate.ofJson? (value : Json) : Option Candidate :=
  match value.record?
      ["key", "version", "mandatory", "weight", "depends", "breaks", "provides"] with
  | some [key, version, mandatory, weight, depends, breaks, provides] => do
    return {
      key := ← Json.required Json.text? key
      version := ← Json.required Version.ofJson? version
      mandatory := ← Json.optional Json.bool? false mandatory
      weight := ← Json.optional (Json.integer? weightMin weightMax) 0 weight
      depends := ← Json.optional (Json.list? (Json.whole? Dependency.ofJson?)) [] depends
      breaks := ← Json.optional (Json.list? (Json.whole? Breakage.ofJson?)) [] breaks
      provides := ← Json.optional (Json.list? Provided.ofJson?) [] provides }
  | _ => none

/-- Writes a candidate. -/
def Candidate.toJson (candidate : Candidate) : Json :=
  .object ([("key", .string candidate.key), ("version", candidate.version.toJson),
    ("mandatory", .bool candidate.mandatory), ("weight", .integer candidate.weight)] ++
    Json.unlessEmpty "depends" Dependency.toJson candidate.depends ++
    Json.unlessEmpty "breaks" Breakage.toJson candidate.breaks ++
    Json.unlessEmpty "provides" Provided.toJson candidate.provides)

/-- Reads a request. -/
def Request.ofJson? (value : Json) : Option Request :=
  match value.record? ["pools"] with
  | some [pools] => do
    let entries ← Json.optional (Json.entries? (Json.list? Candidate.ofJson?)) [] pools
    return ⟨.ofList entries⟩
  | _ => none

/-- Writes a request. -/
def Request.toJson (request : Request) : Json :=
  .object [("pools", .object (request.pools.entries.map fun (modId, pool) =>
    (modId, .array (pool.map Candidate.toJson))))]

end Loadout
