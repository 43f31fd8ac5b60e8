/-
**What a command prints.**

A `Transcript` holds the exit code of a command, its output, and its complaints, which go to the
error stream. A request that can be resolved or is valid exits with 0, one that cannot or is not
with 1, and a command that fails with 2.
-/

import Loadout.Command.Flag
import Loadout.Inspection
import Loadout.Outcome
import Loadout.Engine.Error

namespace Loadout

/-- What a command prints and the code with which it exits. -/
structure Transcript where
  exit : Nat
  output : String
  complaints : String
deriving DecidableEq, Repr, Inhabited

/-- A text of lines, each of which ends. -/
def linesText (lines : List String) : String :=
  String.join (lines.map (· ++ "\n"))

namespace Command

/-- What the program is for. -/
def description : String :=
  "Pick one candidate per mod so that every dependency and breakage holds"

/-- The name and the version of the program. -/
def versionText : String :=
  "modsolve 0.0.1"

/-- How the program is used. -/
def usage : List String :=
  ["Usage: modsolve [-v] resolve REQUEST [-c FILE] [--timeout-ms N] [--inclusion-bias N]",
    "                             [--max-errors N] [--no-minimize] [--json]",
    "       modsolve [-v] check REQUEST [--strict]"]

/-- The help of the program. -/
def helpText : String :=
  linesText (description :: "" :: usage)

/-- What is wrong with arguments. -/
def ArgumentError.message : ArgumentError → String
  | .nothing => "there is no command"
  | .missingCommand => "there is no command"
  | .unknownCommand name => "there is no command '" ++ name ++ "'"
  | .unknownFlag text => "there is no flag '" ++ text ++ "'"
  | .missingValue flag => "the flag '" ++ flag.name ++ "' takes a value"
  | .unwantedValue flag => "the flag '" ++ flag.name ++ "' takes no value"
  | .invalidValue flag value =>
    "the flag '" ++ flag.name ++ "' cannot have the value '" ++ value ++ "'"
  | .repeatedFlag flag => "the flag '" ++ flag.name ++ "' may stand only once"
  | .missingRequest => "the path of a request is missing"
  | .emptyRequest => "the path of a request is empty"
  | .unwantedOperand text => "the argument '" ++ text ++ "' is not needed"

/-- What is printed for arguments that are no command. Without arguments that is the help. -/
def ArgumentError.transcript (error : ArgumentError) : Transcript :=
  match error with
  | .nothing => ⟨2, "", helpText⟩
  | _ => ⟨2, "", linesText (("error: " ++ error.message) :: "" :: usage)⟩

/-- Why a command fails. -/
inductive Failure
  | cannotRead (path : String)
  | cannotParse (path : String)
  | cannotResolve (path : String) (cause : SolverError)
deriving Inhabited

/-- The description of a failure. -/
def Failure.message : Failure → String
  | .cannotRead path => "Failed to read " ++ path
  | .cannotParse path => "Failed to parse " ++ path
  | .cannotResolve path _ => "Failed to resolve " ++ path

/-- The descriptions of what lies behind a failure. -/
def Failure.causes : Failure → List String
  | .cannotResolve _ cause => [cause.message]
  | _ => []

/-- What is printed for a failure. -/
def Failure.transcript (failure : Failure) : Transcript :=
  ⟨2, "", linesText (("Error: " ++ failure.message) ::
    failure.causes.map ("  Caused by: " ++ ·))⟩

end Command

/-- The lines of a resolution. -/
def Resolution.lines (resolution : Resolution) : List String :=
  let rejected := resolution.rejected.values.flatten.length
  ["Resolved " ++ toString resolution.selected.entries.length ++ " mod(s)"] ++
    resolution.selected.entries.map (fun (modId, key) => "  " ++ modId ++ " " ++ key) ++
    (if resolution.provided.entries.isEmpty then []
    else
      ["", "Provided"] ++
        resolution.provided.entries.map fun (modId, key) => "  " ++ modId ++ " by " ++ key) ++
    (if rejected == 0 then [] else ["", toString rejected ++ " candidate(s) not loaded"])

/-- The lines of a problem with its number. -/
def Problem.lines (problem : Problem) (number : Nat) : List String :=
  ["", "Problem " ++ toString number ++ ":", problem.message] ++
    problem.rules.map ("  - " ++ ·)

namespace Outcome

/-- The exit code of an outcome. -/
def exit : Outcome → Nat
  | .solved _ => 0
  | .infeasible _ => 1

/-- What is printed for an outcome. Problems are complaints. -/
def transcript (outcome : Outcome) : Transcript :=
  match outcome with
  | .solved resolution => ⟨outcome.exit, linesText resolution.lines, ""⟩
  | .infeasible problems =>
    let numbered := problems.zipIdx 1
    ⟨outcome.exit, "", linesText ("No valid set of mods could be found." ::
      numbered.flatMap fun (problem, number) => problem.lines number)⟩

/-- What is printed for an outcome in JSON. -/
def jsonTranscript (outcome : Outcome) : Transcript :=
  ⟨outcome.exit, outcome.toJson.pretty ++ "\n", ""⟩

end Outcome

namespace Inspection

/-- The lines that count what a request declares. -/
def countLines (inspection : Inspection) : List String :=
  ["Mod ids: " ++ toString inspection.pools,
    "Candidates: " ++ toString inspection.candidates,
    "Mandatory: " ++ toString inspection.mandatory,
    "Dependencies: " ++ toString inspection.dependencies,
    "Breakages: " ++ toString inspection.breakages,
    "Provided ids: " ++ toString inspection.provided.keys.length]

/-- The lines that complain about a request. -/
def complaintLines (inspection : Inspection) : List String :=
  (if inspection.unknownIds.isEmpty then []
  else ["Links to unknown mod ids: " ++ ", ".intercalate inspection.unknownIds]) ++
    inspection.faults.map fun fault => "Error: " ++ fault.message

/-- What is printed for an inspection. -/
def transcript (strict : Bool) (inspection : Inspection) : Transcript :=
  let valid := inspection.isValid strict
  ⟨if valid then 0 else 1,
    linesText (inspection.countLines ++ if valid then ["Request is valid."] else []),
    linesText inspection.complaintLines⟩

end Inspection

end Loadout
