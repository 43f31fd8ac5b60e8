/-
**What the engine refuses, and how it says so.**

A `DefinitionError` is a fault in what the engine was told; a `SolverError` is one of those, an
operation at the wrong time, an interruption, or a failure of the engine itself. Each cause is a
constructor; the functions named `message` hold the wording. That a request has no solution is no
error.
-/

import Loadout.Engine.Choice

namespace Loadout

/-- The number of a rule. -/
abbrev RuleId := Nat

/-- A rule as texts name it. -/
def RuleId.name (rule : RuleId) : String :=
  "r" ++ toString (rule : Nat)

/-- A fault in the rules or in the request. -/
inductive DefinitionError
  /-- A rule asks for at least one of no choices. -/
  | emptyClause (rule : RuleId)
  /-- A rule asks for more choices than it names. -/
  | cardinalityTooLarge (rule : RuleId) (least count : Nat)
  /-- A rule asks for at least more than at most. -/
  | invertedRange (rule : RuleId) (least most : Nat)
  /-- Two candidates of a mod id are mandatory. -/
  | duplicateMandatory (modId first second : String)
  /-- Two candidates have one key. -/
  | duplicateCandidate (key : String)
  | unknownChoice (choice : ChoiceId)
  | unknownRule (rule : RuleId)
deriving DecidableEq, Repr, Inhabited

/-- The wording of a definition error. -/
def DefinitionError.message : DefinitionError → String
  | .emptyClause rule => s!"Rule {RuleId.name rule} emitted an empty clause"
  | .cardinalityTooLarge rule least count =>
    s!"Rule {RuleId.name rule} asked for at least {least} of {count} options"
  | .invertedRange rule least most =>
    s!"Rule {RuleId.name rule} has an inverted range: between {least} and {most}"
  | .duplicateMandatory modId first second =>
    s!"Mod id '{modId}' is mandatory twice: {first} and {second}"
  | .duplicateCandidate key => s!"Candidate key '{key}' is used more than once"
  | .unknownChoice choice => s!"Unknown option {ChoiceId.name choice}"
  | .unknownRule rule => s!"Unknown rule {RuleId.name rule}"

/-- Where an engine is between being told its rules and having given a solution. -/
inductive Step
  /-- Choices and rules are being registered. -/
  | defining
  /-- The last check failed; choices and rules may be changed and checked again. -/
  | failed
  /-- The rules can be satisfied, and the best solution may be asked for. -/
  | ready
  /-- The best solution is being searched. -/
  | optimizing
  /-- A solution was given. -/
  | done
deriving DecidableEq, Repr, Inhabited

/-- The step as error texts name it. -/
def Step.name : Step → String
  | .defining => "Define"
  | .failed => "Solve"
  | .ready => "ReSolving"
  | .optimizing => "Optimize"
  | .done => "Done"

/-- What an engine can be asked to do. -/
inductive Operation
  | addChoice
  | setWeight
  | removeChoice
  | addRule
  | removeRule
  | hasSolution
  | getError
  | getSolution
deriving DecidableEq, Repr, Inhabited

/-- The operation as error texts name it. -/
def Operation.name : Operation → String
  | .addChoice => "add_option"
  | .setWeight => "set_weight"
  | .removeChoice => "remove_option"
  | .addRule => "add_rule"
  | .removeRule => "remove_rule"
  | .hasSolution => "has_solution"
  | .getError => "get_error"
  | .getSolution => "get_solution"

/-- A failure of the engine itself. -/
inductive InternalFault
  /-- The rules cannot be satisfied, but none of them has a part in it. -/
  | emptyCore
  /-- The best solution is asked for before its search was prepared. -/
  | optimizerMissing
  /-- The search for the best solution found none. -/
  | optimizerInfeasible
  /-- A provided mod id is loaded without a candidate that provides it. -/
  | providerMissing (modId : String)
  /-- Two loaded choices count as one mod id. -/
  | claimedTwice (modId : String)
deriving DecidableEq, Repr, Inhabited

/-- The wording of a failure. -/
def InternalFault.message : InternalFault → String
  | .emptyCore => "unsatisfiable without any rule in the core"
  | .optimizerMissing => "optimizer missing after a successful check"
  | .optimizerInfeasible => "optimizer found no solution after feasibility was proven"
  | .providerMissing modId => s!"provided id {modId} has no candidate behind it"
  | .claimedTwice modId => s!"mod id {modId} is claimed twice in the solution"

/-- Why an operation has no result. -/
inductive SolverError
  | definition (error : DefinitionError)
  /-- The operation is not allowed in the present step. -/
  | invalidState (operation : Operation) (step : Step)
  | internal (fault : InternalFault)
  | cancelled
  | timeout
deriving DecidableEq, Repr, Inhabited

/-- The wording of an error. -/
def SolverError.message : SolverError → String
  | .definition error => "Invalid rule definition: " ++ error.message
  | .invalidState operation step =>
    "Operation '" ++ operation.name ++ "' is not allowed in step " ++ step.name
  | .internal fault => "Internal solver error: " ++ fault.message
  | .cancelled => "Solving was cancelled"
  | .timeout => "Solving timed out"

end Loadout
