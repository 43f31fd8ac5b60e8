/-
**The cheapest assignment that satisfies the rules.**

An `Optimizer` searches for an assignment, demands a strictly lower cost, and searches again, until
there is no cheaper one; the last assignment found is the cheapest. Variables of choices with a
negative weight are tried as loaded first. An interrupted search can be taken up again: the bound
on the cost and the best assignment so far are kept.

The cost of an assignment is a whole number between minus and plus the sum of all weights' absolute
values, which bounds the number of searches (`Optimizer.searchLimit`).
-/

import Loadout.Engine.Explainer

namespace Loadout

/-- A search for the cheapest assignment, as far as it has come. -/
structure Optimizer where
  solver : Solver
  /-- What each true literal adds to the cost. -/
  objective : List (Int × Literal)
  /-- The last assignment found, with its cost. -/
  best : Option (Array Bool × Int)
  /-- Whether the best assignment is known to be the cheapest. -/
  proven : Bool

/-- What a search for the cheapest assignment comes to. -/
inductive Optimum
  /-- The values of the cheapest assignment. -/
  | found (model : Array Bool)
  /-- The search was interrupted and can be taken up again. -/
  | stopped
  /-- No assignment satisfies the rules. -/
  | infeasible
deriving DecidableEq, Repr, Inhabited

namespace Optimizer

/-- Adds the constraints of a rule. -/
def addRule (numbering : Numbering) (solver : Solver) (rule : RuleId × List Cardinality) :
    Except DefinitionError Solver := do
  let forms ← numbering.encodeAll rule.2
  return forms.foldl (fun solver form => (solver.addAtMost form).2) solver

/-- The optimizer of rules with their constraints. -/
def build (numbering : Numbering) (rules : List (RuleId × List Cardinality))
    (objective : List (Int × Literal)) : Except DefinitionError Optimizer := do
  let solver ← rules.foldlM (addRule numbering) (Explainer.bare numbering.count)
  let solver := objective.foldl
    (fun solver term => if term.1 < 0 then solver.setPhase term.2 else solver) solver
  return ⟨solver, objective, none, false⟩

/-- The cost of a model. -/
def cost (objective : List (Int × Literal)) (model : Array Bool) : Int :=
  ((objective.filter fun term =>
    term.2.holds fun atom => model[atom]?.getD false).map Prod.fst).sum

/-- More searches than it can take to find the cheapest assignment. -/
def searchLimit (optimizer : Optimizer) : Nat :=
  2 * (optimizer.objective.map fun term => term.1.natAbs).sum + 2

/-- Notes an assignment and demands a lower cost from then on. -/
def improve (model : Array Bool) (optimizer : Optimizer) : Optimizer :=
  let cost := cost optimizer.objective model
  let optimizer := { optimizer with best := some (model, cost) }
  if optimizer.objective.isEmpty then { optimizer with proven := true }
  else
    let (consistent, solver) := optimizer.solver.addAtMost ⟨optimizer.objective, cost - 1⟩
    { optimizer with solver, proven := !consistent }

/-- What a finished search has found. -/
def result (optimizer : Optimizer) : Optimum :=
  match optimizer.best with
  | some (model, _) => .found model
  | none => .infeasible

variable {condition : Type} [Interruption condition]

/-- Makes at most a number of searches. -/
def searches : Nat → condition → Optimizer → Optimum × condition × Optimizer
  | 0, stopping, optimizer => (.stopped, stopping, optimizer)
  | limit + 1, stopping, optimizer =>
    if optimizer.proven then (optimizer.result, stopping, optimizer)
    else
      match optimizer.solver.solve [] stopping with
      | (.satisfiable model, stopping, solver) =>
        searches limit stopping ({ optimizer with solver }.improve model)
      | (.unsatisfiable _, stopping, solver) =>
        let optimizer := { optimizer with solver }
        if optimizer.best.isNone then (.infeasible, stopping, optimizer)
        else searches limit stopping { optimizer with proven := true }
      | (.unknown, stopping, solver) => (.stopped, stopping, { optimizer with solver })

/-- Searches for the cheapest assignment until it is found or the search is interrupted. -/
def optimize (stopping : condition) (optimizer : Optimizer) : Optimum × condition × Optimizer :=
  searches (optimizer.searchLimit + 1) stopping optimizer

end Optimizer

end Loadout
