/-
**Can the rules hold together, and if not, which of them cannot?**

An `Explainer` guards the constraints of every rule by a variable of its own, the *selector* of the
rule, and searches under the assumption that all selectors are true. The selectors that take part
in a failure name the rules of a core. `Explainer.shrink` tries to do without each of them in turn
and leaves a core from which no rule can be dropped.
-/

import Loadout.Engine.Numbering
import Loadout.Search.Solve

namespace Loadout

/-- Whether rules can hold together. -/
inductive Feasibility
  | satisfiable
  /-- Rules that cannot, in ascending order. -/
  | unsatisfiable (core : List RuleId)
deriving DecidableEq, Repr, Inhabited

/-- A solver over rules that are each under a guard. -/
structure Explainer where
  solver : Solver
  /-- The selectors with their rules, in the order of the rules. -/
  selectors : List (Literal × RuleId)

namespace Explainer

/-- A solver with a number of variables and no constraints. -/
def bare (count : Nat) : Solver :=
  (List.range count).foldl (fun solver _ => solver.newVariable.2) .empty

/-- Adds the constraints of a rule under a new selector; a rule without constraints needs none. -/
def addRule (numbering : Numbering) (explainer : Explainer) (rule : RuleId × List Cardinality) :
    Except DefinitionError Explainer := do
  let forms ← numbering.encodeAll rule.2
  if forms.isEmpty then return explainer
  let (selector, solver) := explainer.solver.newVariable
  let solver := (forms.filterMap (AtMost.guarded selector)).foldl
    (fun solver form => (solver.addAtMost form).2) solver
  return ⟨solver, explainer.selectors ++ [(selector, rule.1)]⟩

/-- The explainer of rules with their constraints. -/
def build (numbering : Numbering) (rules : List (RuleId × List Cardinality)) :
    Except DefinitionError Explainer :=
  rules.foldlM (addRule numbering) ⟨bare numbering.count, []⟩

/-- A list is shorter without one of its elements, whatever else is left out. -/
theorem length_drop_lt {α : Type} {list : List α} {place : Nat} (inside : place < list.length)
    (keep : α → Bool) : ((list.eraseIdx place).filter keep).length < list.length := by
  have filtered := List.length_filter_le keep (list.eraseIdx place)
  have erased := List.length_eraseIdx_of_lt inside
  omega

variable {condition : Type} [Interruption condition]

/-- Tries to do without the selector at a place, and then without those behind it. A core that
does without it takes its place, so that the next selector moves up; otherwise the selector is
necessary. `none` when the search is interrupted. -/
def shrink (place : Nat) (core : List Literal) (stopping : condition) (solver : Solver) :
    Option (List Literal) × condition × Solver :=
  if inside : place < core.length then
    match solver.solve (core.eraseIdx place) stopping with
    | (.unsatisfiable smaller, stopping, solver) =>
      have := length_drop_lt inside smaller.contains
      shrink place ((core.eraseIdx place).filter smaller.contains) stopping solver
    | (.satisfiable _, stopping, solver) => shrink (place + 1) core stopping solver
    | (.unknown, stopping, solver) => (none, stopping, solver)
  else (some core, stopping, solver)
termination_by core.length - place
decreasing_by all_goals omega

/-- The rules of some selectors. -/
def rulesOf (explainer : Explainer) (core : List Literal) : List RuleId :=
  (explainer.selectors.filter fun selector => core.contains selector.1).map Prod.snd

/-- Searches with every rule switched on; `none` when the search is interrupted. -/
def check (minimize : Bool) (stopping : condition) (explainer : Explainer) :
    Option Feasibility × condition :=
  let selectors := explainer.selectors.map Prod.fst
  match explainer.solver.solve selectors stopping with
  | (.satisfiable _, stopping, _) => (some .satisfiable, stopping)
  | (.unknown, stopping, _) => (none, stopping)
  | (.unsatisfiable core, stopping, solver) =>
    if minimize then
      match shrink 0 (selectors.filter core.contains) stopping solver with
      | (some core, stopping, _) => (some (.unsatisfiable (explainer.rulesOf core)), stopping)
      | (none, stopping, _) => (none, stopping)
    else (some (.unsatisfiable (explainer.rulesOf core)), stopping)

end Explainer

end Loadout
