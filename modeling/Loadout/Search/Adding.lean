/-
**Adding constraints between searches.**

`Solver.addClause` and `Solver.addAtMost` work at level zero, where decided literals are facts: a
clause drops its false literals and repeated ones, and is not stored at all if it holds already or
contains a literal with its opposite. The answer is false when the constraints are known to
contradict each other from then on.
-/

import Loadout.Search.Propagation

namespace Loadout

namespace Solver

/-- Collects the literals of a clause that are not decided yet, each once; `none` when the clause
holds at once. Every literal that is looked at takes its variable into use. -/
def sift : List Literal → Clause → Solver → Option Clause × Solver
  | [], kept, solver => (some kept, solver)
  | literal :: rest, kept, solver =>
    if literal.isVoid then sift rest kept solver
    else
      let solver := solver.reserve literal
      match solver.trail.value? literal with
      | some true => (none, solver)
      | some false => sift rest kept solver
      | none =>
        if kept.contains (-literal) then (none, solver)
        else if kept.contains literal then sift rest kept solver
        else sift rest (kept ++ [literal]) solver

/-- Notes that the constraints contradict each other. -/
def giveUp (solver : Solver) : Bool × Solver :=
  (false, { solver with inconsistent := true })

/-- Adds a clause. -/
def addClause (literals : List Literal) (solver : Solver) : Bool × Solver :=
  let solver := solver.backtrack 0
  if solver.inconsistent then (false, solver)
  else
    match solver.sift literals [] with
    | (none, solver) => (true, solver)
    | (some [], solver) => solver.giveUp
    | (some [unit], solver) =>
      let (constraint, solver) := solver.store (.clause [unit])
      (true, solver.push unit constraint)
    | (some (first :: second :: rest), solver) =>
      let (constraint, solver) := solver.store (.clause (first :: second :: rest))
      (true, { solver with watches := solver.watches.watchClause constraint first second })

/-- Adds a bounded sum in normal form. -/
def addLinear (linear : Linear) (solver : Solver) : Bool × Solver :=
  let solver := solver.backtrack 0
  if solver.inconsistent then (false, solver)
  else
    let literals := linear.terms.map Prod.snd
    let solver := literals.foldl (fun solver literal => solver.reserve literal) solver
    let (constraint, solver) := solver.store (.sum linear)
    let solver := { solver with watches := solver.watches.watchSum constraint literals }
    match solver.checkSum constraint with
    | (true, solver) => (true, solver)
    | (false, solver) => solver.giveUp

/-- Adds a bound on a sum of signed coefficients. -/
def addAtMost (constraint : AtMost) (solver : Solver) : Bool × Solver :=
  match constraint.normalize with
  | .tautology => (!solver.inconsistent, solver)
  | .contradiction => solver.giveUp
  | .clause literals => solver.addClause literals
  | .linear linear => solver.addLinear linear

end Solver

end Loadout
