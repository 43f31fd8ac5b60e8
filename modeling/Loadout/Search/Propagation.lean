/-
**Propagation: drawing the consequences of decided literals.**

`Solver.propagate` takes the decided literals in order. For each it first visits the clauses that
watch the opposite literal, then the bounded sums that mention the literal itself:

* a clause with a true literal is passed over; one that has another literal which is not false
  watches that one instead; otherwise its first literal is forced, or the clause is in conflict
  (`Solver.visitClause`);
* a bounded sum is in conflict when its true coefficients exceed the bound, and otherwise forces
  every undecided literal whose coefficient no longer fits to be false (`Solver.checkSum`).

Propagation ends at the first conflict, or when all decided literals have been handled. Each of
them is handled once, so the room of the trail bounds the number of steps.
-/

import Loadout.Search.Solver

namespace Loadout

/-- What a visit to a watching clause comes to. -/
inductive Visit
  /-- The clause goes on watching the literal. -/
  | stays (node : WatchNode)
  /-- The clause watches another literal instead. -/
  | leaves
  /-- All literals of the clause are false. -/
  | conflicts (node : WatchNode)
deriving DecidableEq, Repr

namespace Solver

/-! ### Clauses -/

/-- The first literal that is not false, and the list in which `parked` has taken its place. -/
def exchange (trail : Trail) (parked : Literal) : List Literal → Option (Literal × List Literal)
  | [] => none
  | literal :: rest =>
    if trail.isFalse literal then
      (exchange trail parked rest).map fun (found, others) => (found, literal :: others)
    else some (literal, parked :: rest)

/-- Replaces the literals of a stored clause. -/
def replaceClause (constraint : ConstraintId) (literals : Clause) (solver : Solver) : Solver :=
  { solver with
    constraints := solver.constraints.setIfInBounds constraint (.clause literals) }

/-- Visits a clause that watches a literal which has become false. -/
def visitClause (falseLiteral : Literal) (node : WatchNode) (solver : Solver) : Visit × Solver :=
  if solver.trail.isTrue node.blocker then (.stays node, solver)
  else
    match solver.constraints[node.constraint]? with
    | some (.clause (one :: two :: rest)) =>
      let (first, second) := if one = falseLiteral then (two, one) else (one, two)
      if solver.trail.isTrue first then
        (.stays { node with blocker := first },
          solver.replaceClause node.constraint (first :: second :: rest))
      else
        match exchange solver.trail second rest with
        | some (found, rest) =>
          let solver := solver.replaceClause node.constraint (first :: found :: rest)
          (.leaves, { solver with
            watches := solver.watches.watch found ⟨node.constraint, first⟩ })
        | none =>
          let solver := solver.replaceClause node.constraint (first :: second :: rest)
          if solver.trail.isFalse first then (.conflicts node, solver)
          else (.stays node, solver.push first node.constraint)
    | _ => (.leaves, solver)

/-- Visits clauses in turn until one is in conflict; the nodes that stay are collected, and those
behind a conflict stay unvisited. -/
def visitClauses (falseLiteral : Literal) :
    List WatchNode → Solver → Option ConstraintId × List WatchNode × Solver
  | [], solver => (none, [], solver)
  | node :: rest, solver =>
    match solver.visitClause falseLiteral node with
    | (.conflicts node, solver) => (some node.constraint, node :: rest, solver)
    | (.stays node, solver) =>
      let (conflict, kept, solver) := visitClauses falseLiteral rest solver
      (conflict, node :: kept, solver)
    | (.leaves, solver) => visitClauses falseLiteral rest solver

/-- Draws the consequences that clauses have from a literal which has become false. -/
def propagateClauses (falseLiteral : Literal) (solver : Solver) :
    Option ConstraintId × Solver :=
  let (nodes, watches) := solver.watches.take falseLiteral
  let (conflict, kept, solver) := visitClauses falseLiteral nodes { solver with watches }
  (conflict, { solver with watches := solver.watches.restore falseLiteral kept })

/-! ### Bounded sums -/

/-- The weight of the literals that are decided to be true. -/
def decidedWeight (trail : Trail) (terms : List (Nat × Literal)) : Nat :=
  ((terms.filter fun term => trail.isTrue term.2).map Prod.fst).sum

/-- The undecided literals whose coefficient exceeds a slack. -/
def tooHeavy (trail : Trail) (slack : Nat) (terms : List (Nat × Literal)) : List Literal :=
  (terms.filter fun term => slack < term.1 && (trail.value? term.2).isNone).map Prod.snd

/-- Draws the consequences of a bounded sum; the answer is false when the sum is in conflict. -/
def checkSum (constraint : ConstraintId) (solver : Solver) : Bool × Solver :=
  match solver.constraints[constraint]? with
  | some (.sum linear) =>
    let used := decidedWeight solver.trail linear.terms
    if linear.bound < used then (false, solver)
    else
      let forced := tooHeavy solver.trail (linear.bound - used) linear.terms
      (true, forced.foldl (fun solver literal => solver.push (-literal) constraint) solver)
  | _ => (true, solver)

/-- Draws the consequences of bounded sums in turn until one is in conflict. -/
def checkSums : List ConstraintId → Solver → Option ConstraintId × Solver
  | [], solver => (none, solver)
  | constraint :: rest, solver =>
    match solver.checkSum constraint with
    | (false, solver) => (some constraint, solver)
    | (true, solver) => checkSums rest solver

/-! ### The queue -/

/-- Draws the consequences of one decided literal. -/
def propagateLiteral (literal : Literal) (solver : Solver) : Option ConstraintId × Solver :=
  match solver.propagateClauses (-literal) with
  | (some conflict, solver) => (some conflict, solver)
  | (none, solver) => checkSums (solver.watches.mentioning literal) solver

/-- Moves the frontier over one literal. -/
def passFrontier (solver : Solver) : Solver :=
  { solver with
    frontier := solver.frontier + 1
    counters := { solver.counters with propagations := solver.counters.propagations + 1 } }

/-- Draws the consequences of at most `steps` decided literals, up to the first conflict. -/
def propagateSteps : Nat → Solver → Option ConstraintId × Solver
  | 0, solver => (none, solver)
  | steps + 1, solver =>
    match solver.trail.queue[solver.frontier]? with
    | none => (none, solver)
    | some literal =>
      match solver.passFrontier.propagateLiteral literal with
      | (some conflict, solver) => (some conflict, solver)
      | (none, solver) => propagateSteps steps solver

/-- Draws all consequences of the decided literals and gives the first constraint in conflict. -/
def propagate (solver : Solver) : Option ConstraintId × Solver :=
  propagateSteps (solver.trail.room - solver.frontier) solver

end Solver

end Loadout
