/-
**The state of a search over clauses and bounded sums.**

A `Solver` holds the constraints that were added or learned, the trail of decided literals, the
watch lists, a preferred value for each variable, and counters. The `frontier` is the place in the
queue up to which the consequences of decisions have been drawn. The constraints at level zero
hold without any assumption; once they contradict each other the solver is `inconsistent` for
good.
-/

import Loadout.Search.AtMost
import Loadout.Search.Watch

namespace Loadout

/-- A constraint as the solver keeps it. -/
inductive Stored
  /-- Some literal is true. The first two literals of a longer clause are the watched ones. -/
  | clause (literals : Clause)
  /-- The weight of the true literals stays within a bound. -/
  | sum (linear : Linear)
deriving DecidableEq, Repr, Inhabited

/-- Whether a stored constraint holds under an assignment. -/
def Stored.holds (assignment : Assignment) : Stored → Bool
  | .clause literals => Clause.holds assignment literals
  | .sum linear => linear.holds assignment

/-- How much work a solver has done over all its searches. -/
structure Counters where
  /-- Free decisions. -/
  decisions : Nat := 0
  conflicts : Nat := 0
  /-- Literals whose consequences were drawn. -/
  propagations : Nat := 0
  /-- Learned clauses. -/
  learned : Nat := 0
deriving DecidableEq, Repr, Inhabited

/-- Clauses and bounded sums with everything that a search over them keeps between its calls. -/
structure Solver where
  /-- The highest variable in use. -/
  atomCount : Nat
  /-- All constraints, learned clauses included, by number. -/
  constraints : Array Stored
  trail : Trail
  watches : WatchTable
  /-- The place in the queue of the next literal whose consequences are to be drawn. -/
  frontier : Nat
  /-- The value that a free decision gives to each variable. -/
  phases : Array Bool
  /-- Marks on variables, used while a conflict is analysed and clear otherwise. -/
  marks : Array Bool
  /-- Whether the constraints are known to contradict each other. -/
  inconsistent : Bool
  counters : Counters
deriving DecidableEq, Repr, Inhabited

namespace Solver

/-- The solver without variables and constraints. -/
def empty : Solver where
  atomCount := 0
  constraints := #[]
  trail := .empty
  watches := .empty
  frontier := 0
  phases := #[]
  marks := #[]
  inconsistent := false
  counters := {}

/-- Fills an array up with `false` to a length. -/
def fillUp (length : Nat) (flags : Array Bool) : Array Bool :=
  flags ++ Array.replicate (length - flags.size) false

/-- Takes the variable of a literal into use, with all variables below it. -/
def reserve (literal : Literal) (solver : Solver) : Solver :=
  if solver.atomCount < literal.atom then
    { solver with
      atomCount := literal.atom
      trail := solver.trail.makeRoom literal.atom
      phases := fillUp (literal.atom + 1) solver.phases
      marks := fillUp (literal.atom + 1) solver.marks }
  else solver

/-- Takes a new variable into use and gives its positive literal. -/
def newVariable (solver : Solver) : Literal × Solver :=
  let literal := Literal.ofAtom (solver.atomCount + 1)
  (literal, solver.reserve literal)

/-- Prefers the value that makes a literal true in free decisions on its variable. -/
def setPhase (literal : Literal) (solver : Solver) : Solver :=
  let solver := solver.reserve literal
  { solver with phases := solver.phases.setIfInBounds literal.atom literal.positive }

/-- Takes back every decision above a level. -/
def backtrack (level : Nat) (solver : Solver) : Solver :=
  let trail := solver.trail.revertTo level
  { solver with trail, frontier := min solver.frontier trail.length }

/-- Makes a literal true at the present level. -/
def push (literal : Literal) (reason : Option ConstraintId) (solver : Solver) : Solver :=
  { solver with trail := solver.trail.push literal reason }

/-- Opens a level. -/
def openLevel (solver : Solver) : Solver :=
  { solver with trail := solver.trail.openLevel }

/-- Stores a constraint and gives its number. -/
def store (constraint : Stored) (solver : Solver) : ConstraintId × Solver :=
  (solver.constraints.size, { solver with constraints := solver.constraints.push constraint })

/-- Whether a variable is marked. -/
def isMarked (solver : Solver) (atom : Nat) : Bool :=
  solver.marks[atom]?.getD false

/-- Sets or clears the mark of a variable. -/
def mark (atom : Nat) (value : Bool) (solver : Solver) : Solver :=
  { solver with marks := solver.marks.setIfInBounds atom value }

end Solver

end Loadout
