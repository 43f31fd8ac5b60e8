/-
**The search for an assignment.**

`Solver.solve` looks for an assignment that satisfies all constraints and makes a list of
assumptions true. It goes in rounds (`Solver.round`): draw all consequences; on a conflict, learn
a clause and go back; otherwise poll the interruption and decide one more literal. The assumptions
come first, one level each, and a level stays empty when its assumption is true already; after
them the lowest undecided variable gets its preferred value.

Every round makes the numbers of literals per level lexicographically greater. There are
`2 ^ (2 * room + assumptions + 2)` such profiles at most, which bounds the number of rounds
(`Solver.roundLimit`).
-/

import Loadout.Search.Interruption
import Loadout.Search.Adding
import Loadout.Search.Conflict

namespace Loadout

/-- What a search comes to. -/
inductive Answer
  /-- The values of an assignment that satisfies everything, by variable. -/
  | satisfiable (model : Array Bool)
  /-- Assumptions that cannot hold together; none of them when the constraints alone cannot. -/
  | unsatisfiable (core : List Literal)
  /-- The search was interrupted. -/
  | unknown
deriving DecidableEq, Repr, Inhabited

/-- What one round of a search comes to. -/
inductive Round
  | done (answer : Answer)
  /-- The search goes on. -/
  | next
deriving DecidableEq, Repr

namespace Solver

variable {condition : Type} [Interruption condition]

/-- The first undecided one of `count` variables starting with `atom`. -/
def firstUndecided (trail : Trail) : Nat → Nat → Option Nat
  | 0, _ => none
  | count + 1, atom =>
    if trail.decided atom then firstUndecided trail count (atom + 1) else some atom

/-- The literal of the next free decision: the lowest undecided variable with its preferred
value. -/
def branchLiteral (solver : Solver) : Option Literal :=
  (firstUndecided solver.trail solver.atomCount 1).map fun atom =>
    ⟨atom, solver.phases[atom]?.getD false⟩

/-- The values of all variables in use, the ones not decided counting as false. -/
def model (solver : Solver) : Array Bool :=
  (fillUp (solver.atomCount + 1) solver.trail.model).take (solver.atomCount + 1)

/-- Counts a conflict. -/
def countConflict (solver : Solver) : Solver :=
  { solver with
    counters := { solver.counters with conflicts := solver.counters.conflicts + 1 } }

/-- Counts a free decision. -/
def countDecision (solver : Solver) : Solver :=
  { solver with
    counters := { solver.counters with decisions := solver.counters.decisions + 1 } }

/-- Answers a conflict: at level zero the constraints contradict each other, above it the search
goes back with a learned clause. -/
def afterConflict (conflict : ConstraintId) (solver : Solver) : Round × Solver :=
  let solver := solver.countConflict
  if solver.trail.level = 0 then
    (.done (.unsatisfiable []), { solver with inconsistent := true })
  else
    let (clause, level, solver) := solver.analyze conflict
    (.next, (solver.backtrack level).learn clause)

/-- Opens the level of an assumption. -/
def assume (assumption : Literal) (solver : Solver) : Round × Solver :=
  match solver.trail.value? assumption with
  | some true => (.next, solver.openLevel)
  | some false =>
    let (core, solver) := solver.analyzeFinal assumption
    (.done (.unsatisfiable core), solver.backtrack 0)
  | none => (.next, solver.openLevel.push assumption none)

/-- Makes a free decision; without one the assignment is complete. -/
def branch (stopping : condition) (solver : Solver) : Round × condition × Solver :=
  match solver.branchLiteral with
  | some literal =>
    (.next, Interruption.afterDecision stopping,
      solver.countDecision.openLevel.push literal none)
  | none => (.done (.satisfiable solver.model), stopping, solver.backtrack 0)

/-- One round of a search. -/
def round (assumptions : Array Literal) (stopping : condition) (solver : Solver) :
    Round × condition × Solver :=
  match solver.propagate with
  | (some conflict, solver) =>
    let (result, solver) := solver.afterConflict conflict
    (result, stopping, solver)
  | (none, solver) =>
    match Interruption.poll stopping with
    | (true, stopping) => (.done .unknown, stopping, solver.backtrack 0)
    | (false, stopping) =>
      match assumptions[solver.trail.level]? with
      | some assumption =>
        let (result, solver) := solver.assume assumption
        (result, stopping, solver)
      | none => solver.branch stopping

/-- Plays at most a number of rounds. -/
def rounds (assumptions : Array Literal) :
    Nat → condition → Solver → Answer × condition × Solver
  | 0, stopping, solver => (.unknown, stopping, solver.backtrack 0)
  | limit + 1, stopping, solver =>
    match solver.round assumptions stopping with
    | (.done answer, stopping, solver) => (answer, stopping, solver)
    | (.next, stopping, solver) => rounds assumptions limit stopping solver

/-- More rounds than any search can take. -/
def roundLimit (assumptions : Array Literal) (solver : Solver) : Nat :=
  Nat.pow 2 (2 * solver.trail.room + assumptions.size + 2)

/-- Searches for an assignment that satisfies the constraints and the assumptions. -/
def solve (assumptions : List Literal) (stopping : condition) (solver : Solver) :
    Answer × condition × Solver :=
  let solver := solver.backtrack 0
  if solver.inconsistent then (.unsatisfiable [], stopping, solver)
  else
    let solver := assumptions.foldl (fun solver literal => solver.reserve literal) solver
    let assumptions := assumptions.toArray
    rounds assumptions (solver.roundLimit assumptions) stopping solver

end Solver

end Loadout
