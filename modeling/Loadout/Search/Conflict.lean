/-
**Conflict analysis: what a conflict teaches.**

* `Solver.analyze` walks back over the trail from a constraint in conflict, replacing forced
  literals of the present level by the literals that forced them, until one literal of that level
  is left. The negation of it and the other literals met below that level form the learned clause;
  its second literal is one of the highest level among the rest, and that level is the one to go
  back to.
* `Solver.analyzeFinal` walks back from an assumption that turned out false and collects the
  assumptions that force it to be.
* `Solver.learn` stores a learned clause and makes its first literal true.

A constraint in conflict, or one that forced a literal, gives *false* literals: the literals of a
clause, and the opposites of the true literals of a bounded sum.
-/

import Loadout.Search.Propagation

namespace Loadout

namespace Solver

/-! ### False literals that explain -/

/-- The false literals of a constraint in conflict. -/
def conflictLiterals (solver : Solver) (constraint : ConstraintId) : List Literal :=
  match solver.constraints[constraint]? with
  | some (.clause literals) => literals
  | some (.sum linear) =>
    (linear.terms.filter fun term => solver.trail.isTrue term.2).map fun term => -term.2
  | none => []

/-- Whether the literal is true and was decided before a place in the queue, if one is given. -/
def trueBefore (trail : Trail) (place : Option Nat) (literal : Literal) : Bool :=
  trail.isTrue literal &&
    match trail.position? literal, place with
    | some position, some place => position < place
    | some _, none => true
    | none, _ => false

/-- The false literals by which a constraint forced a literal. -/
def reasonLiterals (solver : Solver) (constraint : ConstraintId) (forced : Literal) :
    List Literal :=
  match solver.constraints[constraint]? with
  | some (.clause literals) => literals.filter (· != forced)
  | some (.sum linear) =>
    let place := solver.trail.position? forced
    (linear.terms.filter fun term => trueBefore solver.trail place term.2).map fun term => -term.2
  | none => []

/-! ### The learned clause -/

/-- What a walk back over the trail has gathered so far; the marks stand on the variables that
have been met and not yet been resolved. -/
structure Gathering where
  solver : Solver
  /-- The marked literals of the present level. -/
  pending : Nat
  /-- The literals met below the present level, in the order in which they were met. -/
  lower : Array Literal

/-- Takes in one false literal; those of level zero are left out, and so is a marked variable. -/
def Gathering.absorb (level : Nat) (gathering : Gathering) (literal : Literal) : Gathering :=
  if gathering.solver.isMarked literal.atom then gathering
  else
    match gathering.solver.trail.level? literal with
    | none => gathering
    | some 0 => gathering
    | some (below + 1) =>
      let solver := gathering.solver.mark literal.atom true
      if below + 1 = level then { gathering with solver, pending := gathering.pending + 1 }
      else { gathering with solver, lower := gathering.lower.push literal }

/-- Takes in false literals in turn. -/
def Gathering.absorbAll (level : Nat) (literals : List Literal) (gathering : Gathering) :
    Gathering :=
  literals.foldl (Gathering.absorb level) gathering

/-- Walks back over the first `length` literals of the queue, replacing each marked one by the
literals that forced it, until no other literal of the level is pending; gives the literal at
which the walk ends. -/
def walkBack (level : Nat) : Nat → Gathering → Literal × Gathering
  | 0, gathering => (gathering.solver.trail.queue[0]?.getD default, gathering)
  | length + 1, gathering =>
    match gathering.solver.trail.queue[length]? with
    | none => walkBack level length gathering
    | some literal =>
      if gathering.solver.isMarked literal.atom || length == 0 then
        let gathering :=
          { gathering with
            solver := gathering.solver.mark literal.atom false
            pending := gathering.pending - 1 }
        if gathering.pending = 0 then (literal, gathering)
        else
          match gathering.solver.trail.reason? literal with
          | none => (literal, gathering)
          | some reason =>
            walkBack level length
              (gathering.absorbAll level (gathering.solver.reasonLiterals reason literal))
      else walkBack level length gathering

/-- The highest level of some literals, and the first place at which it is found. -/
def highestLevel (trail : Trail) (literals : List Literal) : Nat × Nat :=
  let (highest, place, _) := literals.foldl
    (fun (highest, place, here) literal =>
      let level := (trail.level? literal).getD 0
      if highest < level then (level, here, here + 1) else (highest, place, here + 1))
    (0, 0, 0)
  (highest, place)

/-- The clause learned from a constraint in conflict, and the level to go back to. The first
literal of the clause is the one that becomes true there. -/
def analyze (conflict : ConstraintId) (solver : Solver) : Clause × Nat × Solver :=
  let level := solver.trail.level
  let start := Gathering.absorbAll level (solver.conflictLiterals conflict) ⟨solver, 0, #[]⟩
  let (last, gathering) := walkBack level solver.trail.length start
  let solver := gathering.lower.foldl (fun solver literal => solver.mark literal.atom false)
    gathering.solver
  let (target, place) := highestLevel solver.trail gathering.lower.toList
  (-last :: (gathering.lower.swapIfInBounds 0 place).toList, target, solver)

/-- Stores a learned clause and makes its first literal true. -/
def learn (clause : Clause) (solver : Solver) : Solver :=
  let counters := { solver.counters with learned := solver.counters.learned + 1 }
  let (constraint, solver) := { solver with counters }.store (.clause clause)
  match clause with
  | [] => solver
  | [unit] => solver.push unit constraint
  | first :: second :: _ =>
    { solver with watches := solver.watches.watchClause constraint first second }.push first
      constraint

/-! ### The assumptions behind a failure -/

/-- Marks the variables of the literals that were decided above level zero. -/
def markAbove (literals : List Literal) (solver : Solver) : Solver :=
  literals.foldl
    (fun solver literal =>
      match solver.trail.level? literal with
      | some (_ + 1) => solver.mark literal.atom true
      | _ => solver)
    solver

/-- Walks over decided literals, latest first: a marked literal that was forced passes its mark on
to the literals that forced it, and one that was assumed is collected. -/
def collectAssumed : List Literal → Solver → List Literal × Solver
  | [], solver => ([], solver)
  | literal :: earlier, solver =>
    if solver.isMarked literal.atom then
      match solver.trail.reason? literal with
      | none =>
        let (assumed, solver) := collectAssumed earlier (solver.mark literal.atom false)
        (literal :: assumed, solver)
      | some reason =>
        let solver := solver.markAbove (solver.reasonLiterals reason literal)
        collectAssumed earlier (solver.mark literal.atom false)
    else collectAssumed earlier solver

/-- The assumptions that cannot be true together, among them the one that turned out false. -/
def analyzeFinal (failed : Literal) (solver : Solver) : List Literal × Solver :=
  if solver.trail.level? failed = some 0 then ([failed], solver)
  else
    let decided := solver.trail.queue.toList.drop (solver.trail.levelStart 1)
    let (assumed, solver) := collectAssumed decided.reverse (solver.mark failed.atom true)
    (failed :: assumed, solver)

end Solver

end Loadout
