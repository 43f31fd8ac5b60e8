/-
**An interrupted search for the cheapest assignment comes to the same.**

An interruption leaves learned clauses, bounds on the cost and the best assignment so far behind.
None of that can change what the search comes to in the end, since it does not leave the way down
(`Descent`):

* `Resumed`: the optimizers that calls lead to, each of which may be stopped at any poll;
* `Resumed.follows`: they are all on the way down of the optimizer that was built;
* **`resumed_same`**: a call that is not stopped finds the very values that a single call would have
  found.
-/

import Loadout.Proofs.Engine.Descents

namespace Loadout

namespace Optimizer

variable {demands : List Demand} {objective : List (Int × Literal)} {descent : Descent}
  {start : Stage} {optimizer resumed : Optimizer}

/-- **The optimizers that a sequence of calls leads to**, under any conditions, and wherever they
stop them. -/
inductive Resumed (optimizer : Optimizer) : Optimizer → Prop
  | start : Resumed optimizer optimizer
  | again {resumed : Optimizer} {condition : Type} [Interruption condition]
    (stopping : condition) : Resumed optimizer resumed →
      Resumed optimizer (resumed.optimize stopping).2.2

/-- Calls lose no assignment. -/
theorem Resumed.sound (history : Resumed optimizer resumed)
    (sound : optimizer.Sound demands objective) : resumed.Sound demands objective := by
  induction history with
  | start => exact sound
  | again stopping _ ih => exact (optimize_spec ih stopping).1

/-- **Calls stay on the way down.** -/
theorem Resumed.follows (history : Resumed optimizer resumed)
    (sound : optimizer.Sound demands objective)
    (proper : ∀ term ∈ descent.objective, term.2.isVoid = false)
    (follows : Follows descent start optimizer) : Follows descent start resumed := by
  induction history with
  | start => exact follows
  | again stopping history ih =>
    exact ((loops_optimize (history.sound sound) stopping).follows proper ih).1

variable {condition condition' : Type} [Interruption condition] [Interruption condition']

/-- **An interrupted search comes to the same.** However often an optimizer was called before, and
at whichever polls these calls were stopped: a call that is never stopped is answered, and with the
same values as a single call to the optimizer as it was built, if that is never stopped either. -/
theorem resumed_same {numbering : Numbering} {rules : List (RuleId × List Cardinality)}
    (proper : ∀ term ∈ objective, term.2.isVoid = false)
    (built : build numbering rules objective = .ok optimizer)
    (history : Resumed optimizer resumed) {stopping : condition} {single : condition'}
    (never : Interruption.NeverStops stopping) (never' : Interruption.NeverStops single) :
    (resumed.optimize stopping).1 = (optimizer.optimize single).1 ∧
      (resumed.optimize stopping).1 ≠ .stopped := by
  obtain ⟨demands, sound, follows, _⟩ := build_follows proper built
  have answered := (optimize_answer (Interruption.calm_becomes never) stopping .refl
    (history.sound sound)).1
  have answered' := (optimize_answer (Interruption.calm_becomes never') single .refl sound).1
  have ends := ((loops_optimize (history.sound sound) stopping).follows proper
    (history.follows sound proper follows)).2
  have ends' := ((loops_optimize sound single).follows proper follows).2
  exact ⟨ends.unique ends' answered answered', answered⟩

/-- One of three variables is to be true, of which the first two cost the same. -/
def tiedOptimizer : Optimizer :=
  match build ⟨#[some 1, some 2, some 3], 3⟩
      [(0, [⟨[.ofChoice 0, .ofChoice 1, .ofChoice 2], 1, 3⟩])]
      [(3, ⟨1, true⟩), (3, ⟨2, true⟩), (5, ⟨3, true⟩)] with
  | .ok optimizer => optimizer
  | .error _ => ⟨.empty, [], none, false⟩

/-- The same after a call that stops before its first decision, one that stops with the dearest
assignment in hand, and one that is cancelled later on. -/
def pausedOptimizer : Optimizer :=
  let optimizer := (tiedOptimizer.optimize (⟨0, 0⟩ : DecisionBudget)).2.2
  let optimizer := (optimizer.optimize (⟨3, 0⟩ : DecisionBudget)).2.2
  (optimizer.optimize (⟨.clear, none, [.quiet, .cancel]⟩ : Watchdog)).2.2

/-- Of the two that cost the same, the second is found after all interruptions as well. -/
theorem resumed_same_of_tied :
    pausedOptimizer.best.isSome = true ∧ pausedOptimizer.proven = false ∧
    (tiedOptimizer.optimize (⟨⟩ : Never)).1 = .found #[false, false, true, false] ∧
    (pausedOptimizer.optimize (⟨⟩ : Never)).1 = .found #[false, false, true, false] := by
  have proper : ∀ term ∈ [((3 : Int), (⟨1, true⟩ : Literal)), (3, ⟨2, true⟩), (5, ⟨3, true⟩)],
      term.2.isVoid = false := by decide
  have built : build ⟨#[some 1, some 2, some 3], 3⟩
      [(0, [⟨[.ofChoice 0, .ofChoice 1, .ofChoice 2], 1, 3⟩])]
      [(3, ⟨1, true⟩), (3, ⟨2, true⟩), (5, ⟨3, true⟩)] = .ok tiedOptimizer := rfl
  have history : Resumed tiedOptimizer pausedOptimizer :=
    .again _ <| .again _ <| .again _ .start
  have single : (tiedOptimizer.optimize (⟨⟩ : Never)).1 = .found #[false, false, true, false] := by
    decide +kernel
  refine ⟨by decide +kernel, by decide +kernel, single, ?_⟩
  rw [← single]
  exact (resumed_same proper built history Solver.neverStops_never
    Solver.neverStops_never).1

end Optimizer

end Loadout
