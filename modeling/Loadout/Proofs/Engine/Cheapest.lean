/-
**The solution of an engine is the cheapest.**

`Engine.Reached` lists the ways in which an engine is used: choices and rules are registered,
changed and removed, and checks and searches are made, some of which are interrupted. Such an engine
is prepared when it is ready, and:

* **`solution_cheapest`**: the choices that a solution lists satisfy every constraint, an alias is
  listed just when its root is, and no other values of the roots that satisfy the constraints have a
  lower total weight.
-/

import Loadout.Proofs.Engine.Calls

namespace Loadout

namespace Engine

variable {engine : Engine}

/-! ### Histories -/

/-- **The engines that some history of operations leads to.** Operations may fail or be interrupted;
what happens outside during the next searches is set anew at any time. -/
inductive Reached : Engine → Prop
  | create (config : Config) (signal : CancelSignal) : Reached (create config signal)
  | addChoice {engine : Engine} (choice : Choice) (weight : Int) :
    Reached engine → Reached (engine.addChoice choice weight).2
  | setWeight {engine : Engine} (id : ChoiceId) (weight : Int) :
    Reached engine → Reached (engine.setWeight id weight).2
  | removeChoice {engine : Engine} (id : ChoiceId) :
    Reached engine → Reached (engine.removeChoice id).2
  | addRule {engine : Engine} (rule : Rule) (parent : Option RuleId) :
    Reached engine → Reached (engine.addRule rule parent).2
  | removeRule {engine : Engine} (id : RuleId) : Reached engine → Reached (engine.removeRule id).2
  | hasSolution {engine : Engine} : Reached engine → Reached engine.hasSolution.2
  | solution {engine : Engine} : Reached engine → Reached engine.solution.2
  | cancel {engine : Engine} : Reached engine → Reached engine.cancel
  | hardCancel {engine : Engine} : Reached engine → Reached engine.hardCancel
  | expect {engine : Engine} (events : List OutsideEvent) :
    Reached engine → Reached { engine with outside := events }

/-- Every engine in reach is in use. -/
theorem Reached.inUse (reached : engine.Reached) : engine.InUse := by
  induction reached with
  | create config signal => exact .create config signal
  | addChoice choice weight _ ih => exact .perform (.addChoice choice weight) ih
  | setWeight id weight _ ih => exact .perform (.setWeight id weight) ih
  | removeChoice id _ ih => exact .perform (.removeChoice id) ih
  | addRule rule parent _ ih => exact .perform (.addRule rule parent) ih
  | removeRule id _ ih => exact .perform (.removeRule id) ih
  | hasSolution _ ih => exact .perform .hasSolution ih
  | solution _ ih => exact .perform .solution ih
  | cancel _ ih => exact .perform .cancel ih
  | hardCancel _ ih => exact .perform .hardCancel ih
  | expect events _ ih => exact .perform (.expect events) ih

/-! ### The cheapest -/

/-- **A solution is a cheapest one.** Whatever was done with the engine before, and however often
its searches were interrupted: the listed roots satisfy every constraint of every registered rule,
what is listed are the registered choices whose root is listed, and any other values of the roots
that satisfy the constraints load choices of at least the same total weight. -/
theorem solution_cheapest (reached : engine.Reached) {loaded : List ChoiceId}
    (solved : engine.solution.1 = .ok loaded) :
    engine.forest.SatisfiedBy (fun id => engine.choices.isRoot id && loaded.contains id) ∧
    (∀ id, engine.choices.contains id = true →
      (id ∈ loaded ↔ engine.choices.root id ∈ loaded)) ∧
    loaded = engine.choices.loadedBy (fun id => loaded.contains id) ∧
    ∀ value, engine.forest.SatisfiedBy value →
      engine.choices.totalWeight loaded ≤
        engine.choices.totalWeight (engine.choices.loadedBy value) := by
  obtain ⟨value, onlyRoots, listed, satisfied, least⟩ := reached.inUse.informed_prepared.2.exists_least solved
  have onRoots : ∀ id, engine.choices.isRoot id = true → loaded.contains id = value id := by
    intro id isRoot
    rw [Bool.eq_iff_iff, List.contains_iff_mem, listed]
    exact ChoiceTable.mem_loadedBy_of_isRoot isRoot
  refine ⟨?_, fun id registered => ?_, ?_, least⟩
  · have same : (fun id => engine.choices.isRoot id && loaded.contains id) = value := by
      funext id
      cases isRoot : engine.choices.isRoot id with
      | false =>
        refine (Bool.eq_false_iff.mpr fun holds => ?_).symm
        exact Bool.false_ne_true (isRoot.symm.trans (onlyRoots id holds))
      | true => rw [Bool.true_and, onRoots id isRoot]
    rw [same]
    exact satisfied
  · rw [listed]
    exact ChoiceTable.mem_loadedBy_root registered
  · refine listed.trans (List.filter_congr fun id _ => ?_)
    cases isRoot : engine.choices.isRoot (engine.choices.root id) with
    | false => rfl
    | true => exact congrArg (true && ·) (onRoots _ isRoot).symm

/-- Two branches, the second with an alias, and a rule that asks for one of them. The first search
for the cheapest is cancelled. -/
def pickEngine : Engine :=
  let engine := create .standard .clear
  let engine := (engine.addChoice (.branch "source") 0).2
  let engine := (engine.addChoice (.branch "dear") 3).2
  let engine := (engine.addChoice (.branch "cheap") 1).2
  let engine := (engine.addChoice (.alias 2 "provided" default) 1).2
  let engine := (engine.addRule (.mandatory 0) none).2
  let engine := (engine.addRule (.dependsAny 0 [1, 2] none) none).2
  let engine := engine.hasSolution.2
  { engine with outside := [.cancel] }.solution.2

theorem reached_pickEngine : pickEngine.Reached :=
  .solution <| .expect [.cancel] <| .hasSolution <| .addRule _ _ <| .addRule _ _ <|
    .addChoice _ _ <| .addChoice _ _ <| .addChoice _ _ <| .addChoice _ _ <| .create _ _

/-- The second branch costs two with its alias, the first one three. -/
theorem solution_cheapest_of_pick :
    pickEngine.solution.1 = .ok [0, 2, 3] ∧
    ∀ value, pickEngine.forest.SatisfiedBy value →
      2 ≤ pickEngine.choices.totalWeight (pickEngine.choices.loadedBy value) := by
  have solved : pickEngine.solution.1 = .ok [0, 2, 3] := by decide +kernel
  have weight : pickEngine.choices.totalWeight [0, 2, 3] = 2 := by decide +kernel
  refine ⟨solved, fun value satisfied => ?_⟩
  rw [← weight]
  exact (solution_cheapest reached_pickEngine solved).2.2.2 value satisfied

end Engine

end Loadout
