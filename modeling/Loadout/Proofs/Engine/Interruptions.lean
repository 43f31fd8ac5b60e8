/-
**Nothing but an interruption stops an engine whose rules are up to date.**

Such an engine is *workable* (`Engine.Workable`) while its choices and rules may be changed. Whatever
happens outside:

* `Workable.hasSolution`: the question whether its rules can hold together is interrupted, or the
  engine is ready, or it is still workable and has a conflict to give out;
* `Workable.removeRule`: a registered rule can be removed from it, and it stays workable;
* **`Workable.diagnose`**: a diagnosis of it gives problems or is interrupted.
-/

import Loadout.Proofs.Engine.Causes
import Loadout.Proofs.Engine.Protocol

namespace Loadout

namespace Engine

variable {engine after : Engine}

/-- **The rules of an engine are up to date, and may be changed.** -/
structure Workable (engine : Engine) : Prop where
  editable : engine.Editable
  settled : Forest.Settled engine.choices engine.forest
  informed : engine.Informed

/-- **What a question to a workable engine comes to.** -/
inductive Replied (engine : Engine) : Outcome Bool → Prop
  /-- It is interrupted. -/
  | interrupted {result : Except SolverError Bool} {after : Engine} : Interrupted result →
    Replied engine (result, after)
  /-- The rules can hold together, and the engine is ready to search for the cheapest way. -/
  | feasible {after : Engine} : after.choices = engine.choices → after.forest = engine.forest →
    after.step = .ready → after.Informed → after.Prepared → Replied engine (.ok true, after)
  /-- They cannot, and there is a conflict to give out. -/
  | infeasible {after : Engine} {core : List RuleId} : after.Workable →
    after.signal.isPoisoned = false → after.lastConflict = .ok core → Replied engine (.ok false, after)

/-- **A check of rules that are up to date ends in no error but an interruption.** -/
theorem Workable.checkRules_error (workable : engine.Workable) {error : SolverError}
    (failed : engine.checkRules.1 = .error error) : Interrupted engine.checkRules.1 := by
  have same := same_startClock engine
  have checked := checked_checkRules engine
  generalize engine.checkRules = outcome at checked failed
  cases checked with
  | faulty fault wrong =>
    rw [same.choices, same.forest] at wrong
    exact absurd workable.settled.rooted wrong
  | interrupted dog _ _ => exact interrupted_interrupted Bool _
  | feasible dog optimizer _ _ _ _ => cases failed
  | infeasible dog core _ _ _ => cases failed

/-- **What a workable engine replies**, whatever happens outside. -/
theorem Workable.hasSolution (workable : engine.Workable) : Replied engine engine.hasSolution := by
  have informed := workable.informed
  have inquiry := inquiry_hasSolution engine
  generalize engine.hasSolution = outcome at inquiry
  cases inquiry with
  | poisoned => exact .interrupted (.inl rfl)
  | closed _ closed => exact absurd closed workable.editable.not_closed
  | ready _ ready => exact absurd ready workable.editable.not_ready
  | remembered free _ _ held =>
    obtain ⟨core, known⟩ := Option.isSome_iff_exists.mp held
    exact .infeasible workable free
      (lastConflict_of_held free known (informed.conflict core known).1)
  | checked forest free editable unknown redefined _ =>
    obtain rfl := forest_of_fresh workable.settled.fresh redefined
    have judged := judged_checkRules free editable.not_ready (informed.lastCore_eq_none unknown)
      workable.settled.fresh
    have prepared := prepared_checkRules editable.not_ready
    have failing := @Workable.checkRules_error engine workable
    obtain ⟨choices, forest, _⟩ := checkRules_kept engine
    show Replied engine engine.checkRules
    generalize engine.checkRules = outcome at judged prepared choices forest failing
    obtain ⟨result, after⟩ := outcome
    cases result with
    | error error => exact .interrupted (failing rfl)
    | ok answer =>
      cases answer with
      | true => exact .feasible choices forest (judged.positive rfl) judged.informed prepared
      | false =>
        obtain ⟨free, noted⟩ := judged.negative rfl
        obtain ⟨core, known⟩ := Option.isSome_iff_exists.mp noted
        obtain ⟨failed, _, settled, _⟩ := judged.informed.conflict core known
        exact .infeasible ⟨.inr failed, settled, judged.informed⟩ free
          (lastConflict_of_held free known failed)

/-- **A registered rule can be removed from a workable engine**, which stays workable. -/
theorem Workable.removeRule (workable : engine.Workable) (free : engine.signal.isPoisoned = false)
    {id : RuleId} (registered : engine.forest.contains id = true) :
    ∃ removed after, engine.removeRule id = (.ok removed, after) ∧ after.Workable := by
  have allowed : engine.editFault? .removeRule = none :=
    editFault?_eq_none_iff.mpr ⟨free, workable.editable⟩
  have settled := workable.settled.under (Forest.under_remove id engine.forest)
  refine ⟨_, _, removeRule_eq allowed registered, workable.editable, settled, ?_⟩
  exact informed_of_open workable.editable.not_ready rfl

/-- The rounds of a diagnosis of a workable engine end in problems or are interrupted. -/
theorem Workable.diagnoseRounds (limit : Option Nat) (rounds : Nat) (reported : List RuleId)
    (problems : List Problem) (engine : Engine) (workable : engine.Workable) :
    (∃ found, (engine.diagnoseRounds limit rounds reported problems).1 = .ok found) ∨
      Interrupted (engine.diagnoseRounds limit rounds reported problems).1 := by
  induction rounds generalizing reported problems engine with
  | zero => exact .inl ⟨_, rfl⟩
  | succ rounds ih =>
    have replied := workable.hasSolution
    unfold Engine.diagnoseRounds
    generalize engine.hasSolution = outcome at replied
    cases replied with
    | interrupted stopped =>
      obtain rfl | rfl := stopped
      · exact .inr (.inl rfl)
      · exact .inr (.inr rfl)
    | feasible _ _ _ _ _ => exact .inl ⟨_, rfl⟩
    | infeasible workable' free conflict =>
      dsimp only
      rw [conflict]
      dsimp only
      -- whether the conflict is reported or not, the round goes on alike
      split
      all_goals
        split
        · exact .inl ⟨_, rfl⟩
        · split
          · exact .inl ⟨_, rfl⟩
          · next victim picked =>
            obtain ⟨removed, after, done, workable''⟩ :=
              workable'.removeRule free (Forest.pickRemoval_registered picked)
            rw [done]
            exact ih _ _ after workable''

/-- **A diagnosis of a workable engine gives problems or is interrupted.** -/
theorem Workable.diagnose (limit : Option Nat) (workable : engine.Workable) :
    (∃ problems, (engine.diagnose limit).1 = .ok problems) ∨
      Interrupted (engine.diagnose limit).1 :=
  Workable.diagnoseRounds limit _ [] [] engine workable

end Engine

end Loadout
