/-
**A hard cancellation is for good.**

`Engine.Deed` lists all that may be done with an engine: the calls, and the two questions about its
conflicts. Once the engine is poisoned, no deed takes that back:

* `act_of_poisoned`: every operation is refused and leaves the engine as it is, with one exception,
  to define the stale rules anew, which is done as ever;
* `act_sealed`: so no deed changes choices, weights, the registered rules, the step or the conflict
  that is held, and none but the exception changes what is stored for a rule;
* **`hardCancel_refuses`**: the same after any sequence of deeds, by induction.

The exception makes a difference wherever a rule is stale (`not_refused_of_stale`).
-/

import Loadout.Diagnosis
import Loadout.Proofs.Engine.Protocol

namespace Loadout

namespace Forest

theorem SameRules.trans {first second third : Forest} (one : SameRules first second)
    (two : SameRules second third) : SameRules first third where
  tree := ⟨fun id => (two.tree.contains id).trans (one.tree.contains id),
    fun id => (two.tree.parent id).trans (one.tree.parent id),
    fun id => (two.tree.children id).trans (one.tree.children id)⟩
  rule id := (two.rule id).trans (one.rule id)

end Forest

namespace Engine

variable {engine : Engine}

theorem Unaltered.trans {first second third : Engine} (one : Unaltered first second)
    (two : Unaltered second third) : Unaltered first third :=
  ⟨two.choices.trans one.choices, one.rules.trans two.rules, two.step.trans one.step,
    two.lastCore.trans one.lastCore⟩

/-! ### Deeds -/

/-- **What may be done with an engine.** -/
inductive Deed
  | call (call : Call)
  /-- Asks for the rules of the last conflict. -/
  | lastConflict
  /-- Asks for the problems of the rules, at most a number of them if one is given. -/
  | diagnose (limit : Option Nat)

/-- Whether it is an operation of the engine, not something that happens outside. -/
def Deed.isOperation : Deed → Bool
  | .call .cancel => false
  | .call .hardCancel => false
  | .call (.expect _) => false
  | _ => true

/-- The error in which a deed ends, if it does, and the engine afterwards. -/
def act (deed : Deed) (engine : Engine) : Option SolverError × Engine :=
  match deed with
  | .call call => (engine.failure? call, engine.perform call)
  | .lastConflict => (errorIn (engine.lastConflict, engine), engine)
  | .diagnose limit => (errorIn (engine.diagnose limit), (engine.diagnose limit).2)

/-- The engine after some deeds. -/
def acts (deeds : List Deed) (engine : Engine) : Engine :=
  deeds.foldl (fun engine deed => (engine.act deed).2) engine

/-! ### One deed -/

theorem editFault?_of_poisoned (poisoned : engine.signal.isPoisoned = true)
    (operation : Operation) : engine.editFault? operation = some .cancelled := by
  unfold editFault?
  exact if_pos poisoned

theorem lastConflict_of_poisoned (poisoned : engine.signal.isPoisoned = true) :
    engine.lastConflict = .error .cancelled := by
  unfold lastConflict
  exact if_pos poisoned

theorem solution_of_poisoned (poisoned : engine.signal.isPoisoned = true) :
    engine.solution = (.error .cancelled, engine) := by
  unfold solution
  exact if_pos poisoned

/-- The first round of a diagnosis asks whether the rules can hold together, and ends there. -/
theorem diagnose_of_poisoned (poisoned : engine.signal.isPoisoned = true) (limit : Option Nat) :
    engine.diagnose limit = (.error .cancelled, engine) := by
  unfold diagnose diagnoseRounds
  rw [hasSolution_of_poisoned poisoned]

/-- An engine whose signal is poisoned, in the middle of a search perhaps, is one that was cancelled
for good. -/
theorem hardCancel_of_poisoned (poisoned : engine.signal.isPoisoned = true) :
    engine.hardCancel = engine := by
  have signal : engine.signal = .poisoned := by simpa [CancelSignal.isPoisoned] using poisoned
  show { engine with signal := .poisoned } = engine
  rw [← signal]

/-- What it is for an operation to be refused. -/
theorem refused_of_eq {α : Type} {outcome : Outcome α}
    (refused : outcome = (.error .cancelled, engine)) :
    (errorIn outcome, outcome.2) = (some .cancelled, engine) := by
  rw [refused]
  rfl

/-- **A poisoned engine refuses every operation but one**, and stays as it is. -/
theorem act_of_poisoned (poisoned : engine.signal.isPoisoned = true) {deed : Deed}
    (operation : deed.isOperation = true) (other : deed ≠ .call .redefine) :
    engine.act deed = (some .cancelled, engine) := by
  have edits := editFault?_of_poisoned poisoned
  cases deed with
  | call call =>
    cases call with
    | addChoice choice weight =>
      exact refused_of_eq ((edit_addChoice choice weight engine).eq_of_closed (edits _))
    | setWeight id weight =>
      exact refused_of_eq ((edit_setWeight id weight engine).eq_of_closed (edits _))
    | removeChoice id =>
      exact refused_of_eq ((edit_removeChoice id engine).eq_of_closed (edits _))
    | addRule rule parent =>
      exact refused_of_eq ((edit_addRule rule parent engine).eq_of_closed (edits _))
    | removeRule id =>
      exact refused_of_eq ((edit_removeRule id engine).eq_of_closed (edits _))
    | redefine => exact absurd rfl other
    | hasSolution => exact refused_of_eq (hasSolution_of_poisoned poisoned)
    | solution => exact refused_of_eq (solution_of_poisoned poisoned)
    | cancel => cases operation
    | hardCancel => cases operation
    | expect events => cases operation
  | lastConflict =>
    have refused : (engine.lastConflict, engine) = (.error .cancelled, engine) := by
      rw [lastConflict_of_poisoned poisoned]
    exact refused_of_eq refused
  | diagnose limit => exact refused_of_eq (diagnose_of_poisoned poisoned limit)

/-- To define the stale rules anew is never refused. -/
theorem act_redefine (engine : Engine) :
    ∃ forest, engine.act (.call .redefine) = (none, { engine with forest }) ∧
      Forest.Redefined engine.choices engine.forest forest := by
  obtain ⟨forest, done, redefined⟩ := redefine_spec engine
  refine ⟨forest, ?_, redefined⟩
  unfold act failure? perform
  rw [done]
  rfl

/-- **No deed takes the poison out of an engine**, and none alters what was told to it. -/
theorem act_sealed (poisoned : engine.signal.isPoisoned = true) (deed : Deed) :
    (engine.act deed).2.signal.isPoisoned = true ∧ Unaltered engine (engine.act deed).2 ∧
      (deed ≠ .call .redefine → (engine.act deed).2.forest = engine.forest) := by
  cases operation : deed.isOperation with
  | true =>
    by_cases anew : deed = .call .redefine
    · obtain ⟨forest, done, redefined⟩ := act_redefine engine
      rw [anew, done]
      exact ⟨poisoned, ⟨rfl, redefined.sameRules, rfl, rfl⟩, fun other => absurd rfl other⟩
    · rw [act_of_poisoned poisoned operation anew]
      exact ⟨poisoned, .refl engine, fun _ => rfl⟩
  | false =>
    match deed, operation with
    | .call .cancel, _ =>
      refine ⟨?_, ⟨rfl, .refl _, rfl, rfl⟩, fun _ => rfl⟩
      have signal : engine.signal = .poisoned := by
        simpa [CancelSignal.isPoisoned] using poisoned
      show engine.signal.cancel.isPoisoned = true
      rw [signal]
      rfl
    | .call .hardCancel, _ => exact ⟨rfl, ⟨rfl, .refl _, rfl, rfl⟩, fun _ => rfl⟩
    | .call (.expect _), _ => exact ⟨poisoned, ⟨rfl, .refl _, rfl, rfl⟩, fun _ => rfl⟩

/-! ### Any deeds -/

/-- **Nor do any number of deeds.** -/
theorem acts_sealed (deeds : List Deed) (engine : Engine)
    (poisoned : engine.signal.isPoisoned = true) :
    (engine.acts deeds).signal.isPoisoned = true ∧ Unaltered engine (engine.acts deeds) ∧
      (.call .redefine ∉ deeds → (engine.acts deeds).forest = engine.forest) := by
  induction deeds generalizing engine with
  | nil => exact ⟨poisoned, .refl engine, fun _ => rfl⟩
  | cons deed rest ih =>
    obtain ⟨poisoned', unaltered, kept⟩ := act_sealed poisoned deed
    obtain ⟨poisoned'', unaltered', kept'⟩ := ih (engine.act deed).2 poisoned'
    refine ⟨poisoned'', unaltered.trans unaltered', fun absent => ?_⟩
    obtain ⟨here, later⟩ := not_or.mp fun either => absent (List.mem_cons.mpr either)
    exact (kept' later).trans (kept fun same => here same.symm)

/-- **What a hard cancellation does to an engine**, whatever was done with it before and is done with
it afterwards:

* its choices with their weights, the registered rules with their places, the step and the conflict
  that is held stay what they are, and so does what is stored for each rule, unless the engine is
  told to define its stale rules anew;
* every operation but that one is refused as cancelled, and changes nothing at all;
* that one is not refused: the stale rules are defined anew, and nothing else happens.

An engine that was poisoned in the middle of a search is one that was cancelled so. -/
theorem hardCancel_refuses (engine : Engine) (later : List Deed) :
    (engine.signal.isPoisoned = true → engine.hardCancel = engine) ∧
    Unaltered engine (engine.hardCancel.acts later) ∧
    (.call .redefine ∉ later → (engine.hardCancel.acts later).forest = engine.forest) ∧
    (∀ deed : Deed, deed.isOperation = true → deed ≠ .call .redefine →
      (engine.hardCancel.acts later).act deed =
        (some .cancelled, engine.hardCancel.acts later)) ∧
    ∃ forest, (engine.hardCancel.acts later).act (.call .redefine) =
        (none, { engine.hardCancel.acts later with forest }) ∧
      Forest.Redefined engine.choices (engine.hardCancel.acts later).forest forest := by
  have cancelled : Unaltered engine engine.hardCancel := ⟨rfl, .refl _, rfl, rfl⟩
  obtain ⟨poisoned, unaltered, kept⟩ := acts_sealed later engine.hardCancel rfl
  have whole := cancelled.trans unaltered
  refine ⟨hardCancel_of_poisoned, whole, kept, fun deed operation other =>
    act_of_poisoned poisoned operation other, ?_⟩
  obtain ⟨forest, done, redefined⟩ := act_redefine (engine.hardCancel.acts later)
  rw [whole.choices] at redefined
  exact ⟨forest, done, redefined⟩

/-- The engine with a set of the versions of a mod that has taken note of a second one, and so has to
be defined anew. -/
def staleEngine : Engine :=
  (((create .standard .clear).perform (.addChoice (.candidate "a" "a-1" default false) 0)).perform
    (.addRule (.optionalSet "a" []) none)).perform
      (.addChoice (.candidate "a" "a-2" default false) 0)

theorem inUse_staleEngine : staleEngine.InUse :=
  .perform _ (.perform _ (.perform _ (.create _ _)))

/-- **Not every operation is refused after a hard cancellation**: the stale set is defined anew, and
what is stored for it changes. -/
theorem not_refused_of_stale :
    ¬∀ engine : Engine, engine.InUse → ∀ (later : List Deed) (deed : Deed),
      deed.isOperation = true →
        ((engine.hardCancel.acts later).act deed).1 = some .cancelled ∧
        ((engine.hardCancel.acts later).act deed).2.forest.constraints =
          (engine.hardCancel.acts later).forest.constraints := by
  intro refused
  have kept := (refused staleEngine inUse_staleEngine [] (.call .redefine) rfl).2
  have changed : (staleEngine.hardCancel.act (.call .redefine)).2.forest.constraints ≠
      staleEngine.hardCancel.forest.constraints := by decide +kernel
  exact changed kept

end Engine

end Loadout
