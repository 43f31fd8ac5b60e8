/-
**What an edit does to an engine.**

Choices and rules are changed by five operations. Each of them is refused, and then leaves the engine
as it is, or gives it other choices and rules and makes it forget what it has found out
(`Engine.Edit`). What the other choices and rules are is said once for each operation, and whatever
is to be known of an edit follows from that:

* `edit_addChoice`, `edit_setWeight`, `edit_removeChoice`, **`edit_addRule`**, `edit_removeRule`: the
  operations are edits;
* `Edit.eq_of_closed`: an edit is refused by an engine that may not be changed;
* `Edit.step_of_ok`, `Edit.of_ok`: what comes of an edit that succeeds.
-/

import Loadout.Proofs.Engine.Redefinition

namespace Loadout

namespace Engine

variable {engine after : Engine}

/-- **What an edit comes to**; `change` says what result it gives and what choices and rules are
then. -/
inductive Edit {α : Type} (engine : Engine) (operation : Operation)
    (change : α → ChoiceTable → Forest → Prop) : Outcome α → Prop
  /-- Nothing may be changed now. -/
  | closed (error : SolverError) : engine.editFault? operation = some error →
    Edit engine operation change (.error error, engine)
  /-- What the edit is about is not registered. -/
  | faulty (fault : DefinitionError) : engine.editFault? operation = none →
    Edit engine operation change (.error (.definition fault), engine)
  | done (result : α) {choices : ChoiceTable} {forest : Forest} :
    engine.editFault? operation = none → change result choices forest →
    Edit engine operation change (.ok result, { engine with choices, forest }.markChanged)

/-! ### The operations -/

theorem edit_addChoice (choice : Choice) (weight : Int) (engine : Engine) :
    Edit engine .addChoice (fun _ choices forest =>
      choices = (engine.choices.add choice weight).2 ∧
        forest = engine.forest.react (Rule.choiceAdded (engine.choices.add choice weight).2
          engine.choices.entries.size)) (engine.addChoice choice weight) := by
  unfold addChoice
  split
  · next error fault => exact .closed error fault
  · next free => exact .done _ free ⟨rfl, rfl⟩

theorem edit_setWeight (id : ChoiceId) (weight : Int) (engine : Engine) :
    Edit engine .setWeight (fun _ choices forest =>
      engine.choices.setWeight id weight = some choices ∧ forest = engine.forest)
      (engine.setWeight id weight) := by
  unfold setWeight
  split
  · next error fault => exact .closed error fault
  · next free =>
    split
    · exact .faulty _ free
    · next changed => exact .done () free ⟨changed, rfl⟩

theorem edit_removeChoice (id : ChoiceId) (engine : Engine) :
    Edit engine .removeChoice (fun _ choices forest =>
      engine.choices.remove id = some choices ∧
        forest = engine.forest.react (Rule.choiceRemoved id)) (engine.removeChoice id) := by
  unfold removeChoice
  split
  · next error fault => exact .closed error fault
  · next free =>
    split
    · exact .faulty _ free
    · next removed => exact .done () free ⟨removed, rfl⟩

/-- A rule that is added gets the next number, and is defined. -/
theorem edit_addRule (rule : Rule) (parent : Option RuleId) (engine : Engine) :
    Edit engine .addRule (fun id choices forest =>
      id = engine.forest.nodes.size ∧ choices = engine.choices ∧
        (∀ above, parent = some above → engine.forest.contains above = true) ∧
        ∃ constraints,
          (engine.forest.add (acquaint engine.choices rule) parent).2.define engine.choices id =
            .ok forest ∧
          forest = (engine.forest.add (acquaint engine.choices rule) parent).2.modify id
            fun node => { node with constraints, stale := false }) (engine.addRule rule parent) := by
  unfold addRule
  split
  · next error fault => exact .closed error fault
  · next free =>
    split
    · exact .faulty _ free
    · next registered =>
      -- the new rule is always defined, so it is never taken back
      obtain ⟨constraints, defined⟩ := Forest.define_added engine.choices
        (acquaint engine.choices rule) parent engine.forest
      dsimp only
      rw [defined]
      refine .done _ free ⟨rfl, rfl, ?_, constraints, defined, rfl⟩
      rintro above rfl
      simpa using registered

theorem edit_removeRule (id : RuleId) (engine : Engine) :
    Edit engine .removeRule (fun removed choices forest =>
      engine.forest.contains id = true ∧ removed = (engine.forest.remove id).1 ∧
        choices = engine.choices ∧ forest = (engine.forest.remove id).2)
      (engine.removeRule id) := by
  cases fault : engine.editFault? .removeRule with
  | some error =>
    unfold removeRule
    rw [fault]
    exact .closed error fault
  | none =>
    by_cases registered : engine.forest.contains id = true
    · rw [removeRule_eq fault registered]
      exact .done _ fault ⟨registered, rfl, rfl, rfl⟩
    · unfold removeRule
      rw [fault]
      dsimp only
      rw [if_neg registered]
      exact .faulty _ fault

/-! ### What follows for every edit -/

section Edit

variable {α : Type} {operation : Operation} {change : α → ChoiceTable → Forest → Prop}
  {outcome : Outcome α}

/-- An edit is refused by an engine that may not be changed. -/
theorem Edit.eq_of_closed (edit : Edit engine operation change outcome) {error : SolverError}
    (closed : engine.editFault? operation = some error) : outcome = (.error error, engine) := by
  cases edit with
  | closed other fault => rw [Option.some.inj (fault.symm.trans closed)]
  | faulty fault free => cases free.symm.trans closed
  | done result free made => cases free.symm.trans closed

/-- What an edit that succeeds says of the choices and rules. -/
theorem Edit.of_ok {result : α} (edit : Edit engine operation change (.ok result, after)) :
    change result after.choices after.forest := by
  cases edit with
  | done _ free made => exact made

/-- An edit succeeds only where choices and rules may be changed, and is noted as a change. -/
theorem Edit.step_of_ok {result : α} (edit : Edit engine operation change (.ok result, after)) :
    after.signal.isPoisoned = false ∧ after.Editable ∧ after.changed = true := by
  cases edit with
  | done _ free made =>
    obtain ⟨free, editable⟩ := editFault?_eq_none_iff.mp free
    exact ⟨free, editable, rfl⟩

end Edit

end Engine

end Loadout
