/-
**What a call does to choices and rules.**

Whatever a call to an engine comes to, only a few things can have happened to its choices and rules
(`Engine.Turn`): both are as they were, some rules were defined anew, or a choice or a rule was added,
changed or removed.

* **`turn_perform`**: every call takes one of these turns.
-/

import Loadout.Proofs.Engine.Calls

namespace Loadout

namespace Engine

variable {engine : Engine}

/-- **A call takes choices and rules from those of an engine to others.** -/
inductive Turn (engine : Engine) : Call → ChoiceTable → Forest → Prop
  /-- Both are as they were. -/
  | still (call : Call) : Turn engine call engine.choices engine.forest
  /-- The rules whose choices have changed are defined anew. -/
  | renewed (call : Call) {forest : Forest} :
    Forest.Redefined engine.choices engine.forest forest → forest.active = engine.forest.active →
    forest.nodes.size = engine.forest.nodes.size → Turn engine call engine.choices forest
  | choiceAdded (choice : Choice) (weight : Int) :
    Turn engine (.addChoice choice weight) (engine.choices.add choice weight).2
      (engine.forest.react (Rule.choiceAdded (engine.choices.add choice weight).2
        engine.choices.entries.size))
  | weightSet (id : ChoiceId) (weight : Int) {choices : ChoiceTable} :
    engine.choices.setWeight id weight = some choices →
    Turn engine (.setWeight id weight) choices engine.forest
  | choiceRemoved (id : ChoiceId) {choices : ChoiceTable} :
    engine.choices.remove id = some choices →
    Turn engine (.removeChoice id) choices (engine.forest.react (Rule.choiceRemoved id))
  | ruleAdded (rule : Rule) (parent : Option RuleId) (constraints : List Cardinality) :
    (∀ above, parent = some above → engine.forest.contains above = true) →
    Turn engine (.addRule rule parent) engine.choices
      ((engine.forest.add (acquaint engine.choices rule) parent).2.modify engine.forest.nodes.size
        fun node => { node with constraints, stale := false })
  | ruleRemoved (id : RuleId) : engine.forest.contains id = true →
    Turn engine (.removeRule id) engine.choices (engine.forest.remove id).2

/-! ### Questions -/

/-- A solution leaves choices and rules as they are. -/
theorem solution_kept (engine : Engine) :
    engine.solution.2.choices = engine.choices ∧ engine.solution.2.forest = engine.forest := by
  have sought := sought_solution engine
  generalize engine.solution = outcome at sought
  cases sought with
  | poisoned | unready => exact ⟨rfl, rfl⟩
  | missing => exact ⟨(same_startClock engine).choices, (same_startClock engine).forest⟩
  | found numbering _ dog left _ | refuted numbering dog left _ =>
    have same := same_leftWith numbering dog left engine
    exact ⟨same.choices, same.forest⟩
  | interrupted numbering dog left _ =>
    have same := same_leftWith numbering dog left engine
    have kept := same_interrupted (List ChoiceId) (engine.leftWith numbering dog left)
    exact ⟨kept.choices.trans same.choices, kept.forest.trans same.forest⟩

/-- To define rules anew is not to count or to number them anew. -/
theorem counts_redefineRules (ids : List RuleId) (engine : Engine) :
    (redefineRules ids engine).2.forest.active = engine.forest.active ∧
      (redefineRules ids engine).2.forest.nodes.size = engine.forest.nodes.size := by
  induction ids generalizing engine with
  | nil => exact ⟨rfl, rfl⟩
  | cons id rest ih =>
    unfold redefineRules
    cases defined : engine.forest.define engine.choices id with
    | error error => exact ⟨rfl, rfl⟩
    | ok forest =>
      obtain ⟨active, size⟩ := ih { engine with forest }
      unfold Forest.define at defined
      split at defined
      · cases defined
      · next node _ =>
        obtain ⟨constraints, made⟩ := Rule.define_ok engine.choices id node.rule
        rw [made] at defined
        cases defined
        exact ⟨active, size.trans (Array.size_modify ..)⟩

theorem turn_redefine (engine : Engine) (call : Call) :
    Turn engine call engine.redefine.2.choices engine.redefine.2.forest := by
  obtain ⟨forest, redefined, anew⟩ := redefine_spec engine
  have counts := counts_redefineRules engine.forest.staleRules engine
  change engine.redefine.2.forest.active = _ ∧ engine.redefine.2.forest.nodes.size = _ at counts
  rw [redefined] at counts ⊢
  exact .renewed call anew counts.1 counts.2

theorem turn_hasSolution (engine : Engine) (call : Call) :
    Turn engine call engine.hasSolution.2.choices engine.hasSolution.2.forest := by
  have anew := turn_redefine engine call
  have inquiry := inquiry_hasSolution engine
  generalize engine.hasSolution = outcome at inquiry
  cases inquiry with
  | checked forest _ _ _ redefined _ =>
    rw [redefined] at anew
    obtain ⟨choices, kept, _⟩ := checkRules_kept { engine with forest }
    rwa [choices, kept]
  | _ => exact .still call

/-! ### Calls -/

/-- An edit takes a turn if the change that it makes does. -/
theorem turn_edit {α : Type} {operation : Operation} {change : α → ChoiceTable → Forest → Prop}
    {outcome : Outcome α} {call : Call} (edit : Edit engine operation change outcome)
    (turns : ∀ result choices forest, change result choices forest →
      Turn engine call choices forest) :
    Turn engine call outcome.2.choices outcome.2.forest := by
  cases edit with
  | closed | faulty => exact .still call
  | done result _ made => exact turns result _ _ made

/-- **Every call takes one of the turns**, whatever it comes to. -/
theorem turn_perform (engine : Engine) (call : Call) :
    Turn engine call (engine.perform call).choices (engine.perform call).forest := by
  cases call with
  | addChoice choice weight =>
    refine turn_edit (edit_addChoice choice weight engine) ?_
    rintro _ _ _ ⟨rfl, rfl⟩
    exact .choiceAdded choice weight
  | setWeight id weight =>
    refine turn_edit (edit_setWeight id weight engine) ?_
    rintro _ _ _ ⟨changed, rfl⟩
    exact .weightSet id weight changed
  | removeChoice id =>
    refine turn_edit (edit_removeChoice id engine) ?_
    rintro _ _ _ ⟨removed, rfl⟩
    exact .choiceRemoved id removed
  | addRule rule parent =>
    refine turn_edit (edit_addRule rule parent engine) ?_
    rintro _ _ _ ⟨rfl, rfl, registered, constraints, _, rfl⟩
    exact .ruleAdded rule parent constraints registered
  | removeRule id =>
    refine turn_edit (edit_removeRule id engine) ?_
    rintro _ _ _ ⟨registered, _, rfl, rfl⟩
    exact .ruleRemoved id registered
  | redefine => exact turn_redefine engine .redefine
  | hasSolution => exact turn_hasSolution engine .hasSolution
  | solution =>
    obtain ⟨choices, forest⟩ := solution_kept engine
    unfold perform
    dsimp only
    rw [choices, forest]
    exact .still .solution
  | cancel => exact .still .cancel
  | hardCancel => exact .still .hardCancel
  | expect events => exact .still (.expect events)

end Engine

end Loadout
