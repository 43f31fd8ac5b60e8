/-
**The protocol of an engine.**

An engine is told its choices and rules, is asked whether the rules can hold together, and gives a
solution once they can. What a call does to an engine in use is one of five things
(`Engine.Conduct`): it leaves the engine as it is, changes choices or rules, finds a conflict, makes
the engine ready, or gives the solution:

* `conduct_call`: every call to an engine in use is conducted so;
* `InUse.settled`: no engine in use is in the middle of a search, and none that is ready or done has
  rules to define anew;
* `InUse.computed`: a conflict that an engine in use holds was found by a check of this history, for
  the choices and rules that it has now;
* **`protocol_kept`**: an engine moves from step to step in one direction, what was proven is never
  edited away, what fails changes nothing, and a conflict is never out of date.
-/

import Loadout.Proofs.Engine.Agreement
import Loadout.Proofs.Engine.Trees

namespace Loadout

/-- The steps to which an engine may go by one call; none is in the middle of a search. -/
def Step.next : Step → List Step
  | .defining => [.defining, .failed, .ready]
  | .failed => [.failed, .ready]
  | .ready => [.ready, .done]
  | .optimizing => []
  | .done => [.done]

namespace Forest

/-- **The registered rules are the same**, and so are their parents and parts; they may be defined
anew. -/
structure SameRules (old new : Forest) : Prop where
  tree : SameTree old new
  rule : ∀ id, new.rule? id = old.rule? id

theorem SameRules.refl (forest : Forest) : SameRules forest forest :=
  ⟨⟨fun _ => rfl, fun _ => rfl, fun _ => rfl⟩, fun _ => rfl⟩

theorem Redefined.sameRules {table : ChoiceTable} {old new : Forest}
    (redefined : Redefined table old new) : SameRules old new :=
  ⟨redefined.sameTree, redefined.rule?_eq⟩

end Forest

namespace Engine

variable {engine after : Engine}

/-! ### Calls that fail -/

/-- The error in which something done with an engine ends, if it does. -/
def errorIn {α : Type} : Outcome α → Option SolverError
  | (.error error, _) => some error
  | (.ok _, _) => none

/-- The error in which a call ends, if it does. -/
def failure? (call : Call) (engine : Engine) : Option SolverError :=
  match call with
  | .addChoice choice weight => errorIn (engine.addChoice choice weight)
  | .setWeight id weight => errorIn (engine.setWeight id weight)
  | .removeChoice id => errorIn (engine.removeChoice id)
  | .addRule rule parent => errorIn (engine.addRule rule parent)
  | .removeRule id => errorIn (engine.removeRule id)
  | .redefine => errorIn engine.redefine
  | .hasSolution => errorIn engine.hasSolution
  | .solution => errorIn engine.solution
  | .cancel => none
  | .hardCancel => none
  | .expect _ => none

/-- **A call has changed nothing that counts**: the choices with their weights, the rules with their
places, the step and the conflict that is held. -/
structure Unaltered (old new : Engine) : Prop where
  choices : new.choices = old.choices
  rules : Forest.SameRules old.forest new.forest
  step : new.step = old.step
  lastCore : new.lastCore = old.lastCore

theorem Unaltered.refl (engine : Engine) : Unaltered engine engine :=
  ⟨rfl, .refl _, rfl, rfl⟩

/-! ### What a call does -/

/-- Something was found out about the rules as they are. -/
def Concluded (engine : Engine) : Prop :=
  engine.step = .ready ∨ engine.step = .done ∨ engine.lastCore.isSome = true

/-- **What a call does to an engine**, given the error in which it ends and the engine after it. -/
inductive Conduct (engine : Engine) : Option SolverError → Engine → Prop
  /-- Nothing is changed; at most, rules of which nothing is known are defined anew. -/
  | still (failure : Option SolverError) {after : Engine} : Unaltered engine after →
    (engine.Concluded → after.forest = engine.forest) → Conduct engine failure after
  /-- Choices or rules are changed. -/
  | edited {after : Engine} : engine.Editable → after.step = engine.step →
    after.lastCore = none → Conduct engine none after
  /-- The rules are defined anew, and a check finds a conflict. -/
  | denied {checked after : Engine} {core : List RuleId} : engine.Editable →
    engine.redefine = (.ok (), checked) → engine.hasSolution = (.ok false, after) →
    checked.checkRules = (.ok false, after) → after.lastCore = some core →
    after.step = .failed → Conduct engine none after
  /-- The rules are defined anew, and a check finds that they can hold together. -/
  | allowed {after : Engine} : engine.Editable → after.step = .ready → after.lastCore = none →
    Conduct engine none after
  /-- A solution is given. -/
  | solved {after : Engine} : engine.step = .ready → after.step = .done →
    after.choices = engine.choices → after.forest = engine.forest →
    after.lastCore = engine.lastCore → Conduct engine none after

/-- What is the same engine is unaltered. -/
theorem conduct_self (engine : Engine) (failure : Option SolverError) :
    Conduct engine failure engine :=
  .still failure (.refl engine) fun _ => rfl

/-- Every edit that succeeds changes choices or rules, and every other one nothing. -/
theorem conduct_edit {α : Type} {operation : Operation} {change : α → ChoiceTable → Forest → Prop}
    {outcome : Outcome α} (edit : Edit engine operation change outcome) :
    Conduct engine (errorIn outcome) outcome.2 := by
  cases edit with
  | closed | faulty => exact conduct_self engine _
  | done result free made => exact .edited (editFault?_eq_none_iff.mp free).2 rfl rfl

/-! ### Rules that are up to date -/

/-- No rule of an engine that is done has to be defined anew, and no engine is left in the middle of
a search. -/
structure Settled (engine : Engine) : Prop where
  still : engine.step ≠ .optimizing
  done : engine.step = .done → ∀ id node, engine.forest.node? id = some node → node.stale = false

/-- Where something was found out about the rules, none has to be defined anew. -/
theorem Concluded.redefine_eq (concluded : engine.Concluded) (settled : engine.Settled)
    (informed : engine.Informed) : engine.redefine = (.ok (), engine) := by
  obtain ready | done | held := concluded
  · exact informed.redefine_eq (.inl ready)
  · exact redefine_of_fresh (settled.done done)
  · exact informed.redefine_eq (.inr held)

theorem conduct_redefine (settled : engine.Settled) (informed : engine.Informed) :
    Conduct engine (errorIn engine.redefine) engine.redefine.2 := by
  obtain ⟨forest, done, redefined⟩ := redefine_spec engine
  refine .still _ ?_ fun concluded => ?_
  · rw [done]
    exact ⟨rfl, redefined.sameRules, rfl, rfl⟩
  · rw [concluded.redefine_eq settled informed]

/-! ### Questions about the rules -/

/-- What may be changed, and is not known to be in conflict, is yet to be found out about. -/
theorem Editable.not_concluded (editable : engine.Editable) (unheld : engine.lastCore = none) :
    ¬engine.Concluded := by
  rintro (ready | done | held)
  · exact editable.not_ready ready
  · exact editable.not_closed (.inr done)
  · rw [unheld] at held
    cases held

/-- **A question about the rules keeps to the protocol.** -/
theorem conduct_hasSolution (informed : engine.Informed) :
    Conduct engine (errorIn engine.hasSolution) engine.hasSolution.2 := by
  have inquiry := inquiry_hasSolution engine
  generalize asked : engine.hasSolution = outcome at inquiry
  cases inquiry with
  | poisoned | closed | ready | remembered => exact conduct_self engine _
  | checked forest free editable unknown done redefined =>
    have open' := editable.not_concluded (informed.lastCore_eq_none unknown)
    have checked := checked_checkRules { engine with forest }
    have started := same_startClock { engine with forest }
    have same := redefined.sameRules
    -- what the check comes to, on the engine whose clock was started
    generalize found : checkRules { engine with forest } = outcome at asked checked
    cases checked with
    | faulty fault _ =>
      exact .still _ ⟨started.choices, started.forest ▸ same, started.step, started.lastCore⟩
        fun known => absurd known open'
    | interrupted dog _ _ =>
      have left := same_interrupted Bool
        (afterSearch dog (startClock { engine with forest }))
      refine .still _ ⟨left.choices.trans started.choices, ?_, left.step.trans started.step,
        left.lastCore.trans started.lastCore⟩ fun known => absurd known open'
      rw [left.forest]
      exact started.forest ▸ same
    | feasible dog optimizer _ _ _ _ => exact .allowed editable rfl rfl
    | infeasible dog core _ _ _ => exact .denied editable done asked found rfl rfl

/-! ### Solutions -/

/-- **The search for a solution keeps to the protocol**: where the rules can hold together, it gives
one or is interrupted. -/
theorem conduct_solution (informed : engine.Informed) (prepared : engine.Prepared) :
    Conduct engine (errorIn engine.solution) engine.solution.2 := by
  have sought := sought_solution engine
  generalize engine.solution = outcome at sought
  cases sought with
  | poisoned | unready => exact conduct_self engine _
  | missing ready none =>
    obtain ⟨optimizer, _, held, _⟩ := prepared ready
    cases none.symm.trans held
  | refuted _ _ _ searched =>
    obtain ⟨value, _, satisfied⟩ := (informed.ready searched.ready).2
    exact absurd ⟨value, satisfied⟩ (prepared.not_refuted searched)
  | found numbering _ dog left searched =>
    have same := same_leftWith numbering dog left engine
    exact .solved searched.ready rfl same.choices same.forest same.lastCore
  | interrupted numbering dog left searched =>
    have same := same_leftWith numbering dog left engine
    have kept := same_interrupted (List ChoiceId) (engine.leftWith numbering dog left)
    have forest := kept.forest.trans same.forest
    refine .still _ ⟨kept.choices.trans same.choices, ?_, kept.step.trans same.step,
      kept.lastCore.trans same.lastCore⟩ fun _ => forest
    exact forest ▸ .refl _

/-! ### Engines in use -/

/-- **Every call to an engine keeps to the protocol**, if the engine is right about what it holds. -/
theorem conduct_call (settled : engine.Settled) (informed : engine.Informed)
    (prepared : engine.Prepared) (call : Call) :
    Conduct engine (engine.failure? call) (engine.perform call) := by
  cases call with
  | addChoice choice weight => exact conduct_edit (edit_addChoice choice weight engine)
  | setWeight id weight => exact conduct_edit (edit_setWeight id weight engine)
  | removeChoice id => exact conduct_edit (edit_removeChoice id engine)
  | addRule rule parent => exact conduct_edit (edit_addRule rule parent engine)
  | removeRule id => exact conduct_edit (edit_removeRule id engine)
  | redefine => exact conduct_redefine settled informed
  | hasSolution => exact conduct_hasSolution informed
  | solution => exact conduct_solution informed prepared
  | cancel => exact .still _ ⟨rfl, .refl _, rfl, rfl⟩ fun _ => rfl
  | hardCancel => exact .still _ ⟨rfl, .refl _, rfl, rfl⟩ fun _ => rfl
  | expect events => exact .still _ ⟨rfl, .refl _, rfl, rfl⟩ fun _ => rfl

/-- What a call does leaves no search unfinished, and no rule of an engine that is done stale. -/
theorem Conduct.settled {failure : Option SolverError} (conduct : Conduct engine failure after)
    (settled : engine.Settled) (informed : engine.Informed) : after.Settled := by
  cases conduct with
  | still _ same kept =>
    refine ⟨same.step ▸ settled.still, fun done => ?_⟩
    have done' : engine.step = .done := same.step ▸ done
    rw [kept (.inr (.inl done'))]
    exact settled.done done'
  | edited editable step _ =>
    obtain here | here := editable <;> rw [here] at step <;>
      exact ⟨step ▸ nofun, fun done => nomatch step.symm.trans done⟩
  | denied _ _ _ _ _ step => exact ⟨step ▸ nofun, fun done => nomatch step.symm.trans done⟩
  | allowed _ step _ => exact ⟨step ▸ nofun, fun done => nomatch step.symm.trans done⟩
  | solved ready step _ forest _ =>
    exact ⟨step ▸ nofun, fun _ => forest ▸ (informed.ready ready).1.fresh⟩

theorem InUse.settled (inUse : engine.InUse) : engine.Settled := by
  induction inUse with
  | create config signal => exact ⟨nofun, nofun⟩
  | perform call inUse ih =>
    obtain ⟨informed, prepared⟩ := inUse.informed_prepared
    exact (conduct_call ih informed prepared call).settled ih informed

/-- **Every call to an engine in use keeps to the protocol.** -/
theorem InUse.conduct (inUse : engine.InUse) (call : Call) :
    Conduct engine (engine.failure? call) (engine.perform call) :=
  conduct_call inUse.settled inUse.informed_prepared.1 inUse.informed_prepared.2 call

/-! ### Conflicts -/

/-- An engine later is what calls make of one earlier. -/
inductive Later (earlier : Engine) : Engine → Prop
  | same : Later earlier earlier
  | perform {engine : Engine} (call : Call) : Later earlier engine →
    Later earlier (engine.perform call)

/-- **A conflict was computed for what an engine has now**: an engine in use was asked whether its
rules can hold together, and defined them anew; its check found the conflict, and calls made of the
engine `noted` that held it the present one, whose choices and rules are those that were checked. -/
structure Computed (core : List RuleId) (asked checked noted engine : Engine) : Prop where
  inUse : asked.InUse
  anew : asked.redefine = (.ok (), checked)
  answer : asked.hasSolution = (.ok false, noted)
  check : checked.checkRules = (.ok false, noted)
  core : noted.lastCore = some core
  later : Later noted engine
  choices : engine.choices = checked.choices
  forest : engine.forest = checked.forest

/-- **The conflict that an engine in use holds was computed for what it has now.** -/
theorem InUse.computed (inUse : engine.InUse) {core : List RuleId}
    (held : engine.lastCore = some core) :
    ∃ asked checked noted, Computed core asked checked noted engine := by
  induction inUse with
  | create config signal => cases held
  | @perform engine call inUse ih =>
    have conduct := inUse.conduct call
    generalize engine.failure? call = failure at conduct
    generalize performed : engine.perform call = after at conduct held
    cases conduct with
    | still _ same kept =>
      have before : engine.lastCore = some core := same.lastCore ▸ held
      have forest := kept (.inr (.inr (before ▸ rfl)))
      obtain ⟨asked, checked, noted, computed⟩ := ih before
      exact ⟨asked, checked, noted, { computed with
        later := performed ▸ .perform call computed.later
        choices := same.choices.trans computed.choices
        forest := forest.trans computed.forest }⟩
    | edited _ _ none =>
      rw [none] at held
      cases held
    | @denied checked _ found editable anew answer check noted step =>
      obtain ⟨choices, forest, _⟩ := checkRules_kept checked
      rw [check] at choices forest
      exact ⟨engine, checked, after, ⟨inUse, anew, answer, check, held, .same, choices, forest⟩⟩
    | allowed _ _ none =>
      rw [none] at held
      cases held
    | solved ready _ _ _ same =>
      have step := (inUse.informed_prepared.1.conflict core (same ▸ held)).1
      rw [ready] at step
      cases step

/-- What is given out as a conflict is held by an engine whose last check failed. -/
theorem held_of_lastConflict {core : List RuleId} (given : engine.lastConflict = .ok core) :
    engine.lastCore = some core := by
  unfold lastConflict at given
  split at given
  · cases given
  · split at given
    · next held _ =>
      cases given
      exact held
    · cases given

/-! ### The protocol -/

/-- Every step but one may be stayed in. -/
theorem mem_next_self {step : Step} (other : step ≠ .optimizing) : step ∈ step.next := by
  cases step <;> simp [Step.next] at other ⊢

/-- A call moves the step of an engine in one direction. -/
theorem Conduct.step_mem_next {failure : Option SolverError}
    (conduct : Conduct engine failure after) (settled : engine.Settled) :
    after.step ∈ engine.step.next := by
  cases conduct with
  | still _ same _ =>
    rw [same.step]
    exact mem_next_self settled.still
  | edited _ step _ =>
    rw [step]
    exact mem_next_self settled.still
  | denied editable _ _ _ _ step =>
    obtain here | here := editable <;> rw [here, step] <;> decide
  | allowed editable step _ => obtain here | here := editable <;> rw [here, step] <;> decide
  | solved ready step _ _ _ =>
    rw [ready, step]
    decide

/-- What was proven is not edited away. -/
theorem Conduct.kept {failure : Option SolverError} (conduct : Conduct engine failure after)
    (proven : engine.step = .ready ∨ engine.step = .done) :
    after.choices = engine.choices ∧ after.forest = engine.forest := by
  have shut : ¬engine.Editable := by
    rintro (here | here) <;> rw [here] at proven <;> obtain step | step := proven <;> cases step
  cases conduct with
  | still _ same forest => exact ⟨same.choices, forest (proven.imp_right .inl)⟩
  | edited editable _ _ => exact absurd editable shut
  | denied editable _ _ _ _ _ => exact absurd editable shut
  | allowed editable _ _ => exact absurd editable shut
  | solved _ _ choices forest _ => exact ⟨choices, forest⟩

/-- A call that ends in an error has changed nothing. -/
theorem Conduct.unaltered {error : SolverError} (conduct : Conduct engine (some error) after) :
    Unaltered engine after := by
  cases conduct with
  | still _ same _ => exact same

/-- **The protocol of an engine.** Whatever was done with an engine before, whatever interrupts its
searches, and whatever it is asked to do next:

* it is not in the middle of a search, and moves from being defined to a failed check or to being
  ready, from a failed check to being ready, and from being ready to being done, or stays;
* once it is ready, its choices with their weights and its rules stay what they are;
* a call that ends in an error has changed neither choices and weights, nor rules and their places,
  nor the step, nor the conflict that is held;
* a conflict that it gives out was found by a check of just the choices and rules that it has now,
  and explains why they cannot hold together. -/
theorem protocol_kept (inUse : engine.InUse) (call : Call) :
    engine.step ≠ .optimizing ∧ (engine.perform call).step ∈ engine.step.next ∧
    (engine.step = .ready ∨ engine.step = .done →
      (engine.perform call).choices = engine.choices ∧
        (engine.perform call).forest = engine.forest) ∧
    (∀ error, engine.failure? call = some error → Unaltered engine (engine.perform call)) ∧
    ∀ core, engine.lastConflict = .ok core →
      (∃ asked checked noted, Computed core asked checked noted engine) ∧
        engine.forest.Explains engine.choices engine.minimizeCores core := by
  have conduct := inUse.conduct call
  refine ⟨inUse.settled.still, conduct.step_mem_next inUse.settled, conduct.kept, ?_, ?_⟩
  · intro error failed
    rw [failed] at conduct
    exact conduct.unaltered
  · intro core given
    have held := held_of_lastConflict given
    exact ⟨inUse.computed held, (inUse.informed_prepared.1.conflict core held).2.2.2⟩

/-- The engine of two rivals once their conflict was found, some edits of which came to nothing. -/
def deniedEngine : Engine :=
  (((rivalEngine.perform .hasSolution).perform (.removeRule 9)).perform
    (.addRule (.mandatory 3) (some 8))).perform .hasSolution

theorem inUse_deniedEngine : deniedEngine.InUse :=
  .perform .hasSolution <| .perform (.addRule _ _) <| .perform (.removeRule _) <|
    .perform .hasSolution inUse_rivalEngine

/-- A rule is refused that would be a part of one that does not exist, and the conflict is still
that of the present rules. -/
theorem protocol_kept_of_denied :
    deniedEngine.failure? (.addRule (.mandatory 3) (some 8)) =
      some (.definition (.unknownRule 8)) ∧
    Unaltered deniedEngine (deniedEngine.perform (.addRule (.mandatory 3) (some 8))) ∧
    deniedEngine.lastConflict = .ok [0, 2, 3] ∧
    ∃ asked checked noted, Computed [0, 2, 3] asked checked noted deniedEngine := by
  have failed : deniedEngine.failure? (.addRule (.mandatory 3) (some 8)) =
      some (.definition (.unknownRule 8)) := by decide +kernel
  have given : deniedEngine.lastConflict = .ok [0, 2, 3] := by decide +kernel
  obtain ⟨_, _, _, unaltered, conflicts⟩ :=
    protocol_kept inUse_deniedEngine (.addRule (.mandatory 3) (some 8))
  exact ⟨failed, unaltered _ failed, given, (conflicts _ given).1⟩

end Engine

end Loadout
