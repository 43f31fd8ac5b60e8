/-
**The check and the search for the cheapest agree.**

Whether the rules can hold together is found out with each rule under a selector, and the cheapest
values are searched for under the bare constraints, by another solver. Both say the same of the
rules:

* `Sound.optimize_found`: where some assignment meets the demands, no search finds the contrary;
* `hasSolution_not_internal`: no check ends in an internal fault;
* `Prepared.solution_or_interrupted`: nothing but an interruption keeps a ready engine from its
  solution;
* **`backends_agree`**: no question to an engine in use ends in an internal fault, and a positive
  answer is followed by a solution.
-/

import Loadout.Proofs.Engine.Cheapest
import Loadout.Proofs.Engine.Resumption

namespace Loadout

namespace Optimizer

variable {condition : Type} [Interruption condition] {demands : List Demand}
  {objective : List (Int × Literal)} {optimizer : Optimizer}

/-- **Where some assignment meets the demands, no search finds the contrary**, and one that is not
stopped finds the cheapest. -/
theorem Sound.optimize_found (sound : optimizer.Sound demands objective)
    (possible : ∃ assignment, Meets demands assignment) (stopping : condition) :
    (optimizer.optimize stopping).1 ≠ .infeasible ∧
      (Interruption.NeverStops stopping →
        ∃ model, (optimizer.optimize stopping).1 = .found model) := by
  obtain ⟨assignment, meets⟩ := possible
  have right := (optimize_spec sound stopping).2
  have refuted : (optimizer.optimize stopping).1 ≠ .infeasible := by
    intro refuted
    rw [refuted] at right
    exact right assignment meets
  refine ⟨refuted, fun never => ?_⟩
  have answered := (optimize_answer (Interruption.calm_becomes never) stopping .refl sound).1
  cases found : (optimizer.optimize stopping).1 with
  | found model => exact ⟨model, rfl⟩
  | stopped => exact absurd found answered
  | infeasible => exact absurd found refuted

end Optimizer

namespace Engine

variable {engine : Engine}

/-! ### Questions -/

/-- An outcome is an interruption. -/
def Interrupted {α : Type} (result : Except SolverError α) : Prop :=
  result = .error .cancelled ∨ result = .error .timeout

theorem interrupted_interrupted (α : Type) (engine : Engine) :
    Interrupted (engine.interrupted (α := α)).1 := by
  unfold interrupted
  split
  · exact Or.inl rfl
  · exact Or.inr rfl

/-- **No check ends in an internal fault**, whatever interrupts it: where the rules cannot hold
together, some of them are named. -/
theorem checkRules_not_internal (engine : Engine) (fault : InternalFault) :
    engine.checkRules.1 ≠ .error (.internal fault) := by
  have checked := checked_checkRules engine
  generalize engine.checkRules = outcome at checked
  cases checked with
  | faulty other _ => exact nofun
  | interrupted dog _ _ =>
    intro internal
    have stopped := interrupted_interrupted Bool (engine.startClock.afterSearch dog)
    rw [internal] at stopped
    rcases stopped with same | same <;> cases same
  | feasible dog optimizer _ _ _ _ => exact nofun
  | infeasible dog core _ _ _ => exact nofun

theorem hasSolution_not_internal (engine : Engine) (fault : InternalFault) :
    engine.hasSolution.1 ≠ .error (.internal fault) := by
  have inquiry := inquiry_hasSolution engine
  generalize engine.hasSolution = outcome at inquiry
  cases inquiry with
  | checked => exact checkRules_not_internal _ fault
  | _ => exact nofun

/-- **Nothing but an interruption keeps a ready engine from its solution.** -/
theorem Prepared.solution_or_interrupted (prepared : engine.Prepared) (ready : engine.step = .ready)
    (feasible : ∃ value, engine.forest.SatisfiedBy value) :
    ((∃ loaded, engine.solution.1 = .ok loaded) ∨ Interrupted engine.solution.1) ∧
      (engine.Undisturbed → ∃ loaded, engine.solution.1 = .ok loaded) := by
  have sought := sought_solution engine
  generalize engine.solution = outcome at sought
  cases sought with
  | poisoned stopped =>
    refine ⟨.inr (.inl rfl), fun undisturbed => ?_⟩
    cases stopped.symm.trans undisturbed.free
  | unready other => exact absurd ready other
  | missing _ none =>
    obtain ⟨optimizer, _, held, _⟩ := prepared ready
    cases none.symm.trans held
  | refuted _ _ _ searched => exact absurd feasible (prepared.not_refuted searched)
  | found => exact ⟨.inl ⟨_, rfl⟩, fun _ => ⟨_, rfl⟩⟩
  | interrupted _ _ _ searched =>
    refine ⟨.inr (interrupted_interrupted _ _), fun undisturbed => ?_⟩
    obtain ⟨demands, _, _, sound, _⟩ := prepared.searched searched
    have answered := (Optimizer.optimize_answer (Interruption.calm_becomes undisturbed)
      engine.startClock.watchdog .refl sound).1
    rw [searched.optimized] at answered
    exact absurd rfl answered

/-- **The check and the search for the cheapest agree.** Whatever was done with an engine before,
and whatever interrupts it:

* no question whether its rules can hold together ends in an internal fault;
* if the answer is positive, only an interruption keeps the engine from a solution afterwards, so
  that an undisturbed engine gives one, also when the events to come are set anew;
* an explainer of the rules that finds that they cannot hold together names some; and if it finds
  that they can, an optimizer can be built of them, which never finds the contrary, whose loop of
  searches ends, and which finds an assignment if nothing stops it, however often it was called and
  stopped before. -/
theorem backends_agree (inUse : engine.InUse) :
    (∀ fault, engine.hasSolution.1 ≠ .error (.internal fault)) ∧
    (∀ after, engine.hasSolution = (.ok true, after) →
      (engine.Undisturbed → ∃ loaded, after.solution.1 = .ok loaded) ∧
      ∀ events : List OutsideEvent,
        ((∃ loaded, ({ after with outside := events } : Engine).solution.1 = .ok loaded) ∨
          Interrupted ({ after with outside := events } : Engine).solution.1) ∧
        (({ after with outside := events } : Engine).Undisturbed →
          ∃ loaded, ({ after with outside := events } : Engine).solution.1 = .ok loaded)) ∧
    ∀ (condition : Type) [Interruption condition] (stopping : condition) (minimize : Bool)
      (explainer : Explainer),
      Explainer.build (Numbering.ofTable engine.choices) engine.forest.constraints =
        .ok explainer →
      (∀ core, (explainer.check minimize stopping).1 = some (.unsatisfiable core) → core ≠ []) ∧
      ((explainer.check minimize stopping).1 = some .satisfiable → ∃ optimizer,
        Optimizer.build (Numbering.ofTable engine.choices) engine.forest.constraints
          ((Numbering.ofTable engine.choices).objective engine.choices) = .ok optimizer ∧
        ∀ resumed, Optimizer.Resumed optimizer resumed →
          ∀ (condition' : Type) [Interruption condition'] (stopping' : condition'),
            (resumed.optimize stopping').1 ≠ .infeasible ∧
            Optimizer.Loops stopping' resumed (resumed.optimize stopping') ∧
            (Interruption.NeverStops stopping' →
              ∃ model, (resumed.optimize stopping').1 = .found model)) := by
  refine ⟨hasSolution_not_internal engine, fun after answered => ?_, ?_⟩
  · -- the answer leaves an engine that is ready, and whose rules can hold together
    obtain ⟨informed, prepared⟩ := inUse.informed_prepared
    have judged := informed.hasSolution.1
    have prepared' := prepared.hasSolution
    rw [answered] at judged prepared'
    have ready := judged.positive rfl
    obtain ⟨value, _, satisfied⟩ := (judged.informed.ready ready).2
    refine ⟨fun undisturbed => ?_, fun events => ?_⟩
    · have still := undisturbed.hasSolution.1
      rw [answered] at still
      exact (prepared'.solution_or_interrupted ready ⟨value, satisfied⟩).2 still
    · have later : Prepared { after with outside := events } :=
        prepared'.of_same ⟨rfl, rfl, rfl, rfl, rfl, rfl, rfl⟩
      exact later.solution_or_interrupted ready ⟨value, satisfied⟩
  · intro condition _ stopping minimize explainer built
    have covers := Numbering.covers_ofTable engine.choices
    obtain ⟨marks, demands, marked, stands⟩ := Explainer.build_spec covers built
    have right := (Explainer.check_spec marked covers stands engine.forest.constraints_nodup
      minimize stopping).1
    refine ⟨fun core refuted => (right _ refuted).nonempty, fun found => ?_⟩
    obtain ⟨value, holds⟩ := right _ found
    obtain ⟨optimizer, prepared⟩ := Optimizer.build_ok
      (Explainer.build_ok_iff.mp ⟨explainer, built⟩)
      ((Numbering.ofTable engine.choices).objective engine.choices)
    obtain ⟨demands', sound, expresses⟩ := Optimizer.build_spec covers
      (Numbering.objective_proper covers engine.choices) prepared
    refine ⟨optimizer, prepared, fun resumed history condition' _ stopping' => ?_⟩
    have sound' := history.sound sound
    obtain ⟨possible, ends⟩ := sound'.optimize_found
      ⟨_, (expresses value _ (covers.matches_assign value)).mpr holds⟩ stopping'
    exact ⟨possible, Optimizer.loops_optimize sound' stopping', ends⟩

theorem inUse_pickEngine : pickEngine.InUse :=
  .perform .solution <| .perform (.expect [.cancel]) <| .perform .hasSolution <|
    .perform (.addRule _ _) <| .perform (.addRule _ _) <| .perform (.addChoice _ _) <|
    .perform (.addChoice _ _) <| .perform (.addChoice _ _) <| .perform (.addChoice _ _) <|
    .create _ _

/-- After a search that was cancelled, the engine still has its solution. -/
theorem backends_agree_of_pick : pickEngine.hasSolution.1 = .ok true ∧
    ∃ loaded, pickEngine.hasSolution.2.solution.1 = .ok loaded := by
  have answered : pickEngine.hasSolution.1 = .ok true := by decide +kernel
  have idle : pickEngine.Idle :=
    ⟨by decide +kernel, by decide +kernel, by decide +kernel, by decide +kernel⟩
  exact ⟨answered, ((backends_agree inUse_pickEngine).2.1 pickEngine.hasSolution.2
    (Prod.ext answered (Eq.refl pickEngine.hasSolution.2))).1 idle.undisturbed⟩

end Engine

end Loadout
