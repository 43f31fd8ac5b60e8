/-
**What a check of the rules comes to.**

A check of stored constraints comes to one of a few things (`Engine.Checked`), whatever interrupts it.
An engine is *idle* when nothing cancels it and no time limit runs (`Engine.Idle`), and *sound* when
moreover no rule is stale and every stored constraint is about registered roots (`Engine.Sound`).

* **`checked_checkRules`**: a check comes to a fault, to an interruption or to an answer that is right;
* **`hasSolution_answer`**: a sound engine finds out whether its constraints can hold together;
* **`solution_answer`**: if they can, it finds a solution.
-/

import Loadout.Proofs.Engine.Selectors
import Loadout.Proofs.Engine.Solutions

namespace Loadout

/-! ### Encoding constraints on registered roots -/

/-- Every handle of a constraint is on a registered root. -/
def Cardinality.Rooted (table : ChoiceTable) (cardinality : Cardinality) : Prop :=
  ∀ handle ∈ cardinality.handles, table.isRoot handle.choice = true

/-- A constraint is about the values of its handles alone. -/
theorem Cardinality.holds_congr {cardinality : Cardinality} {value other : ChoiceId → Bool}
    (agree : ∀ handle ∈ cardinality.handles, value handle.choice = other handle.choice) :
    cardinality.holds value = cardinality.holds other := by
  have same : cardinality.handles.filter (Handle.holds value) =
      cardinality.handles.filter (Handle.holds other) := by
    refine List.filter_congr fun handle inside => ?_
    unfold Handle.holds
    rw [agree handle inside]
  unfold Cardinality.holds
  rw [same]

namespace Numbering

variable {table : ChoiceTable}

theorem literal_ok_iff {handle : Handle} :
    (∃ literal, (ofTable table).literal handle = .ok literal) ↔
      table.isRoot handle.choice = true := by
  rw [← isSome_atom?_iff]
  unfold literal
  cases (ofTable table).atom? handle.choice with
  | none => exact ⟨nofun, nofun⟩
  | some atom => exact iff_of_true ⟨_, rfl⟩ rfl

theorem encode_ok_iff {cardinality : Cardinality} :
    (∃ forms, (ofTable table).encode cardinality = .ok forms) ↔ cardinality.Rooted table := by
  refine map_ok_iff.trans (mapM_ok_iff.trans ?_)
  exact forall₂_congr fun _ _ => literal_ok_iff

/-- **Constraints can be encoded just when they are about registered roots.** -/
theorem encodeAll_ok_iff {cardinalities : List Cardinality} :
    (∃ forms, (ofTable table).encodeAll cardinalities = .ok forms) ↔
      ∀ cardinality ∈ cardinalities, cardinality.Rooted table :=
  map_ok_iff.trans (mapM_ok_iff.trans (forall₂_congr fun _ _ => encode_ok_iff))

end Numbering

/-- All constraints of some rules are about registered roots. -/
def RulesRooted (table : ChoiceTable) (rules : List (RuleId × List Cardinality)) : Prop :=
  ∀ rule ∈ rules, ∀ cardinality ∈ rule.2, cardinality.Rooted table

/-- **An explainer of rules can be built just when they are about registered roots.** -/
theorem Explainer.build_ok_iff {table : ChoiceTable} {rules : List (RuleId × List Cardinality)} :
    (∃ explainer, Explainer.build (Numbering.ofTable table) rules = .ok explainer) ↔
      RulesRooted table rules := by
  refine foldlM_ok_iff (fun explainer rule => ?_) _
  unfold Explainer.addRule
  rw [bind_ok_iff, ← Numbering.encodeAll_ok_iff]
  refine exists_congr fun forms => and_iff_left ?_
  split <;> exact ⟨_, rfl⟩

theorem Optimizer.build_ok {table : ChoiceTable} {rules : List (RuleId × List Cardinality)}
    (rooted : RulesRooted table rules) (objective : List (Int × Literal)) :
    ∃ optimizer, Optimizer.build (Numbering.ofTable table) rules objective = .ok optimizer := by
  refine map_ok_iff.mpr ((foldlM_ok_iff (fun solver rule => ?_) _).mpr rooted)
  exact map_ok_iff.trans Numbering.encodeAll_ok_iff

/-- The rules of a forest are listed in the order of their numbers. -/
theorem Forest.constraints_sorted (forest : Forest) :
    (forest.constraints.map Prod.fst).Pairwise (· < ·) := by
  have places : (forest.nodes.toList.zipIdx.map Prod.snd).Pairwise (· < ·) := by
    rw [List.zipIdx_map_snd]
    exact List.pairwise_lt_range'
  unfold constraints toList
  rw [List.map_map, List.pairwise_map, List.pairwise_filterMap]
  refine (List.pairwise_map.mp places).imp fun before one found two found' => ?_
  obtain ⟨_, _, rfl⟩ := Option.map_eq_some_iff.mp found
  obtain ⟨_, _, rfl⟩ := Option.map_eq_some_iff.mp found'
  exact before

theorem Forest.constraints_nodup (forest : Forest) :
    (forest.constraints.map Prod.fst).Nodup :=
  forest.constraints_sorted.imp Nat.ne_of_lt

namespace Engine

variable {engine : Engine}

/-! ### What a check comes to -/

/-- A search leaves true what stays true as long as it is let go on. -/
def Sustains (engine : Engine) (dog : Watchdog) : Prop :=
  ∀ safe : Watchdog → Prop, Interruption.Lasting safe → safe engine.watchdog → safe dog

/-- **What a check of an engine comes to**, once the clock is started. -/
inductive Checked (engine : Engine) : Outcome Bool → Prop
  /-- Some constraint is not about registered roots. -/
  | faulty (fault : DefinitionError) : ¬RulesRooted engine.choices engine.forest.constraints →
    Checked engine (.error (.definition fault), engine)
  /-- The search is interrupted. -/
  | interrupted (dog : Watchdog) : RulesRooted engine.choices engine.forest.constraints →
    ¬Interruption.NeverStops engine.watchdog →
    Checked engine (engine.afterSearch dog).interrupted
  /-- The rules can hold together. -/
  | feasible (dog : Watchdog) (optimizer : Optimizer) :
    RulesRooted engine.choices engine.forest.constraints → engine.Sustains dog →
    (∃ value, engine.forest.SatisfiedBy value) →
    Optimizer.build (Numbering.ofTable engine.choices) engine.forest.constraints
      ((Numbering.ofTable engine.choices).objective engine.choices) = .ok optimizer →
    Checked engine (.ok true,
      { engine.afterSearch dog with
        prepared := some (Numbering.ofTable engine.choices, optimizer)
        changed := false, lastCore := none, step := .ready })
  /-- They cannot. -/
  | infeasible (dog : Watchdog) (core : List RuleId) :
    RulesRooted engine.choices engine.forest.constraints → engine.Sustains dog →
    Explainer.CoreRight engine.forest.constraints engine.minimizeCores core →
    Checked engine (.ok false,
      { engine.afterSearch dog with changed := false, lastCore := some core, step := .failed })

/-- **A check comes to a fault, to an interruption or to an answer.** -/
theorem checked_checkRules (engine : Engine) : Checked engine.startClock engine.checkRules := by
  unfold checkRules
  generalize engine.startClock = started
  dsimp only
  cases built : Explainer.build (Numbering.ofTable started.choices) started.forest.constraints with
  | error fault =>
    refine .faulty fault fun rooted => ?_
    obtain ⟨explainer, built'⟩ := Explainer.build_ok_iff.mpr rooted
    rw [built] at built'
    cases built'
  | ok explainer =>
    have rooted := Explainer.build_ok_iff.mp ⟨explainer, built⟩
    have covers := Numbering.covers_ofTable started.choices
    obtain ⟨marks, demands, marked, stands⟩ := Explainer.build_spec covers built
    obtain ⟨right, ends⟩ := Explainer.check_spec marked covers stands
      started.forest.constraints_nodup started.minimizeCores started.watchdog
    have lasts : (explainer.check started.minimizeCores started.watchdog).1 ≠ none →
        started.Sustains (explainer.check started.minimizeCores started.watchdog).2 :=
      fun found safe lasting safely =>
        Explainer.check_lasting lasting started.minimizeCores safely explainer found
    dsimp only
    generalize explainer.check started.minimizeCores started.watchdog = checked at right ends lasts
    obtain ⟨feasibility, dog⟩ := checked
    cases feasibility with
    | none =>
      refine .interrupted dog rooted fun never => ?_
      exact (ends _ (Interruption.calm_becomes never) .refl).1 rfl
    | some feasibility =>
      have verdict := right feasibility rfl
      cases feasibility with
      | satisfiable =>
        obtain ⟨optimizer, prepared⟩ := Optimizer.build_ok rooted
          ((Numbering.ofTable started.choices).objective started.choices)
        obtain ⟨value, holds⟩ := verdict
        dsimp only [prepare, afterSearch]
        rw [prepared]
        exact .feasible dog optimizer rooted (lasts nofun)
          ⟨value, Forest.satisfiedBy_iff.mpr holds⟩ prepared
      | unsatisfiable core =>
        dsimp only [noteConflict]
        rw [if_neg fun empty => verdict.nonempty (List.isEmpty_iff.mp empty)]
        exact .infeasible dog core rooted (lasts nofun) verdict

/-! ### Questions and edits -/

/-- Choices and rules may be changed. -/
def Editable (engine : Engine) : Prop :=
  engine.step = .defining ∨ engine.step = .failed

theorem Editable.not_ready (editable : engine.Editable) : engine.step ≠ .ready := by
  obtain step | step := editable <;> (rw [step]; exact nofun)

theorem Editable.not_closed (editable : engine.Editable) :
    ¬(engine.step = .optimizing ∨ engine.step = .done) := by
  obtain step | step := editable <;> (rw [step]; exact nofun)

theorem editFault?_eq_none_iff {operation : Operation} : engine.editFault? operation = none ↔
    engine.signal.isPoisoned = false ∧ engine.Editable := by
  unfold editFault? Editable
  cases engine.signal.isPoisoned <;> cases engine.step <;> simp

/-- Where no rule is stale there is nothing to define anew. -/
theorem redefine_of_fresh
    (fresh : ∀ id node, engine.forest.node? id = some node → node.stale = false) :
    engine.redefine = (.ok (), engine) := by
  have nothing : engine.forest.staleRules = [] := by
    unfold Forest.staleRules
    rw [List.map_eq_nil_iff, List.filter_eq_nil_iff]
    rintro ⟨id, node⟩ inside
    rw [fresh id node (Forest.mem_toList_iff.mp inside)]
    exact Bool.false_ne_true
  unfold redefine
  rw [nothing]
  rfl

theorem forest_of_fresh
    (fresh : ∀ id node, engine.forest.node? id = some node → node.stale = false) {forest : Forest}
    (done : engine.redefine = (.ok (), { engine with forest })) : engine.forest = forest :=
  congrArg Engine.forest (Prod.mk.inj ((redefine_of_fresh fresh).symm.trans done)).2

theorem hasSolution_of_poisoned (poisoned : engine.signal.isPoisoned = true) :
    engine.hasSolution = (.error .cancelled, engine) := by
  unfold hasSolution
  rw [if_pos poisoned]

/-- An engine that may be changed says what it knows, or checks its rules once they are defined. -/
theorem hasSolution_of_editable (free : engine.signal.isPoisoned = false)
    (editable : engine.Editable) {defined : Engine} (done : engine.redefine = (.ok (), defined)) :
    engine.hasSolution =
      if !engine.changed && engine.lastCore.isSome then (.ok false, engine)
      else defined.checkRules := by
  unfold hasSolution
  rw [done, free, if_neg Bool.false_ne_true]
  rcases editable with step | step <;> rw [step]

/-- A conflict that is held is given out unless everything is refused. -/
theorem lastConflict_of_held {core : List RuleId} (free : engine.signal.isPoisoned = false)
    (held : engine.lastCore = some core) (failed : engine.step = .failed) :
    engine.lastConflict = .ok core := by
  unfold lastConflict
  rw [free, held, failed]
  rfl

/-! ### Engines in peace -/

/-- Nothing interrupts the engine. -/
structure Idle (engine : Engine) : Prop where
  signal : engine.signal = .clear
  timeoutMs : engine.timeoutMs = none
  clock : engine.clock = none
  outside : engine.outside = []

theorem Idle.startClock (idle : engine.Idle) : engine.startClock = engine := by
  have same : engine.timeoutMs.map (fun limit => if limit = 0 then Clock.expired else .running) =
      engine.clock := by
    rw [idle.timeoutMs, idle.clock]
    rfl
  unfold Engine.startClock
  split
  · rfl
  · rw [same]

theorem Idle.watchdog (idle : engine.Idle) : engine.watchdog = .idle := by
  unfold Engine.watchdog
  rw [idle.signal, idle.clock, idle.outside]
  rfl

theorem Idle.afterSearch (idle : engine.Idle) : engine.afterSearch .idle = engine := by
  obtain ⟨signal, _, clock, outside⟩ := idle
  unfold Engine.afterSearch Watchdog.idle
  dsimp only
  rw [← signal, ← clock, ← outside]

/-! ### Sound engines -/

/-- **The engine is sound and may still be changed.** -/
structure Sound (engine : Engine) : Prop where
  idle : engine.Idle
  open' : engine.step = .defining ∨ engine.step = .failed
  fresh : ∀ id node, engine.forest.node? id = some node → node.stale = false
  rooted : RulesRooted engine.choices engine.forest.constraints
  failed : engine.lastCore.isSome = true → engine.step = .failed

/-- What a question leaves as it is. -/
structure Kept (old new : Engine) : Prop where
  choices : new.choices = old.choices
  forest : new.forest = old.forest
  idle : new.Idle

/-- **A sound engine finds out whether its constraints can hold together.** -/
theorem checkRules_answer (sound : engine.Sound) :
    ∃ answer after, engine.checkRules = (.ok answer, after) ∧ Kept engine after ∧
      (answer = true ↔ ∃ value, engine.forest.SatisfiedBy value) ∧
      (answer = true → after.step = .ready) ∧
      (answer = false → after.step = .failed ∧ after.lastCore.isSome = true) := by
  have checked := checked_checkRules engine
  rw [sound.idle.startClock] at checked
  -- a search that lasts leaves the world as it was
  have quiet : ∀ dog, engine.Sustains dog → engine.afterSearch dog = engine := fun dog lasts => by
    rw [lasts _ calm_idle.lasting sound.idle.watchdog]
    exact sound.idle.afterSearch
  have idle := sound.idle
  generalize engine.checkRules = outcome at checked
  cases checked with
  | faulty fault unrooted => exact absurd sound.rooted unrooted
  | interrupted dog rooted stops =>
    exact absurd (calm_idle.neverStops idle.watchdog) stops
  | feasible dog optimizer rooted lasts satisfied built =>
    rw [quiet dog lasts]
    exact ⟨true, _, rfl, ⟨rfl, rfl, ⟨idle.signal, idle.timeoutMs, idle.clock, idle.outside⟩⟩,
      iff_of_true rfl satisfied, fun _ => rfl, nofun⟩
  | infeasible dog core rooted lasts right =>
    rw [quiet dog lasts]
    refine ⟨false, _, rfl, ⟨rfl, rfl, ⟨idle.signal, idle.timeoutMs, idle.clock, idle.outside⟩⟩,
      iff_of_false nofun ?_, nofun, fun _ => ⟨rfl, rfl⟩⟩
    rintro ⟨value, satisfied⟩
    obtain ⟨rule, inside, _, breaks⟩ := right.contradictory value
    exact breaks (Forest.satisfiedBy_iff.mp satisfied rule inside)

/-- **A sound engine answers whether its rules can hold together**, and stays sound when they
cannot. -/
theorem hasSolution_answer (sound : engine.Sound) :
    ∃ answer after, engine.hasSolution = (.ok answer, after) ∧ Kept engine after ∧
      (engine.lastCore = none → (answer = true ↔ ∃ value, engine.forest.SatisfiedBy value)) ∧
      (answer = true → after.step = .ready) ∧
      (answer = false → after.step = .failed ∧ after.lastCore.isSome = true ∧ after.Sound) := by
  have free : engine.signal.isPoisoned = false := by rw [sound.idle.signal]; rfl
  rw [hasSolution_of_editable free sound.open' (redefine_of_fresh sound.fresh)]
  by_cases known : (!engine.changed && engine.lastCore.isSome) = true
  · rw [if_pos known]
    have core : engine.lastCore.isSome = true := (Bool.and_eq_true_iff.mp known).2
    refine ⟨false, engine, rfl, ⟨rfl, rfl, sound.idle⟩, fun none => ?_, nofun,
      fun _ => ⟨sound.failed core, core, sound⟩⟩
    rw [none] at core
    cases core
  · rw [if_neg known]
    obtain ⟨answer, after, checked, kept, verdict, ready, failed⟩ := checkRules_answer sound
    refine ⟨answer, after, checked, kept, fun _ => verdict, ready, fun negative => ?_⟩
    obtain ⟨step, core⟩ := failed negative
    refine ⟨step, core, kept.idle, Or.inr step, ?_, ?_, fun _ => step⟩
    · rw [kept.forest]
      exact sound.fresh
    · rw [kept.choices, kept.forest]
      exact sound.rooted

/-- **An engine whose rules can hold together finds a solution.** -/
theorem solution_answer (idle : engine.Idle) (prepared : engine.Prepared)
    (ready : engine.step = .ready) (feasible : ∃ value, engine.forest.SatisfiedBy value) :
    ∃ loaded after, engine.solution = (.ok loaded, after) ∧ Kept engine after := by
  have sought := sought_solution engine
  generalize engine.solution = outcome at sought
  -- the watchdog of an idle engine stops no search, and stays as it is
  have answered : ∀ {numbering optimizer optimum dog left},
      Searched engine numbering optimizer (optimum, dog, left) → optimum ≠ .stopped ∧ dog = .idle :=
    fun searched => by
      obtain ⟨demands, _, _, sound, _⟩ := prepared.searched searched
      have quiet : engine.startClock.watchdog = .idle := by rw [idle.startClock, idle.watchdog]
      have answer := Optimizer.optimize_answer calm_idle engine.startClock.watchdog quiet sound
      rwa [searched.optimized] at answer
  cases sought with
  | poisoned stopped =>
    rw [idle.signal] at stopped
    cases stopped
  | unready other => exact absurd ready other
  | missing _ none =>
    obtain ⟨optimizer, _, held, _⟩ := prepared ready
    cases none.symm.trans held
  | refuted _ _ _ searched => exact absurd feasible (prepared.not_refuted searched)
  | interrupted _ _ _ searched => exact absurd rfl (answered searched).1
  | found numbering _ dog left searched =>
    obtain ⟨-, rfl⟩ := answered searched
    have same := same_leftWith numbering .idle left engine
    refine ⟨_, _, rfl, same.choices, same.forest, ?_⟩
    unfold leftWith
    rw [idle.startClock]
    have idle' : Idle { engine with prepared := some (numbering, left) } :=
      ⟨idle.signal, idle.timeoutMs, idle.clock, idle.outside⟩
    rw [idle'.afterSearch]
    exact ⟨idle.signal, idle.timeoutMs, idle.clock, idle.outside⟩

end Engine

end Loadout
