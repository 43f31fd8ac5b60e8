/-
**What an engine finds out about its rules is right.**

Whether the rules can hold together is a question about the values of the registered roots
(`ChoiceTable.OnRoots`). An engine that is ready, or that holds a conflict, has found out about its
rules as they are (`Engine.Informed`), and no operation makes it forget why:

* `explains_of_right`: the core of a check explains why the rules cannot hold together;
* `judged_checkRules`: a check answers rightly for the constraints as they are stored;
* **`Informed.hasSolution`**: an engine that is informed gives the right answer, and stays informed;
* `Informed.edit`, `Prepared.edit`: an edit leaves an engine informed, and prepared if it is ready.
-/

import Loadout.Proofs.Engine.Edits

namespace Loadout

/-- Nothing but registered roots is true. -/
def ChoiceTable.OnRoots (table : ChoiceTable) (value : ChoiceId → Bool) : Prop :=
  ∀ id, value id = true → table.isRoot id = true

/-- Rules on registered roots cannot tell values from those that are true on registered roots
alone. -/
theorem RulesRooted.exists_onRoots {table : ChoiceTable}
    {rules : List (RuleId × List Cardinality)} (rooted : RulesRooted table rules)
    (value : ChoiceId → Bool) :
    ∃ other, table.OnRoots other ∧
      ∀ rule ∈ rules, Explainer.Holds value rule → Explainer.Holds other rule := by
  refine ⟨fun id => table.isRoot id && value id, fun id holds => (Bool.and_eq_true_iff.mp holds).1,
    fun rule inside holds cardinality member => ?_⟩
  rw [← holds cardinality member]
  refine Cardinality.holds_congr fun handle within => ?_
  rw [rooted rule inside cardinality member handle within, Bool.true_and]

namespace Forest

variable {table : ChoiceTable} {forest : Forest}

/-! ### Explanations -/

/-- Values of the choices satisfy every constraint that is stored for one of some rules. -/
def SatisfiedOn (forest : Forest) (rules : List RuleId) (value : ChoiceId → Bool) : Prop :=
  ∀ id ∈ rules, ∀ node, forest.node? id = some node →
    ∀ cardinality ∈ node.constraints, cardinality.holds value = true

/-- **Some rules explain a conflict**: they are registered, listed in ascending order, and cannot
hold together; and if the explanation is to be minimal, they can without any one of them. -/
structure Explains (table : ChoiceTable) (forest : Forest) (minimal : Bool)
    (core : List RuleId) : Prop where
  nonempty : core ≠ []
  ascending : core.Pairwise (· < ·)
  registered : ∀ id ∈ core, forest.contains id = true
  contradictory : ¬∃ value, forest.SatisfiedOn core value
  irreducible : minimal = true → ∀ id ∈ core, ∃ value, table.OnRoots value ∧
    forest.SatisfiedOn (core.erase id) value

theorem mem_constraints {rule : RuleId × List Cardinality} :
    rule ∈ forest.constraints ↔
      ∃ node, forest.node? rule.1 = some node ∧ node.constraints = rule.2 := by
  unfold constraints
  rw [List.mem_map]
  constructor
  · rintro ⟨⟨id, node⟩, inside, rfl⟩
    exact ⟨node, mem_toList_iff.mp inside, rfl⟩
  · rintro ⟨node, found, same⟩
    exact ⟨(rule.1, node), mem_toList_iff.mpr found, Prod.ext rfl same⟩

/-- Some rules are satisfied when their lists of constraints hold. -/
theorem satisfiedOn_iff {rules : List RuleId} {value : ChoiceId → Bool} :
    forest.SatisfiedOn rules value ↔
      ∀ rule ∈ forest.constraints, rule.1 ∈ rules → Explainer.Holds value rule := by
  constructor
  · intro satisfied rule inside listed
    obtain ⟨node, found, same⟩ := mem_constraints.mp inside
    unfold Explainer.Holds
    rw [← same]
    exact satisfied rule.1 listed node found
  · intro satisfied id listed node found
    exact satisfied (id, node.constraints) (mem_constraints.mpr ⟨node, found, rfl⟩) listed

/-- **A core that is right explains the conflict.** -/
theorem explains_of_right (rooted : RulesRooted table forest.constraints) {minimal : Bool}
    {core : List RuleId} (right : Explainer.CoreRight forest.constraints minimal core) :
    Explains table forest minimal core := by
  have ascending : core.Pairwise (· < ·) := forest.constraints_sorted.sublist right.sublist
  have distinct : core.Nodup := ascending.imp Nat.ne_of_lt
  refine ⟨right.nonempty, ascending, fun id inside => ?_, ?_, fun minimal id inside => ?_⟩
  · obtain ⟨rule, member, rfl⟩ := List.mem_map.mp (right.sublist.subset inside)
    obtain ⟨node, found, _⟩ := mem_constraints.mp member
    exact contains_iff.mpr ⟨node, found⟩
  · rintro ⟨value, satisfied⟩
    obtain ⟨rule, inside, listed, breaks⟩ := right.contradictory value
    exact breaks (satisfiedOn_iff.mp satisfied rule inside listed)
  · obtain ⟨value, holds⟩ := right.irreducible minimal id inside
    obtain ⟨other, onRoots, kept⟩ := rooted.exists_onRoots value
    refine ⟨other, onRoots, satisfiedOn_iff.mpr fun rule known listed => kept rule known ?_⟩
    obtain ⟨different, listed'⟩ := distinct.mem_erase_iff.mp listed
    exact holds rule known listed' different

/-! ### Forests that are up to date -/

/-- No rule is out of date, and all constraints are on registered roots. -/
structure Settled (table : ChoiceTable) (forest : Forest) : Prop where
  fresh : ∀ id node, forest.node? id = some node → node.stale = false
  rooted : RulesRooted table forest.constraints

/-- Some values of the registered roots satisfy every rule. -/
def Satisfiable (table : ChoiceTable) (forest : Forest) : Prop :=
  ∃ value, table.OnRoots value ∧ forest.SatisfiedBy value

theorem satisfiable_of_holds (rooted : RulesRooted table forest.constraints)
    {value : ChoiceId → Bool} (holds : ∀ rule ∈ forest.constraints, Explainer.Holds value rule) :
    Satisfiable table forest := by
  obtain ⟨other, onRoots, kept⟩ := rooted.exists_onRoots value
  exact ⟨other, onRoots, satisfiedBy_iff.mpr fun rule inside =>
    kept rule inside (holds rule inside)⟩

/-- Rules of which some explain a conflict cannot hold together. -/
theorem Explains.not_satisfiable {minimal : Bool} {core : List RuleId}
    (explains : Explains table forest minimal core) : ¬Satisfiable table forest := by
  rintro ⟨value, _, satisfied⟩
  exact explains.contradictory ⟨value, fun id _ node found => satisfied id node found⟩

end Forest

namespace Engine

variable {engine after : Engine}

/-! ### What an engine knows -/

/-- **What an engine holds about its rules is right**: they can hold together when it is ready, and
a conflict that it holds explains why they cannot. -/
structure Informed (engine : Engine) : Prop where
  ready : engine.step = .ready → Forest.Settled engine.choices engine.forest ∧
    Forest.Satisfiable engine.choices engine.forest
  conflict : ∀ core, engine.lastCore = some core → engine.step = .failed ∧
    engine.changed = false ∧ Forest.Settled engine.choices engine.forest ∧
      Forest.Explains engine.choices engine.forest engine.minimizeCores core

/-- An engine that is not ready and holds no conflict claims nothing. -/
theorem informed_of_open (other : engine.step ≠ .ready) (unknown : engine.lastCore = none) :
    engine.Informed where
  ready ready := absurd ready other
  conflict core held := by
    rw [unknown] at held
    cases held

theorem Informed.of_same {old new : Engine} (informed : old.Informed) (same : SameState old new) :
    new.Informed := by
  obtain ⟨ready, conflict⟩ := informed
  constructor
  · rw [same.step, same.choices, same.forest]
    exact ready
  · rw [same.step, same.changed, same.lastCore, same.choices, same.forest, same.minimizeCores]
    exact conflict

/-- What has changed since is not known to be in conflict. -/
theorem Informed.lastCore_eq_none (informed : engine.Informed)
    (unknown : engine.lastCore.isSome = true → engine.changed = true) :
    engine.lastCore = none := by
  cases held : engine.lastCore with
  | none => rfl
  | some core =>
    have unchanged := (informed.conflict core held).2.1
    rw [unknown (by rw [held]; rfl)] at unchanged
    cases unchanged

/-! ### Checks -/

/-- **The outcome of a check is right**: what the engine holds afterwards is, it is ready when the
answer is positive, and holds a conflict that may be asked for when it is negative. -/
structure Judged (outcome : Outcome Bool) : Prop where
  informed : outcome.2.Informed
  positive : outcome.1 = .ok true → outcome.2.step = .ready
  negative : outcome.1 = .ok false →
    outcome.2.signal.isPoisoned = false ∧ outcome.2.lastCore.isSome = true

/-- Without an answer an engine only has to stay informed. -/
theorem judged_of_error {error : SolverError} (informed : engine.Informed) :
    Judged (.error error, engine) :=
  ⟨informed, nofun, nofun⟩

/-- A check that is interrupted has found out nothing. -/
theorem judged_interrupted (informed : engine.Informed) : Judged engine.interrupted := by
  have kept := informed.of_same (same_interrupted Bool engine)
  unfold interrupted at kept ⊢
  split
  · next stops =>
    rw [if_pos stops] at kept
    exact judged_of_error kept
  · exact judged_of_error informed

/-- **A check answers for the constraints that are stored.** -/
theorem judged_checkRules (free : engine.signal.isPoisoned = false) (open' : engine.step ≠ .ready)
    (unknown : engine.lastCore = none)
    (fresh : ∀ id node, engine.forest.node? id = some node → node.stale = false) :
    Judged engine.checkRules := by
  have same := same_startClock engine
  have signal : engine.startClock.watchdog.signal = engine.signal := by
    unfold startClock
    split <;> rfl
  have checked := checked_checkRules engine
  generalize engine.startClock = started at same signal checked
  rw [← same.step] at open'
  rw [← same.lastCore] at unknown
  rw [← same.forest] at fresh
  rw [← signal] at free
  generalize engine.checkRules = outcome at checked
  cases checked with
  | faulty fault _ => exact judged_of_error (informed_of_open open' unknown)
  | interrupted dog _ _ =>
    have informed : (started.afterSearch dog).Informed := informed_of_open open' unknown
    exact judged_interrupted informed
  | feasible dog optimizer rooted _ satisfied _ =>
    obtain ⟨value, holds⟩ := satisfied
    have satisfiable : Forest.Satisfiable started.choices started.forest :=
      Forest.satisfiable_of_holds rooted (Forest.satisfiedBy_iff.mp holds)
    exact ⟨⟨fun _ => ⟨⟨fresh, rooted⟩, satisfiable⟩, nofun⟩, fun _ => rfl, nofun⟩
  | infeasible dog core rooted lasts right =>
    have explains := Forest.explains_of_right rooted right
    refine ⟨⟨nofun, fun held noted => ?_⟩, nofun, fun _ => ⟨lasts _ lasting_free free, rfl⟩⟩
    cases noted
    exact ⟨rfl, rfl, ⟨fresh, rooted⟩, explains⟩

/-- A check prepares the engine if it makes it ready. -/
theorem prepared_checkRules (other : engine.step ≠ .ready) : engine.checkRules.2.Prepared := by
  have same := same_startClock engine
  have checked := checked_checkRules engine
  generalize engine.startClock = started at same checked
  rw [← same.step] at other
  generalize engine.checkRules = outcome at checked
  cases checked with
  | faulty fault _ => exact prepared_of_step _ other
  | interrupted dog _ _ =>
    exact (prepared_of_step (started.afterSearch dog) other).of_same (same_interrupted Bool _)
  | feasible dog optimizer _ _ _ built =>
    have covers := Numbering.covers_ofTable started.choices
    obtain ⟨demands, sound, expresses⟩ := Optimizer.build_spec covers
      (Numbering.objective_proper covers started.choices) built
    exact fun _ => ⟨optimizer, demands, rfl, sound, expresses⟩
  | infeasible dog core _ _ _ => exact prepared_of_step _ nofun

/-- What a question about the rules leaves as it is. -/
structure Asked (old new : Engine) : Prop where
  choices : new.choices = old.choices
  minimizeCores : new.minimizeCores = old.minimizeCores
  /-- The rules stay, and those whose choices have changed are defined anew. -/
  forest : Forest.Redefined old.choices old.forest new.forest

theorem asked_self (settled : Forest.Settled engine.choices engine.forest) : Asked engine engine :=
  ⟨rfl, rfl, Forest.redefined_self settled.fresh⟩

/-- A check leaves choices and rules as they are. -/
theorem checkRules_kept (engine : Engine) :
    engine.checkRules.2.choices = engine.choices ∧ engine.checkRules.2.forest = engine.forest ∧
      engine.checkRules.2.minimizeCores = engine.minimizeCores := by
  have same := same_startClock engine
  have checked := checked_checkRules engine
  generalize engine.startClock = started at same checked
  rw [← same.choices, ← same.forest, ← same.minimizeCores]
  generalize engine.checkRules = outcome at checked
  cases checked with
  | interrupted dog _ _ =>
    have kept := same_interrupted Bool (started.afterSearch dog)
    exact ⟨kept.choices, kept.forest, kept.minimizeCores⟩
  | _ => exact ⟨rfl, rfl, rfl⟩

/-- **Whether its rules can hold together is answered rightly** by an engine that is informed, for
the choices as they are and the rules as they are defined by them. -/
theorem Informed.hasSolution (informed : engine.Informed) :
    Judged engine.hasSolution ∧
      ∀ answer, engine.hasSolution.1 = .ok answer → Asked engine engine.hasSolution.2 := by
  have inquiry := inquiry_hasSolution engine
  generalize engine.hasSolution = outcome at inquiry
  cases inquiry with
  | poisoned | closed => exact ⟨judged_of_error informed, nofun⟩
  | ready _ step =>
    exact ⟨⟨informed, fun _ => step, nofun⟩, fun _ _ => asked_self (informed.ready step).1⟩
  | remembered free _ _ held =>
    obtain ⟨core, known⟩ := Option.isSome_iff_exists.mp held
    exact ⟨⟨informed, nofun, fun _ => ⟨free, held⟩⟩, fun _ _ =>
      asked_self (informed.conflict core known).2.2.1⟩
  | checked forest free editable unknown _ redefined =>
    obtain ⟨choices, kept, minimize⟩ := checkRules_kept { engine with forest }
    refine ⟨@judged_checkRules { engine with forest } free editable.not_ready
      (informed.lastCore_eq_none unknown)
      fun id node found => redefined.settled found, fun _ _ => ⟨choices, minimize, ?_⟩⟩
    rw [kept]
    exact redefined

/-- An engine that is prepared stays so. -/
theorem Prepared.hasSolution (prepared : engine.Prepared) : engine.hasSolution.2.Prepared := by
  have inquiry := inquiry_hasSolution engine
  generalize engine.hasSolution = outcome at inquiry
  cases inquiry with
  | checked forest _ editable _ _ _ =>
    exact @prepared_checkRules { engine with forest } editable.not_ready
  | _ => exact prepared

/-! ### Edits -/

section Edit

variable {α : Type} {operation : Operation} {change : α → ChoiceTable → Forest → Prop}
  {outcome : Outcome α}

/-- **An edit leaves an engine informed**: it makes it forget, or changes nothing. -/
theorem Informed.edit (informed : engine.Informed)
    (edit : Edit engine operation change outcome) : outcome.2.Informed := by
  cases edit with
  | closed | faulty => exact informed
  | done result free made =>
    exact informed_of_open (editFault?_eq_none_iff.mp free).2.not_ready rfl

/-- **An edit leaves an engine prepared**: it is not made ready by it, nor edited when it is. -/
theorem Prepared.edit (prepared : engine.Prepared)
    (edit : Edit engine operation change outcome) : outcome.2.Prepared := by
  cases edit with
  | closed | faulty => exact prepared
  | done result free made =>
    exact prepared_of_step _ (editFault?_eq_none_iff.mp free).2.not_ready

end Edit

/-! ### Solutions -/

theorem Informed.solution (informed : engine.Informed) : engine.solution.2.Informed := by
  have unknown (ready : engine.step = .ready) : engine.lastCore = none := by
    cases held : engine.lastCore with
    | none => rfl
    | some core =>
      rw [(informed.conflict core held).1] at ready
      cases ready
  have sought := sought_solution engine
  generalize engine.solution = outcome at sought
  cases sought with
  | poisoned | unready => exact informed
  | missing => exact informed.of_same (same_startClock engine)
  | found numbering _ dog left searched | refuted numbering dog left searched =>
    have same := same_leftWith numbering dog left engine
    exact informed_of_open nofun (same.lastCore.trans (unknown searched.ready))
  | interrupted numbering dog left searched =>
    have kept : Informed { engine with prepared := some (numbering, left) } :=
      ⟨informed.ready, informed.conflict⟩
    exact (kept.of_same (same_leftWith numbering dog left engine)).of_same (same_interrupted _ _)

end Engine

end Loadout
