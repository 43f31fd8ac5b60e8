/-
**What the solution of an engine is about.**

A solution lists the choices whose root is true (`ChoiceTable.loadedBy`). Once an engine is ready,
its optimizer knows what the constraints of the registered rules say (`Engine.Prepared`). What the
question for the solution comes to is said once (`Engine.Sought`), and then:

* `Prepared.searched`, `Prepared.not_refuted`: what the optimizer finds is right, and it finds nothing
  against values that satisfy the rules;
* `Prepared.solution`: a search for the solution leaves it so, also when it is interrupted;
* **`Prepared.exists_least`**: a solution lists what some values of the roots load that satisfy every
  constraint, and no other such values load choices of a lower total weight.
-/

import Loadout.Engine
import Loadout.Proofs.Engine.Optima
import Loadout.Proofs.Engine.Roots

namespace Loadout

/-! ### What a solution is about -/

namespace ChoiceTable

/-- The registered choices whose root is a registered choice with the value true. -/
def loadedBy (table : ChoiceTable) (value : ChoiceId → Bool) : List ChoiceId :=
  table.ids.filter fun id => table.isRoot (table.root id) && value (table.root id)

/-- The sum of the weights of some registered choices. -/
def totalWeight (table : ChoiceTable) (ids : List ChoiceId) : Int :=
  (ids.map fun id => (table.weight? id).getD 0).sum

variable {table : ChoiceTable} {id : ChoiceId}

theorem mem_toList_iff {entry : ChoiceEntry} :
    (id, entry) ∈ table.toList ↔ table.registered? id = some entry := by
  unfold toList registered?
  rw [Option.filter_eq_some_iff, List.mem_map]
  constructor
  · rintro ⟨⟨other, place⟩, inside, equal⟩
    cases equal
    obtain ⟨member, registered⟩ := List.mem_filter.mp inside
    refine ⟨?_, registered⟩
    rw [← Array.getElem?_toList]
    exact List.mem_zipIdx_iff_getElem?.mp member
  · rintro ⟨found, registered⟩
    rw [← Array.getElem?_toList] at found
    exact ⟨(entry, id), List.mem_filter.mpr ⟨List.mem_zipIdx_iff_getElem?.mpr found, registered⟩,
      rfl⟩

theorem mem_ids_iff : id ∈ table.ids ↔ table.contains id = true := by
  unfold ids contains
  rw [List.mem_map, Option.isSome_iff_exists]
  constructor
  · rintro ⟨⟨other, entry⟩, inside, rfl⟩
    exact ⟨entry, mem_toList_iff.mp inside⟩
  · rintro ⟨entry, found⟩
    exact ⟨(id, entry), mem_toList_iff.mpr found, rfl⟩

/-- A root is registered and no alias. -/
theorem isRoot_iff : table.isRoot id = true ↔
    table.contains id = true ∧ table.target? id = none := by
  unfold isRoot choice? contains registered? target? Choice.isAlias
  cases table.entries[id]? with
  | none => simp
  | some entry => cases registered : entry.registered <;> simp [registered, Option.filter]

/-- A registered choice is loaded when its root is, and the root alike. -/
theorem mem_loadedBy {value : ChoiceId → Bool} :
    id ∈ table.loadedBy value ↔ table.contains id = true ∧
      table.isRoot (table.root id) = true ∧ value (table.root id) = true := by
  unfold loadedBy
  rw [List.mem_filter, mem_ids_iff, Bool.and_eq_true]

/-- **A registered choice is loaded just when its root is.** -/
theorem mem_loadedBy_root {value : ChoiceId → Bool} (registered : table.contains id = true) :
    id ∈ table.loadedBy value ↔ table.root id ∈ table.loadedBy value := by
  rw [mem_loadedBy, mem_loadedBy]
  constructor
  · rintro ⟨_, isRoot, holds⟩
    obtain ⟨registered', final⟩ := isRoot_iff.mp isRoot
    rw [root_root final]
    exact ⟨registered', isRoot, holds⟩
  · rintro ⟨_, isRoot, holds⟩
    have final := target?_root_root.mp (isRoot_iff.mp isRoot).2
    rw [root_root final] at isRoot holds
    exact ⟨registered, isRoot, holds⟩

/-- A registered root is loaded just when it is true. -/
theorem mem_loadedBy_of_isRoot {value : ChoiceId → Bool} (isRoot : table.isRoot id = true) :
    id ∈ table.loadedBy value ↔ value id = true := by
  obtain ⟨registered, final⟩ := isRoot_iff.mp isRoot
  rw [mem_loadedBy, root_of_final final]
  exact ⟨fun loaded => loaded.2.2, fun holds => ⟨registered, isRoot, holds⟩⟩

/-- The total weight of loaded choices adds up the weights of their entries. -/
theorem totalWeight_filter (table : ChoiceTable) (test : ChoiceId → Bool) :
    table.totalWeight (table.ids.filter test) =
      ((table.toList.filter fun entry => test entry.1).map fun entry => entry.2.weight).sum := by
  unfold totalWeight ids
  rw [List.filter_map, List.map_map]
  congr 1
  refine List.map_congr_left fun entry inside => ?_
  have found := mem_toList_iff.mp (List.mem_filter.mp inside).1
  show ((table.registered? entry.1).map ChoiceEntry.weight).getD 0 = entry.2.weight
  rw [found]
  rfl

end ChoiceTable

namespace Forest

/-- Values of the choices satisfy every constraint that is stored for a registered rule. -/
def SatisfiedBy (forest : Forest) (value : ChoiceId → Bool) : Prop :=
  ∀ id node, forest.node? id = some node →
    ∀ cardinality ∈ node.constraints, cardinality.holds value = true

theorem mem_toList_iff {forest : Forest} {id : RuleId} {node : RuleNode} :
    (id, node) ∈ forest.toList ↔ forest.node? id = some node := by
  unfold toList node?
  rw [List.mem_filterMap, Option.join_eq_some_iff]
  constructor
  · rintro ⟨⟨slot, place⟩, inside, given⟩
    obtain ⟨other, rfl, equal⟩ := Option.map_eq_some_iff.mp given
    cases equal
    rw [← Array.getElem?_toList]
    exact List.mem_zipIdx_iff_getElem?.mp inside
  · intro found
    rw [← Array.getElem?_toList] at found
    exact ⟨(some node, id), List.mem_zipIdx_iff_getElem?.mpr found, rfl⟩

theorem satisfiedBy_iff {forest : Forest} {value : ChoiceId → Bool} :
    forest.SatisfiedBy value ↔
      ∀ rule ∈ forest.constraints, ∀ cardinality ∈ rule.2, cardinality.holds value = true := by
  unfold constraints SatisfiedBy
  rw [List.forall_mem_map]
  constructor
  · rintro satisfied ⟨id, node⟩ inside
    exact satisfied id node (mem_toList_iff.mp inside)
  · intro satisfied id node found
    exact satisfied (id, node) (mem_toList_iff.mpr found)

end Forest

namespace Engine

variable {engine : Engine}

/-- What an engine holds about its choices and rules, how far it has come, and what it has found out;
the rest is about interruptions. -/
structure SameState (old new : Engine) : Prop where
  choices : new.choices = old.choices
  forest : new.forest = old.forest
  step : new.step = old.step
  prepared : new.prepared = old.prepared
  changed : new.changed = old.changed
  lastCore : new.lastCore = old.lastCore
  minimizeCores : new.minimizeCores = old.minimizeCores

/-- **An engine that is ready searches for the cheapest values of its choices** under the
constraints of its rules. -/
def Prepared (engine : Engine) : Prop :=
  engine.step = .ready → ∃ optimizer demands,
    engine.prepared = some (Numbering.ofTable engine.choices, optimizer) ∧
    optimizer.Sound demands ((Numbering.ofTable engine.choices).objective engine.choices) ∧
    Optimizer.Expresses (Numbering.ofTable engine.choices) demands engine.forest.constraints

theorem Prepared.of_same {old new : Engine} (prepared : old.Prepared) (same : SameState old new) :
    new.Prepared := by
  unfold Prepared
  rw [same.choices, same.forest, same.step, same.prepared]
  exact prepared

theorem prepared_of_step (engine : Engine) (other : engine.step ≠ .ready) : engine.Prepared :=
  fun ready => absurd ready other

theorem same_startClock (engine : Engine) : SameState engine engine.startClock := by
  unfold startClock
  split <;> exact ⟨rfl, rfl, rfl, rfl, rfl, rfl, rfl⟩

theorem same_interrupted (α : Type) (engine : Engine) :
    SameState engine (engine.interrupted (α := α)).2 := by
  unfold interrupted
  split <;> exact ⟨rfl, rfl, rfl, rfl, rfl, rfl, rfl⟩

/-- An interruption gives no result. -/
theorem interrupted_not_ok {α : Type} (engine : Engine) (result : α) :
    engine.interrupted.1 ≠ .ok result := by
  unfold interrupted
  split <;> exact nofun

/-! ### What a search for the solution comes to -/

/-- The engine has searched with its optimizer, and this is what the search came to. -/
structure Searched (engine : Engine) (numbering : Numbering) (optimizer : Optimizer)
    (outcome : Optimum × Watchdog × Optimizer) : Prop where
  free : engine.signal.isPoisoned = false
  ready : engine.step = .ready
  prepared : engine.prepared = some (numbering, optimizer)
  optimized : optimizer.optimize engine.startClock.watchdog = outcome

/-- What the engine is after a search that leaves an optimizer behind. -/
def leftWith (numbering : Numbering) (dog : Watchdog) (optimizer : Optimizer) (engine : Engine) :
    Engine :=
  { engine.startClock with prepared := some (numbering, optimizer) }.afterSearch dog

theorem same_leftWith (numbering : Numbering) (dog : Watchdog) (optimizer : Optimizer)
    (engine : Engine) : SameState { engine with prepared := some (numbering, optimizer) }
      (engine.leftWith numbering dog optimizer) := by
  obtain ⟨choices, forest, step, _, changed, lastCore, minimizeCores⟩ := same_startClock engine
  exact ⟨choices, forest, step, rfl, changed, lastCore, minimizeCores⟩

/-- **What the question for the solution comes to.** -/
inductive Sought (engine : Engine) : Outcome (List ChoiceId) → Prop
  | poisoned : engine.signal.isPoisoned = true → Sought engine (.error .cancelled, engine)
  | unready : engine.step ≠ .ready →
    Sought engine (.error (.invalidState .getSolution engine.step), engine)
  /-- There is nothing to search with. -/
  | missing : engine.step = .ready → engine.prepared = none →
    Sought engine (.error (.internal .optimizerMissing), engine.startClock)
  | found (numbering : Numbering) {optimizer : Optimizer} (model : Array Bool) (dog : Watchdog)
    (left : Optimizer) : Searched engine numbering optimizer (.found model, dog, left) →
    Sought engine (.ok (engine.loadedIn numbering model),
      { engine.leftWith numbering dog left with step := .done })
  | interrupted (numbering : Numbering) {optimizer : Optimizer} (dog : Watchdog)
    (left : Optimizer) : Searched engine numbering optimizer (.stopped, dog, left) →
    Sought engine (engine.leftWith numbering dog left).interrupted
  /-- No assignment is found that satisfies the rules. -/
  | refuted (numbering : Numbering) {optimizer : Optimizer} (dog : Watchdog) (left : Optimizer) :
    Searched engine numbering optimizer (.infeasible, dog, left) →
    Sought engine (.error (.internal .optimizerInfeasible),
      { engine.leftWith numbering dog left with step := .done })

theorem sought_solution (engine : Engine) : Sought engine engine.solution := by
  have same := same_startClock engine
  unfold solution
  split
  · next poisoned => exact .poisoned poisoned
  next free =>
  split
  · next other => exact .unready other
  next ready =>
  rw [Bool.not_eq_true] at free
  rw [not_not] at ready
  dsimp only
  split
  · next none => exact .missing ready (same.prepared.symm.trans none)
  · next numbering optimizer found =>
    have searched : Searched engine numbering optimizer _ :=
      ⟨free, ready, same.prepared.symm.trans found, rfl⟩
    generalize optimizer.optimize engine.startClock.watchdog = outcome at searched
    obtain ⟨optimum, dog, left⟩ := outcome
    cases optimum with
    | found model =>
      have loaded : engine.startClock.loadedIn numbering model = engine.loadedIn numbering model := by
        unfold loadedIn
        rw [same.choices]
      have sought := Sought.found numbering model dog left searched
      rw [← loaded] at sought
      exact sought
    | stopped => exact .interrupted numbering dog left searched
    | infeasible => exact .refuted numbering dog left searched

section Searched

variable {numbering : Numbering} {optimizer left : Optimizer} {optimum : Optimum} {dog : Watchdog}

/-- **What a prepared engine finds is right**, and what the search leaves behind can be used again. -/
theorem Prepared.searched (prepared : engine.Prepared)
    (searched : Searched engine numbering optimizer (optimum, dog, left)) :
    ∃ demands, numbering = .ofTable engine.choices ∧
      Optimizer.Expresses numbering demands engine.forest.constraints ∧
      optimizer.Sound demands (numbering.objective engine.choices) ∧
      left.Sound demands (numbering.objective engine.choices) ∧
      Optimizer.OptimumRight demands (numbering.objective engine.choices) optimum := by
  obtain ⟨known, demands, found, sound, expresses⟩ := prepared searched.ready
  cases searched.prepared.symm.trans found
  obtain ⟨sound', right⟩ := Optimizer.optimize_spec sound engine.startClock.watchdog
  rw [searched.optimized] at sound' right
  exact ⟨demands, rfl, expresses, sound, sound', right⟩

/-- No search contradicts values that satisfy the rules. -/
theorem Prepared.not_refuted (prepared : engine.Prepared)
    (searched : Searched engine numbering optimizer (.infeasible, dog, left)) :
    ¬∃ value, engine.forest.SatisfiedBy value := by
  rintro ⟨value, satisfied⟩
  obtain ⟨demands, rfl, expresses, _, _, contradictory⟩ := prepared.searched searched
  have agrees := (Numbering.covers_ofTable engine.choices).matches_assign value
  exact contradictory _ ((expresses value _ agrees).mpr (Forest.satisfiedBy_iff.mp satisfied))

end Searched

theorem Prepared.solution (prepared : engine.Prepared) : engine.solution.2.Prepared := by
  have sought := sought_solution engine
  generalize engine.solution = outcome at sought
  cases sought with
  | poisoned | unready => exact prepared
  | missing => exact prepared.of_same (same_startClock engine)
  | found | refuted => exact prepared_of_step _ nofun
  | interrupted _ dog left searched =>
    obtain ⟨demands, rfl, expresses, _, sound, _⟩ := prepared.searched searched
    have searchable : Prepared
        { engine with prepared := some (Numbering.ofTable engine.choices, left) } :=
      fun _ => ⟨left, demands, rfl, sound, expresses⟩
    exact (searchable.of_same (same_leftWith _ dog left engine)).of_same (same_interrupted _ _)

/-- A solution lists the choices that a cheapest assignment loads. -/
theorem Prepared.solution_ok (prepared : engine.Prepared) {loaded : List ChoiceId}
    (solved : engine.solution.1 = .ok loaded) :
    ∃ model demands, loaded = engine.loadedIn (Numbering.ofTable engine.choices) model ∧
      Optimizer.Cheapest demands ((Numbering.ofTable engine.choices).objective engine.choices)
        model ∧
      Optimizer.Expresses (Numbering.ofTable engine.choices) demands engine.forest.constraints := by
  have sought := sought_solution engine
  generalize engine.solution = outcome at sought solved
  cases sought with
  | found _ model _ _ searched =>
    cases solved
    obtain ⟨demands, rfl, expresses, _, _, cheapest⟩ := prepared.searched searched
    exact ⟨model, demands, rfl, cheapest, expresses⟩
  | interrupted => exact absurd solved (interrupted_not_ok _ loaded)
  | _ => cases solved

/-- A numbering reads the values of the registered roots from an assignment that matches them. -/
theorem read_of_matches {table : ChoiceTable} {value : ChoiceId → Bool} {assignment : Assignment}
    (agrees : (Numbering.ofTable table).Matches value assignment) (id : ChoiceId) :
    (Numbering.ofTable table).read assignment id = (table.isRoot id && value id) := by
  have rooted := Numbering.isSome_atom?_iff table id
  unfold Numbering.read
  cases found : (Numbering.ofTable table).atom? id with
  | none =>
    rw [found] at rooted
    rw [Bool.eq_false_iff.mpr fun isRoot => Bool.false_ne_true (rooted.mpr isRoot)]
    rfl
  | some atom =>
    rw [found] at rooted
    rw [rooted.mp rfl, Bool.true_and]
    exact agrees id atom found

/-- A model loads the choices whose root has the value true in it. -/
theorem loadedIn_eq (engine : Engine) (model : Array Bool) :
    engine.loadedIn (Numbering.ofTable engine.choices) model =
      engine.choices.loadedBy ((Numbering.ofTable engine.choices).read (valuation model)) := by
  unfold loadedIn ChoiceTable.loadedBy
  refine List.filter_congr fun id _ => ?_
  rw [← read_of_matches (Numbering.matches_read _ _)]
  unfold Numbering.value Numbering.read
  cases (Numbering.ofTable engine.choices).atom? (engine.choices.root id) with
  | none => rfl
  | some atom => rfl

/-- The objective is the total weight of what is loaded. -/
theorem signedWeight_eq_totalWeight {table : ChoiceTable} {value : ChoiceId → Bool}
    {assignment : Assignment} (agrees : (Numbering.ofTable table).Matches value assignment) :
    signedWeight assignment ((Numbering.ofTable table).objective table) =
      table.totalWeight (table.loadedBy value) := by
  rw [Numbering.signedWeight_objective (Numbering.covers_ofTable table),
    ← ChoiceTable.totalWeight_filter table fun id =>
      (Numbering.ofTable table).read assignment (table.root id)]
  unfold ChoiceTable.loadedBy
  congr 1
  exact List.filter_congr fun id _ => read_of_matches agrees (table.root id)

/-- The values of the roots of which a solution lists what they load. -/
theorem Prepared.exists_least (prepared : engine.Prepared) {loaded : List ChoiceId}
    (solved : engine.solution.1 = .ok loaded) :
    ∃ value, (∀ id, value id = true → engine.choices.isRoot id = true) ∧
      loaded = engine.choices.loadedBy value ∧ engine.forest.SatisfiedBy value ∧
      ∀ other, engine.forest.SatisfiedBy other →
        engine.choices.totalWeight loaded ≤
          engine.choices.totalWeight (engine.choices.loadedBy other) := by
  obtain ⟨model, demands, listed, ⟨meets, least⟩, expresses⟩ := prepared.solution_ok solved
  have agrees := Numbering.matches_read (Numbering.ofTable engine.choices) (valuation model)
  rw [loadedIn_eq] at listed
  refine ⟨(Numbering.ofTable engine.choices).read (valuation model), fun id holds => ?_, listed,
    Forest.satisfiedBy_iff.mpr ((expresses _ _ agrees).mp meets), fun other satisfied => ?_⟩
  · rw [read_of_matches agrees, Bool.and_eq_true] at holds
    exact holds.1
  · have agrees' := (Numbering.covers_ofTable engine.choices).matches_assign other
    have above := least _ ((expresses other _ agrees').mpr (Forest.satisfiedBy_iff.mp satisfied))
    rw [signedWeight_eq_totalWeight agrees, signedWeight_eq_totalWeight agrees', ← listed] at above
    exact above

end Engine

end Loadout
