/-
**An engine whose rules cannot hold together is diagnosed without an error.**

Each round of a diagnosis checks the engine, picks a rule of the conflict and removes it. Removing a
rule only takes constraints away (`Forest.Under`, `under_remove`), so the engine stays sound:

* `pickRemoval_registered`: the rule that is picked is registered;
* `removeRule_answer`: so it can be removed, and the engine stays sound;
* **`diagnose_answer`**: a diagnosis of a sound engine gives problems.
-/

import Loadout.Diagnosis
import Loadout.Proofs.Engine.Checks

namespace Loadout

namespace Forest

variable {forest : Forest}

/-! ### Removing rules -/

/-- Two nodes hold the same rule, defined alike; their places in the forest may differ. -/
structure SameRule (old new : RuleNode) : Prop where
  rule : new.rule = old.rule
  constraints : new.constraints = old.constraints
  stale : new.stale = old.stale

theorem SameRule.refl (node : RuleNode) : SameRule node node := ⟨rfl, rfl, rfl⟩

theorem SameRule.trans {first second third : RuleNode} (one : SameRule first second)
    (two : SameRule second third) : SameRule first third :=
  ⟨two.rule.trans one.rule, two.constraints.trans one.constraints, two.stale.trans one.stale⟩

/-- A forest has no rules but those of another, defined alike. -/
def Under (old new : Forest) : Prop :=
  ∀ id node, new.node? id = some node → ∃ above, old.node? id = some above ∧ SameRule above node

theorem Under.trans {first second third : Forest} (one : Under first second)
    (two : Under second third) : Under first third := by
  intro id node found
  obtain ⟨middle, found', same⟩ := two id node found
  obtain ⟨above, found'', same'⟩ := one id middle found'
  exact ⟨above, found'', same'.trans same⟩

theorem node?_modify (id other : RuleId) (edit : RuleNode → RuleNode) (forest : Forest) :
    (forest.modify id edit).node? other =
      if id = other then (forest.node? other).map edit else forest.node? other := by
  unfold node? modify
  rw [Array.getElem?_modify]
  split
  · cases forest.nodes[other]? with
    | none => rfl
    | some slot => rfl
  · rfl

theorem under_modify (id : RuleId) (edit : RuleNode → RuleNode)
    (same : ∀ node, SameRule node (edit node)) (forest : Forest) :
    Under forest (forest.modify id edit) := by
  intro other node found
  rw [node?_modify] at found
  split at found
  · obtain ⟨above, found', rfl⟩ := Option.map_eq_some_iff.mp found
    exact ⟨above, found', same above⟩
  · exact ⟨node, found, .refl node⟩

/-- A place that is vacated holds no rule. -/
theorem node?_vacate (forest : Forest) (gone id : RuleId) :
    (forest.vacate gone).node? id = if gone = id then none else forest.node? id := by
  unfold vacate
  split
  · unfold node?
    dsimp only
    rw [Array.getElem?_setIfInBounds]
    split
    · split <;> rfl
    · rfl
  · next absent =>
    split
    · next same =>
      rwa [← same, ← Option.not_isSome_iff_eq_none]
    · rfl

/-- Holes hold no rules. -/
theorem node?_foldl_vacate (ids : List RuleId) (forest : Forest) (id : RuleId) :
    (ids.foldl vacate forest).node? id = if id ∈ ids then none else forest.node? id := by
  induction ids generalizing forest with
  | nil => rfl
  | cons first rest ih =>
    rw [List.foldl_cons, ih, node?_vacate]
    by_cases same : first = id
    · simp [same]
    · simp [same, Ne.symm same]

theorem under_foldl_vacate (ids : List RuleId) (forest : Forest) :
    Under forest (ids.foldl vacate forest) := by
  intro id node found
  rw [node?_foldl_vacate] at found
  split at found
  · cases found
  · exact ⟨node, found, .refl node⟩

theorem under_remove (id : RuleId) (forest : Forest) : Under forest (forest.remove id).2 := by
  have erased := under_foldl_vacate (forest.subtree id) forest
  unfold remove
  dsimp only
  cases forest.parent? id with
  | none => exact erased
  | some parent =>
    exact erased.trans (under_modify parent (fun node =>
      { node with children := node.children.filter (· != id) }) (fun _ => ⟨rfl, rfl, rfl⟩) _)

theorem contains_of_rule? {id : RuleId} {rule : Rule} (found : forest.rule? id = some rule) :
    forest.contains id = true := by
  unfold rule? at found
  obtain ⟨node, found', _⟩ := Option.map_eq_some_iff.mp found
  unfold contains
  rw [found']
  rfl

/-! ### Picking a rule -/

/-- The better of two entries. -/
def better (best : Option (Nat × RuleId)) (entry : Nat × RuleId) : Option (Nat × RuleId) :=
  match best with
  | none => some entry
  | some best =>
    if entry.1 < best.1 ∨ entry.1 = best.1 ∧ entry.2 < best.2 then some entry else some best

theorem mem_of_foldl_better {ranked : List (Nat × RuleId)} {best : Option (Nat × RuleId)}
    {entry : Nat × RuleId} (found : ranked.foldl better best = some entry) :
    entry ∈ ranked ∨ best = some entry := by
  induction ranked generalizing best with
  | nil => exact Or.inr found
  | cons first rest ih =>
    rcases ih found with later | here
    · exact Or.inl (List.mem_cons_of_mem _ later)
    · unfold better at here
      split at here
      · cases here
        exact Or.inl List.mem_cons_self
      · split at here
        · cases here
          exact Or.inl List.mem_cons_self
        · exact Or.inr here

/-- **The rule that is picked is registered.** -/
theorem pickRemoval_registered {causes : List RuleId} {victim : RuleId}
    (picked : forest.pickRemoval causes = some victim) : forest.contains victim = true := by
  unfold pickRemoval at picked
  obtain ⟨⟨rank, id⟩, best, rfl⟩ := Option.map_eq_some_iff.mp picked
  rcases mem_of_foldl_better best with inside | nothing
  · obtain ⟨cause, _, ranked⟩ := List.mem_filterMap.mp inside
    obtain ⟨value, given, equal⟩ := Option.map_eq_some_iff.mp ranked
    cases equal
    obtain ⟨rule, found, _⟩ := Option.bind_eq_some_iff.mp given
    exact contains_of_rule? found
  · cases nothing

end Forest

namespace Engine

variable {engine : Engine}

/-- A registered rule is removed where rules may be changed. -/
theorem removeRule_eq {id : RuleId} (free : engine.editFault? .removeRule = none)
    (registered : engine.forest.contains id = true) :
    engine.removeRule id = (.ok (engine.forest.remove id).1,
      { engine with forest := (engine.forest.remove id).2 }.markChanged) := by
  unfold removeRule
  rw [free]
  exact if_pos registered

/-- **A registered rule can be removed from a sound engine**, which stays sound. -/
theorem removeRule_answer (sound : engine.Sound) {id : RuleId}
    (registered : engine.forest.contains id = true) :
    ∃ removed after, engine.removeRule id = (.ok removed, after) ∧ after.Sound := by
  have unpoisoned : engine.signal.isPoisoned = false := by rw [sound.idle.signal]; rfl
  have free : engine.editFault? .removeRule = none :=
    editFault?_eq_none_iff.mpr ⟨unpoisoned, sound.open'⟩
  have under := Forest.under_remove id engine.forest
  refine ⟨_, _, removeRule_eq free registered, ⟨sound.idle.signal, sound.idle.timeoutMs, sound.idle.clock,
    sound.idle.outside⟩, sound.open', fun other node found => ?_, ?_, nofun⟩
  · obtain ⟨above, found', same⟩ := under other node found
    exact same.stale.trans (sound.fresh other above found')
  · intro rule inside
    obtain ⟨⟨other, node⟩, listed, rfl⟩ := List.mem_map.mp inside
    obtain ⟨above, found', same⟩ := under other node (Forest.mem_toList_iff.mp listed)
    dsimp only
    rw [same.constraints]
    exact sound.rooted (other, above.constraints)
      (List.mem_map.mpr ⟨(other, above), Forest.mem_toList_iff.mpr found', rfl⟩)

/-- The rounds of a diagnosis end without an error. -/
theorem diagnoseRounds_answer (limit : Option Nat) (rounds : Nat) (reported : List RuleId)
    (problems : List Problem) (engine : Engine) (sound : engine.Sound) :
    ∃ found after, engine.diagnoseRounds limit rounds reported problems = (.ok found, after) ∧
      after.Idle := by
  induction rounds generalizing reported problems engine with
  | zero => exact ⟨_, _, rfl, sound.idle⟩
  | succ rounds ih =>
    obtain ⟨answer, checked, solved, kept, _, _, failed⟩ := hasSolution_answer sound
    unfold diagnoseRounds
    rw [solved]
    dsimp only
    cases answer with
    | true => exact ⟨_, _, rfl, kept.idle⟩
    | false =>
      obtain ⟨step, core, sound'⟩ := failed rfl
      obtain ⟨ids, known⟩ := Option.isSome_iff_exists.mp core
      have conflict : checked.lastConflict = .ok ids :=
        lastConflict_of_held (by rw [kept.idle.signal]; rfl) known step
      dsimp only
      rw [conflict]
      dsimp only
      -- whether the conflict is reported or not, the round goes on alike
      split
      all_goals
        split
        · exact ⟨_, _, rfl, kept.idle⟩
        · split
          · exact ⟨_, _, rfl, kept.idle⟩
          · next victim picked =>
            obtain ⟨removed, after, done, sound''⟩ :=
              removeRule_answer sound' (Forest.pickRemoval_registered picked)
            rw [done]
            exact ih _ _ after sound''

/-- **A diagnosis of a sound engine gives problems.** -/
theorem diagnose_answer (limit : Option Nat) (sound : engine.Sound) :
    ∃ problems after, engine.diagnose limit = (.ok problems, after) ∧ after.Idle :=
  diagnoseRounds_answer limit _ [] [] engine sound

end Engine

end Loadout
