/-
**Defining rules anew.**

Every rule can be defined, whatever the table (`Rule.define_ok`). So an engine whose choices have
changed always gets its stale rules defined anew:

* `redefineRules_spec`: some registered rules are defined, and the others stay as they are;
* **`redefine_spec`**: just the stale rules are defined (`Forest.Redefined`);
* `inquiry_hasSolution`: an engine that is asked whether its rules can hold together knows it
  already, or checks its rules after that.
-/

import Loadout.Proofs.Engine.Problems
import Loadout.Proofs.Engine.Readings

namespace Loadout

namespace Forest

variable {table : ChoiceTable} {forest old new : Forest} {id : RuleId} {node : RuleNode}

theorem contains_iff : forest.contains id = true ↔ ∃ node, forest.node? id = some node :=
  Option.isSome_iff_exists

theorem lt_of_contains (registered : forest.contains id = true) : id < forest.nodes.size := by
  obtain ⟨node, found⟩ := contains_iff.mp registered
  obtain ⟨inside, _⟩ := Array.getElem?_eq_some_iff.mp (Option.join_eq_some_iff.mp found)
  exact inside

theorem node?_push (forest : Forest) (node : RuleNode) (active : Nat) (id : RuleId) :
    (Forest.mk (forest.nodes.push (some node)) active).node? id =
      if id = forest.nodes.size then some node else forest.node? id := by
  unfold node?
  dsimp only
  rw [Array.getElem?_push]
  split <;> rfl

theorem node?_add (rule : Rule) (parent : Option RuleId) (forest : Forest) :
    (forest.add rule parent).2.node? (forest.add rule parent).1 =
      some ⟨rule, parent, [], [], true⟩ := by
  unfold add
  cases parent with
  | none => rw [node?_push, if_pos rfl]
  | some parent =>
    rw [node?_push, if_pos]
    exact (Array.size_modify ..).symm

/-- A registered rule is defined where it stands. -/
theorem define_eq {constraints : List Cardinality} (found : forest.node? id = some node)
    (defined : node.rule.define table id = .ok constraints) :
    forest.define table id =
      .ok (forest.modify id fun node => { node with constraints, stale := false }) := by
  unfold define
  rw [found]
  dsimp only
  rw [defined]
  rfl

/-- A rule that was just added is always defined. -/
theorem define_added (table : ChoiceTable) (rule : Rule) (parent : Option RuleId)
    (forest : Forest) : ∃ constraints,
    (forest.add rule parent).2.define table (forest.add rule parent).1 =
      .ok ((forest.add rule parent).2.modify (forest.add rule parent).1 fun node =>
        { node with constraints, stale := false }) := by
  have found := node?_add rule parent forest
  obtain ⟨constraints, defined⟩ := Rule.define_ok table (forest.add rule parent).1 rule
  exact ⟨constraints, define_eq found defined⟩

theorem mem_staleRules :
    id ∈ forest.staleRules ↔ ∃ node, forest.node? id = some node ∧ node.stale = true := by
  unfold staleRules
  rw [List.mem_map]
  constructor
  · rintro ⟨⟨id, node⟩, inside, rfl⟩
    obtain ⟨member, stale⟩ := List.mem_filter.mp inside
    exact ⟨node, mem_toList_iff.mp member, stale⟩
  · rintro ⟨node, found, stale⟩
    exact ⟨(id, node), List.mem_filter.mpr ⟨mem_toList_iff.mpr found, stale⟩, rfl⟩

/-- Some rules are defined by a table, and the others are as they were. -/
structure Refreshed (table : ChoiceTable) (ids : List RuleId) (old new : Forest) : Prop where
  defined : ∀ id ∈ ids, ∀ node, old.node? id = some node → ∃ constraints,
    node.rule.define table id = .ok constraints ∧
      new.node? id = some { node with constraints, stale := false }
  others : ∀ id, id ∉ ids → new.node? id = old.node? id

theorem Refreshed.cons {first : RuleId} {rest : List RuleId} {constraints : List Cardinality}
    (found : forest.node? first = some node)
    (defined : node.rule.define table first = .ok constraints)
    (refreshed : Refreshed table rest
      (forest.modify first fun node => { node with constraints, stale := false }) new) :
    Refreshed table (first :: rest) forest new := by
  have kept : ∀ id, (forest.modify first fun node =>
      { node with constraints, stale := false }).node? id =
        if first = id then some { node with constraints, stale := false }
        else forest.node? id := by
    intro id
    rw [node?_modify]
    by_cases same : first = id
    · rw [if_pos same, if_pos same, ← same, found]
      rfl
    · rw [if_neg same, if_neg same]
  constructor
  · intro id inside other found'
    by_cases later : id ∈ rest
    · have known := kept id
      by_cases same : first = id
      · subst same
        cases found.symm.trans found'
        rw [if_pos rfl] at known
        exact refreshed.defined first later { node with constraints, stale := false } known
      · rw [if_neg same, found'] at known
        exact refreshed.defined id later other known
    · obtain rfl | listed := List.mem_cons.mp inside
      · cases found.symm.trans found'
        refine ⟨constraints, defined, ?_⟩
        rw [refreshed.others id later, kept, if_pos rfl]
      · exact absurd listed later
  · intro id outside
    obtain ⟨different, later⟩ := not_or.mp (fun either => outside (List.mem_cons.mpr either))
    rw [refreshed.others id later, kept, if_neg (Ne.symm different)]

/-- **Just the stale rules are defined anew.** -/
structure Redefined (table : ChoiceTable) (old new : Forest) : Prop where
  stale : ∀ id node, old.node? id = some node → node.stale = true → ∃ constraints,
    node.rule.define table id = .ok constraints ∧
      new.node? id = some { node with constraints, stale := false }
  fresh : ∀ id node, old.node? id = some node → node.stale = false → new.node? id = some node
  absent : ∀ id, old.node? id = none → new.node? id = none

theorem Refreshed.redefined (refreshed : Refreshed table old.staleRules old new) :
    Redefined table old new where
  stale id node found stale :=
    refreshed.defined id (mem_staleRules.mpr ⟨node, found, stale⟩) node found
  fresh id node found fresh := by
    rw [refreshed.others id, found]
    rintro inside
    obtain ⟨other, found', stale⟩ := mem_staleRules.mp inside
    cases found.symm.trans found'
    rw [fresh] at stale
    cases stale
  absent id absent := by
    rw [refreshed.others id, absent]
    rintro inside
    obtain ⟨other, found', _⟩ := mem_staleRules.mp inside
    cases absent.symm.trans found'

/-- Where no rule is stale there is nothing to define. -/
theorem redefined_self (fresh : ∀ id node, forest.node? id = some node → node.stale = false) :
    Redefined table forest forest where
  stale id node found stale := by
    rw [fresh id node found] at stale
    cases stale
  fresh _ _ found _ := found
  absent _ absent := absent

/-- What a rule was before. -/
theorem Redefined.before (redefined : Redefined table old new)
    (found : new.node? id = some node) :
    ∃ before, old.node? id = some before ∧ node.rule = before.rule ∧ node.stale = false ∧
      (before.stale = true → before.rule.define table id = .ok node.constraints) ∧
      (before.stale = false → node = before) := by
  cases given : old.node? id with
  | none =>
    rw [redefined.absent id given] at found
    cases found
  | some before =>
    refine ⟨before, rfl, ?_⟩
    cases stale : before.stale with
    | true =>
      obtain ⟨constraints, defined, kept⟩ := redefined.stale id before given stale
      rw [kept] at found
      cases found
      exact ⟨rfl, rfl, fun _ => defined, nofun⟩
    | false =>
      rw [redefined.fresh id before given stale] at found
      cases found
      exact ⟨rfl, stale, nofun, fun _ => rfl⟩

/-- Afterwards no rule is stale. -/
theorem Redefined.settled (redefined : Redefined table old new)
    (found : new.node? id = some node) : node.stale = false := by
  obtain ⟨_, _, _, fresh, _⟩ := redefined.before found
  exact fresh

/-- The rules stay what they are. -/
theorem Redefined.rule?_eq (redefined : Redefined table old new) (id : RuleId) :
    new.rule? id = old.rule? id := by
  unfold rule?
  cases given : old.node? id with
  | none => rw [redefined.absent id given]
  | some before =>
    cases stale : before.stale with
    | true =>
      obtain ⟨constraints, _, kept⟩ := redefined.stale id before given stale
      rw [kept]
      rfl
    | false => rw [redefined.fresh id before given stale]

end Forest

namespace Engine

variable {engine : Engine}

/-- Registered rules are defined without an error. -/
theorem redefineRules_spec (ids : List RuleId) (engine : Engine)
    (registered : ∀ id ∈ ids, engine.forest.contains id = true) :
    ∃ forest, redefineRules ids engine = (.ok (), { engine with forest }) ∧
      Forest.Refreshed engine.choices ids engine.forest forest := by
  induction ids generalizing engine with
  | nil => exact ⟨engine.forest, rfl, nofun, fun _ _ => rfl⟩
  | cons id rest ih =>
    obtain ⟨node, found⟩ := Forest.contains_iff.mp (registered id List.mem_cons_self)
    obtain ⟨constraints, defined⟩ := Rule.define_ok engine.choices id node.rule
    have made := Forest.define_eq found defined
    obtain ⟨forest, redefined, refreshed⟩ := ih { engine with
      forest := engine.forest.modify id fun node => { node with constraints, stale := false } }
      fun other inside => by
        obtain ⟨node', found'⟩ :=
          Forest.contains_iff.mp (registered other (List.mem_cons_of_mem _ inside))
        refine Forest.contains_iff.mpr ?_
        dsimp only
        rw [Forest.node?_modify, found']
        split <;> exact ⟨_, rfl⟩
    refine ⟨forest, ?_, refreshed.cons found defined⟩
    unfold redefineRules
    rw [made]
    exact redefined

/-- **The stale rules of an engine are defined anew without an error.** -/
theorem redefine_spec (engine : Engine) :
    ∃ forest, engine.redefine = (.ok (), { engine with forest }) ∧
      Forest.Redefined engine.choices engine.forest forest := by
  obtain ⟨forest, redefined, refreshed⟩ := redefineRules_spec engine.forest.staleRules engine
    fun id inside => by
      obtain ⟨node, found, _⟩ := Forest.mem_staleRules.mp inside
      exact Forest.contains_iff.mpr ⟨node, found⟩
  exact ⟨forest, redefined, refreshed.redefined⟩

/-- **What the question whether the rules can hold together comes to.** -/
inductive Inquiry (engine : Engine) : Outcome Bool → Prop
  | poisoned : engine.signal.isPoisoned = true → Inquiry engine (.error .cancelled, engine)
  /-- A solution is being searched for, or was given. -/
  | closed : engine.signal.isPoisoned = false → engine.step = .optimizing ∨ engine.step = .done →
    Inquiry engine (.error (.invalidState .hasSolution engine.step), engine)
  /-- The engine is ready, so they can. -/
  | ready : engine.signal.isPoisoned = false → engine.step = .ready →
    Inquiry engine (.ok true, engine)
  /-- Nothing has changed since a conflict was found. -/
  | remembered : engine.signal.isPoisoned = false → engine.Editable → engine.changed = false →
    engine.lastCore.isSome = true → Inquiry engine (.ok false, engine)
  /-- The stale rules are defined anew, and then all rules are checked. -/
  | checked (forest : Forest) : engine.signal.isPoisoned = false → engine.Editable →
    (engine.lastCore.isSome = true → engine.changed = true) →
    engine.redefine = (.ok (), { engine with forest }) →
    Forest.Redefined engine.choices engine.forest forest →
    Inquiry engine { engine with forest }.checkRules

theorem inquiry_hasSolution (engine : Engine) : Inquiry engine engine.hasSolution := by
  cases poisoned : engine.signal.isPoisoned with
  | true =>
    rw [hasSolution_of_poisoned poisoned]
    exact .poisoned poisoned
  | false =>
    by_cases editable : engine.Editable
    · obtain ⟨forest, done, redefined⟩ := redefine_spec engine
      rw [hasSolution_of_editable poisoned editable done]
      split
      · next known =>
        obtain ⟨unchanged, held⟩ := Bool.and_eq_true_iff.mp known
        rw [Bool.not_eq_true'] at unchanged
        exact .remembered poisoned editable unchanged held
      · next unknown =>
        refine .checked forest poisoned editable (fun held => ?_) done redefined
        rw [held, Bool.and_true, Bool.not_eq_true', Bool.not_eq_false] at unknown
        exact unknown
    · unfold hasSolution
      rw [poisoned, if_neg Bool.false_ne_true]
      split
      · next step => exact .ready poisoned step
      · next step => exact step ▸ .closed poisoned (.inl step)
      · next step => exact step ▸ .closed poisoned (.inr step)
      · next unready unsearched unfinished =>
        refine absurd ?_ editable
        cases step : engine.step with
        | defining => exact .inl step
        | failed => exact .inr step
        | ready => exact absurd step unready
        | optimizing => exact absurd step unsearched
        | done => exact absurd step unfinished

end Engine

end Loadout
