/-
**The engine while a request is registered.**

Nothing but choices and rules changes then, so the engine is a *draft*: a table and a forest
(`Engine.draft`). Actions on drafts succeed (`Engine.Gives`), and are composed by `Gives.bind`.

* `addChoice_draft`: a branch is added, and the rules stay as they are;
* **`addRule_draft`**: a rule is added without an error, the rules that were there are kept, and
  what the forest says besides (`Forest.SatisfiedFrom`) is what the rule says.
-/

import Loadout.Proofs.Engine.Rosters
import Loadout.Proofs.Resolver.Tables
import Loadout.Proofs.Engine.Redefinition
import Loadout.Resolver.Rules

namespace Loadout

namespace Engine

variable {α β : Type} {engine middle after : Engine}

/-! ### Actions that succeed -/

/-- An action succeeds with a result. -/
def Gives (action : Action α) (engine : Engine) (result : α) (after : Engine) : Prop :=
  action engine = (.ok result, after)

theorem gives_pure (result : α) (engine : Engine) : Gives (pure result) engine result engine := rfl

theorem Gives.bind {action : Action α} {next : α → Action β} {result : α} {final : β}
    (one : Gives action engine result middle) (two : Gives (next result) middle final after) :
    Gives (action >>= next) engine final after := by
  show StateT.bind (m := Id) action (ExceptT.bindCont next) engine = _
  unfold StateT.bind
  show ExceptT.bindCont next (action engine).1 (action engine).2 = _
  rw [one]
  exact two

theorem Gives.map {action : Action α} {result : α} (one : Gives action engine result after)
    (change : α → β) : Gives (change <$> action) engine (change result) after :=
  one.bind (gives_pure _ _)

theorem gives_get (engine : Engine) : Gives (get : Action Engine) engine engine engine := rfl

/-! ### Drafts -/

/-- The engine with some choices and rules before the first check. -/
def draft (config : Config) (choices : ChoiceTable) (forest : Forest) : Engine :=
  { create config .clear with choices, forest }

end Engine

namespace Forest

variable {table : ChoiceTable} {forest : Forest}

theorem react_same {change : Rule → Bool × Rule} (same : ∀ rule, change rule = (false, rule))
    (forest : Forest) : forest.react change = forest := by
  unfold react
  obtain ⟨nodes⟩ := forest
  congr 1
  refine Array.map_id'' ?_ nodes
  intro slot
  cases slot with
  | none => rfl
  | some node => simp [same]

/-! ### What a forest has stored -/

/-- The constraints of a registered rule, and whether they are out of date. -/
def stored (forest : Forest) (id : RuleId) : Option (List Cardinality × Bool) :=
  (forest.node? id).map fun node => (node.constraints, node.stale)

theorem contains_eq (forest : Forest) (id : RuleId) :
    forest.contains id = (forest.stored id).isSome := by
  unfold contains stored
  rw [Option.isSome_map]

/-- Values satisfy the rules that were added from a number on. -/
def SatisfiedFrom (forest : Forest) (start : RuleId) (value : ChoiceId → Bool) : Prop :=
  ∀ id constraints stale, start ≤ id → forest.stored id = some (constraints, stale) →
    ∀ cardinality ∈ constraints, cardinality.holds value = true

theorem satisfiedFrom_zero {value : ChoiceId → Bool} :
    forest.SatisfiedFrom 0 value ↔ forest.SatisfiedBy value := by
  constructor
  · intro satisfied id node found
    exact satisfied id node.constraints node.stale (Nat.zero_le id)
      (by unfold stored; rw [found]; rfl)
  · intro satisfied id constraints stale _ found
    obtain ⟨node, found', equal⟩ := Option.map_eq_some_iff.mp found
    cases equal
    exact satisfied id node found'

theorem stored_of_le {id : RuleId} (beyond : forest.nodes.size ≤ id) :
    forest.stored id = none := by
  unfold stored node?
  rw [Array.getElem?_eq_none beyond]
  rfl

/-- Before a rule is added, there is nothing to satisfy from its number on. -/
theorem satisfiedFrom_size (forest : Forest) (value : ChoiceId → Bool) :
    forest.SatisfiedFrom forest.nodes.size value := by
  intro id constraints stale beyond found
  rw [stored_of_le beyond] at found
  cases found

/-- Where rules are kept, what there is to satisfy is what there was and what is new. -/
theorem satisfiedFrom_split {later : Forest} {start : RuleId} (within : start ≤ forest.nodes.size)
    (kept : ∀ id, id < forest.nodes.size → later.stored id = forest.stored id)
    {value : ChoiceId → Bool} :
    later.SatisfiedFrom start value ↔
      forest.SatisfiedFrom start value ∧ later.SatisfiedFrom forest.nodes.size value := by
  constructor
  · refine fun satisfied => ⟨fun id constraints stale beyond found => ?_, fun id _ _ beyond => ?_⟩
    · refine satisfied id constraints stale beyond ?_
      rw [kept id, found]
      refine Nat.lt_of_not_le fun after => ?_
      rw [stored_of_le after] at found
      cases found
    · exact satisfied id _ _ (within.trans beyond)
  · rintro ⟨before, after⟩ id constraints stale beyond found
    rcases Nat.lt_or_ge id forest.nodes.size with inside | further
    · exact before id constraints stale beyond (by rw [← kept id inside, found])
    · exact after id constraints stale further found

/-- A rule that is added has nothing stored yet, and the others are left as they are. -/
theorem stored_add (rule : Rule) (parent : Option RuleId) (forest : Forest) (id : RuleId) :
    (forest.add rule parent).2.stored id =
      if id = forest.nodes.size then some ([], true) else forest.stored id := by
  unfold add stored
  cases parent with
  | none =>
    dsimp only
    rw [node?_push]
    split <;> rfl
  | some parent =>
    dsimp only
    rw [node?_push]
    have size : (forest.modify parent fun node =>
        { node with children := node.children ++ [forest.nodes.size] }).nodes.size =
        forest.nodes.size := Array.size_modify ..
    rw [size, node?_modify]
    split
    · rfl
    · split
      · rw [Option.map_map]
        rfl
      · rfl

/-- A rule that is defined has its constraints stored. -/
theorem define_ok {node : RuleNode} {id : RuleId} {constraints : List Cardinality}
    (found : forest.node? id = some node)
    (defined : node.rule.define table id = .ok constraints) :
    ∃ forest', forest.define table id = .ok forest' ∧ ∀ other, forest'.stored other =
        if other = id then some (constraints, false) else forest.stored other := by
  refine ⟨_, define_eq found defined, fun other => ?_⟩
  unfold stored
  rw [node?_modify]
  by_cases same : id = other
  · subst same
    rw [if_pos rfl, if_pos rfl, found]
    rfl
  · rw [if_neg same, if_neg (Ne.symm same)]

/-! ### Tidy forests -/

/-- The rules that were added from a number on are defined, by constraints on registered roots. -/
def Tidy (table : ChoiceTable) (start : RuleId) (forest : Forest) : Prop :=
  ∀ id constraints stale, start ≤ id → forest.stored id = some (constraints, stale) →
    stale = false ∧ ∀ cardinality ∈ constraints, cardinality.Rooted table

/-- Before a rule is added, there is nothing to tidy from its number on. -/
theorem tidy_size (table : ChoiceTable) (forest : Forest) :
    forest.Tidy table forest.nodes.size := by
  intro id constraints stale beyond found
  rw [stored_of_le beyond] at found
  cases found

variable {start : RuleId}

/-- Branches leave a forest tidy. -/
theorem Tidy.later {later : ChoiceTable} (tidy : forest.Tidy table start)
    (extends' : table.Extends later) : forest.Tidy later start := by
  intro id constraints stale beyond found
  obtain ⟨fresh, rooted⟩ := tidy id constraints stale beyond found
  exact ⟨fresh, fun cardinality inside handle member =>
    extends'.isRoot (rooted cardinality inside handle member)⟩

/-- A tidy forest is about the choices of its table alone. -/
theorem Tidy.satisfied_congr (tidy : forest.Tidy table start) {value other : ChoiceId → Bool}
    (agree : ChoiceTable.AgreeBelow table.entries.size value other)
    (satisfied : forest.SatisfiedFrom start value) : forest.SatisfiedFrom start other := by
  intro id constraints stale beyond found cardinality inside
  have rooted := (tidy id constraints stale beyond found).2 cardinality inside
  rw [← satisfied id constraints stale beyond found cardinality inside]
  refine Cardinality.holds_congr fun handle member => (agree _ ?_).symm
  exact ChoiceTable.lt_of_contains (ChoiceTable.isRoot_iff.mp (rooted handle member)).1

/-- Where rules are kept, those that are new are tidy besides those that were. -/
theorem Tidy.join {forest' : Forest} (tidy : forest.Tidy table start)
    (kept : ∀ id, id < forest.nodes.size → forest'.stored id = forest.stored id)
    (new : forest'.Tidy table forest.nodes.size) : forest'.Tidy table start := by
  intro id constraints stale beyond found
  rcases Nat.lt_or_ge id forest.nodes.size with inside | further
  · exact tidy id constraints stale beyond (by rw [← kept id inside, found])
  · exact new id constraints stale further found

/-! ### Adding rules -/

/-- A forest has one more rule, with constraints of its own. -/
def Adds (forest forest' : Forest) (constraints : List Cardinality) : Prop :=
  ∀ id, forest'.stored id =
    if id = forest.nodes.size then some (constraints, false) else forest.stored id

variable {forest' : Forest} {constraints : List Cardinality}

theorem Adds.tidy (adds : Adds forest forest' constraints)
    (rooted : ∀ cardinality ∈ constraints, cardinality.Rooted table) :
    forest'.Tidy table forest.nodes.size := by
  intro id stored stale beyond found
  rw [adds] at found
  split at found
  · cases found
    exact ⟨rfl, rooted⟩
  · rw [stored_of_le beyond] at found
    cases found

theorem Adds.contains (adds : Adds forest forest' constraints) :
    forest'.contains forest.nodes.size = true := by
  rw [contains_eq, adds, if_pos rfl]
  rfl

theorem Adds.kept (adds : Adds forest forest' constraints) {id : RuleId}
    (inside : id < forest.nodes.size) : forest'.stored id = forest.stored id := by
  rw [adds, if_neg (Nat.ne_of_lt inside)]

/-- **The forest says besides what the rule does.** -/
theorem Adds.satisfied_iff (adds : Adds forest forest' constraints) {value : ChoiceId → Bool} :
    forest'.SatisfiedFrom forest.nodes.size value ↔
      ∀ cardinality ∈ constraints, cardinality.holds value = true := by
  constructor
  · intro satisfied
    exact satisfied forest.nodes.size constraints false (Nat.le_refl _) (by rw [adds, if_pos rfl])
  · intro holds id stored stale beyond found
    rw [adds] at found
    split at found
    · cases found
      exact holds
    · rw [stored_of_le beyond] at found
      cases found

/-- A rule that is added is defined by what it says. -/
theorem exists_adds (acyclic : table.Acyclic) (rule : Rule) (parent : Option RuleId)
    (forest : Forest) :
    ∃ forest' constraints,
      (forest.add rule parent).2.define table forest.nodes.size = .ok forest' ∧
      Adds forest forest' constraints ∧
      (∀ cardinality ∈ constraints, cardinality.Rooted table) ∧
      ∀ value, (∀ cardinality ∈ constraints, cardinality.holds value = true) ↔
        rule.Says table value := by
  obtain ⟨constraints, defined, rooted, meaning⟩ :=
    Rule.define_spec acyclic forest.nodes.size rule
  have found : (forest.add rule parent).2.node? forest.nodes.size =
    some ⟨rule, parent, [], [], true⟩ := node?_add rule parent forest
  obtain ⟨forest', made, stored'⟩ := define_ok found defined
  refine ⟨forest', constraints, made, fun id => ?_, rooted, meaning⟩
  rw [stored', stored_add]
  split <;> rfl

end Forest

namespace Engine

variable {table : ChoiceTable} {forest : Forest}

/-- A branch is added, and no rule takes note of it. -/
theorem addChoice_draft (config : Config) (table : ChoiceTable) (forest : Forest)
    (label : String) (weight : Int) :
    (draft config table forest).addChoice (.branch label) weight =
      (.ok table.entries.size, draft config (table.add (.branch label) weight).2 forest) := by
  have same : forest.react
      (Rule.choiceAdded (table.add (.branch label) weight).2 table.entries.size) = forest := by
    refine Forest.react_same (fun rule => ?_) forest
    have branch : (table.add (.branch label) weight).2.choice? table.entries.size =
        some (.branch label) := by
      unfold ChoiceTable.choice? ChoiceTable.registered? ChoiceTable.add
      dsimp only
      rw [Array.getElem?_push_size]
      rfl
    have modId : (table.add (.branch label) weight).2.modId? table.entries.size = none := by
      unfold ChoiceTable.modId?
      rw [branch]
      rfl
    cases rule <;> simp [Rule.choiceAdded, Link.accepts?, modId, branch, Choice.modId?]
  exact congrArg (fun forest => ((.ok table.entries.size,
    draft config (table.add (.branch label) weight).2 forest) : Outcome ChoiceId)) same

/-- A rule below a registered one is added when it can be defined. -/
theorem addRule_eq (config : Config) {forest' : Forest} {rule : Rule} {parent : Option RuleId}
    (known : ∀ id, parent = some id → forest.contains id = true)
    (made : (forest.add (acquaint table rule) parent).2.define table forest.nodes.size =
      .ok forest') :
    (draft config table forest).addRule rule parent =
      (.ok forest.nodes.size, draft config table forest') := by
  have free : parent.filter
      (fun parent => !(draft config table forest).forest.contains parent) = none := by
    cases parent with
    | none => rfl
    | some parent =>
      have present : (draft config table forest).forest.contains parent = true := known parent rfl
      rw [Option.filter_some, present]
      rfl
  have made' : ((draft config table forest).forest.add
      (acquaint (draft config table forest).choices rule) parent).2.define
      (draft config table forest).choices
      ((draft config table forest).forest.add
        (acquaint (draft config table forest).choices rule) parent).1 = .ok forest' := made
  have open' : (draft config table forest).editFault? .addRule = none := rfl
  unfold addRule
  rw [open']
  dsimp only
  rw [free]
  dsimp only
  rw [made']
  rfl

/-- **A rule is added without an error**, and what is new in the forest is what it says. -/
theorem addRule_draft (config : Config) (acyclic : table.Acyclic) (rule : Rule)
    (parent : Option RuleId)
    (known : ∀ id, parent = some id → forest.contains id = true) :
    ∃ forest', (draft config table forest).addRule rule parent =
        (.ok forest.nodes.size, draft config table forest') ∧
      forest'.Tidy table forest.nodes.size ∧ forest'.contains forest.nodes.size = true ∧
      (∀ other, other < forest.nodes.size → forest'.stored other = forest.stored other) ∧
      ∀ value, forest'.SatisfiedFrom forest.nodes.size value ↔
        (acquaint table rule).Says table value := by
  obtain ⟨forest', constraints, made, adds, rooted, meaning⟩ :=
    Forest.exists_adds acyclic (acquaint table rule) parent forest
  refine ⟨forest', addRule_eq config known made, adds.tidy rooted, adds.contains,
    fun other inside => adds.kept inside, fun value => ?_⟩
  rw [adds.satisfied_iff, meaning]

end Engine

end Loadout
