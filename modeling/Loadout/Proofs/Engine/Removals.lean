/-
**Which removals the rules take note of.**

A removed choice is false in every rule that is defined after the removal. A rule is defined anew
when it names the choice; but it may also read the choice by the name of an alias, and then it
keeps a constraint on a choice that is gone (`Forest.Overlooks`). As long as no removal is
overlooked, what is stored for a rule is what its definition gives (`Forest.UpToDate`):

* `UpToDate.addChoice`, `UpToDate.removeChoice` and so on: each change of choices and rules keeps it
  so;
* `hasSolution_defined`: then no rule is at fault when the engine is asked whether its rules can
  hold together;
* `fault_of_overlooked`: otherwise some rule is;
* **`careful_defined`**: careful use never leads to a fault, rules say what they mean with the
  removed choices false, and a removal leads to a fault just when it is overlooked.
-/

import Loadout.Proofs.Engine.Calls
import Loadout.Proofs.Engine.Changes

namespace Loadout

namespace Forest

variable {table later : ChoiceTable} {forest new : Forest} {id : ChoiceId}

/-! ### Rules that are up to date -/

/-- **What is stored for a rule is what its definition gives**, unless the rule is stale; and rules
name no choices that are still to come. -/
structure UpToDate (table : ChoiceTable) (forest : Forest) : Prop where
  ordered : table.Ordered
  named : ∀ rule node, forest.node? rule = some node →
    ∀ name ∈ node.rule.names, name < table.entries.size
  current : ∀ rule node, forest.node? rule = some node → node.stale = false →
    node.rule.define table rule = .ok node.constraints

/-- **Some rule overlooks the removal of a choice**: it does not name the choice, but reads an alias
of it. -/
def Overlooks (table : ChoiceTable) (forest : Forest) (id : ChoiceId) : Prop :=
  ∃ rule node, forest.node? rule = some node ∧ node.stale = false ∧ id ∉ node.rule.names ∧
    ∃ read ∈ node.rule.reads, table.root read = id

theorem overlooks_iff : Overlooks table forest id ↔ ∃ entry ∈ forest.toList,
    entry.2.stale = false ∧ id ∉ entry.2.rule.names ∧
      ∃ read ∈ entry.2.rule.reads, table.root read = id := by
  constructor
  · rintro ⟨rule, node, found, overlooks⟩
    exact ⟨(rule, node), mem_toList_iff.mpr found, overlooks⟩
  · rintro ⟨⟨rule, node⟩, listed, overlooks⟩
    exact ⟨rule, node, mem_toList_iff.mp listed, overlooks⟩

instance (table : ChoiceTable) (forest : Forest) (id : ChoiceId) :
    Decidable (Overlooks table forest id) :=
  decidable_of_iff _ overlooks_iff.symm

theorem node?_react (change : Rule → Bool × Rule) (forest : Forest) (rule : RuleId) :
    (forest.react change).node? rule = (forest.node? rule).map fun node =>
      { node with rule := (change node.rule).2, stale := node.stale || (change node.rule).1 } := by
  unfold node? react
  dsimp only
  rw [Array.getElem?_map]
  cases forest.nodes[rule]? with
  | none => rfl
  | some slot => cases slot <;> rfl

/-- Rules stay up to date where everything they name looks alike. -/
theorem UpToDate.of_alike (upToDate : UpToDate table forest) (ordered : later.Ordered)
    (size : table.entries.size ≤ later.entries.size)
    (alike : ∀ id, id < table.entries.size → ChoiceTable.Alike table later id) :
    UpToDate later forest where
  ordered := ordered
  named rule node found name inside := (upToDate.named rule node found name inside).trans_le size
  current rule node found fresh := by
    rw [Rule.define_congr upToDate.ordered.acyclic ordered.acyclic rule fun read inside =>
      alike read (upToDate.named rule node found read (node.rule.reads_subset_names inside))]
    exact upToDate.current rule node found fresh

theorem UpToDate.setWeight (upToDate : UpToDate table forest) {weight : Int}
    (changed : table.setWeight id weight = some later) : UpToDate later forest := by
  have changed' : table.change id (fun entry => { entry with weight }) = some later := changed
  refine upToDate.of_alike (upToDate.ordered.change changed' (fun _ => rfl))
    (Nat.le_of_eq (ChoiceTable.size_change changed').symm) fun other _ => ?_
  exact upToDate.ordered.alike_change changed' (fun _ => rfl)
    (ChoiceTable.contains_setWeight changed _)

/-- **A new choice is taken note of** by the rules that it concerns, and the others stay up to
date. -/
theorem UpToDate.addChoice (upToDate : UpToDate table forest) {choice : Choice}
    (known : ∀ target, choice.target? = some target → target < table.entries.size)
    (weight : Int) :
    UpToDate (table.add choice weight).2
      (forest.react (Rule.choiceAdded (table.add choice weight).2 table.entries.size)) := by
  have grown : (table.add choice weight).2.entries.size = table.entries.size + 1 :=
    Array.size_push _
  have before := upToDate.of_alike (upToDate.ordered.add known weight)
    (grown ▸ Nat.le_succ table.entries.size) fun id inside =>
      upToDate.ordered.alike_add choice weight inside
  refine ⟨before.ordered, fun rule node found => ?_, fun rule node found fresh => ?_⟩
  · rw [node?_react] at found
    obtain ⟨old, there, rfl⟩ := Option.map_eq_some_iff.mp found
    rcases Rule.noted_choiceAdded (table.add choice weight).2 table.entries.size old.rule with
      same | ⟨_, names⟩
    · rw [same]
      exact before.named rule old there
    · intro name inside
      rcases names name inside with rfl | old'
      · exact grown ▸ Nat.lt_succ_self _
      · exact before.named rule old there name old'
  · rw [node?_react] at found
    obtain ⟨old, there, rfl⟩ := Option.map_eq_some_iff.mp found
    obtain ⟨fresh', unchanged⟩ := Bool.or_eq_false_iff.mp fresh
    rcases Rule.noted_choiceAdded (table.add choice weight).2 table.entries.size old.rule with
      same | ⟨changed, _⟩
    · rw [same]
      exact before.current rule old there fresh'
    · rw [changed] at unchanged
      cases unchanged

/-- **A removal that no rule overlooks** leaves the rules up to date that do not name the choice. -/
theorem UpToDate.removeChoice (upToDate : UpToDate table forest)
    (removed : table.remove id = some later) (noticed : ¬Overlooks table forest id) :
    UpToDate later (forest.react (Rule.choiceRemoved id)) := by
  have changed : table.change id (fun entry => { entry with registered := false }) = some later :=
    removed
  have ordered := upToDate.ordered.change changed (fun _ => rfl)
  refine ⟨ordered, fun rule node found => ?_, fun rule node found fresh => ?_⟩
  · rw [node?_react] at found
    obtain ⟨old, there, rfl⟩ := Option.map_eq_some_iff.mp found
    intro name inside
    rw [ChoiceTable.size_change changed]
    exact upToDate.named rule old there name (Rule.names_choiceRemoved old.rule id inside)
  · rw [node?_react] at found
    obtain ⟨old, there, rfl⟩ := Option.map_eq_some_iff.mp found
    obtain ⟨fresh', unnoted⟩ := Bool.or_eq_false_iff.mp fresh
    have unnamed : id ∉ old.rule.names := fun named => by
      rw [Rule.choiceRemoved_fst.mpr named] at unnoted
      cases unnoted
    rw [Rule.choiceRemoved_of_unnamed unnamed]
    dsimp only
    rw [Rule.define_congr upToDate.ordered.acyclic ordered.acyclic rule fun read inside => ?_]
    · exact upToDate.current rule old there fresh'
    · refine upToDate.ordered.alike_change changed (fun _ => rfl) ?_
      have different : table.root read ≠ id := fun same =>
        noticed ⟨rule, old, there, fresh', unnamed, read, inside, same⟩
      rw [ChoiceTable.contains_remove removed, bne_iff_ne.mpr different, Bool.and_true]

/-- Fewer rules are up to date as well. -/
theorem UpToDate.under (upToDate : UpToDate table forest) (under : Under forest new) :
    UpToDate table new := by
  refine ⟨upToDate.ordered, fun rule node found => ?_, fun rule node found fresh => ?_⟩
  · obtain ⟨above, there, same⟩ := under rule node found
    rw [same.rule]
    exact upToDate.named rule above there
  · obtain ⟨above, there, same⟩ := under rule node found
    rw [same.rule, same.constraints]
    exact upToDate.current rule above there (same.stale ▸ fresh)

/-- A rule that is added is stale, and the others stay as they are. -/
theorem node?_add_cases {rule : Rule} {parent : Option RuleId} {other : RuleId} {node : RuleNode}
    (found : (forest.add rule parent).2.node? other = some node) :
    node.rule = rule ∧ node.stale = true ∨
      ∃ above, forest.node? other = some above ∧ SameRule above node := by
  unfold add at found
  cases parent with
  | none =>
    dsimp only at found
    rw [node?_push] at found
    split at found
    · cases found
      exact .inl ⟨rfl, rfl⟩
    · exact .inr ⟨node, found, .refl node⟩
  | some parent =>
    dsimp only at found
    rw [node?_push] at found
    split at found
    · cases found
      exact .inl ⟨rfl, rfl⟩
    · exact .inr (under_modify parent (fun node =>
        { node with children := node.children ++ [forest.nodes.size] })
        (fun _ => ⟨rfl, rfl, rfl⟩) forest other node found)

theorem UpToDate.add (upToDate : UpToDate table forest) {rule : Rule}
    (named : ∀ name ∈ rule.names, name < table.entries.size) (parent : Option RuleId) :
    UpToDate table (forest.add rule parent).2 := by
  refine ⟨upToDate.ordered, fun other node found => ?_, fun other node found fresh => ?_⟩
  · rcases node?_add_cases found with ⟨same, _⟩ | ⟨above, there, same⟩
    · rw [same]
      exact named
    · rw [same.rule]
      exact upToDate.named other above there
  · rcases node?_add_cases found with ⟨_, stale⟩ | ⟨above, there, same⟩
    · rw [stale] at fresh
      cases fresh
    · rw [same.rule, same.constraints]
      exact upToDate.current other above there (same.stale ▸ fresh)

/-- A rule that is defined is up to date. -/
theorem UpToDate.define (upToDate : UpToDate table forest) {rule : RuleId}
    (defined : forest.define table rule = .ok new) : UpToDate table new := by
  unfold Forest.define at defined
  cases there : forest.node? rule with
  | none =>
    rw [there] at defined
    cases defined
  | some node =>
    rw [there] at defined
    dsimp only at defined
    obtain ⟨constraints, made⟩ := Rule.define_ok table rule node.rule
    rw [made] at defined
    cases defined
    refine ⟨upToDate.ordered, fun other node' found => ?_, fun other node' found fresh => ?_⟩
    · rw [node?_modify] at found
      split at found
      · obtain ⟨old, there', rfl⟩ := Option.map_eq_some_iff.mp found
        exact upToDate.named other old there'
      · exact upToDate.named other node' found
    · rw [node?_modify] at found
      split at found
      · next same =>
        subst same
        rw [there] at found
        cases found
        exact made
      · exact upToDate.current other node' found fresh

/-- Afterwards all rules are up to date. -/
theorem UpToDate.redefined (upToDate : UpToDate table forest)
    (redefined : Redefined table forest new) : UpToDate table new := by
  refine ⟨upToDate.ordered, fun rule node found => ?_, fun rule node found _ => ?_⟩
  · obtain ⟨before, there, same, _⟩ := redefined.before found
    rw [same]
    exact upToDate.named rule before there
  · obtain ⟨before, there, same, _, defined, kept⟩ := redefined.before found
    cases stale : before.stale with
    | true =>
      rw [same]
      exact defined stale
    | false =>
      rw [kept stale]
      exact upToDate.current rule before there stale

/-- **Rules that are up to date are about registered roots, and say what they mean.** -/
theorem UpToDate.meaning (upToDate : UpToDate table forest)
    (fresh : ∀ rule node, forest.node? rule = some node → node.stale = false) :
    RulesRooted table forest.constraints ∧ ∀ value, forest.SatisfiedBy value ↔
      ∀ id rule, forest.rule? id = some rule → rule.Says table value := by
  have each : ∀ id node, forest.node? id = some node →
      (∀ cardinality ∈ node.constraints, cardinality.Rooted table) ∧
        ∀ value, (∀ cardinality ∈ node.constraints, cardinality.holds value = true) ↔
          node.rule.Says table value := by
    intro id node found
    obtain ⟨constraints, defined, rooted, meaning⟩ :=
      Rule.define_spec upToDate.ordered.acyclic id node.rule
    rw [upToDate.current id node found (fresh id node found)] at defined
    cases defined
    exact ⟨rooted, meaning⟩
  refine ⟨fun rule inside => ?_, fun value => ⟨fun satisfied id rule found => ?_,
    fun meant id node found => ?_⟩⟩
  · obtain ⟨node, found, same⟩ := mem_constraints.mp inside
    rw [← same]
    exact (each rule.1 node found).1
  · obtain ⟨node, there, rfl⟩ := Option.map_eq_some_iff.mp found
    exact ((each id node there).2 value).mp (satisfied id node there)
  · exact ((each id node found).2 value).mpr
      (meant id node.rule (Option.map_eq_some_iff.mpr ⟨node, found, rfl⟩))

end Forest

namespace Engine

variable {engine after : Engine}

/-! ### Use of an engine -/

/-- **The engines that changes of choices and rules lead to**, with questions in between: aliases
are of choices that are there, rules name choices that are there, and what is removed is allowed
to be. -/
inductive Edited (allowed : Engine → ChoiceId → Prop) : Engine → Prop
  | create (config : Config) (signal : CancelSignal) : Edited allowed (create config signal)
  | addChoice {engine after : Engine} {id : ChoiceId} (choice : Choice) (weight : Int) :
    Edited allowed engine →
    (∀ target, choice.target? = some target → target < engine.choices.entries.size) →
    engine.addChoice choice weight = (.ok id, after) → Edited allowed after
  | setWeight {engine after : Engine} (id : ChoiceId) (weight : Int) :
    Edited allowed engine → engine.setWeight id weight = (.ok (), after) → Edited allowed after
  | removeChoice {engine after : Engine} (id : ChoiceId) :
    Edited allowed engine → allowed engine id →
    engine.removeChoice id = (.ok (), after) → Edited allowed after
  | addRule {engine after : Engine} {id : RuleId} (rule : Rule) (parent : Option RuleId) :
    Edited allowed engine → (∀ name ∈ rule.names, name < engine.choices.entries.size) →
    engine.addRule rule parent = (.ok id, after) → Edited allowed after
  | removeRule {engine after : Engine} {removed : List RuleId} (id : RuleId) :
    Edited allowed engine → engine.removeRule id = (.ok removed, after) → Edited allowed after
  | hasSolution {engine : Engine} : Edited allowed engine → Edited allowed engine.hasSolution.2

/-- Use in which no rule overlooks a removal. -/
def Careful : Engine → Prop :=
  Edited fun engine id => ¬Forest.Overlooks engine.choices engine.forest id

/-- An engine is in use after a call that comes to something. -/
theorem InUse.of_outcome {α : Type} {outcome : Outcome α} {result : Except SolverError α}
    (inUse : outcome.2.InUse) (done : outcome = (result, after)) : after.InUse := by
  rw [done] at inUse
  exact inUse

/-- Changes that succeed are some of the calls. -/
theorem Edited.inUse {allowed : Engine → ChoiceId → Prop} (edited : Edited allowed engine) :
    engine.InUse := by
  induction edited with
  | create config signal => exact .create config signal
  | addChoice choice weight _ _ done ih =>
    exact InUse.of_outcome (ih.perform (.addChoice choice weight)) done
  | setWeight id weight _ done ih => exact InUse.of_outcome (ih.perform (.setWeight id weight)) done
  | removeChoice id _ _ done ih => exact InUse.of_outcome (ih.perform (.removeChoice id)) done
  | addRule rule parent _ _ done ih =>
    exact InUse.of_outcome (ih.perform (.addRule rule parent)) done
  | removeRule id _ done ih => exact InUse.of_outcome (ih.perform (.removeRule id)) done
  | hasSolution _ ih => exact ih.perform .hasSolution

/-! ### Careful use -/

/-- A rule that has taken note of the registered choices names some of them besides. -/
theorem names_acquaint (table : ChoiceTable) (rule : Rule) :
    ∀ name ∈ (acquaint table rule).names, name ∈ table.ids ∨ name ∈ rule.names := by
  unfold acquaint
  generalize table.ids = ids
  induction ids generalizing rule with
  | nil => exact fun name inside => .inr inside
  | cons id rest ih =>
    intro name inside
    rcases ih (rule.choiceAdded table id).2 name inside with later | here
    · exact .inl (List.mem_cons_of_mem _ later)
    · rcases Rule.noted_choiceAdded table id rule with same | ⟨_, names⟩
      · rw [same] at here
        exact .inr here
      · rcases names name here with rfl | old
        · exact .inl List.mem_cons_self
        · exact .inr old

/-- A question leaves the rules up to date. -/
theorem upToDate_hasSolution (upToDate : Forest.UpToDate engine.choices engine.forest) :
    Forest.UpToDate engine.hasSolution.2.choices engine.hasSolution.2.forest := by
  have inquiry := inquiry_hasSolution engine
  generalize engine.hasSolution = outcome at inquiry
  cases inquiry with
  | checked forest _ _ _ _ redefined =>
    obtain ⟨choices, kept, _⟩ := checkRules_kept { engine with forest }
    rw [choices, kept]
    exact upToDate.redefined redefined
  | _ => exact upToDate

/-- **In careful use the rules are up to date.** -/
theorem Careful.upToDate (careful : engine.Careful) :
    Forest.UpToDate engine.choices engine.forest := by
  induction careful with
  | create config signal =>
    refine ⟨fun id target found => ?_, fun id node found => ?_, fun id node found => ?_⟩
    all_goals cases found
  | addChoice choice weight _ known done ih =>
    obtain ⟨choices, forest⟩ := addChoice_ok done
    rw [choices, forest]
    exact ih.addChoice known weight
  | setWeight id weight _ done ih =>
    obtain ⟨choices, forest⟩ := setWeight_ok done
    rw [forest]
    exact ih.setWeight choices
  | removeChoice id _ noticed done ih =>
    obtain ⟨choices, forest, _⟩ := removeChoice_ok done
    rw [forest]
    exact ih.removeChoice choices noticed
  | @addRule engine after ruleId rule parent _ known done ih =>
    obtain ⟨choices, defined⟩ := addRule_ok done
    rw [choices]
    refine (ih.add (fun name inside => ?_) parent).define defined
    rcases names_acquaint engine.choices rule name inside with listed | named
    · exact ChoiceTable.lt_of_contains (ChoiceTable.mem_ids_iff.mp listed)
    · exact known name named
  | removeRule id _ done ih =>
    obtain ⟨choices, forest⟩ := removeRule_ok done
    rw [choices, forest]
    exact ih.under (Forest.under_remove id _)
  | hasSolution _ ih => exact upToDate_hasSolution ih

/-! ### Faults -/

/-- **A check is at fault just when some constraint is not about registered roots.** -/
theorem checkRules_fault_iff (engine : Engine) :
    (∃ fault, engine.checkRules.1 = .error (.definition fault)) ↔
      ¬RulesRooted engine.choices engine.forest.constraints := by
  have same := same_startClock engine
  have checked := checked_checkRules engine
  generalize engine.startClock = started at same checked
  rw [← same.choices, ← same.forest]
  generalize engine.checkRules = outcome at checked
  cases checked with
  | faulty fault unrooted => exact iff_of_true ⟨fault, rfl⟩ unrooted
  | interrupted dog rooted _ =>
    refine iff_of_false (fun ⟨fault, faulty⟩ => ?_) (not_not.mpr rooted)
    unfold interrupted at faulty
    split at faulty <;> cases faulty
  | feasible dog optimizer rooted _ _ _ => exact iff_of_false nofun (not_not.mpr rooted)
  | infeasible dog core rooted _ _ => exact iff_of_false nofun (not_not.mpr rooted)

/-- **Rules that are up to date are not at fault.** -/
theorem hasSolution_defined (upToDate : Forest.UpToDate engine.choices engine.forest)
    (fault : DefinitionError) : engine.hasSolution.1 ≠ .error (.definition fault) := by
  have inquiry := inquiry_hasSolution engine
  generalize engine.hasSolution = outcome at inquiry
  cases inquiry with
  | poisoned | closed | ready | remembered => exact nofun
  | checked forest _ _ _ _ redefined =>
    intro faulty
    have rooted := ((upToDate.redefined redefined).meaning fun _ _ found =>
      redefined.settled found).1
    exact (checkRules_fault_iff { engine with forest }).mp ⟨fault, faulty⟩ rooted

/-- **A removal that is overlooked leads to a fault.** The rule that reads the choice by an alias
keeps its constraint on it. -/
theorem fault_of_overlooked (upToDate : Forest.UpToDate engine.choices engine.forest)
    {id : ChoiceId} (done : engine.removeChoice id = (.ok (), after))
    (overlooked : Forest.Overlooks engine.choices engine.forest id) :
    ∃ fault, after.hasSolution.1 = .error (.definition fault) := by
  obtain ⟨removed, reacted, free, step, changed⟩ := removeChoice_ok done
  obtain ⟨rule, node, found, fresh, unnamed, read, inside, root⟩ := overlooked
  -- the rule takes no note, so it is neither changed nor stale afterwards
  have kept : after.forest.node? rule = some node := by
    rw [reacted, Forest.node?_react, found, Option.map_some,
      Rule.choiceRemoved_of_unnamed unnamed, Bool.or_false]
  have registered : engine.choices.contains id = true := by
    obtain ⟨entry, there, _⟩ := ChoiceTable.change_eq removed
    exact Option.isSome_iff_exists.mpr ⟨entry, there⟩
  obtain ⟨cardinality, stored, handle, member, same⟩ := (Rule.mentions_iff
    upToDate.ordered.acyclic (upToDate.current rule node found fresh) id).mpr
      ⟨registered, read, inside, root⟩
  have gone : after.choices.contains id = false := by
    rw [ChoiceTable.contains_remove removed, bne_self_eq_false, Bool.and_false]
  have inquiry := inquiry_hasSolution after
  generalize after.hasSolution = outcome at inquiry
  cases inquiry with
  | poisoned stopped => cases stopped.symm.trans free
  | closed _ closed => exact absurd closed (Editable.not_closed step)
  | ready _ ready => exact absurd ready (Editable.not_ready step)
  | remembered _ _ unchanged _ => cases unchanged.symm.trans changed
  | checked forest _ _ _ _ redefined =>
    refine (checkRules_fault_iff { after with forest }).mpr fun rooted => ?_
    have listed : (rule, node.constraints) ∈ forest.constraints :=
      Forest.mem_constraints.mpr ⟨node, redefined.fresh rule node kept fresh, rfl⟩
    have isRoot := rooted _ listed cardinality stored handle member
    rw [same] at isRoot
    rw [(ChoiceTable.isRoot_iff.mp isRoot).1] at gone
    cases gone

/-- **Careful use never leads to a fault.** As long as aliases are of choices that are there, rules
name choices that are there and no rule overlooks a removal, then:

* no rule is at fault when the engine is asked whether its rules can hold together;
* when it answers, values satisfy the constraints of the rules just when the rules say what is true
  of them, removed choices counting as false;
* the next removal leads to a fault just when some rule overlooks it. -/
theorem careful_defined (careful : engine.Careful) :
    (∀ fault, engine.hasSolution.1 ≠ .error (.definition fault)) ∧
    (∀ answer, engine.hasSolution.1 = .ok answer → ∀ value,
      engine.hasSolution.2.forest.SatisfiedBy value ↔
        ∀ id rule, engine.forest.rule? id = some rule → rule.Says engine.choices value) ∧
    ∀ id after, engine.removeChoice id = (.ok (), after) →
      ((∃ fault, after.hasSolution.1 = .error (.definition fault)) ↔
        Forest.Overlooks engine.choices engine.forest id) := by
  have upToDate := careful.upToDate
  refine ⟨hasSolution_defined upToDate, fun answer answered value => ?_, fun id after done =>
    ⟨fun ⟨fault, faulty⟩ => ?_, fault_of_overlooked upToDate done⟩⟩
  · have redefined := (careful.inUse.informed_prepared.1.hasSolution.2 answer answered).forest
    rw [((upToDate.redefined redefined).meaning fun _ _ found => redefined.settled found).2 value]
    exact forall₂_congr fun id rule => by rw [redefined.rule?_eq]
  · by_contra noticed
    have later : after.Careful := .removeChoice id careful noticed done
    exact hasSolution_defined later.upToDate fault faulty

theorem outcome_ok {α : Type} {outcome : Outcome α} {result : α} (done : outcome.1 = .ok result) :
    outcome = (.ok result, outcome.2) := Prod.ext done rfl

/-- A choice that depends on a mod id which another one provides by an alias, and on one of two
choices. -/
def providedEngine : Engine :=
  let engine := create .standard .clear
  let engine := (engine.addChoice (.candidate "provider" "provider-1" default false) 0).2
  let engine := (engine.addChoice (.alias 0 "provided" default) 0).2
  let engine := (engine.addChoice (.candidate "source" "source-1" default false) 0).2
  let engine := (engine.addChoice (.branch "spare") 0).2
  let engine := (engine.addRule (.dependsOnly 2 ⟨"provided", .any, false⟩ none [] []) none).2
  (engine.addRule (.dependsAny 2 [2, 3] none) none).2

/-- Nothing is removed in its history. -/
theorem edited_providedEngine (allowed : Engine → ChoiceId → Prop) :
    Edited allowed providedEngine :=
  .addRule (.dependsAny 2 [2, 3] none) none
    (.addRule (.dependsOnly 2 ⟨"provided", .any, false⟩ none [] []) none
      (.addChoice (.branch "spare") 0
        (.addChoice (.candidate "source" "source-1" default false) 0
          (.addChoice (.alias 0 "provided" default) 0
            (.addChoice (.candidate "provider" "provider-1" default false) 0
              (.create .standard .clear) nofun (outcome_ok rfl))
            (by decide +kernel) (outcome_ok rfl))
          nofun (outcome_ok rfl))
        nofun (outcome_ok rfl))
      (by decide +kernel) (outcome_ok (show _ = Except.ok 0 by decide +kernel)))
    (by decide +kernel) (outcome_ok (show _ = Except.ok 1 by decide +kernel))

/-- The removal of the spare choice is taken note of, and that of the provider is overlooked. -/
theorem careful_defined_of_provided :
    (∀ fault, (providedEngine.removeChoice 3).2.hasSolution.1 ≠ .error (.definition fault)) ∧
    ∃ fault, ((providedEngine.removeChoice 3).2.removeChoice 0).2.hasSolution.1 =
      .error (.definition fault) := by
  have careful : (providedEngine.removeChoice 3).2.Careful :=
    .removeChoice 3 (edited_providedEngine _) (by decide +kernel) (outcome_ok (by decide +kernel))
  obtain ⟨defined, _, removals⟩ := careful_defined careful
  exact ⟨defined, (removals 0 _ (outcome_ok (by decide +kernel))).mpr (by decide +kernel)⟩

/-- **Use that is not careful may lead to a fault**: the rule that depends on the provided mod id
still asks for its provider, which is no longer there. -/
theorem not_defined_of_overlooked :
    ¬∀ engine, Edited (fun _ _ => True) engine →
      ∀ fault, engine.hasSolution.1 ≠ .error (.definition fault) := by
  intro defined
  have edited : Edited (fun _ _ => True) (providedEngine.removeChoice 0).2 :=
    .removeChoice 0 (edited_providedEngine _) trivial (outcome_ok (by decide +kernel))
  exact defined _ edited (.unknownChoice 0) (by decide +kernel)

end Engine

end Loadout
