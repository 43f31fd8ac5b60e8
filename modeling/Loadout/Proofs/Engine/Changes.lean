/-
**What changes of choices and rules do.**

An alias is of a choice that was there before, so the tables of an engine are in order
(`ChoiceTable.Ordered`) and chains of aliases end. Then a change of the table leaves the roots what
they are:

* `Ordered.root_eq`: roots stay what they are when a table grows and keeps its targets;
* `Ordered.alike_add`, `Ordered.alike_change`: what is there looks alike after a change, apart from
  what is changed;
* `contains_remove`: a removed choice is no longer registered;
* `addChoice_ok`, `removeChoice_ok` and so on: what comes of a change of an engine that succeeds.
-/

import Loadout.Proofs.Engine.Edits

namespace Loadout

namespace ChoiceTable

variable {table later : ChoiceTable} {id : ChoiceId}

/-! ### Tables in order -/

/-- Every alias comes after its target. -/
def Ordered (table : ChoiceTable) : Prop :=
  ∀ id target, table.target? id = some target → target < id

/-- Chains of aliases go down, so they end. -/
theorem Ordered.acyclic (ordered : table.Ordered) : table.Acyclic := by
  have ends : ∀ id, ∃ steps, table.target? (table.follow steps id) = none := by
    intro id
    induction id using Nat.strong_induction_on with
    | h id ih =>
      cases found : table.target? id with
      | none => exact ⟨0, found⟩
      | some target =>
        obtain ⟨steps, final⟩ := ih target (ordered id target found)
        refine ⟨steps + 1, ?_⟩
        unfold follow
        rw [found]
        exact final
  intro id
  obtain ⟨steps, final⟩ := ends id
  exact final_within final

theorem Ordered.follow_le (ordered : table.Ordered) (steps : Nat) (id : ChoiceId) :
    table.follow steps id ≤ id := by
  induction steps generalizing id with
  | zero => exact Nat.le_refl id
  | succ steps ih =>
    unfold follow
    cases found : table.target? id with
    | none => exact Nat.le_refl id
    | some target => exact (ih target).trans (Nat.le_of_lt (ordered id target found))

/-- **Roots stay what they are** when a table grows and keeps its targets. -/
theorem Ordered.root_eq (ordered : table.Ordered)
    (grows : table.entries.size ≤ later.entries.size)
    (same : ∀ other, other ≤ id → later.target? other = table.target? other) :
    later.root id = table.root id :=
  root_congr (ordered.acyclic id) grows fun steps => same _ (ordered.follow_le steps id)

/-! ### Changes of a table -/

theorem getElem?_add (table : ChoiceTable) (choice : Choice) (weight : Int) (id : ChoiceId) :
    (table.add choice weight).2.entries[id]? =
      if id = table.entries.size then some ⟨choice, weight, true⟩ else table.entries[id]? :=
  Array.getElem?_push

/-- **What is there looks alike when a choice is added.** -/
theorem Ordered.alike_add (ordered : table.Ordered) (choice : Choice) (weight : Int)
    (inside : id < table.entries.size) : Alike table (table.add choice weight).2 id := by
  have kept : ∀ other, other ≤ id →
      (table.add choice weight).2.entries[other]? = table.entries[other]? := by
    intro other within
    rw [getElem?_add, if_neg (Nat.ne_of_lt (within.trans_lt inside))]
  constructor
  · refine ordered.root_eq ?_ fun other within => ?_
    · show table.entries.size ≤ (table.entries.push _).size
      rw [Array.size_push]
      exact Nat.le_succ _
    · unfold target?
      rw [kept other within]
  · unfold contains registered?
    rw [kept (table.root id) (ordered.follow_le _ id)]

theorem Ordered.add (ordered : table.Ordered) {choice : Choice}
    (known : ∀ target, choice.target? = some target → target < table.entries.size)
    (weight : Int) : (table.add choice weight).2.Ordered := by
  intro id target found
  unfold target? at found
  rw [getElem?_add] at found
  split at found
  · next last =>
    rw [last]
    exact known target found
  · exact ordered id target found

/-- A change is made to the entry of a registered choice. -/
theorem change_eq {edit : ChoiceEntry → ChoiceEntry} (changed : table.change id edit = some later) :
    ∃ entry, table.registered? id = some entry ∧
      later = ⟨table.entries.setIfInBounds id (edit entry)⟩ := by
  obtain ⟨entry, found, made⟩ := Option.map_eq_some_iff.mp changed
  exact ⟨entry, found, made.symm⟩

section Change

variable {edit : ChoiceEntry → ChoiceEntry}

theorem size_change (changed : table.change id edit = some later) :
    later.entries.size = table.entries.size := by
  obtain ⟨entry, _, rfl⟩ := change_eq changed
  exact Array.size_setIfInBounds

theorem registered?_change (changed : table.change id edit = some later) {other : ChoiceId}
    (different : other ≠ id) : later.registered? other = table.registered? other := by
  obtain ⟨entry, _, rfl⟩ := change_eq changed
  unfold registered?
  dsimp only
  rw [Array.getElem?_setIfInBounds, if_neg (Ne.symm different)]

theorem registered?_change_self (changed : table.change id edit = some later) :
    ∃ entry, table.registered? id = some entry ∧
      later.registered? id = (some (edit entry)).filter ChoiceEntry.registered := by
  obtain ⟨entry, found, rfl⟩ := change_eq changed
  refine ⟨entry, found, ?_⟩
  obtain ⟨there, _⟩ := Option.filter_eq_some_iff.mp found
  have inside := (Array.getElem?_eq_some_iff.mp there).1
  unfold registered?
  dsimp only
  rw [Array.getElem?_setIfInBounds, if_pos rfl, if_pos inside]

theorem target?_change (changed : table.change id edit = some later)
    (keeps : ∀ entry, (edit entry).choice = entry.choice) (other : ChoiceId) :
    later.target? other = table.target? other := by
  obtain ⟨entry, found, rfl⟩ := change_eq changed
  obtain ⟨there, _⟩ := Option.filter_eq_some_iff.mp found
  have inside := (Array.getElem?_eq_some_iff.mp there).1
  unfold target?
  dsimp only
  rw [Array.getElem?_setIfInBounds]
  by_cases same : id = other
  · rw [if_pos same, if_pos inside, ← same, there]
    exact congrArg Choice.target? (keeps entry)
  · rw [if_neg same]

/-- Roots look alike after a change unless it is the root that is changed. -/
theorem Ordered.alike_change (ordered : table.Ordered)
    (changed : table.change id edit = some later)
    (keeps : ∀ entry, (edit entry).choice = entry.choice) {other : ChoiceId}
    (contains : later.contains (table.root other) = table.contains (table.root other)) :
    Alike table later other :=
  ⟨ordered.root_eq (Nat.le_of_eq (size_change changed).symm) fun name _ =>
    target?_change changed keeps name, contains⟩

theorem Ordered.change (ordered : table.Ordered)
    (changed : table.change id edit = some later)
    (keeps : ∀ entry, (edit entry).choice = entry.choice) : later.Ordered := by
  intro other target found
  rw [target?_change changed keeps] at found
  exact ordered other target found

end Change

/-- A weight changes nothing about what is registered. -/
theorem contains_setWeight {weight : Int} (changed : table.setWeight id weight = some later)
    (other : ChoiceId) : later.contains other = table.contains other := by
  unfold contains
  by_cases same : other = id
  · subst same
    obtain ⟨entry, found, changed'⟩ := registered?_change_self changed
    have registered := (Option.filter_eq_some_iff.mp found).2
    rw [changed', found, Option.filter_some, if_pos registered]
    rfl
  · rw [registered?_change changed same]

/-- **A removed choice is no longer registered**, and the others are as they were. -/
theorem contains_remove (removed : table.remove id = some later) (other : ChoiceId) :
    later.contains other = (table.contains other && other != id) := by
  unfold contains
  by_cases same : other = id
  · subst same
    obtain ⟨entry, _, changed⟩ := registered?_change_self removed
    rw [changed, bne_self_eq_false, Bool.and_false]
    rfl
  · rw [registered?_change removed same, bne_iff_ne.mpr same, Bool.and_true]

end ChoiceTable

namespace Engine

variable {engine after : Engine}

/-! ### Changes that succeed -/

theorem addChoice_ok {choice : Choice} {weight : Int} {id : ChoiceId}
    (done : engine.addChoice choice weight = (.ok id, after)) :
    after.choices = (engine.choices.add choice weight).2 ∧
      after.forest = engine.forest.react (Rule.choiceAdded (engine.choices.add choice weight).2
        engine.choices.entries.size) :=
  (done ▸ edit_addChoice choice weight engine).of_ok

theorem setWeight_ok {id : ChoiceId} {weight : Int}
    (done : engine.setWeight id weight = (.ok (), after)) :
    engine.choices.setWeight id weight = some after.choices ∧ after.forest = engine.forest :=
  (done ▸ edit_setWeight id weight engine).of_ok

/-- **A choice can be removed when it is registered** and changes are allowed; afterwards a question
is answered by a check. -/
theorem removeChoice_ok {id : ChoiceId} (done : engine.removeChoice id = (.ok (), after)) :
    engine.choices.remove id = some after.choices ∧
      after.forest = engine.forest.react (Rule.choiceRemoved id) ∧
      after.signal.isPoisoned = false ∧ (after.step = .defining ∨ after.step = .failed) ∧
      after.changed = true := by
  have edit := edit_removeChoice id engine
  rw [done] at edit
  exact ⟨edit.of_ok.1, edit.of_ok.2, edit.step_of_ok⟩

theorem addRule_ok {rule : Rule} {parent : Option RuleId} {id : RuleId}
    (done : engine.addRule rule parent = (.ok id, after)) :
    after.choices = engine.choices ∧
      (engine.forest.add (acquaint engine.choices rule) parent).2.define engine.choices id =
        .ok after.forest := by
  have edit := edit_addRule rule parent engine
  rw [done] at edit
  obtain ⟨_, kept, _, constraints, defined, _⟩ := edit.of_ok
  exact ⟨kept, defined⟩

theorem removeRule_ok {id : RuleId} {removed : List RuleId}
    (done : engine.removeRule id = (.ok removed, after)) :
    after.choices = engine.choices ∧ after.forest = (engine.forest.remove id).2 := by
  have edit := edit_removeRule id engine
  rw [done] at edit
  exact edit.of_ok.2.2

end Engine

end Loadout
