/-
**What rules see.**

The lists of a rule are kept in two ways: when the rule is added it goes through the choices that are
there, and from then on it takes note of each choice that is added or removed. Both come to the
same. A list *has* the choices of a kind when it has just the registered ones, in ascending order
(`Lists`):

* `Lists.enlist`, `Lists.erase`: a list has them still after a choice was added or removed;
* `lists_filter`: a new rule has them;
* **`rules_see`**: in every orderly use of an engine, every rule lists what it should.
-/

import Loadout.Proofs.Engine.Changes
import Loadout.Proofs.Engine.Trees
import Loadout.Proofs.Engine.Rosters

namespace Loadout

/-- **A list has just the choices of a kind**, in ascending order, and so none twice. -/
structure Lists (members : List ChoiceId) (belongs : ChoiceId → Prop) : Prop where
  mem_iff : ∀ id, id ∈ members ↔ belongs id
  ascending : members.Pairwise (· < ·)

namespace ChoiceTable

variable {table later : ChoiceTable} {kind : Kind} {id other : ChoiceId}

/-! ### Choices of a kind -/

theorem contains_of_shows (shown : table.shows kind id = true) : table.contains id = true := by
  unfold shows choice? at shown
  unfold contains
  cases found : table.registered? id with
  | none =>
    rw [found] at shown
    cases shown
  | some entry => rfl

/-- What is there is of the kinds that it was of when a choice is added. -/
theorem Ordered.shows_add_of_lt (ordered : table.Ordered) (choice : Choice) (weight : Int)
    (inside : id < table.entries.size) :
    (table.add choice weight).2.shows kind id = table.shows kind id := by
  unfold shows choice? registered?
  rw [(ordered.alike_add choice weight inside).root, getElem?_add, if_neg (Nat.ne_of_lt inside)]

theorem Ordered.shows_add (ordered : table.Ordered) (choice : Choice) (weight : Int) :
    (table.add choice weight).2.shows kind id = true ↔
      id = table.entries.size ∧ (table.add choice weight).2.shows kind table.entries.size = true ∨
        table.shows kind id = true := by
  rcases Nat.lt_trichotomy id table.entries.size with inside | last | beyond
  · rw [ordered.shows_add_of_lt choice weight inside, or_iff_right fun new => inside.ne new.1]
  · rw [last, and_iff_right rfl, or_iff_left fun shown =>
      Nat.lt_irrefl _ (lt_of_contains (contains_of_shows shown))]
  · refine iff_of_false (fun shown => ?_) (not_or.mpr ⟨fun new => beyond.ne' new.1, fun shown => ?_⟩)
    · have within := lt_of_contains (contains_of_shows shown)
      have size : (table.add choice weight).2.entries.size = table.entries.size + 1 :=
        Array.size_push _
      rw [size] at within
      exact Nat.not_lt_of_le (Nat.le_of_lt_succ within) beyond
    · exact Nat.lt_asymm beyond (lt_of_contains (contains_of_shows shown))

/-- A change of one entry that keeps the choice shows nowhere else. -/
theorem Ordered.shows_change (ordered : table.Ordered) {edit : ChoiceEntry → ChoiceEntry}
    (changed : table.change id edit = some later)
    (keeps : ∀ entry, (edit entry).choice = entry.choice) (different : other ≠ id) :
    later.shows kind other = table.shows kind other := by
  have root : later.root other = table.root other :=
    ordered.root_eq (Nat.le_of_eq (size_change changed).symm) fun name _ =>
      target?_change changed keeps name
  unfold shows choice?
  rw [root, registered?_change changed different]

/-- A choice that is removed is of no kind, and the others are of the kinds that they were of. -/
theorem Ordered.shows_remove (ordered : table.Ordered) (removed : table.remove id = some later) :
    later.shows kind other = true ↔ other ≠ id ∧ table.shows kind other = true := by
  by_cases same : other = id
  · refine iff_of_false (fun shown => ?_) fun both => both.1 same
    have gone := contains_remove removed other
    rw [contains_of_shows shown, same, bne_self_eq_false, Bool.and_false] at gone
    cases gone
  · rw [and_iff_right same, ordered.shows_change removed (fun _ => rfl) same]

/-- A weight changes no kinds. -/
theorem Ordered.shows_setWeight (ordered : table.Ordered) {weight : Int}
    (changed : table.setWeight id weight = some later) :
    later.shows kind other = table.shows kind other := by
  by_cases same : other = id
  · obtain ⟨entry, found, changed'⟩ := registered?_change_self changed
    have root : later.root id = table.root id :=
      ordered.root_eq (Nat.le_of_eq (size_change changed).symm) fun name _ =>
        target?_change changed (fun _ => rfl) name
    unfold shows choice?
    rw [same, root, changed', found, Option.filter_some,
      if_pos (Option.filter_eq_some_iff.mp found).2]
    rfl
  · exact ordered.shows_change changed (fun _ => rfl) same

end ChoiceTable

/-! ### Lists of choices -/

namespace Lists

variable {members : List ChoiceId} {belongs belongs' : ChoiceId → Prop} {id : ChoiceId}

theorem congr (lists : Lists members belongs) (same : ∀ id, belongs' id ↔ belongs id) :
    Lists members belongs' :=
  ⟨fun id => (lists.mem_iff id).trans (same id).symm, lists.ascending⟩

/-- A greater choice is appended to a list. -/
theorem insertNew (lists : Lists members belongs) (greater : ∀ member ∈ members, member < id) :
    Lists (Rule.insertNew id members).2 fun other => other = id ∨ belongs other := by
  have new : id ∉ members := fun old => Nat.lt_irrefl _ (greater id old)
  have inserted : (Rule.insertNew id members).2 = members ++ [id] := by
    unfold Rule.insertNew
    rw [if_neg (by rwa [List.contains_iff_mem])]
  rw [inserted]
  constructor
  · intro other
    rw [List.mem_append, List.mem_singleton, lists.mem_iff, or_comm]
  · refine List.pairwise_append.mpr ⟨lists.ascending, List.pairwise_singleton _ _, ?_⟩
    intro member listed last single
    rw [List.mem_singleton.mp single]
    exact greater member listed

/-- A choice is taken out of a list. -/
theorem erase (lists : Lists members belongs) (id : ChoiceId) :
    Lists (members.erase id) fun other => other ≠ id ∧ belongs other := by
  have distinct : members.Nodup := lists.ascending.imp Nat.ne_of_lt
  constructor
  · intro other
    rw [distinct.mem_erase_iff, lists.mem_iff]
  · exact lists.ascending.sublist List.erase_sublist

/-- **A list has the choices of its kind when one is added** that it takes note of. -/
theorem enlist {table : ChoiceTable} {kind : Kind} (ordered : table.Ordered) (choice : Choice)
    (weight : Int) (lists : Lists members fun id => table.shows kind id = true) :
    Lists (Rule.enlist (table.add choice weight).2 table.entries.size kind members)
      fun id => (table.add choice weight).2.shows kind id = true := by
  unfold Rule.enlist
  split
  · next shown =>
    have greater : ∀ member ∈ members, member < table.entries.size := fun member listed =>
      ChoiceTable.lt_of_contains (ChoiceTable.contains_of_shows ((lists.mem_iff member).mp listed))
    refine (lists.insertNew greater).congr fun id => ?_
    rw [ordered.shows_add, and_iff_left shown]
  · next hidden =>
    refine lists.congr fun id => ?_
    rw [ordered.shows_add, or_iff_right fun new => hidden new.2]

end Lists

/-- **The registered choices of a kind are listed** by going through all of them. -/
theorem lists_filter (table : ChoiceTable) (kind : Kind) :
    Lists (table.ids.filter (table.shows kind)) fun id => table.shows kind id = true := by
  constructor
  · intro id
    rw [List.mem_filter, ChoiceTable.mem_ids_iff]
    exact and_iff_right_of_imp ChoiceTable.contains_of_shows
  · exact table.ids_sorted.filter _

/-! ### Rules -/

/-- A registered choice is of the mod id of a link, and its version matches or does not. -/
def ChoiceTable.Found (table : ChoiceTable) (link : Link) (verdict : Bool) (id : ChoiceId) : Prop :=
  table.modId? id = some link.modId ∧
    ∃ version, table.version? id = some version ∧ link.versions.accepts version = verdict

/-- **A rule lists just the registered choices that it is about**: those of its mod id, those of its
mod id that do not stand for its winner, those of its link's mod id that match and those that do
not. -/
def Rule.Sees (table : ChoiceTable) : Rule → Prop
  | .optionalSet modId members => Lists members fun id => table.modId? id = some modId
  | .overriddenSet modId winner members =>
    Lists members fun id => table.modId? id = some modId ∧ table.root id ≠ winner
  | .dependsOnly _ link _ valid invalid =>
    Lists valid (table.Found link true) ∧ Lists invalid (table.Found link false)
  | .breaksOnly _ link _ _ conflicts => Lists conflicts (table.Found link true)
  | _ => True

namespace ChoiceTable

variable {table : ChoiceTable}

/-- What is of a mod id has a version. -/
theorem found_iff {link : Link} {verdict : Bool} {id : ChoiceId} :
    table.Found link verdict id ↔ table.shows (.matching link verdict) id = true := by
  unfold Found shows Kind.matching modId? version?
  cases table.choice? id with
  | none => exact iff_of_false (fun both => nomatch both.1) nofun
  | some choice => cases choice <;> simp [Choice.modId?, Choice.version?]

end ChoiceTable

namespace Rule

variable {table : ChoiceTable} {rule : Rule}

theorem sees_iff : rule.Sees table ↔
    rule.Each fun kind members => Lists members fun id => table.shows kind id = true := by
  have iff_of {members : List ChoiceId} {belongs belongs' : ChoiceId → Prop}
      (same : ∀ id, belongs id ↔ belongs' id) : Lists members belongs ↔ Lists members belongs' :=
    ⟨fun lists => lists.congr fun id => (same id).symm, fun lists => lists.congr same⟩
  cases rule with
  | optionalSet modId members =>
    exact iff_of fun id => by rw [table.shows_ofMod, beq_iff_eq]
  | overriddenSet modId winner members =>
    exact iff_of fun id => by rw [table.shows_rivals, decide_eq_true_iff, and_comm]
  | dependsOnly =>
    exact and_congr (iff_of fun _ => ChoiceTable.found_iff) (iff_of fun _ => ChoiceTable.found_iff)
  | breaksOnly => exact iff_of fun _ => ChoiceTable.found_iff
  | mandatory | dependsAny | breaksAll => exact Iff.rfl

theorem Sees.choiceAdded (sees : rule.Sees table) (ordered : table.Ordered) (choice : Choice)
    (weight : Int) :
    (rule.choiceAdded (table.add choice weight).2 table.entries.size).2.Sees
      (table.add choice weight).2 := by
  rw [sees_iff] at sees ⊢
  rw [choiceAdded_eq, each_relist]
  exact sees.imp fun kind members lists => lists.enlist ordered choice weight

theorem Sees.choiceRemoved (sees : rule.Sees table) (ordered : table.Ordered) {id : ChoiceId}
    {later : ChoiceTable} (removed : table.remove id = some later) :
    (rule.choiceRemoved id).2.Sees later := by
  rw [sees_iff] at sees ⊢
  rw [choiceRemoved_eq, each_relist]
  exact sees.imp fun kind members lists => (lists.erase id).congr fun other =>
    ordered.shows_remove removed

theorem Sees.setWeight (sees : rule.Sees table) (ordered : table.Ordered) {id : ChoiceId}
    {weight : Int} {later : ChoiceTable} (changed : table.setWeight id weight = some later) :
    rule.Sees later := by
  rw [sees_iff] at sees ⊢
  exact sees.imp fun kind members lists => lists.congr fun other => by
    rw [ordered.shows_setWeight changed]

theorem Blank.sees_acquaint (blank : rule.Blank) (table : ChoiceTable) :
    (Engine.acquaint table rule).Sees table := by
  rw [Engine.acquaint_blank table blank, sees_iff, each_relist]
  exact blank.imp fun kind members _ => lists_filter table kind

end Rule

namespace Forest

variable {forest : Forest}

theorem rule?_react (change : Rule → Bool × Rule) (forest : Forest) (id : RuleId) :
    (forest.react change).rule? id = (forest.rule? id).map fun rule => (change rule).2 := by
  unfold rule?
  rw [node?_react, Option.map_map, Option.map_map]
  rfl

theorem rule?_modify (forest : Forest) (id other : RuleId) {edit : RuleNode → RuleNode}
    (keeps : ∀ node, (edit node).rule = node.rule) :
    (forest.modify id edit).rule? other = forest.rule? other := by
  unfold rule?
  rw [node?_modify]
  split
  · rw [Option.map_map]
    exact Option.map_congr fun node _ => keeps node
  · rfl

theorem rule?_add (rule : Rule) (up : Option RuleId) (forest : Forest) (id : RuleId) :
    (forest.add rule up).2.rule? id =
      if id = forest.nodes.size then some rule else forest.rule? id := by
  unfold rule?
  rw [node?_add_eq]
  split
  · rfl
  · rw [Option.map_map]
    refine Option.map_congr fun node _ => ?_
    show (if up = some id then _ else node).rule = node.rule
    split <;> rfl

end Forest

namespace Engine

variable {engine : Engine}

/-! ### Orderly use -/

/-- **A call is orderly** if an alias that it adds is of a choice that was added before, and a rule
that it adds is as it was made. -/
def Call.Orderly (engine : Engine) : Call → Prop
  | .addChoice choice _ =>
    ∀ target, choice.target? = some target → target < engine.choices.entries.size
  | .addRule rule _ => rule.Blank
  | _ => True

/-- **The engines that orderly calls lead to**, whether they fail or not. -/
inductive Orderly : Engine → Prop
  | create (config : Config) (signal : CancelSignal) : Orderly (create config signal)
  | perform {engine : Engine} (call : Call) : Orderly engine → call.Orderly engine →
    Orderly (engine.perform call)

/-- Aliases come after their targets, and every rule lists what it should. -/
structure Watchful (choices : ChoiceTable) (forest : Forest) : Prop where
  ordered : choices.Ordered
  sees : ∀ id rule, forest.rule? id = some rule → rule.Sees choices

/-- **An orderly call keeps the lists of all rules right.** -/
theorem Watchful.perform (watchful : Watchful engine.choices engine.forest) {call : Call}
    (orderly : call.Orderly engine) :
    Watchful (engine.perform call).choices (engine.perform call).forest := by
  obtain ⟨ordered, sees⟩ := watchful
  have turn := turn_perform engine call
  generalize (engine.perform call).choices = choices at turn ⊢
  generalize (engine.perform call).forest = forest at turn ⊢
  cases turn with
  | still _ => exact ⟨ordered, sees⟩
  | renewed _ anew _ _ =>
    exact ⟨ordered, fun id rule found => sees id rule (anew.rule?_eq id ▸ found)⟩
  | choiceAdded choice weight =>
    refine ⟨ordered.add orderly weight, fun id rule found => ?_⟩
    rw [Forest.rule?_react] at found
    obtain ⟨before, there, rfl⟩ := Option.map_eq_some_iff.mp found
    exact (sees id before there).choiceAdded ordered choice weight
  | weightSet _ _ changed =>
    refine ⟨ordered.change changed fun _ => rfl, fun id rule found => ?_⟩
    exact (sees id rule found).setWeight ordered changed
  | choiceRemoved name removed =>
    refine ⟨ordered.change removed fun _ => rfl, fun id rule found => ?_⟩
    rw [Forest.rule?_react] at found
    obtain ⟨before, there, rfl⟩ := Option.map_eq_some_iff.mp found
    exact (sees id before there).choiceRemoved ordered removed
  | ruleAdded rule parent constraints _ =>
    refine ⟨ordered, fun id other found => ?_⟩
    rw [Forest.rule?_modify, Forest.rule?_add] at found
    · split at found
      · cases found
        exact Rule.Blank.sees_acquaint orderly engine.choices
      · exact sees id other found
    · exact fun _ => rfl
  | ruleRemoved removed _ =>
    refine ⟨ordered, fun id rule found => ?_⟩
    rw [Forest.rule?_remove] at found
    split at found
    · cases found
    · exact sees id rule found

theorem Orderly.watchful (orderly : engine.Orderly) : Watchful engine.choices engine.forest := by
  induction orderly with
  | create config signal => exact ⟨nofun, nofun⟩
  | perform call _ orderly ih => exact ih.perform orderly

/-- **Every rule lists just the registered choices that it is about**, in ascending order, whenever
the rule was added and whatever choices and rules were added, changed and removed in between. -/
theorem rules_see (orderly : engine.Orderly) {id : RuleId} {rule : Rule}
    (found : engine.forest.rule? id = some rule) : rule.Sees engine.choices :=
  orderly.watchful.sees id rule found

/-- A candidate of one mod id. -/
def libraryChoice (numbers : List Nat) : Choice :=
  .candidate "library" "file" (.ofNumbers numbers) false

/-- Versions from 2 on of that mod id. -/
def recentLibrary : Link :=
  ⟨"library", ⟨[[⟨.greaterOrEqual, .ofNumbers [2]⟩]], ">=2"⟩, false⟩

/-- An engine in which rules are added before, between and after choices, one of which is removed
and one of which stands for the mandatory one. -/
def mixedEngine : Engine :=
  ((((((((((create .standard .clear).perform (.addRule (.optionalSet "library" []) none)).perform
    (.addChoice (libraryChoice [1]) 0)).perform (.addChoice (libraryChoice [3]) 0)).perform
    (.addRule (.dependsOnly 0 recentLibrary none [] []) none)).perform
    (.addChoice (.alias 1 "library" (.ofNumbers [2])) 0)).perform
    (.addChoice (libraryChoice [4]) 5)).perform (.removeChoice 0)).perform
    (.addRule (.overriddenSet "library" 1 []) none)).perform
    (.addChoice (libraryChoice [1, 5]) 0)).perform (.setWeight 9 1)

theorem orderly_mixedEngine : mixedEngine.Orderly :=
  .perform (.setWeight _ _) (.perform (.addChoice _ _) (.perform (.addRule _ _)
    (.perform (.removeChoice _) (.perform (.addChoice _ _) (.perform (.addChoice _ _)
      (.perform (.addRule _ _) (.perform (.addChoice _ _) (.perform (.addChoice _ _)
        (.perform (.addRule _ _) (.create _ _) rfl) nofun) nofun) ⟨rfl, rfl⟩)
      (by rintro _ ⟨⟩; decide +kernel)) nofun) trivial) rfl) nofun) trivial

/-- The dependency was added in the middle, and lists what came before and after. -/
theorem rules_see_of_mixed :
    mixedEngine.forest.rule? 1 = some (.dependsOnly 0 recentLibrary none [1, 2, 3] [4]) ∧
    Lists [1, 2, 3] (mixedEngine.choices.Found recentLibrary true) ∧
    Lists [4] (mixedEngine.choices.Found recentLibrary false) := by
  have found : mixedEngine.forest.rule? 1 =
      some (.dependsOnly 0 recentLibrary none [1, 2, 3] [4]) := by decide +kernel
  exact ⟨found, rules_see orderly_mixedEngine found⟩

end Engine

end Loadout
