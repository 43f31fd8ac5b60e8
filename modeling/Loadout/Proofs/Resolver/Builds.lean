/-
**Rules that ask for something of the choices that were there before.**

Registering a link adds branches and rules. What that amounts to is a demand on the choices that
were there before (`Forest.Builds`): values that satisfy the new rules meet the demand, and values
that meet the demand can be extended to the new branches so that they satisfy the new rules.

* `Builds.trans`: demands on the earlier choices add up;
* `Builds.behind`: branches on which rules build may be given the values that suit them;
* `Builds.exists_iff`: values can be extended so that the new rules hold just when they meet the
  demand;
* `Engine.Makes.bind`, `Engine.makes_forM`, `Engine.Makes.imposes`: the same for actions on drafts.
-/

import Loadout.Proofs.Resolver.Drafts

namespace Loadout

/-- A demand on the values of choices. -/
abbrev ChoiceDemand := (ChoiceId → Bool) → Prop

/-- A demand is about the choices below a number only. -/
def ChoiceDemand.Below (bound : Nat) (demand : ChoiceDemand) : Prop :=
  ∀ value other, ChoiceTable.AgreeBelow bound value other → demand value → demand other

theorem ChoiceDemand.Below.and {bound : Nat} {demand demand' : ChoiceDemand}
    (one : demand.Below bound) (two : demand'.Below bound) :
    ChoiceDemand.Below bound fun value => demand value ∧ demand' value :=
  fun value other agree meets => ⟨one value other agree meets.1, two value other agree meets.2⟩

namespace Forest

variable {table later last : ChoiceTable} {forest forest' forest'' : Forest}
  {demand demand' : ChoiceDemand}

/-! ### Building -/

/-- **The rules that were added ask for something of the choices that were there before.** -/
structure Builds (table later : ChoiceTable) (forest forest' : Forest) (demand : ChoiceDemand) :
    Prop where
  extends' : table.Extends later
  tidy : forest'.Tidy later forest.nodes.size
  kept : ∀ id, id < forest.nodes.size → forest'.stored id = forest.stored id
  grows : forest.nodes.size ≤ forest'.nodes.size
  sound : ∀ value, forest'.SatisfiedFrom forest.nodes.size value → demand value
  complete : ∀ value, demand value →
    ∃ other, ChoiceTable.AgreeBelow table.entries.size value other ∧
      forest'.SatisfiedFrom forest.nodes.size other

theorem Builds.refl (table : ChoiceTable) (forest : Forest) :
    Builds table table forest forest fun _ => True where
  extends' := .refl table
  tidy := forest.tidy_size table
  kept _ _ := rfl
  grows := Nat.le_refl _
  sound _ _ := trivial
  complete value _ := ⟨value, fun _ _ => rfl, forest.satisfiedFrom_size value⟩

/-- A rule that was there still is. -/
theorem Builds.contains (builds : Builds table later forest forest' demand) {id : RuleId}
    (inside : forest.contains id = true) : forest'.contains id = true := by
  rw [contains_eq, builds.kept id (lt_of_contains inside), ← contains_eq]
  exact inside

/-- Demands on the earlier choices add up. -/
theorem Builds.trans (one : Builds table later forest forest' demand)
    (two : Builds later last forest' forest'' demand')
    (below : ChoiceDemand.Below table.entries.size demand') :
    Builds table last forest forest'' fun value => demand value ∧ demand' value where
  extends' := one.extends'.trans two.extends'
  tidy := (one.tidy.later two.extends').join two.kept two.tidy
  kept id inside := (two.kept id (inside.trans_le one.grows)).trans (one.kept id inside)
  grows := one.grows.trans two.grows
  sound value satisfied := by
    obtain ⟨before, after⟩ := (satisfiedFrom_split one.grows two.kept).mp satisfied
    exact ⟨one.sound value before, two.sound value after⟩
  complete value meets := by
    obtain ⟨middle, agree, before⟩ := one.complete value meets.1
    obtain ⟨other, agree', after⟩ := two.complete middle (below value middle agree meets.2)
    -- the branches of the second step do not occur in the rules of the first
    exact ⟨other, agree.trans (agree'.mono one.extends'.size_le),
      (satisfiedFrom_split one.grows two.kept).mpr ⟨one.tidy.satisfied_congr agree' before, after⟩⟩

/-- The demand may be put in other words. -/
theorem Builds.congr (builds : Builds table later forest forest' demand)
    (same : ∀ value, demand value ↔ demand' value) : Builds table later forest forest' demand' where
  extends' := builds.extends'
  tidy := builds.tidy
  kept := builds.kept
  grows := builds.grows
  sound value satisfied := (same value).mp (builds.sound value satisfied)
  complete value meets := builds.complete value ((same value).mpr meets)

/-- **Branches may be given the values that suit the rules that build on them.** -/
theorem Builds.behind {early : ChoiceTable} (builds : Builds table later forest forest' demand)
    (extends' : early.Extends table)
    (sound : ∀ value, demand value → demand' value)
    (complete : ∀ value, demand' value →
      ∃ other, ChoiceTable.AgreeBelow early.entries.size value other ∧ demand other) :
    Builds early later forest forest' demand' where
  extends' := extends'.trans builds.extends'
  tidy := builds.tidy
  kept := builds.kept
  grows := builds.grows
  sound value satisfied := sound value (builds.sound value satisfied)
  complete value meets := by
    obtain ⟨middle, agree, meets'⟩ := complete value meets
    obtain ⟨other, agree', satisfied⟩ := builds.complete middle meets'
    exact ⟨other, agree.trans (agree'.mono extends'.size_le), satisfied⟩

/-- **Values can be extended so that the rules that were added hold just when they meet the
demand.** -/
theorem Builds.exists_iff (builds : Builds table later forest forest' demand)
    (below : demand.Below table.entries.size) {value : ChoiceId → Bool} :
    (∃ other, ChoiceTable.AgreeBelow table.entries.size value other ∧
      forest'.SatisfiedFrom forest.nodes.size other) ↔ demand value := by
  constructor
  · rintro ⟨other, agree, satisfied⟩
    exact below other value (fun id inside => (agree id inside).symm) (builds.sound other satisfied)
  · exact builds.complete value

end Forest

namespace Engine

variable {config : Config} {table : ChoiceTable} {forest : Forest} {demand demand' : ChoiceDemand}

/-! ### Actions that build -/

/-- An action on a draft builds rules that ask for something. -/
def Makes (config : Config) (action : Action Unit) (table : ChoiceTable) (forest : Forest)
    (demand : ChoiceDemand) : Prop :=
  ∃ later forest', Gives action (draft config table forest) () (draft config later forest') ∧
    Forest.Builds table later forest forest' demand

theorem makes_pure (config : Config) (table : ChoiceTable) (forest : Forest) :
    Makes config (pure ()) table forest fun _ => True :=
  ⟨table, forest, gives_pure () _, .refl table forest⟩

theorem Makes.congr {action : Action Unit} (makes : Makes config action table forest demand)
    (same : ∀ value, demand value ↔ demand' value) : Makes config action table forest demand' := by
  obtain ⟨later, forest', given, builds⟩ := makes
  exact ⟨later, forest', given, builds.congr same⟩

/-- What two actions ask for adds up, if the second asks nothing of the branches of the first. -/
theorem Makes.bind {action next : Action Unit} (one : Makes config action table forest demand)
    (two : ∀ later forest', table.Extends later →
      (∀ id, forest.contains id = true → forest'.contains id = true) →
        Makes config next later forest' demand')
    (below : ChoiceDemand.Below table.entries.size demand') :
    Makes config (action >>= fun _ => next) table forest
      fun value => demand value ∧ demand' value := by
  obtain ⟨later, forest', given, builds⟩ := one
  obtain ⟨last, forest'', given', builds'⟩ :=
    two later forest' builds.extends' fun _ => builds.contains
  exact ⟨last, forest'', given.bind given', builds.trans builds' below⟩

/-- What an action asks for on each of several occasions adds up. -/
theorem makes_forM {α : Type} {action : α → Action Unit} {each : α → ChoiceDemand} {list : List α}
    (makes : ∀ item ∈ list, ∀ later forest', table.Extends later →
      Makes config (action item) later forest' (each item))
    (below : ∀ item ∈ list, ChoiceDemand.Below table.entries.size (each item)) :
    Makes config (list.forM action) table forest fun value => ∀ item ∈ list, each item value := by
  induction list generalizing table forest with
  | nil => exact (makes_pure config table forest).congr fun value => by simp
  | cons item rest ih =>
    show Makes config (action item >>= fun _ => rest.forM action) table forest _
    have first := makes item List.mem_cons_self table forest (.refl table)
    have more : ChoiceDemand.Below table.entries.size fun value => ∀ item ∈ rest, each item value :=
      fun value other agree meets item inside =>
        below item (List.mem_cons_of_mem _ inside) value other agree (meets item inside)
    refine (first.bind (fun later forest' extends' _ => ?_) more).congr fun value => by
      rw [List.forall_mem_cons]
    refine ih (fun item inside last forest'' extends'' => ?_) fun item inside => ?_
    · exact makes item (List.mem_cons_of_mem _ inside) last forest'' (extends'.trans extends'')
    · intro value other agree
      exact below item (List.mem_cons_of_mem _ inside) value other (agree.mono extends'.size_le)

/-- **An action on a draft imposes a demand**: it adds rules without an error, and values can be
extended to the branches that it adds so that these rules hold just when the values meet the
demand. -/
def Imposes (config : Config) (action : Action Unit) (table : ChoiceTable) (forest : Forest)
    (demand : ChoiceDemand) : Prop :=
  ∃ later forest', Gives action (draft config table forest) () (draft config later forest') ∧
    table.Extends later ∧ forest'.Tidy later forest.nodes.size ∧
    (∀ id, id < forest.nodes.size → forest'.stored id = forest.stored id) ∧
    ∀ value, (∃ other, ChoiceTable.AgreeBelow table.entries.size value other ∧
      forest'.SatisfiedFrom forest.nodes.size other) ↔ demand value

theorem Makes.imposes {action : Action Unit} (makes : Makes config action table forest demand)
    (below : demand.Below table.entries.size) : Imposes config action table forest demand := by
  obtain ⟨later, forest', given, builds⟩ := makes
  exact ⟨later, forest', given, builds.extends', builds.tidy, builds.kept,
    fun value => builds.exists_iff below⟩

theorem Imposes.congr {action : Action Unit} (imposes : Imposes config action table forest demand)
    (same : ∀ value, demand value ↔ demand' value) :
    Imposes config action table forest demand' := by
  obtain ⟨later, forest', given, extends', tidy, kept, meaning⟩ := imposes
  exact ⟨later, forest', given, extends', tidy, kept,
    fun value => (meaning value).trans (same value)⟩

/-! ### Adding branches -/

/-- A rule asks for what it says. -/
theorem gives_addRule (config : Config) (grounded : table.Grounded) (rule : Rule)
    (parent : Option RuleId)
    (known : ∀ id, parent = some id → forest.contains id = true) :
    ∃ id forest', Gives (Resolver.addRule rule parent) (draft config table forest) id
        (draft config table forest') ∧
      forest'.contains id = true ∧
      Forest.Builds table table forest forest'
        fun value => (acquaint table rule).Says table value := by
  obtain ⟨forest', added, tidy', inside, kept, meaning⟩ :=
    addRule_draft config grounded.acyclic rule parent known
  refine ⟨forest.nodes.size, forest', added, inside, .refl table, tidy', kept,
    Nat.le_of_lt (Forest.lt_of_contains inside), fun value => (meaning value).mp,
    fun value meets => ⟨value, fun _ _ => rfl, (meaning value).mpr meets⟩⟩

theorem gives_addBranch (config : Config) (table : ChoiceTable) (forest : Forest)
    (source : ChoiceId) (label : String) :
    ∃ later, Gives (Resolver.addBranch source label) (draft config table forest)
        table.entries.size (draft config later forest) ∧
      table.Extends later ∧ later.entries.size = table.entries.size + 1 :=
  ⟨_, (gives_get _).bind (addChoice_draft config table forest _ 0), ChoiceTable.extends_add _ _,
    Array.size_push _⟩

/-- Branches get the next numbers. -/
theorem gives_addBranches (config : Config) (table : ChoiceTable) (forest : Forest)
    (source : ChoiceId) (label : Nat → String) (places : List Nat) :
    ∃ later, Gives (places.mapM fun place => Resolver.addBranch source (label place))
        (draft config table forest) (List.range' table.entries.size places.length)
        (draft config later forest) ∧
      table.Extends later ∧ later.entries.size = table.entries.size + places.length := by
  induction places generalizing table with
  | nil => exact ⟨table, gives_pure _ _, .refl table, rfl⟩
  | cons place rest ih =>
    obtain ⟨middle, given, extends', size⟩ :=
      gives_addBranch config table forest source (label place)
    obtain ⟨later, given', extends'', size'⟩ := ih middle
    rw [size] at given' size'
    refine ⟨later, ?_, extends'.trans extends'', ?_⟩
    · rw [List.mapM_cons]
      exact given.bind (given'.bind (gives_pure _ _))
    · rw [size', List.length_cons]
      omega

/-- An exception gets the next number, if there is one. -/
theorem gives_addException (config : Config) (table : ChoiceTable) (forest : Forest)
    (source : ChoiceId) (exception : Option Dependency) :
    ∃ later, Gives (Resolver.addException source exception) (draft config table forest)
        (exception.map fun _ => table.entries.size) (draft config later forest) ∧
      table.Extends later ∧
      later.entries.size = table.entries.size + exception.toList.length := by
  cases exception with
  | none => exact ⟨table, gives_pure _ _, .refl table, rfl⟩
  | some exception =>
    obtain ⟨later, given, extends', size⟩ :=
      gives_addBranch config table forest source "exception"
    exact ⟨later, given.map some, extends', size⟩

end Engine

end Loadout
