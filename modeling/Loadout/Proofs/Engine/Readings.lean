/-
**What rules read.**

The constraints of a rule are lists of handles under a bound (`Rule.clauses`, `Rule.ask`). A rule
*names* every choice in its lists, of which a removal takes note, and *reads* those that its
constraints are about, each by its root:

* `define_eq`: a rule is defined clause by clause;
* `define_congr`: what a rule is defined to depends on the roots of what it reads, and on which of
  them are registered (`ChoiceTable.Alike`);
* **`mentions_iff`**: what a rule is defined to mentions just the registered roots of what it reads;
* `choiceRemoved_fst`: a rule takes note of a removal when it names the choice.
-/

import Loadout.Proofs.Engine.Meanings

namespace Loadout

/-! ### Tables that look alike -/

/-- A choice has the same root in two tables, registered in both or in neither. -/
structure ChoiceTable.Alike (table later : ChoiceTable) (id : ChoiceId) : Prop where
  root : later.root id = table.root id
  contains : later.contains (table.root id) = table.contains (table.root id)

/-- With a choice its root looks alike. -/
theorem ChoiceTable.Alike.of_root {table later : ChoiceTable} {id : ChoiceId}
    (alike : Alike table later id) (acyclic : table.Acyclic) (acyclic' : later.Acyclic) :
    Alike table later (table.root id) where
  root := by
    have again := root_root (acyclic' id)
    rw [alike.root] at again
    rw [again, root_root (acyclic id)]
  contains := by
    rw [root_root (acyclic id)]
    exact alike.contains

namespace Cardinality

variable {table later : ChoiceTable} {handles : List Handle}

/-- A constraint mentions a choice. -/
def Mentions (cardinality : Cardinality) (id : ChoiceId) : Prop :=
  ∃ handle ∈ cardinality.handles, handle.choice = id

/-- A constraint is folded alike where its handles look alike. -/
theorem fold_congr (alike : ∀ handle ∈ handles, ChoiceTable.Alike table later handle.choice)
    (least most : Nat) : fold later handles least most = fold table handles least most := by
  have sorted : sort later handles = sort table handles := by
    rw [sort_eq, sort_eq]
    refine List.foldl_ext _ _ _ fun state handle inside => ?_
    unfold sortStep ChoiceTable.resolve
    rw [(alike handle inside).root, (alike handle inside).contains]
  unfold fold
  rw [sorted]

/-- **What is folded mentions the registered roots of its handles**, unless too many of them are
fixed. -/
theorem mentions_fold {least most : Nat} (fits : (sort table handles).2 ≤ most) (id : ChoiceId) :
    (fold table handles least most).Mentions id ↔
      table.contains id = true ∧ ∃ handle ∈ handles, table.root handle.choice = id := by
  have sorted := sort_spec table handles
  unfold fold Mentions
  generalize sort table handles = state at fits sorted
  obtain ⟨kept, fixed⟩ := state
  dsimp only at fits ⊢
  rw [if_neg (Nat.not_lt.mpr fits)]
  constructor
  · rintro ⟨handle, inside, rfl⟩
    obtain ⟨registered, given, member, rfl⟩ := (sorted.kept handle).mp inside
    exact ⟨registered, given, member, rfl⟩
  · rintro ⟨registered, given, member, rfl⟩
    exact ⟨table.resolve given, (sorted.kept _).mpr ⟨registered, given, member, rfl⟩, rfl⟩

end Cardinality

namespace Rule

variable {table later : ChoiceTable} {rule : Rule} {id : ChoiceId}

/-! ### Clauses -/

/-- The handles of each constraint that a rule stands for. -/
def clauses (table : ChoiceTable) : Rule → List (List Handle)
  | .mandatory choice => [[.ofChoice choice]]
  | .optionalSet _ members => if members.length < 2 then [] else [allOf members]
  | .overriddenSet _ _ members => [allOf members]
  | .dependsOnly source link exception valid invalid =>
    if link.optional then
      invalid.map fun choice =>
        noneOf table source :: noneOf table choice :: allOf exception.toList
    else [noneOf table source :: allOf valid ++ allOf exception.toList]
  | .dependsAny source alternatives exception =>
    [noneOf table source :: allOf alternatives ++ allOf exception.toList]
  | .breaksOnly source _ exception role conflicts =>
    conflicts.map fun choice => breakClause source exception role table [choice]
  | .breaksAll source parts exception role =>
    if parts.isEmpty then [] else [breakClause source exception role table parts]

/-- The greatest number of handles that may be true, where a rule bounds it; the other rules ask
for one that is. -/
def bound? : Rule → Option Nat
  | .optionalSet _ _ => some 1
  | .overriddenSet _ _ _ => some 0
  | _ => none

/-- The constraint that a rule makes of a clause. -/
def ask (table : ChoiceTable) (id : RuleId) (rule : Rule) (handles : List Handle) :
    Except DefinitionError Cardinality :=
  match rule.bound? with
  | some bound => Cardinality.atMost table id bound handles
  | none => Cardinality.atLeastOneOf table id handles

/-- **A rule is defined clause by clause.** -/
theorem define_eq (table : ChoiceTable) (id : RuleId) (rule : Rule) :
    rule.define table id = (rule.clauses table).mapM (rule.ask table id) := by
  cases rule with
  | mandatory choice => exact (mapM_singleton _ _).symm
  | optionalSet modId members =>
    unfold define clauses
    dsimp only
    split
    · rfl
    · exact (mapM_singleton _ _).symm
  | overriddenSet modId winner members => exact (mapM_singleton _ _).symm
  | dependsOnly source link exception valid invalid =>
    unfold define clauses
    dsimp only
    split
    · rw [List.mapM_map]
      rfl
    · exact (mapM_singleton _ _).symm
  | dependsAny source alternatives exception => exact (mapM_singleton _ _).symm
  | breaksOnly source link exception role conflicts =>
    unfold define clauses
    rw [List.mapM_map]
    rfl
  | breaksAll source parts exception role =>
    unfold define clauses
    dsimp only
    split
    · rfl
    · exact (mapM_singleton _ _).symm

/-- Rules without a bound have no empty clauses. -/
theorem clause_ne_nil (unbounded : rule.bound? = none) {handles : List Handle}
    (inside : handles ∈ rule.clauses table) : handles ≠ [] := by
  cases rule with
  | mandatory choice =>
    rw [List.mem_singleton.mp inside]
    exact List.cons_ne_nil _ _
  | optionalSet modId members => cases unbounded
  | overriddenSet modId winner members => cases unbounded
  | dependsOnly source link exception valid invalid =>
    unfold clauses at inside
    dsimp only at inside
    split at inside
    · obtain ⟨choice, _, rfl⟩ := List.mem_map.mp inside
      exact List.cons_ne_nil _ _
    · rw [List.mem_singleton.mp inside]
      exact List.cons_ne_nil _ _
  | dependsAny source alternatives exception =>
    rw [List.mem_singleton.mp inside]
    exact List.cons_ne_nil _ _
  | breaksOnly source link exception role conflicts =>
    obtain ⟨choice, _, rfl⟩ := List.mem_map.mp inside
    exact breakClause_ne_nil _ _ _ _ _
  | breaksAll source parts exception role =>
    unfold clauses at inside
    dsimp only at inside
    split at inside
    · cases inside
    · rw [List.mem_singleton.mp inside]
      exact breakClause_ne_nil _ _ _ _ _

/-- Rules with a bound ask about enough choices. -/
theorem clause_eq_allOf {bound : Nat} (bounded : rule.bound? = some bound) {handles : List Handle}
    (inside : handles ∈ rule.clauses table) :
    ∃ members, handles = allOf members ∧ bound ≤ members.length := by
  cases rule with
  | optionalSet modId members =>
    cases bounded
    unfold clauses at inside
    dsimp only at inside
    split at inside
    · cases inside
    · exact ⟨members, List.mem_singleton.mp inside, by omega⟩
  | overriddenSet modId winner members =>
    cases bounded
    exact ⟨members, List.mem_singleton.mp inside, Nat.zero_le _⟩
  | _ => cases bounded

/-- **Every clause makes a constraint**, which mentions the registered roots of its handles. -/
theorem ask_ok (id : RuleId) {handles : List Handle} (inside : handles ∈ rule.clauses table) :
    ∃ cardinality, rule.ask table id handles = .ok cardinality ∧
      ∀ choice, cardinality.Mentions choice ↔ table.contains choice = true ∧
        ∃ handle ∈ handles, table.root handle.choice = choice := by
  have sorted := Cardinality.sort_spec table handles
  unfold ask
  cases bounded : rule.bound? with
  | none =>
    have nonempty := clause_ne_nil bounded inside
    refine ⟨_, if_neg fun empty => nonempty (List.isEmpty_iff.mp empty),
      Cardinality.mentions_fold (Nat.le_trans (Nat.le_add_left _ _) sorted.fewer)⟩
  | some bound =>
    obtain ⟨members, rfl, enough⟩ := clause_eq_allOf bounded inside
    have checked : Cardinality.checkCount id bound (allOf members) = .ok () := by
      refine if_neg (Nat.not_lt.mpr ?_)
      unfold allOf
      rwa [List.length_map]
    refine ⟨Cardinality.fold table (allOf members) 0 bound, ?_, Cardinality.mentions_fold ?_⟩
    · dsimp only
      unfold Cardinality.atMost
      rw [checked]
      rfl
    · rw [Cardinality.sort_allOf]
      exact Nat.zero_le _

/-- **Every rule can be defined.** -/
theorem define_ok (table : ChoiceTable) (id : RuleId) (rule : Rule) :
    ∃ constraints, rule.define table id = .ok constraints := by
  rw [define_eq]
  refine mapM_ok_iff.mpr fun handles inside => ?_
  obtain ⟨cardinality, made, _⟩ := ask_ok id inside
  exact ⟨cardinality, made⟩

/-! ### What rules read -/

/-- The choices that the constraints of a rule are about. -/
def reads : Rule → List ChoiceId
  | .mandatory choice => [choice]
  | .optionalSet _ members => if members.length < 2 then [] else members
  | .overriddenSet _ _ members => members
  | .dependsOnly source link exception valid invalid =>
    if link.optional then invalid.flatMap fun choice => source :: choice :: exception.toList
    else source :: valid ++ exception.toList
  | .dependsAny source alternatives exception => source :: alternatives ++ exception.toList
  | .breaksOnly source _ exception _ conflicts =>
    conflicts.flatMap fun choice => source :: choice :: exception.toList
  | .breaksAll source parts exception _ =>
    if parts.isEmpty then [] else source :: parts ++ exception.toList

/-- The choices that a rule has in its lists, of whose removal it takes note. -/
def names : Rule → List ChoiceId
  | .mandatory choice => [choice]
  | .optionalSet _ members => members
  | .overriddenSet _ winner members => winner :: members
  | .dependsOnly source _ exception valid invalid =>
    source :: valid ++ invalid ++ exception.toList
  | .dependsAny source alternatives exception => source :: alternatives ++ exception.toList
  | .breaksOnly source _ exception _ conflicts => source :: conflicts ++ exception.toList
  | .breaksAll source parts exception _ => source :: parts ++ exception.toList

/-- A rule names what it reads. -/
theorem reads_subset_names (rule : Rule) : rule.reads ⊆ rule.names := by
  intro id inside
  cases rule with
  | dependsOnly source link exception valid invalid =>
    unfold reads at inside
    dsimp only at inside
    split at inside <;> (simp [names] at inside ⊢; grind)
  | optionalSet modId members =>
    unfold reads at inside
    dsimp only at inside
    split at inside
    · cases inside
    · exact inside
  | _ => simp [reads, names] at inside ⊢; grind

@[simp] theorem choice_noneOf (table : ChoiceTable) (id : ChoiceId) :
    (noneOf table id).choice = table.root id := rfl

/-- **The handles of a rule are on the roots of what it reads.** -/
theorem exists_clause_iff (acyclic : table.Acyclic) (rule : Rule) (choice : ChoiceId) :
    (∃ handles ∈ rule.clauses table, ∃ handle ∈ handles, table.root handle.choice = choice) ↔
      ∃ read ∈ rule.reads, table.root read = choice := by
  have root_root := fun id => ChoiceTable.root_root (acyclic id)
  have ofChoice : ∀ id, (Handle.ofChoice id).choice = id := fun _ => rfl
  cases rule with
  | mandatory id => simp [clauses, reads, ofChoice]
  | optionalSet modId members =>
    unfold clauses reads
    dsimp only
    split <;> simp [allOf, ofChoice]
  | overriddenSet modId winner members => simp [clauses, reads, allOf, ofChoice]
  | dependsOnly source link exception valid invalid =>
    unfold clauses reads
    dsimp only
    split
    · simp [allOf, ofChoice, root_root, or_and_right, exists_or]
      grind
    · simp [allOf, ofChoice, root_root, or_and_right, exists_or]
  | dependsAny source alternatives exception =>
    simp [clauses, reads, allOf, ofChoice, root_root, or_and_right, exists_or]
  | breaksOnly source link exception role conflicts =>
    cases role with
    | standalone =>
      simp [clauses, reads, breakClause, allOf, ofChoice, root_root, or_and_right, exists_or]
      grind
    | part =>
      simp [clauses, reads, breakClause, allOf, ofChoice, root_root, or_and_right, exists_or]
      grind
  | breaksAll source parts exception role =>
    unfold clauses reads
    dsimp only
    split
    · simp
    · cases role with
      | standalone => simp [breakClause, allOf, ofChoice, root_root, or_and_right, exists_or]
      | part =>
        simp [breakClause, allOf, ofChoice, root_root, or_and_right, exists_or]
        grind

/-- **What a rule is defined to mentions the registered roots of what it reads**, and no other
choice. -/
theorem mentions_iff (acyclic : table.Acyclic) {ruleId : RuleId} {constraints : List Cardinality}
    (defined : rule.define table ruleId = .ok constraints) (choice : ChoiceId) :
    (∃ cardinality ∈ constraints, cardinality.Mentions choice) ↔
      table.contains choice = true ∧ ∃ read ∈ rule.reads, table.root read = choice := by
  rw [define_eq] at defined
  rw [← exists_clause_iff acyclic, exists_mem_of_mapM defined]
  constructor
  · rintro ⟨handles, inside, cardinality, made, mentions⟩
    obtain ⟨other, made', meaning⟩ := ask_ok ruleId inside
    cases made.symm.trans made'
    obtain ⟨registered, within⟩ := (meaning choice).mp mentions
    exact ⟨registered, handles, inside, within⟩
  · rintro ⟨registered, handles, inside, within⟩
    obtain ⟨cardinality, made, meaning⟩ := ask_ok ruleId inside
    exact ⟨handles, inside, cardinality, made, (meaning choice).mpr ⟨registered, within⟩⟩

/-! ### Tables that look alike to a rule -/

theorem noneOf_congr (alike : ChoiceTable.Alike table later id) :
    noneOf later id = noneOf table id := by
  unfold noneOf ChoiceTable.resolve
  rw [show later.root (Handle.ofChoice id).choice = _ from alike.root]
  rfl

theorem breakClause_congr {source : ChoiceId} (alike : ChoiceTable.Alike table later source)
    {targets : List ChoiceId} (alike' : ∀ id ∈ targets, ChoiceTable.Alike table later id)
    (exception : Option ChoiceId) (role : BreakRole) :
    breakClause source exception role later targets =
      breakClause source exception role table targets := by
  have mapped : targets.map (noneOf later) = targets.map (noneOf table) :=
    List.map_congr_left fun id inside => noneOf_congr (alike' id inside)
  unfold breakClause
  rw [mapped, noneOf_congr alike]

/-- A rule has the same clauses where what it reads looks alike. -/
theorem clauses_congr (alike : ∀ read ∈ rule.reads, ChoiceTable.Alike table later read) :
    rule.clauses later = rule.clauses table := by
  cases rule with
  | mandatory choice => rfl
  | optionalSet modId members => rfl
  | overriddenSet modId winner members => rfl
  | dependsOnly source link exception valid invalid =>
    unfold reads at alike
    unfold clauses
    dsimp only at alike ⊢
    split
    · next optional =>
      rw [if_pos optional] at alike
      refine List.map_congr_left fun choice inside => ?_
      have both := fun read here => alike read (List.mem_flatMap.mpr ⟨choice, inside, here⟩)
      rw [noneOf_congr (both source (by simp)), noneOf_congr (both choice (by simp))]
    · next required =>
      rw [if_neg required] at alike
      rw [noneOf_congr (alike source (by simp))]
  | dependsAny source alternatives exception =>
    unfold clauses
    dsimp only
    rw [noneOf_congr (alike source (by simp [reads]))]
  | breaksOnly source link exception role conflicts =>
    refine List.map_congr_left fun choice inside => ?_
    have both := fun read here => alike read (List.mem_flatMap.mpr ⟨choice, inside, here⟩)
    exact breakClause_congr (both source (by simp))
      (List.forall_mem_singleton.mpr (both choice (by simp))) exception role
  | breaksAll source parts exception role =>
    unfold reads at alike
    unfold clauses
    dsimp only at alike ⊢
    split
    · rfl
    · next some =>
      rw [if_neg some] at alike
      rw [breakClause_congr (alike source (by simp))
        (fun id inside => alike id (by simp [inside])) exception role]

/-- A handle of a rule is on a choice that the rule reads, or on its root. -/
theorem mem_clause {handles : List Handle} (inside : handles ∈ rule.clauses table)
    {handle : Handle} (member : handle ∈ handles) :
    ∃ read ∈ rule.reads, handle.choice = read ∨ handle.choice = table.root read := by
  have ofChoice : ∀ id, (Handle.ofChoice id).choice = id := fun _ => rfl
  cases rule with
  | mandatory choice =>
    simp only [clauses, reads] at inside ⊢
    grind
  | optionalSet modId members =>
    simp only [clauses, reads, allOf] at inside ⊢
    grind
  | overriddenSet modId winner members =>
    simp only [clauses, reads, allOf] at inside ⊢
    grind
  | dependsOnly source link exception valid invalid =>
    simp only [clauses, reads, allOf] at inside ⊢
    grind [choice_noneOf]
  | dependsAny source alternatives exception =>
    simp only [clauses, reads, allOf] at inside ⊢
    grind [choice_noneOf]
  | breaksOnly source link exception role conflicts =>
    simp only [clauses, reads, breakClause, allOf] at inside ⊢
    cases role <;> grind [choice_noneOf]
  | breaksAll source parts exception role =>
    simp only [clauses, reads, breakClause, allOf] at inside ⊢
    cases role <;> grind [choice_noneOf]

/-- **A rule is defined alike where what it reads looks alike.** -/
theorem define_congr (acyclic : table.Acyclic) (acyclic' : later.Acyclic) (ruleId : RuleId)
    (alike : ∀ read ∈ rule.reads, ChoiceTable.Alike table later read) :
    rule.define later ruleId = rule.define table ruleId := by
  rw [define_eq, define_eq, clauses_congr alike]
  refine mapM_congr fun handles inside => ?_
  have alike' : ∀ handle ∈ handles, ChoiceTable.Alike table later handle.choice := by
    intro handle member
    obtain ⟨read, given, same | same⟩ := mem_clause inside member
    · rw [same]
      exact alike read given
    · rw [same]
      exact (alike read given).of_root acyclic acyclic'
  have folded := Cardinality.fold_congr alike'
  unfold ask Cardinality.atMost Cardinality.atLeastOneOf
  rw [folded]
  split
  · rw [folded]
  · rfl

/-! ### Taking note of choices -/

/-- **A rule takes note of a removal when it names the choice.** -/
theorem choiceRemoved_fst : (rule.choiceRemoved id).1 = true ↔ id ∈ rule.names := by
  cases rule <;> simp [choiceRemoved, names] <;> grind

/-- Other rules stay as they are. -/
theorem choiceRemoved_of_unnamed (unnamed : id ∉ rule.names) :
    rule.choiceRemoved id = (false, rule) := by
  have erase := fun (members : List ChoiceId) => List.erase_of_not_mem (a := id) (l := members)
  cases rule <;> simp [choiceRemoved, names] at unnamed ⊢ <;> grind

/-- A removal adds no names. -/
theorem names_choiceRemoved (rule : Rule) (id : ChoiceId) :
    (rule.choiceRemoved id).2.names ⊆ rule.names := by
  intro name inside
  cases rule <;> simp [choiceRemoved, names] at inside ⊢ <;> grind [List.mem_of_mem_erase]

/-- What comes of a new choice: a rule stays as it is, or takes note and names the choice
besides. -/
def Noted (id : ChoiceId) (rule : Rule) (outcome : Bool × Rule) : Prop :=
  outcome = (false, rule) ∨
    outcome.1 = true ∧ ∀ name ∈ outcome.2.names, name = id ∨ name ∈ rule.names

/-- A choice may be inserted into one of the lists of a rule. -/
theorem noted_insertNew {members : List ChoiceId} (make : List ChoiceId → Rule)
    (named : ∀ name ∈ (make (members ++ [id])).names, name = id ∨ name ∈ (make members).names) :
    Noted id (make members) ((insertNew id members).1, make (insertNew id members).2) := by
  unfold insertNew
  split
  · exact .inl rfl
  · exact .inr ⟨rfl, named⟩

/-- **A rule that takes no note of a new choice stays as it is**, and another one names that choice
besides. -/
theorem noted_choiceAdded (table : ChoiceTable) (id : ChoiceId) (rule : Rule) :
    Noted id rule (rule.choiceAdded table id) := by
  cases rule with
  | optionalSet modId members =>
    unfold choiceAdded
    dsimp only
    split
    · exact noted_insertNew (.optionalSet modId) (by simp [names]; grind)
    · exact .inl rfl
  | overriddenSet modId winner members =>
    unfold choiceAdded
    dsimp only
    split
    · exact noted_insertNew (.overriddenSet modId winner) (by simp [names]; grind)
    · exact .inl rfl
  | dependsOnly source link exception valid invalid =>
    unfold choiceAdded
    dsimp only
    split
    · exact noted_insertNew (fun valid => .dependsOnly source link exception valid invalid)
        (by simp [names]; grind)
    · exact noted_insertNew (.dependsOnly source link exception valid) (by simp [names]; grind)
    · exact .inl rfl
  | breaksOnly source link exception role conflicts =>
    unfold choiceAdded
    dsimp only
    split
    · exact noted_insertNew (.breaksOnly source link exception role) (by simp [names]; grind)
    · exact .inl rfl
  | _ => exact .inl rfl

end Rule

end Loadout
