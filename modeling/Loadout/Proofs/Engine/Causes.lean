/-
**Outermost rules and the causes that can be removed.**

A conflict is told by its outermost rules. Those that are not mandatory can be removed, each with
its whole tree (`Forest.TopRule`, `Forest.without`):

* `Linked.size_remove`: every removal leaves fewer rules;
* `Settled.under`: rules that are up to date stay so when others are taken away;
* **`Linked.without_spec`**: what is missing after some removals are just the trees of the rules
  that were removed, and the other rules are what they were;
* `mem_outermost`: the outermost rules of a conflict are those above its rules;
* **`pickRemoval_none`**: nothing is left to remove only where no cause is optional.
-/

import Loadout.Proofs.Engine.Trees

namespace Loadout

namespace Forest

variable {table : ChoiceTable} {forest old new : Forest} {id : RuleId}

/-! ### Registered rules and their number -/

/-- The numbers of the registered rules. -/
def ids (forest : Forest) : List RuleId :=
  forest.toList.map Prod.fst

theorem mem_ids : id ∈ forest.ids ↔ forest.contains id = true := by
  unfold ids
  rw [List.mem_map, contains_iff]
  constructor
  · rintro ⟨⟨other, node⟩, inside, rfl⟩
    exact ⟨node, mem_toList_iff.mp inside⟩
  · rintro ⟨node, found⟩
    exact ⟨(id, node), mem_toList_iff.mpr found, rfl⟩

theorem nodup_ids (forest : Forest) : forest.ids.Nodup := by
  have distinct := forest.constraints_nodup
  unfold constraints at distinct
  rw [List.map_map] at distinct
  exact distinct

/-- Distinct registered rules are no more than there are rules. -/
theorem length_le_size {rules : List RuleId} (distinct : rules.Nodup)
    (registered : ∀ id ∈ rules, forest.contains id = true) : rules.length ≤ forest.size := by
  have within := distinct.length_le_of_subset
    (show rules ⊆ forest.ids from fun id inside => mem_ids.mpr (registered id inside))
  unfold ids at within
  rw [List.length_map] at within
  exact within

theorem length_ids (forest : Forest) : forest.ids.length = forest.size :=
  List.length_map ..

/-- The same rules are as many. -/
theorem size_congr (same : ∀ id, new.contains id = old.contains id) : new.size = old.size := by
  refine Nat.le_antisymm ?_ ?_
  · rw [← length_ids new]
    refine length_le_size (nodup_ids new) fun id inside => ?_
    rw [← same]
    exact mem_ids.mp inside
  · rw [← length_ids old]
    refine length_le_size (nodup_ids old) fun id inside => ?_
    rw [same]
    exact mem_ids.mp inside

/-- Removing a registered rule leaves fewer rules. -/
theorem Linked.size_remove (linked : forest.Linked) (registered : forest.contains id = true) :
    (forest.remove id).2.size < forest.size := by
  have gone : id ∉ (forest.remove id).2.ids := by
    intro inside
    have stays := (contains_remove forest id id).mp (mem_ids.mp inside)
    exact stays.2 (linked.mem_subtree.mpr ⟨registered, .same⟩)
  have known : ∀ other ∈ id :: (forest.remove id).2.ids, forest.contains other = true := by
    refine List.forall_mem_cons.mpr ⟨registered, fun other kept => ?_⟩
    exact ((contains_remove forest id other).mp (mem_ids.mp kept)).1
  have within := length_le_size (List.nodup_cons.mpr ⟨gone, nodup_ids _⟩) known
  rw [List.length_cons, length_ids] at within
  exact within

/-- What is up to date stays so when rules are taken away. -/
theorem Settled.under (settled : Settled table old) (under : Under old new) :
    Settled table new where
  fresh id node found := by
    obtain ⟨above, found', same⟩ := under id node found
    exact same.stale.trans (settled.fresh id above found')
  rooted rule inside := by
    obtain ⟨node, found, same⟩ := mem_constraints.mp inside
    obtain ⟨above, found', alike⟩ := under rule.1 node found
    rw [← same, alike.constraints]
    exact settled.rooted (rule.1, above.constraints) (mem_constraints.mpr ⟨above, found', rfl⟩)

/-! ### Outermost rules -/

/-- A registered rule without a parent, which is mandatory or not. -/
structure TopRule (forest : Forest) (mandatory : Bool) (id : RuleId) : Prop where
  registered : forest.contains id = true
  outer : forest.parent? id = none
  kind : (forest.rule? id).any Rule.isMandatory = mandatory

/-- What is left after a removal was there before. -/
theorem TopRule.of_remove {removed : RuleId} {mandatory : Bool}
    (top : TopRule (forest.remove removed).2 mandatory id) : TopRule forest mandatory id := by
  obtain ⟨registered, outer, kind⟩ := top
  obtain ⟨known, outside⟩ := (contains_remove forest removed id).mp registered
  rw [parent?_remove, if_neg outside] at outer
  rw [rule?_remove, if_neg outside] at kind
  exact ⟨known, outer, kind⟩

theorem TopRule.of_sameTree {mandatory : Bool} (same : SameTree old new)
    (rules : ∀ id, new.rule? id = old.rule? id) (top : TopRule new mandatory id) :
    TopRule old mandatory id := by
  obtain ⟨registered, outer, kind⟩ := top
  rw [same.contains] at registered
  rw [same.parent] at outer
  rw [rules] at kind
  exact ⟨registered, outer, kind⟩

theorem TopRule.mandatory (required : TopRule forest true id) :
    ∃ choice, forest.rule? id = some (.mandatory choice) := by
  have kind := required.kind
  cases given : forest.rule? id with
  | none =>
    rw [given] at kind
    cases kind
  | some rule =>
    rw [given] at kind
    have mandatory : rule.isMandatory = true := kind
    cases rule with
    | mandatory choice => exact ⟨choice, rfl⟩
    | _ => cases mandatory

/-- No rule is both mandatory and not. -/
theorem TopRule.unlike (required : TopRule forest true id) : ¬TopRule forest false id := by
  intro optional
  have impossible := required.kind.symm.trans optional.kind
  cases impossible

/-- A forest after some rules have been removed, one after another. -/
def without (victims : List RuleId) (forest : Forest) : Forest :=
  victims.foldl (fun forest victim => (forest.remove victim).2) forest

/-- **What is missing after some outermost rules have been removed are just their trees**, and the
other rules are what they were. -/
theorem Linked.without_spec (linked : forest.Linked) {victims : List RuleId}
    (tops : ∀ victim ∈ victims, forest.parent? victim = none) (id : RuleId) :
    ((forest.without victims).contains id = true ↔
      forest.contains id = true ∧ ∀ victim ∈ victims, id ∉ forest.subtree victim) ∧
    ((forest.without victims).contains id = true →
      (forest.without victims).rule? id = forest.rule? id ∧
      (forest.without victims).parent? id = forest.parent? id) := by
  induction victims generalizing forest with
  | nil =>
    exact ⟨(and_iff_left fun victim inside => absurd inside List.not_mem_nil).symm,
      fun _ => ⟨rfl, rfl⟩⟩
  | cons first rest ih =>
    obtain ⟨outer, others⟩ := List.forall_mem_cons.mp tops
    have outer' : ∀ victim, forest.parent? victim = none →
        (forest.remove first).2.parent? victim = none := by
      intro victim none
      rw [parent?_remove, none]
      exact ite_self _
    obtain ⟨left, kept⟩ := ih (linked.remove first) fun victim inside =>
      outer' victim (others victim inside)
    have later : (forest.without (first :: rest)) = (forest.remove first).2.without rest := rfl
    -- for what stays, the trees of the later victims are what they were
    have same : ∀ victim ∈ rest, id ∉ forest.subtree first → forest.contains id = true →
        (id ∈ (forest.remove first).2.subtree victim ↔ id ∈ forest.subtree victim) := by
      intro victim inside outside registered
      have none := others victim inside
      rw [(linked.remove first).mem_subtree, linked.mem_subtree]
      have tree : Below (forest.remove first).2 victim id ↔ Below forest victim id := by
        have alike := linked.topLevel_remove outside
        have one := @Linked.topLevel_eq_iff _ id victim (linked.remove first)
        have two := @Linked.topLevel_eq_iff _ id victim linked
        rw [alike, two, and_iff_right none, and_iff_right (outer' victim none)] at one
        exact one.symm
      rw [tree]
      refine and_congr_left fun below => ?_
      have climbs := linked.topLevel_eq_iff.mpr ⟨none, below⟩
      have known := climbs ▸ linked.contains_topLevel registered
      refine iff_of_true ((contains_remove forest first victim).mpr ⟨known, fun within => ?_⟩) known
      obtain ⟨known', below'⟩ := linked.mem_subtree.mp within
      exact outside (linked.mem_subtree.mpr ⟨known', below'.trans below⟩)
    rw [later]
    refine ⟨?_, fun stays => ?_⟩
    · rw [left, contains_remove, List.forall_mem_cons, and_assoc]
      refine and_congr_right fun registered => and_congr_right fun outside => ?_
      exact forall₂_congr fun victim inside => not_congr (same victim inside outside registered)
    · obtain ⟨rule, parent⟩ := kept stays
      obtain ⟨_, outside⟩ := (contains_remove forest first id).mp (left.mp stays).1
      rw [rule, parent, rule?_remove, parent?_remove, if_neg outside, if_neg outside]
      exact ⟨rfl, rfl⟩

/-! ### Causes -/

/-- Each element of a list is kept once. -/
theorem nodup_eraseDups (list : List RuleId) : list.eraseDups.Nodup := by
  induction length : list.length using Nat.strong_induction_on generalizing list with
  | _ size ih =>
    cases list with
    | nil => exact List.nodup_nil
    | cons first rest =>
      rw [List.eraseDups_cons, List.nodup_cons, List.mem_eraseDups]
      refine ⟨fun inside => ?_, ih _ ?_ _ rfl⟩
      · simpa using (List.mem_filter.mp inside).2
      · rw [← length, List.length_cons]
        exact Nat.lt_succ_of_le (List.length_filter_le ..)

theorem nodup_outermost (forest : Forest) (core : List RuleId) :
    (Engine.outermost forest core).Nodup :=
  nodup_eraseDups _

theorem mem_outermost {core : List RuleId} :
    id ∈ Engine.outermost forest core ↔ ∃ rule ∈ core, forest.topLevel rule = id := by
  unfold Engine.outermost
  rw [List.mem_eraseDups, List.mem_mergeSort, List.mem_map]

/-- The outermost rules of registered rules are registered and have no parent. -/
theorem Linked.topRule_of_mem_outermost (linked : forest.Linked) {core : List RuleId}
    (registered : ∀ id ∈ core, forest.contains id = true)
    (inside : id ∈ Engine.outermost forest core) :
    TopRule forest ((forest.rule? id).any Rule.isMandatory) id := by
  obtain ⟨rule, member, rfl⟩ := mem_outermost.mp inside
  exact ⟨linked.contains_topLevel (registered rule member), (linked.below_topLevel rule).1, rfl⟩

/-- An optional rule has a rank. -/
theorem TopRule.ranked (optional : TopRule forest false id) :
    ∃ rank, (forest.rule? id).bind (forest.removalRank id) = some rank := by
  obtain ⟨registered, _, kind⟩ := optional
  obtain ⟨node, found⟩ := contains_iff.mp registered
  have given : forest.rule? id = some node.rule := by
    unfold rule?
    rw [found]
    rfl
  rw [given] at kind ⊢
  have other : node.rule.isMandatory = false := kind
  show ∃ rank, forest.removalRank id node.rule = some rank
  cases rule : node.rule with
  | mandatory choice =>
    rw [rule] at other
    cases other
  | _ => exact ⟨_, rfl⟩

/-- Something is better than nothing. -/
theorem foldl_better_ne_none (ranked : List (Nat × RuleId)) {best : Option (Nat × RuleId)}
    (given : best ≠ none) : ranked.foldl better best ≠ none := by
  induction ranked generalizing best with
  | nil => exact given
  | cons entry rest ih =>
    refine ih ?_
    unfold better
    split
    · exact nofun
    · split <;> exact nofun

/-- **Nothing is left to remove only where no cause is optional.** -/
theorem pickRemoval_none {causes : List RuleId} (nothing : forest.pickRemoval causes = none) :
    ∀ id ∈ causes, ¬TopRule forest false id := by
  intro id inside optional
  obtain ⟨rank, ranked⟩ := optional.ranked
  have listed : (rank, id) ∈ causes.filterMap fun id =>
      ((forest.rule? id).bind (forest.removalRank id)).map fun rank => (rank, id) :=
    List.mem_filterMap.mpr ⟨id, inside, by rw [ranked]; rfl⟩
  unfold pickRemoval at nothing
  have none := Option.map_eq_none_iff.mp nothing
  generalize (causes.filterMap fun id =>
    ((forest.rule? id).bind (forest.removalRank id)).map fun rank => (rank, id)) = entries
    at listed none
  cases entries with
  | nil => exact List.not_mem_nil listed
  | cons entry rest => exact foldl_better_ne_none rest (Option.some_ne_none entry) none

/-- The rule to remove is one of the causes. -/
theorem pickRemoval_mem {causes : List RuleId} {victim : RuleId}
    (picked : forest.pickRemoval causes = some victim) : victim ∈ causes := by
  unfold pickRemoval at picked
  obtain ⟨⟨rank, id⟩, best, rfl⟩ := Option.map_eq_some_iff.mp picked
  rcases mem_of_foldl_better best with inside | nothing
  · obtain ⟨cause, member, ranked⟩ := List.mem_filterMap.mp inside
    obtain ⟨value, _, equal⟩ := Option.map_eq_some_iff.mp ranked
    cases equal
    exact member
  · cases nothing

end Forest

end Loadout
