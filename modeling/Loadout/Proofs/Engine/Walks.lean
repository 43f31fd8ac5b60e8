/-
**Walks along the rules.**

The walk up from a rule goes from parent to parent (`Forest.Climbs`). The walk down takes rules from
a stack, and puts the parts of each on top of it (`Forest.Visits`). Neither is given a bound. In the
forest of an engine in use both end:

* `Linked.climbs_iff`: the walk up ends in the outermost rule, and nowhere else;
* `Linked.subtree_eq`: a subtree is a rule and then the subtrees of its parts;
* `Linked.visits_iff`: the walk down gives the subtree, and nothing else;
* `Linked.nodup_subtree`: no rule is in a subtree twice;
* `InUse.ascending`: parts are listed in the order in which they were added;
* `Later.numbered`: numbers are not used again;
* **`rules_form_forest`**: all of this of every engine in use, and that removing a rule takes away
  its subtree alone.
-/

import Loadout.Proofs.Engine.Counts
import Loadout.Proofs.Engine.Protocol
import Mathlib.Data.Set.Card

namespace Loadout

namespace Forest

variable {forest old new : Forest} {id above parent child top : RuleId}

/-! ### Below a rule -/

/-- What is below a rule has no smaller number. -/
theorem Linked.le_of_below (linked : forest.Linked) (below : Below forest above id) :
    above ≤ id := by
  induction below with
  | same => exact Nat.le_refl _
  | part up _ ih => exact Nat.le_trans ih (Nat.le_of_lt (linked.upward _ _ up).1)

/-- Of two rules above a third one, one is above the other. -/
theorem Below.comparable {other : RuleId} (one : Below forest above id)
    (two : Below forest other id) : Below forest above other ∨ Below forest other above := by
  induction one with
  | same => exact .inr two
  | part up one' ih =>
    cases two with
    | same => exact .inl (.part up one')
    | part up' two' =>
      cases up.symm.trans up'
      exact ih two'

/-- The subtrees of two parts of one rule have nothing in common. -/
theorem Linked.eq_of_below (linked : forest.Linked) {other : RuleId}
    (part : forest.parent? child = some parent) (part' : forest.parent? other = some parent)
    (one : Below forest child id) (two : Below forest other id) : child = other := by
  have only : ∀ {first second : RuleId}, forest.parent? first = some parent →
      forest.parent? second = some parent → Below forest first second → first = second := by
    intro first second up up' below
    cases below with
    | same => rfl
    | part up'' below' =>
      cases up'.symm.trans up''
      have less := (linked.upward first parent up).1
      exact absurd (linked.le_of_below below') (Nat.not_le_of_lt less)
  rcases one.comparable two with below | below
  · exact only part part' below
  · exact (only part' part below).symm

/-- A part is nearer to the last number than its parent. -/
theorem Linked.nearer (linked : forest.Linked) (listed : child ∈ forest.children id) {gap : Nat}
    (within : forest.nodes.size ≤ id + gap + 1) : forest.nodes.size ≤ child + gap := by
  have less := (linked.upward child id ((linked.parts id child).mp listed)).1
  rw [Nat.add_right_comm] at within
  exact within.trans (Nat.add_le_add_right less gap)

/-- **Induction from the parts of a rule to the rule**, which ends because numbers grow on the way
down. -/
theorem Linked.downward (linked : forest.Linked) {holds : RuleId → Prop}
    (step : ∀ id, (∀ child ∈ forest.children id, holds child) → holds id) (id : RuleId) :
    holds id := by
  have bounded : ∀ gap id, forest.nodes.size ≤ id + gap → holds id := by
    intro gap
    induction gap with
    | zero =>
      refine fun id within => step id fun child listed => ?_
      have up := (linked.parts id child).mp listed
      have inside := lt_of_contains (linked.upward child id up).2
      exact absurd inside (Nat.not_lt_of_le within)
    | succ gap ih =>
      exact fun id within => step id fun child listed => ih child (linked.nearer listed within)
  exact bounded forest.nodes.size id (Nat.le_add_left _ _)

/-! ### The walk up -/

/-- **The walk from a rule to its parent, and on from there**, as long as there is a parent. -/
inductive Climbs (forest : Forest) : RuleId → RuleId → Prop
  | stop {id : RuleId} : forest.parent? id = none → Climbs forest id id
  | up {id parent top : RuleId} : forest.parent? id = some parent → Climbs forest parent top →
    Climbs forest id top

theorem Climbs.outer (climbs : forest.Climbs id top) : forest.parent? top = none := by
  induction climbs with
  | stop outer => exact outer
  | up _ _ ih => exact ih

theorem Climbs.is_below (climbs : forest.Climbs id top) : Below forest top id := by
  induction climbs with
  | stop _ => exact .same
  | up up _ ih => exact .part up ih

theorem climbs_of_below (outer : forest.parent? top = none) (below : Below forest top id) :
    forest.Climbs id top := by
  induction below with
  | same => exact .stop outer
  | part up _ ih => exact .up up ih

/-- **The walk up ends in the outermost rule**, and nowhere else. -/
theorem Linked.climbs_iff (linked : forest.Linked) :
    forest.Climbs id top ↔ top = forest.topLevel id := by
  rw [eq_comm, linked.topLevel_eq_iff]
  constructor
  · exact fun climbs => ⟨climbs.outer, climbs.is_below⟩
  · exact fun ⟨outer, below⟩ => climbs_of_below outer below

/-! ### The walk down -/

/-- **The walk that takes the rule on top of a stack, and puts its parts there instead**, until the
stack is empty; it gives the rules in the order in which they are taken. -/
inductive Visits (forest : Forest) : List RuleId → List RuleId → Prop
  | done : Visits forest [] []
  | visit {id : RuleId} {stack visited : List RuleId} :
    Visits forest (forest.children id ++ stack) visited →
    Visits forest (id :: stack) (id :: visited)

/-- A walk has one outcome at most. -/
theorem Visits.unique {stack visited visited' : List RuleId} (one : forest.Visits stack visited)
    (two : forest.Visits stack visited') : visited = visited' := by
  induction one generalizing visited' with
  | done => cases two; rfl
  | visit _ ih =>
    cases two with
    | visit rest => rw [ih rest]

/-- A descent as deep as there are rules goes far enough. -/
theorem Linked.descend_succ (linked : forest.Linked) {depth : Nat}
    (within : forest.nodes.size ≤ id + depth + 1) :
    forest.descend (depth + 1) id = forest.descend depth id := by
  induction depth generalizing id with
  | zero =>
    have none : forest.children id = [] := by
      refine List.eq_nil_iff_forall_not_mem.mpr fun child listed => ?_
      have inside := lt_of_contains (contains_of_parent? ((linked.parts id child).mp listed))
      have beyond : forest.nodes.size ≤ child + 0 := linked.nearer listed within
      exact absurd inside (Nat.not_lt_of_le beyond)
    unfold descend
    rw [none]
    rfl
  | succ depth ih =>
    rw [descend, descend]
    exact congrArg _ (List.flatMap_congr fun child listed => ih (linked.nearer listed within))

/-- **A subtree is a rule, and then the subtrees of its parts** one after the other. -/
theorem Linked.subtree_eq (linked : forest.Linked) (registered : forest.contains id = true) :
    forest.subtree id = id :: (forest.children id).flatMap forest.subtree := by
  conv_lhs => unfold subtree
  rw [if_pos registered, ← linked.descend_succ (Nat.le_succ_of_le (Nat.le_add_left _ _)), descend]
  refine congrArg _ (List.flatMap_congr fun child listed => ?_)
  have registered' := contains_of_parent? ((linked.parts id child).mp listed)
  unfold subtree
  rw [if_pos registered']

/-- The rules on top of a stack are visited before those below them. -/
theorem visits_append {ids : List RuleId}
    (each : ∀ id ∈ ids, ∀ stack visited, forest.Visits stack visited →
      forest.Visits (id :: stack) (forest.subtree id ++ visited))
    {stack visited : List RuleId} (rest : forest.Visits stack visited) :
    forest.Visits (ids ++ stack) (ids.flatMap forest.subtree ++ visited) := by
  induction ids with
  | nil => exact rest
  | cons first others ih =>
    rw [List.cons_append, List.flatMap_cons, List.append_assoc]
    exact each first List.mem_cons_self _ _
      (ih fun id listed => each id (List.mem_cons_of_mem _ listed))

/-- The walk down from a rule gives its subtree before all else. -/
theorem Linked.visits_cons (linked : forest.Linked) (id : RuleId) :
    forest.contains id = true → ∀ stack visited, forest.Visits stack visited →
      forest.Visits (id :: stack) (forest.subtree id ++ visited) := by
  induction id using linked.downward with
  | step id ih =>
    intro registered stack visited rest
    rw [linked.subtree_eq registered, List.cons_append]
    refine .visit (visits_append (fun child listed => ?_) rest)
    exact ih child listed (contains_of_parent? ((linked.parts id child).mp listed))

/-- **The walk down from a rule gives its subtree**, and nothing else. -/
theorem Linked.visits_iff (linked : forest.Linked) (registered : forest.contains id = true)
    {visited : List RuleId} : forest.Visits [id] visited ↔ visited = forest.subtree id := by
  have visits := linked.visits_cons id registered [] [] .done
  rw [List.append_nil] at visits
  constructor
  · exact fun other => other.unique visits
  · rintro rfl
    exact visits

/-! ### Parts in their order -/

/-- **Parts are listed in ascending order** of their numbers. -/
def Ascending (forest : Forest) : Prop :=
  ∀ id, (forest.children id).Pairwise (· < ·)

theorem Ascending.nodup_children (ascending : forest.Ascending) (id : RuleId) :
    (forest.children id).Nodup :=
  (ascending id).imp Nat.ne_of_lt

theorem Ascending.of_sameTree (ascending : old.Ascending) (same : SameTree old new) :
    new.Ascending :=
  fun id => same.children id ▸ ascending id

/-- A new rule comes last among the parts of its parent. -/
theorem Ascending.add (ascending : forest.Ascending) (linked : forest.Linked) (rule : Rule)
    {up : Option RuleId}
    (registered : ∀ parent, up = some parent → forest.contains parent = true) :
    (forest.add rule up).2.Ascending := by
  intro id
  rw [children_add rule registered]
  split
  · refine List.pairwise_append.mpr ⟨ascending id, List.pairwise_singleton _ _, ?_⟩
    intro child listed last new
    rw [List.mem_singleton.mp new]
    exact lt_of_contains (contains_of_parent? ((linked.parts id child).mp listed))
  · exact ascending id

theorem Ascending.remove (ascending : forest.Ascending) (removed : RuleId) :
    (forest.remove removed).2.Ascending := by
  intro id
  unfold children
  rw [node?_remove]
  split
  · exact List.Pairwise.nil
  · have before := ascending id
    unfold children at before
    cases found : forest.node? id with
    | none => exact List.Pairwise.nil
    | some node =>
      rw [found] at before
      change node.children.Pairwise (· < ·) at before
      show (if forest.parent? removed = some id then _ else node).children.Pairwise (· < ·)
      split
      · exact before.filter _
      · exact before

/-- **No rule is in a subtree twice.** -/
theorem Linked.nodup_subtree (linked : forest.Linked) (ascending : forest.Ascending)
    (id : RuleId) : (forest.subtree id).Nodup := by
  induction id using linked.downward with
  | step id ih =>
    cases registered : forest.contains id with
    | false =>
      unfold subtree
      rw [registered]
      exact List.nodup_nil
    | true =>
      rw [linked.subtree_eq registered]
      refine List.nodup_cons.mpr ⟨fun inside => ?_, List.nodup_flatMap.mpr ⟨ih, ?_⟩⟩
      · obtain ⟨child, listed, inside'⟩ := List.mem_flatMap.mp inside
        have less := (linked.upward child id ((linked.parts id child).mp listed)).1
        have below := (linked.mem_subtree.mp inside').2
        exact absurd (linked.le_of_below below) (Nat.not_le_of_lt less)
      · refine (ascending.nodup_children id).pairwise_of_forall_ne fun child listed other listed' => ?_
        intro different common one two
        exact different (linked.eq_of_below ((linked.parts id child).mp listed)
          ((linked.parts id other).mp listed') (linked.mem_subtree.mp one).2
          (linked.mem_subtree.mp two).2)

/-! ### Numbers -/

theorem size_add (rule : Rule) (up : Option RuleId) (forest : Forest) :
    (forest.add rule up).2.nodes.size = forest.nodes.size + 1 := by
  unfold add
  cases up with
  | none => exact Array.size_push _
  | some parent => exact (Array.size_push _).trans (congrArg (· + 1) (Array.size_modify ..))

theorem size_foldl_vacate (ids : List RuleId) (forest : Forest) :
    (ids.foldl vacate forest).nodes.size = forest.nodes.size := by
  induction ids generalizing forest with
  | nil => rfl
  | cons first rest ih =>
    refine (ih _).trans ?_
    unfold vacate
    split
    · exact Array.size_setIfInBounds
    · rfl

/-- Numbers of rules that are removed are left free. -/
theorem size_remove (id : RuleId) (forest : Forest) :
    (forest.remove id).2.nodes.size = forest.nodes.size := by
  unfold remove
  dsimp only
  split
  · exact (Array.size_modify ..).trans (size_foldl_vacate _ _)
  · exact size_foldl_vacate _ _

end Forest

namespace Engine

variable {engine after later : Engine} {id : RuleId}

/-! ### Engines in use -/

/-- **In every engine in use, parts are listed in ascending order.** -/
theorem InUse.ascending (inUse : engine.InUse) : engine.forest.Ascending := by
  induction inUse with
  | create config signal => exact fun _ => List.Pairwise.nil
  | @perform engine call inUse ascending =>
    have turn := turn_perform engine call
    generalize (engine.perform call).choices = choices at turn
    generalize (engine.perform call).forest = forest at turn ⊢
    cases turn with
    | still _ => exact ascending
    | renewed _ anew _ _ => exact ascending.of_sameTree anew.sameTree
    | choiceAdded _ _ => exact ascending.of_sameTree (Forest.sameTree_react _ _)
    | weightSet _ _ _ => exact ascending
    | choiceRemoved _ _ => exact ascending.of_sameTree (Forest.sameTree_react _ _)
    | ruleAdded rule _ _ known =>
      exact (ascending.add inUse.linked (acquaint engine.choices rule) known).of_sameTree
        (Forest.sameTree_modify _ _ _ (fun _ => rfl) fun _ => rfl)
    | ruleRemoved id _ => exact ascending.remove id

/-- No call gives back a number. -/
theorem size_le_perform (engine : Engine) (call : Call) :
    engine.forest.nodes.size ≤ (engine.perform call).forest.nodes.size := by
  have turn := turn_perform engine call
  generalize (engine.perform call).choices = choices at turn
  generalize (engine.perform call).forest = forest at turn ⊢
  cases turn with
  | still _ => exact Nat.le_refl _
  | renewed _ _ _ size => exact size.ge
  | choiceAdded _ _ => exact (Array.size_map ..).ge
  | weightSet _ _ _ => exact Nat.le_refl _
  | choiceRemoved _ _ => exact (Array.size_map ..).ge
  | ruleAdded rule parent _ _ =>
    have size := Forest.size_add (acquaint engine.choices rule) parent engine.forest
    exact (Nat.le_succ _).trans (size.ge.trans (Array.size_modify ..).ge)
  | ruleRemoved id _ => exact (Forest.size_remove id _).ge

theorem Later.size_le (way : Later engine later) :
    engine.forest.nodes.size ≤ later.forest.nodes.size := by
  induction way with
  | same => exact Nat.le_refl _
  | perform call _ ih => exact ih.trans (size_le_perform _ call)

/-- A rule that is added gets the next number. -/
theorem numbered_addRule {rule : Rule} {up : Option RuleId}
    (done : engine.addRule rule up = (.ok id, after)) :
    id = engine.forest.nodes.size ∧ after.forest.nodes.size = engine.forest.nodes.size + 1 := by
  have edit := edit_addRule rule up engine
  rw [done] at edit
  obtain ⟨number, _, _, constraints, _, made⟩ := edit.of_ok
  refine ⟨number, ?_⟩
  rw [made]
  exact (Array.size_modify ..).trans (Forest.size_add ..)

/-- **Numbers are not used again**: a rule that is added later has a greater one. -/
theorem Later.numbered {first second : Engine} {rule rule' : Rule} {up up' : Option RuleId}
    {id id' : RuleId} (done : engine.addRule rule up = (.ok id, first)) (way : Later first later)
    (done' : later.addRule rule' up' = (.ok id', second)) : id < id' := by
  obtain ⟨number, size⟩ := numbered_addRule done
  obtain ⟨number', _⟩ := numbered_addRule done'
  rw [number, number']
  exact Nat.lt_of_succ_le (size.ge.trans way.size_le)

/-- **A rule is removed with its subtree** if it may be, and nothing else is changed. -/
theorem removeRule_registered (linked : engine.forest.Linked)
    (free : engine.editFault? .removeRule = none)
    (registered : engine.forest.contains id = true) :
    ∃ after, engine.removeRule id = (.ok (engine.forest.subtree id), after) ∧
      ∀ other, after.forest.node? other =
        if other ∈ engine.forest.subtree id then none
        else (engine.forest.node? other).map fun node =>
          { node with children := node.children.filter (· != id) } := by
  refine ⟨_, removeRule_eq free registered, fun other => (Forest.node?_remove engine.forest id other).trans ?_⟩
  refine if_congr Iff.rfl rfl (Option.map_congr fun node found => ?_)
  split
  · rfl
  · next apart =>
    -- a rule that is not the parent does not list the removed one
    have unlisted : id ∉ node.children := fun listed => apart <| (linked.parts other id).mp <| by
      unfold Forest.children
      rw [found]
      exact listed
    have kept : node.children.filter (· != id) = node.children :=
      List.filter_eq_self.mpr fun child inside =>
        bne_iff_ne.mpr fun same : child = id => unlisted (same ▸ inside)
    rw [kept]

/-- A rule that may not be removed stays, and all others too. -/
theorem removeRule_refused (closed : ¬(engine.editFault? .removeRule = none ∧
    engine.forest.contains id = true)) : (engine.removeRule id).2 = engine := by
  have edit := edit_removeRule id engine
  generalize engine.removeRule id = outcome at edit
  cases edit with
  | closed | faulty => rfl
  | done removed free made => exact absurd ⟨free, made.1⟩ closed

/-- **The rules of every engine in use form a forest.** Whatever calls were made before, whether
they failed or not:

* the parent of a rule is registered, has a smaller number and lists the rule once, and what a rule
  lists is registered and has it for a parent;
* as many rules are registered as are counted, and a rule that is added gets a number greater than
  all those that are or were in use;
* the walk up from a rule ends in a registered rule without a parent;
* the walk down from a rule ends, and gives the rule with everything below it, none twice: the rule,
  and then the subtrees of its parts in the order in which these were added;
* a rule that may be removed goes with its subtree, and no other rule is changed but that its parent
  does not list it any more; otherwise nothing is changed. -/
theorem rules_form_forest (inUse : engine.InUse) :
    (∀ id parent, engine.forest.parent? id = some parent →
      engine.forest.contains parent = true ∧ parent < id ∧
        (engine.forest.children parent).count id = 1) ∧
    (∀ id child, child ∈ engine.forest.children id →
      engine.forest.contains child = true ∧ engine.forest.parent? child = some id) ∧
    {id | engine.forest.contains id = true}.ncard = engine.forest.active ∧
    (∀ rule up id first, engine.addRule rule up = (.ok id, first) →
      (∀ known, engine.forest.contains known = true → known < id) ∧
        ∀ later, Later first later → ∀ rule' up' id' second,
          later.addRule rule' up' = (.ok id', second) → id < id') ∧
    (∀ id, engine.forest.contains id = true →
      (∀ top, engine.forest.Climbs id top ↔ top = engine.forest.topLevel id) ∧
        engine.forest.contains (engine.forest.topLevel id) = true ∧
        engine.forest.parent? (engine.forest.topLevel id) = none) ∧
    (∀ id, engine.forest.contains id = true →
      (∀ visited, engine.forest.Visits [id] visited ↔ visited = engine.forest.subtree id) ∧
        (engine.forest.subtree id).Nodup ∧
        (∀ other, other ∈ engine.forest.subtree id ↔ engine.forest.Below id other) ∧
        engine.forest.subtree id =
          id :: (engine.forest.children id).flatMap engine.forest.subtree ∧
        (engine.forest.children id).Pairwise (· < ·)) ∧
    (∀ id, engine.editFault? .removeRule = none → engine.forest.contains id = true →
      ∃ after, engine.removeRule id = (.ok (engine.forest.subtree id), after) ∧
        ∀ other, after.forest.node? other =
          if other ∈ engine.forest.subtree id then none
          else (engine.forest.node? other).map fun node =>
            { node with children := node.children.filter (· != id) }) ∧
    ∀ id, ¬(engine.editFault? .removeRule = none ∧ engine.forest.contains id = true) →
      (engine.removeRule id).2 = engine := by
  have linked := inUse.linked
  have ascending := inUse.ascending
  refine ⟨fun id parent up => ?_, fun id child listed => ?_, ?_, fun rule up id first done => ?_,
    fun id registered => ?_, fun id registered => ?_,
    fun id => removeRule_registered linked, fun id => removeRule_refused⟩
  · obtain ⟨less, registered⟩ := linked.upward id parent up
    exact ⟨registered, less, List.count_eq_one_of_mem (ascending.nodup_children parent)
      ((linked.parts parent id).mpr up)⟩
  · have up := (linked.parts id child).mp listed
    exact ⟨Forest.contains_of_parent? up, up⟩
  · have listed : {id | engine.forest.contains id = true} =
        (engine.forest.ids.toFinset : Set RuleId) := by
      ext id
      simp [Forest.mem_ids]
    rw [listed, Set.ncard_coe_finset, List.toFinset_card_of_nodup engine.forest.nodup_ids,
      Forest.length_ids, ← inUse.counted]
  · refine ⟨fun known registered => ?_, fun later way rule' up' id' second done' =>
      way.numbered done done'⟩
    rw [(numbered_addRule done).1]
    exact Forest.lt_of_contains registered
  · exact ⟨fun top => linked.climbs_iff, linked.contains_topLevel registered,
      (linked.below_topLevel id).1⟩
  · exact ⟨fun visited => linked.visits_iff registered, linked.nodup_subtree ascending id,
      fun other => linked.mem_subtree.trans (and_iff_right registered),
      linked.subtree_eq registered, ascending id⟩

/-- An engine with rules in three levels, of which some were removed or refused. -/
def nestedEngine : Engine :=
  ((((((((create .standard .clear).perform (.addRule (.mandatory 0) none)).perform
    (.addRule (.mandatory 1) none)).perform (.addRule (.mandatory 2) (some 1))).perform
    (.addRule (.mandatory 3) (some 2))).perform (.addRule (.mandatory 4) (some 1))).perform
    (.removeRule 2)).perform (.addRule (.mandatory 5) (some 2))).perform
    (.addRule (.mandatory 6) (some 4))

theorem inUse_nestedEngine : nestedEngine.InUse :=
  .perform (.addRule _ _) <| .perform (.addRule _ _) <| .perform (.removeRule _) <|
    .perform (.addRule _ _) <| .perform (.addRule _ _) <| .perform (.addRule _ _) <|
    .perform (.addRule _ _) <| .perform (.addRule _ _) <| .create _ _

/-- The rule that was added last is below the second one, and is removed with it. -/
theorem rules_form_forest_of_nested :
    {id | nestedEngine.forest.contains id = true}.ncard = 4 ∧
    nestedEngine.forest.Climbs 5 1 ∧ nestedEngine.forest.Visits [1] [1, 4, 5] ∧
    ∃ after, nestedEngine.removeRule 1 = (.ok [1, 4, 5], after) ∧
      after.forest.node? 0 = nestedEngine.forest.node? 0 := by
  obtain ⟨_, _, counted, _, up, down, removal, _⟩ := rules_form_forest inUse_nestedEngine
  have active : nestedEngine.forest.active = 4 := by decide +kernel
  have top : nestedEngine.forest.topLevel 5 = 1 := by decide +kernel
  have subtree : nestedEngine.forest.subtree 1 = [1, 4, 5] := by decide +kernel
  obtain ⟨after, removed, nodes⟩ := removal 1 (by decide +kernel) (by decide +kernel)
  rw [subtree] at removed nodes
  refine ⟨counted.trans active, ((up 5 (by decide +kernel)).1 1).mpr top.symm,
    ((down 1 (by decide +kernel)).1 _).mpr subtree.symm, after, removed, ?_⟩
  rw [nodes 0]
  decide +kernel

end Engine

end Loadout
