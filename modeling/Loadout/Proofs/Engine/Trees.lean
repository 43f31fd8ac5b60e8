/-
**Rules and their parts.**

A forest is *linked* when every part knows its parent, a registered rule with a smaller number, and
every rule lists just its parts (`Forest.Linked`). Whatever is done with an engine, its forest stays
linked (`InUse.linked`). In a linked forest:

* `mem_subtree`: the subtree of a rule is the rule with everything below it (`Forest.Below`);
* `topLevel_eq_iff`: the outermost rule above a rule is the one that has no parent;
* **`node?_remove`**: removing a rule removes just its subtree, and what is left of the others is
  what they were, without the removed part among their parts.
-/

import Loadout.Proofs.Engine.Removals
import Loadout.Proofs.Engine.Turns

namespace Loadout

namespace Forest

variable {forest old new : Forest} {id above parent child : RuleId}

/-- **One rule is a part of another**, perhaps by way of others, or is the same. -/
inductive Below (forest : Forest) (above : RuleId) : RuleId → Prop
  | same : Below forest above above
  | part {parent id : RuleId} : forest.parent? id = some parent → Below forest above parent →
    Below forest above id

theorem Below.trans (one : Below forest above parent) (two : Below forest parent id) :
    Below forest above id := by
  induction two with
  | same => exact one
  | part up _ ih => exact .part up ih

/-- **Parents and parts agree**, and a parent has a smaller number than its parts. -/
structure Linked (forest : Forest) : Prop where
  upward : ∀ id parent, forest.parent? id = some parent →
    parent < id ∧ forest.contains parent = true
  parts : ∀ id child, child ∈ forest.children id ↔ forest.parent? child = some id

theorem linked_empty : empty.Linked where
  upward id parent up := by
    have nothing : empty.parent? id = none := rfl
    rw [nothing] at up
    cases up
  parts id child := iff_of_false List.not_mem_nil nofun

theorem contains_of_parent? (up : forest.parent? id = some parent) :
    forest.contains id = true := by
  obtain ⟨node, found, _⟩ := Option.bind_eq_some_iff.mp up
  exact contains_iff.mpr ⟨node, found⟩

/-! ### Subtrees -/

/-- What is below a registered rule is registered. -/
theorem contains_of_below (registered : forest.contains above = true)
    (below : Below forest above id) : forest.contains id = true := by
  cases below with
  | same => exact registered
  | part up _ => exact contains_of_parent? up

theorem self_mem_descend (forest : Forest) (depth : Nat) (id : RuleId) :
    id ∈ forest.descend depth id := by
  cases depth <;> exact List.mem_cons_self

/-- A descent goes to parts of parts. -/
theorem Linked.below_of_mem_descend (linked : forest.Linked) {depth : Nat}
    (inside : id ∈ forest.descend depth above) : Below forest above id := by
  induction depth generalizing above with
  | zero =>
    rw [List.mem_singleton.mp inside]
    exact .same
  | succ depth ih =>
    rcases List.mem_cons.mp inside with rfl | deeper
    · exact .same
    · obtain ⟨part, listed, inside'⟩ := List.mem_flatMap.mp deeper
      have up := (linked.parts above part).mp listed
      exact Below.trans (.part up .same) (ih inside')

/-- One level deeper a descent has also the parts of what it has. -/
theorem Linked.mem_descend_succ (linked : forest.Linked) {depth : Nat}
    (inside : parent ∈ forest.descend depth above) (up : forest.parent? id = some parent) :
    id ∈ forest.descend (depth + 1) above := by
  induction depth generalizing above with
  | zero =>
    rw [List.mem_singleton.mp inside] at up
    exact List.mem_cons_of_mem _ (List.mem_flatMap.mpr
      ⟨id, (linked.parts above id).mpr up, self_mem_descend forest 0 id⟩)
  | succ depth ih =>
    rcases List.mem_cons.mp inside with rfl | deeper
    · exact List.mem_cons_of_mem _ (List.mem_flatMap.mpr
        ⟨id, (linked.parts _ id).mpr up, self_mem_descend forest (depth + 1) id⟩)
    · obtain ⟨part, listed, inside'⟩ := List.mem_flatMap.mp deeper
      exact List.mem_cons_of_mem _ (List.mem_flatMap.mpr ⟨part, listed, ih inside'⟩)

theorem descend_mono {depth deeper : Nat} (further : depth ≤ deeper)
    (inside : id ∈ forest.descend depth above) : id ∈ forest.descend deeper above := by
  induction depth generalizing deeper above with
  | zero =>
    rw [List.mem_singleton.mp inside]
    exact self_mem_descend forest deeper above
  | succ depth ih =>
    obtain ⟨deeper, rfl⟩ := Nat.exists_eq_succ_of_ne_zero (show deeper ≠ 0 by omega)
    rcases List.mem_cons.mp inside with rfl | below
    · exact List.mem_cons_self
    · obtain ⟨part, listed, inside'⟩ := List.mem_flatMap.mp below
      exact List.mem_cons_of_mem _ (List.mem_flatMap.mpr
        ⟨part, listed, ih (Nat.le_of_succ_le_succ further) inside'⟩)

/-- A descent as deep as the number of a rule goes far enough, since numbers grow on the way
down. -/
theorem Linked.mem_descend_of_below (linked : forest.Linked) (below : Below forest above id) :
    id ∈ forest.descend id above := by
  induction below with
  | same => exact self_mem_descend forest _ _
  | part up _ ih =>
    have less := (linked.upward _ _ up).1
    exact descend_mono (Nat.succ_le_of_lt less) (linked.mem_descend_succ ih up)

/-- **A subtree is a rule with everything below it.** -/
theorem Linked.mem_subtree (linked : forest.Linked) :
    id ∈ forest.subtree above ↔ forest.contains above = true ∧ Below forest above id := by
  unfold subtree
  cases registered : forest.contains above with
  | false =>
    rw [if_neg Bool.false_ne_true]
    exact iff_of_false List.not_mem_nil fun both => Bool.false_ne_true both.1
  | true =>
    rw [if_pos rfl]
    refine ⟨fun inside => ⟨rfl, linked.below_of_mem_descend inside⟩, fun ⟨_, below⟩ => ?_⟩
    have inside := lt_of_contains (contains_of_below registered below)
    exact descend_mono (Nat.le_of_lt inside) (linked.mem_descend_of_below below)

/-! ### Outermost rules -/

/-- A rule without a parent is its own outermost rule. -/
theorem topLevel_of_outermost (outer : forest.parent? id = none) : forest.topLevel id = id := by
  unfold topLevel
  cases forest.nodes.size with
  | zero => rfl
  | succ size =>
    unfold climb
    rw [outer]

/-- As many steps as the number of a rule lead to its outermost rule. -/
theorem Linked.climb_succ (linked : forest.Linked) {steps : Nat} (enough : id ≤ steps) :
    forest.climb (steps + 1) id = forest.climb steps id := by
  induction steps generalizing id with
  | zero =>
    have outer : forest.parent? id = none := by
      cases up : forest.parent? id with
      | none => rfl
      | some parent =>
        have less := Nat.lt_of_lt_of_le (linked.upward id parent up).1 enough
        exact absurd less (Nat.not_lt_zero parent)
    unfold climb
    rw [outer]
  | succ steps ih =>
    unfold climb
    cases up : forest.parent? id with
    | none => rfl
    | some parent =>
      exact ih (Nat.le_of_lt_succ (Nat.lt_of_lt_of_le (linked.upward id parent up).1 enough))

/-- A part has the outermost rule of its parent. -/
theorem Linked.topLevel_of_part (linked : forest.Linked) (up : forest.parent? id = some parent) :
    forest.topLevel id = forest.topLevel parent := by
  have inside := lt_of_contains (contains_of_parent? up)
  obtain ⟨steps, size⟩ := Nat.exists_eq_succ_of_ne_zero (Nat.ne_zero_of_lt inside)
  rw [size] at inside
  have low : parent ≤ steps :=
    Nat.le_of_lt_succ (Nat.lt_trans (linked.upward id parent up).1 inside)
  unfold topLevel
  rw [size, Nat.succ_eq_add_one, linked.climb_succ low]
  conv_lhs => unfold climb
  rw [up]

/-- Every rule is below its outermost one, which has no parent. -/
theorem Linked.below_topLevel (linked : forest.Linked) (id : RuleId) :
    forest.parent? (forest.topLevel id) = none ∧ Below forest (forest.topLevel id) id := by
  induction id using Nat.strong_induction_on with
  | _ id ih =>
    cases up : forest.parent? id with
    | none =>
      rw [topLevel_of_outermost up]
      exact ⟨up, .same⟩
    | some parent =>
      obtain ⟨outer, below⟩ := ih parent (linked.upward id parent up).1
      rw [linked.topLevel_of_part up]
      exact ⟨outer, .part up below⟩

/-- **The outermost rule above a rule is the one without a parent.** -/
theorem Linked.topLevel_eq_iff (linked : forest.Linked) :
    forest.topLevel id = above ↔ forest.parent? above = none ∧ Below forest above id := by
  constructor
  · rintro rfl
    exact linked.below_topLevel id
  · rintro ⟨outer, below⟩
    induction below with
    | same => exact topLevel_of_outermost outer
    | part up _ ih => rw [linked.topLevel_of_part up, ih]

/-- The outermost rule of a registered rule is registered. -/
theorem Linked.contains_topLevel (linked : forest.Linked) (registered : forest.contains id = true) :
    forest.contains (forest.topLevel id) = true := by
  obtain ⟨_, below⟩ := linked.below_topLevel id
  have climbs : ∀ {above id}, Below forest above id → forest.contains id = true →
      forest.contains above = true := by
    intro above id below
    induction below with
    | same => exact fun known => known
    | part up _ ih => exact fun _ => ih (linked.upward _ _ up).2
  exact climbs below registered

/-- The subtree of a rule without a parent has the registered rules of which it is the outermost
one. -/
theorem Linked.mem_subtree_outermost (linked : forest.Linked)
    (outer : forest.parent? above = none) (registered : forest.contains above = true) :
    id ∈ forest.subtree above ↔ forest.contains id = true ∧ forest.topLevel id = above := by
  rw [linked.mem_subtree, linked.topLevel_eq_iff]
  constructor
  · rintro ⟨_, below⟩
    exact ⟨contains_of_below registered below, outer, below⟩
  · rintro ⟨_, _, below⟩
    exact ⟨registered, below⟩

/-! ### Changes that keep parents and parts -/

/-- Two forests have the same rules registered, with the same parents and parts. -/
structure SameTree (old new : Forest) : Prop where
  contains : ∀ id, new.contains id = old.contains id
  parent : ∀ id, new.parent? id = old.parent? id
  children : ∀ id, new.children id = old.children id

theorem Linked.of_sameTree (linked : old.Linked) (same : SameTree old new) : new.Linked where
  upward id parent up := by
    rw [same.parent] at up
    rw [same.contains]
    exact linked.upward id parent up
  parts id child := by
    rw [same.children, same.parent]
    exact linked.parts id child

/-- The nodes change in place, and keep their parents and parts. -/
theorem sameTree_of_map {edit : RuleId → RuleNode → RuleNode}
    (nodes : ∀ id, new.node? id = (old.node? id).map (edit id))
    (parent : ∀ id node, (edit id node).parent = node.parent)
    (children : ∀ id node, (edit id node).children = node.children) : SameTree old new := by
  constructor
  all_goals
    intro id
    first | unfold contains | unfold parent? | unfold Forest.children
    rw [nodes id]
    cases old.node? id with
    | none => rfl
    | some node => simp [parent, children]

theorem sameTree_modify (forest : Forest) (id : RuleId) (edit : RuleNode → RuleNode)
    (parent : ∀ node, (edit node).parent = node.parent)
    (children : ∀ node, (edit node).children = node.children) :
    SameTree forest (forest.modify id edit) := by
  refine @sameTree_of_map _ _ (fun other node => if id = other then edit node else node) ?_ ?_ ?_
  · intro other
    rw [node?_modify]
    split <;> simp
  · intro other node
    split <;> simp [parent]
  · intro other node
    split <;> simp [children]

theorem sameTree_react (change : Rule → Bool × Rule) (forest : Forest) :
    SameTree forest (forest.react change) :=
  sameTree_of_map (node?_react change forest) (fun _ _ => rfl) fun _ _ => rfl

theorem Linked.react (linked : forest.Linked) (change : Rule → Bool × Rule) :
    (forest.react change).Linked :=
  linked.of_sameTree (sameTree_react change forest)

/-- Rules that are defined anew keep their places. -/
theorem Redefined.sameTree {table : ChoiceTable} (redefined : Redefined table old new) :
    SameTree old new := by
  constructor
  all_goals
    intro id
    first | unfold contains | unfold parent? | unfold Forest.children
    cases given : old.node? id with
    | none => rw [redefined.absent id given]
    | some node =>
      cases stale : node.stale with
      | true =>
        obtain ⟨constraints, _, kept⟩ := redefined.stale id node given stale
        rw [kept]
        rfl
      | false => rw [redefined.fresh id node given stale]

/-- In linked forests that are alike every rule has the same outermost rule. -/
theorem SameTree.topLevel_eq (same : SameTree old new) (linked : old.Linked) (id : RuleId) :
    new.topLevel id = old.topLevel id := by
  have below : ∀ {above id}, Below old above id → Below new above id := by
    intro above id below
    induction below with
    | same => exact .same
    | part up _ ih => exact .part ((same.parent _).trans up) ih
  obtain ⟨outer, under⟩ := linked.below_topLevel id
  exact (linked.of_sameTree same).topLevel_eq_iff.mpr ⟨(same.parent _).trans outer, below under⟩

/-! ### Adding a rule -/

/-- What is new after a rule has been added is the rule itself, and that its parent lists it. -/
theorem node?_add_eq (rule : Rule) (up : Option RuleId) (forest : Forest) (id : RuleId) :
    (forest.add rule up).2.node? id =
      if id = forest.nodes.size then some ⟨rule, up, [], [], true⟩
      else (forest.node? id).map fun node =>
        if up = some id then { node with children := node.children ++ [forest.nodes.size] }
        else node := by
  unfold add
  cases up with
  | none =>
    dsimp only
    rw [node?_push]
    simp
  | some parent =>
    dsimp only
    rw [node?_push, node?_modify]
    have size : (forest.modify parent fun node =>
        { node with children := node.children ++ [forest.nodes.size] }).nodes.size =
        forest.nodes.size := Array.size_modify ..
    rw [size]
    split
    · rfl
    · simp only [Option.some.injEq]
      split <;> simp

theorem contains_add (rule : Rule) (up : Option RuleId) (known : forest.contains id = true) :
    (forest.add rule up).2.contains id = true := by
  unfold Forest.contains
  rw [node?_add_eq, if_neg (Nat.ne_of_lt (lt_of_contains known)), Option.isSome_map]
  exact known

theorem parent?_add (rule : Rule) (up : Option RuleId) (forest : Forest) (id : RuleId) :
    (forest.add rule up).2.parent? id =
      if id = forest.nodes.size then up else forest.parent? id := by
  unfold parent?
  rw [node?_add_eq]
  split
  · rfl
  · cases forest.node? id with
    | none => rfl
    | some node =>
      show (if up = some id then _ else node).parent = _
      split <;> rfl

/-- Only the parent of a new rule has a part more. -/
theorem children_add (rule : Rule) {up : Option RuleId}
    (registered : ∀ parent, up = some parent → forest.contains parent = true) (id : RuleId) :
    (forest.add rule up).2.children id =
      if up = some id then forest.children id ++ [forest.nodes.size] else forest.children id := by
  have absent : forest.node? forest.nodes.size = none := by
    unfold node?
    rw [Array.getElem?_eq_none (Nat.le_refl _)]
    rfl
  unfold Forest.children
  rw [node?_add_eq]
  split
  · next last =>
    rw [last, absent, if_neg fun same => ?_]
    · rfl
    · exact Nat.lt_irrefl _ (lt_of_contains (registered _ same))
  · split
    · next same =>
      obtain ⟨node, found⟩ := contains_iff.mp (registered id same)
      rw [found]
      rfl
    · cases forest.node? id <;> rfl

/-- **A forest stays linked when a rule is added**, under no parent or under a registered one. -/
theorem Linked.add (linked : forest.Linked) (rule : Rule) {up : Option RuleId}
    (registered : ∀ parent, up = some parent → forest.contains parent = true) :
    (forest.add rule up).2.Linked := by
  refine ⟨fun id above found => ?_, fun id child => ?_⟩
  · rw [parent?_add] at found
    split at found
    · next last =>
      rw [last]
      have known := registered above found
      exact ⟨lt_of_contains known, contains_add rule up known⟩
    · obtain ⟨less, known⟩ := linked.upward id above found
      exact ⟨less, contains_add rule up known⟩
  · have old := linked.parts id child
    have fresh : forest.nodes.size ∉ forest.children id := by
      intro listed
      have up' := (linked.parts id forest.nodes.size).mp listed
      exact Nat.lt_irrefl _ (lt_of_contains (contains_of_parent? up'))
    rw [children_add rule registered, parent?_add]
    by_cases last : child = forest.nodes.size
    · rw [if_pos last, last]
      split
      · next same => exact iff_of_true (List.mem_append_right _ List.mem_cons_self) same
      · next other => exact iff_of_false fresh other
    · rw [if_neg last, ← old]
      split
      · rw [List.mem_append, List.mem_singleton]
        exact or_iff_left last
      · rfl

/-! ### Removing a rule -/

/-- **A rule is removed with its subtree**, and its parent does not list it any more. -/
theorem node?_remove (forest : Forest) (removed id : RuleId) :
    (forest.remove removed).2.node? id =
      if id ∈ forest.subtree removed then none
      else (forest.node? id).map fun node =>
        if forest.parent? removed = some id then
          { node with children := node.children.filter (· != removed) }
        else node := by
  unfold remove
  dsimp only
  cases forest.parent? removed with
  | none =>
    rw [node?_foldl_vacate]
    simp
  | some parent =>
    dsimp only
    rw [node?_modify, node?_foldl_vacate]
    simp only [Option.some.injEq]
    split <;> split <;> simp

variable {removed : RuleId}

theorem contains_remove (forest : Forest) (removed id : RuleId) :
    (forest.remove removed).2.contains id = true ↔
      forest.contains id = true ∧ id ∉ forest.subtree removed := by
  unfold contains
  rw [node?_remove]
  split
  · next inside => exact iff_of_false Bool.false_ne_true fun both => both.2 inside
  · next outside =>
    rw [Option.isSome_map]
    exact (and_iff_left outside).symm

theorem parent?_remove (forest : Forest) (removed id : RuleId) :
    (forest.remove removed).2.parent? id =
      if id ∈ forest.subtree removed then none else forest.parent? id := by
  unfold parent?
  rw [node?_remove]
  split
  · rfl
  · cases forest.node? id with
    | none => rfl
    | some node =>
      show (if forest.parent? removed = some id then _ else node).parent = _
      split <;> rfl

theorem rule?_remove (forest : Forest) (removed id : RuleId) :
    (forest.remove removed).2.rule? id =
      if id ∈ forest.subtree removed then none else forest.rule? id := by
  unfold rule?
  rw [node?_remove]
  split
  · rfl
  · cases forest.node? id with
    | none => rfl
    | some node =>
      show some (if forest.parent? removed = some id then _ else node).rule = _
      split <;> rfl

theorem mem_children_remove (forest : Forest) (removed id child : RuleId) :
    child ∈ (forest.remove removed).2.children id ↔
      id ∉ forest.subtree removed ∧ child ∈ forest.children id ∧
        (forest.parent? removed = some id → child ≠ removed) := by
  unfold children
  rw [node?_remove]
  split
  · next inside => exact iff_of_false List.not_mem_nil fun all => all.1 inside
  · next outside =>
    rw [and_iff_right outside]
    cases forest.node? id with
    | none => exact iff_of_false List.not_mem_nil fun both => List.not_mem_nil both.1
    | some node =>
      show child ∈ (if forest.parent? removed = some id then _ else node).children ↔
        child ∈ node.children ∧ _
      split
      · next up => simp [List.mem_filter, up]
      · next other => exact (and_iff_left fun up => absurd up other).symm

/-- **A forest stays linked when a rule is removed.** -/
theorem Linked.remove (linked : forest.Linked) (removed : RuleId) :
    (forest.remove removed).2.Linked := by
  -- a part goes with its parent
  have goes : ∀ {id parent}, forest.parent? id = some parent →
      parent ∈ forest.subtree removed → id ∈ forest.subtree removed := by
    intro id parent up inside
    obtain ⟨registered, below⟩ := linked.mem_subtree.mp inside
    exact linked.mem_subtree.mpr ⟨registered, .part up below⟩
  refine ⟨fun id above found => ?_, fun id child => ?_⟩
  · rw [parent?_remove] at found
    split at found
    · cases found
    · next outside =>
      obtain ⟨less, known⟩ := linked.upward id above found
      exact ⟨less, (contains_remove forest removed above).mpr
        ⟨known, fun inside => outside (goes found inside)⟩⟩
  · rw [mem_children_remove, linked.parts, parent?_remove]
    constructor
    · rintro ⟨outside, up, other⟩
      rw [if_neg fun inside => ?_]
      · exact up
      · -- of what is removed, only the removed rule itself may have a parent that stays
        obtain ⟨registered, below⟩ := linked.mem_subtree.mp inside
        cases below with
        | same => exact other up rfl
        | part up' below' =>
          cases up.symm.trans up'
          exact outside (linked.mem_subtree.mpr ⟨registered, below'⟩)
    · intro up
      split at up
      · cases up
      · next outside =>
        refine ⟨fun inside => outside (goes up inside), up, fun _ same => outside ?_⟩
        rw [same] at up ⊢
        exact linked.mem_subtree.mpr ⟨contains_of_parent? up, .same⟩

/-- What stays has the outermost rule that it had. -/
theorem Linked.topLevel_remove (linked : forest.Linked) (outside : id ∉ forest.subtree removed) :
    (forest.remove removed).2.topLevel id = forest.topLevel id := by
  obtain ⟨outer, below⟩ := linked.below_topLevel id
  refine (linked.remove removed).topLevel_eq_iff.mpr ⟨?_, ?_⟩
  · rw [parent?_remove, outer]
    exact ite_self none
  · generalize forest.topLevel id = top at below
    clear outer
    induction below with
    | same => exact .same
    | part up _ ih =>
      refine .part ?_ (ih fun inside => outside ?_)
      · rw [parent?_remove, if_neg outside]
        exact up
      · obtain ⟨registered, below'⟩ := linked.mem_subtree.mp inside
        exact linked.mem_subtree.mpr ⟨registered, .part up below'⟩

end Forest

namespace Engine

variable {engine : Engine}

/-! ### Engines in use -/

/-- A question about the rules leaves their places as they are. -/
theorem sameTree_hasSolution (engine : Engine) :
    Forest.SameTree engine.forest engine.hasSolution.2.forest := by
  have inquiry := inquiry_hasSolution engine
  generalize engine.hasSolution = outcome at inquiry
  cases inquiry with
  | checked forest _ _ _ _ redefined =>
    rw [(checkRules_kept { engine with forest }).2.1]
    exact redefined.sameTree
  | _ => exact ⟨fun _ => rfl, fun _ => rfl, fun _ => rfl⟩

/-- **The forest of every engine in use is linked.** -/
theorem InUse.linked (inUse : engine.InUse) : engine.forest.Linked := by
  refine @InUse.keeps engine (fun engine => engine.forest.Linked) (fun _ _ => ?_) ?_ inUse
  · exact Forest.linked_empty
  · intro engine call linked
    have turn := turn_perform engine call
    generalize (engine.perform call).choices = choices at turn
    generalize (engine.perform call).forest = forest at turn ⊢
    cases turn with
    | still _ => exact linked
    | renewed _ anew _ _ => exact linked.of_sameTree anew.sameTree
    | choiceAdded _ _ => exact linked.react _
    | weightSet _ _ _ => exact linked
    | choiceRemoved id _ => exact linked.react _
    | ruleAdded rule _ _ known =>
      exact (linked.add (acquaint engine.choices rule) known).of_sameTree
        (Forest.sameTree_modify _ _ _ (fun _ => rfl) fun _ => rfl)
    | ruleRemoved id _ => exact linked.remove id

end Engine

end Loadout
