/-
**The rules are counted right.**

A forest keeps count of its rules as they are added and removed (`Forest.active`), without going
through them.

* `size_eq_succ`: one rule more is one more to count;
* `Counted.add`, `Counted.remove`: the count stays right when a rule is added, and when one is removed
  with everything below it;
* **`InUse.counted`**: the count of every engine in use is right.
-/

import Loadout.Proofs.Engine.Causes

namespace Loadout

namespace Forest

variable {forest old new : Forest} {id : RuleId}

/-- **One rule more.** -/
theorem size_eq_succ (absent : old.contains id = false)
    (more : ∀ other, new.contains other = true ↔ other = id ∨ old.contains other = true) :
    new.size = old.size + 1 := by
  have fresh : id ∉ old.ids := fun inside => by
    rw [mem_ids.mp inside] at absent
    cases absent
  have same : new.ids.Perm (id :: old.ids) :=
    (List.perm_ext_iff_of_nodup new.nodup_ids (List.nodup_cons.mpr ⟨fresh, old.nodup_ids⟩)).mpr
      fun other => by rw [mem_ids, more, List.mem_cons, mem_ids]
  rw [← length_ids, same.length_eq, List.length_cons, length_ids]

/-- **The count of the rules is right.** -/
def Counted (forest : Forest) : Prop :=
  forest.active = forest.size

/-- The count stays right where the same rules are registered. -/
theorem Counted.congr (counted : old.Counted) (active : new.active = old.active)
    (same : ∀ id, new.contains id = old.contains id) : new.Counted :=
  active.trans (counted.trans (size_congr same).symm)

theorem not_contains_size (forest : Forest) : forest.contains forest.nodes.size = false :=
  Bool.eq_false_iff.mpr fun known => Nat.lt_irrefl _ (lt_of_contains known)

theorem contains_add_iff (rule : Rule) (up : Option RuleId) :
    (forest.add rule up).2.contains id = true ↔
      id = forest.nodes.size ∨ forest.contains id = true := by
  unfold contains
  rw [node?_add_eq]
  split
  · next last => exact iff_of_true rfl (.inl last)
  · next other => rw [Option.isSome_map, or_iff_right other]

theorem Counted.add (counted : forest.Counted) (rule : Rule) (up : Option RuleId) :
    (forest.add rule up).2.Counted := by
  have active : (forest.add rule up).2.active = forest.active + 1 := by
    cases up <;> rfl
  rw [Counted, active, counted,
    size_eq_succ forest.not_contains_size fun other => contains_add_iff rule up]

theorem Counted.vacate (counted : forest.Counted) (id : RuleId) : (forest.vacate id).Counted := by
  by_cases known : forest.contains id = true
  · have contains (other : RuleId) : (forest.vacate id).contains other = true ↔
        other ≠ id ∧ forest.contains other = true := by
      unfold Forest.contains
      rw [node?_vacate]
      split
      · next same => exact iff_of_false Bool.false_ne_true fun both => both.1 same.symm
      · next other => exact (and_iff_right (Ne.symm other)).symm
    have gone : (forest.vacate id).contains id = false :=
      Bool.eq_false_iff.mpr fun there => ((contains id).mp there).1 rfl
    have size : forest.size = (forest.vacate id).size + 1 :=
      size_eq_succ gone fun other => by
        rw [contains]
        by_cases same : other = id
        · exact iff_of_true (same ▸ known) (.inl same)
        · rw [or_iff_right same, and_iff_right same]
    have active : (forest.vacate id).active = forest.active - 1 := by
      rw [Forest.vacate, if_pos known]
    rw [Counted, active, counted, size, Nat.add_sub_cancel]
  · rwa [Forest.vacate, if_neg known]

theorem Counted.modify (counted : forest.Counted) (id : RuleId) (edit : RuleNode → RuleNode) :
    (forest.modify id edit).Counted := by
  refine counted.congr rfl fun other => ?_
  unfold contains
  rw [node?_modify]
  split
  · rw [Option.isSome_map]
  · rfl

/-- **The count stays right when a rule is removed** with everything below it. -/
theorem Counted.remove (counted : forest.Counted) (id : RuleId) :
    (forest.remove id).2.Counted := by
  have vacated : ((forest.subtree id).foldl Forest.vacate forest).Counted := by
    generalize forest.subtree id = removed
    induction removed generalizing forest with
    | nil => exact counted
    | cons first rest ih => exact ih (counted.vacate first)
  unfold Forest.remove
  dsimp only
  split
  · exact vacated.modify _ _
  · exact vacated

end Forest

namespace Engine

variable {engine : Engine}

/-- **The rules of every engine in use are counted right.** -/
theorem InUse.counted (inUse : engine.InUse) : engine.forest.Counted := by
  refine @InUse.keeps engine (fun engine => engine.forest.Counted) (fun _ _ => rfl) ?_ inUse
  intro engine call counted
  have turn := turn_perform engine call
  generalize (engine.perform call).choices = choices at turn
  generalize (engine.perform call).forest = forest at turn ⊢
  cases turn with
  | still _ => exact counted
  | renewed _ anew active _ => exact counted.congr active anew.sameTree.contains
  | choiceAdded _ _ => exact counted.congr rfl (Forest.sameTree_react _ _).contains
  | weightSet _ _ _ => exact counted
  | choiceRemoved _ _ => exact counted.congr rfl (Forest.sameTree_react _ _).contains
  | ruleAdded rule parent _ _ =>
    exact (counted.add (acquaint engine.choices rule) parent).modify _ _
  | ruleRemoved id _ => exact counted.remove id

end Engine

end Loadout
