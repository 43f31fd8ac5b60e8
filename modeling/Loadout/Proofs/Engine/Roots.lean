/-
**Aliases and their roots.**

A chain of alias targets either ends, and then within as many steps as the table has entries, or it
never does. In both cases the root of a root says the same as the root (`target?_root_root`): where
the chain ends, the root is its own root (`root_root`), and where it does not, every choice on the
chain is an alias. A table that grows and keeps its targets keeps its roots (`root_congr`).
-/

import Mathlib.Data.Fintype.Card
import Loadout.Engine.Choice

namespace Loadout

namespace ChoiceTable

variable {table : ChoiceTable} {id : ChoiceId}

/-! ### Following targets -/

/-- A choice without a target is where its chain ends. -/
theorem follow_of_final (final : table.target? id = none) (steps : Nat) :
    table.follow steps id = id := by
  cases steps with
  | zero => rfl
  | succ steps => simp only [follow, final]

theorem follow_add (first second : Nat) (id : ChoiceId) :
    table.follow (first + second) id = table.follow second (table.follow first id) := by
  induction first generalizing id with
  | zero => rw [Nat.zero_add, follow]
  | succ first ih =>
    rw [Nat.add_right_comm]
    cases target : table.target? id with
    | none => rw [follow_of_final target, follow_of_final target, follow_of_final target]
    | some next =>
      simp only [follow, target]
      exact ih next

/-- Only entries have targets. -/
theorem lt_of_target? {target : ChoiceId} (found : table.target? id = some target) :
    id < table.entries.size := by
  unfold target? at found
  obtain ⟨entry, inside, _⟩ := Option.bind_eq_some_iff.mp found
  exact (Array.getElem?_eq_some_iff.mp inside).1

/-- Only entries are registered. -/
theorem lt_of_contains (registered : table.contains id = true) : id < table.entries.size := by
  obtain ⟨entry, found⟩ := Option.isSome_iff_exists.mp registered
  exact (Array.getElem?_eq_some_iff.mp (Option.filter_eq_some_iff.mp found).1).1

/-- As long as a chain goes on, it comes by no choice twice. -/
theorem follow_injective {length : Nat}
    (final : table.target? (table.follow length id) = none)
    (goes : ∀ steps, steps < length → table.target? (table.follow steps id) ≠ none) :
    ∀ first second, first < second → second < length →
      table.follow first id ≠ table.follow second id := by
  intro first second before inside same
  -- from equal choices the chain goes on alike, so it would end earlier
  refine goes (first + (length - second)) (by omega) ?_
  rw [follow_add, same, ← follow_add, Nat.add_sub_cancel' (Nat.le_of_lt inside)]
  exact final

/-- **A chain that ends does so within the size of the table.** -/
theorem final_within {length : Nat} (final : table.target? (table.follow length id) = none) :
    table.target? (table.root id) = none := by
  classical
  have ends : ∃ length, table.target? (table.follow length id) = none := ⟨length, final⟩
  have last := Nat.find_spec ends
  have goes : ∀ steps, steps < Nat.find ends → table.target? (table.follow steps id) ≠ none :=
    fun steps before => Nat.find_min ends before
  have within : Nat.find ends ≤ table.entries.size := by
    have inside : ∀ steps : Fin (Nat.find ends),
        table.follow steps id < table.entries.size := fun steps => by
      obtain ⟨target, found⟩ := Option.ne_none_iff_exists'.mp (goes steps steps.isLt)
      exact lt_of_target? found
    have injective : Function.Injective fun steps : Fin (Nat.find ends) =>
        (⟨table.follow steps id, inside steps⟩ : Fin table.entries.size) := by
      intro first second same
      have equal : table.follow first id = table.follow second id := congrArg Fin.val same
      rcases Nat.lt_trichotomy first second with before | together | behind
      · exact absurd equal (follow_injective last goes first second before second.isLt)
      · exact Fin.ext together
      · exact absurd equal.symm (follow_injective last goes second first behind first.isLt)
    have counted := Fintype.card_le_of_injective _ injective
    rwa [Fintype.card_fin, Fintype.card_fin] at counted
  unfold root
  rw [← Nat.add_sub_cancel' within, follow_add, follow_of_final last]
  exact last

/-! ### Tables that have the same targets -/

section Later

variable {later : ChoiceTable}

/-- A chain is followed alike by tables that have the same targets along it. -/
theorem follow_congr (same : ∀ steps, later.target? (table.follow steps id) =
    table.target? (table.follow steps id)) (steps : Nat) :
    later.follow steps id = table.follow steps id := by
  induction steps with
  | zero => rfl
  | succ steps ih =>
    rw [follow_add, follow_add, ih]
    simp only [follow, same]

/-- **A root stays what it is** when a table grows and keeps the targets on the way to it. -/
theorem root_congr (final : table.target? (table.root id) = none)
    (grows : table.entries.size ≤ later.entries.size)
    (same : ∀ steps, later.target? (table.follow steps id) =
      table.target? (table.follow steps id)) :
    later.root id = table.root id := by
  unfold root
  rw [follow_congr same, ← Nat.add_sub_cancel' grows, follow_add]
  exact follow_of_final final _

end Later

/-! ### Roots of roots -/

theorem root_of_final (final : table.target? id = none) : table.root id = id :=
  follow_of_final final _

/-- A root that is no alias is its own root. -/
theorem root_root (final : table.target? (table.root id) = none) :
    table.root (table.root id) = table.root id := root_of_final final

/-- **The root of a root is an alias just when the root is.** -/
theorem target?_root_root :
    table.target? (table.root (table.root id)) = none ↔ table.target? (table.root id) = none := by
  constructor
  · intro final
    have steps :
        table.target? (table.follow (table.entries.size + table.entries.size) id) = none := by
      rw [follow_add]
      exact final
    exact final_within steps
  · intro final
    rw [root_root final]
    exact final

end ChoiceTable

end Loadout
