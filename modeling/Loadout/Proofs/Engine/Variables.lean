/-
**Which choices have variables.**

A numbering covers the registered roots of its table, each with a variable of its own
(`Numbering.Covers`, `covers_ofTable`). An assignment to the variables matches the values of the
choices when every variable has the value of its choice (`Numbering.Matches`): each assignment gives
such values (`Numbering.read`), and all values come from an assignment (`Numbering.assign`). The
literal of a handle is then true just when the handle is (`literal_spec`).
-/

import Loadout.Engine.Numbering

namespace Loadout

namespace Numbering

variable {numbering : Numbering} {value : ChoiceId → Bool} {assignment : Assignment}

/-! ### Variables of roots -/

/-- **The variables of a numbering belong to the registered roots of some entries**, one each. -/
structure Covers (entries : List ChoiceEntry) (numbering : Numbering) : Prop where
  size : numbering.atoms.size = entries.length
  within : ∀ id atom, numbering.atom? id = some atom → 1 ≤ atom ∧ atom ≤ numbering.count
  injective : ∀ first second atom, numbering.atom? first = some atom →
    numbering.atom? second = some atom → first = second
  rooted : ∀ id, (numbering.atom? id).isSome = true ↔
    ∃ entry, entries[id]? = some entry ∧ entry.registered = true ∧ entry.choice.isAlias = false

theorem atom?_push (numbering : Numbering) (count : Nat) (slot : Option Nat) (id : ChoiceId) :
    (⟨numbering.atoms.push slot, count⟩ : Numbering).atom? id =
      if id = numbering.atoms.size then slot else numbering.atom? id := by
  show (numbering.atoms.push slot)[id]?.join = _
  rw [Array.getElem?_push]
  split <;> rfl

theorem atom?_of_le {id : ChoiceId} (beyond : numbering.atoms.size ≤ id) :
    numbering.atom? id = none := by
  unfold atom?
  rw [Array.getElem?_eq_none beyond]
  rfl

theorem Covers.getElem?_concat {entries : List ChoiceEntry} (covers : numbering.Covers entries)
    (entry : ChoiceEntry) (id : Nat) :
    (entries ++ [entry])[id]? = if id = numbering.atoms.size then some entry else entries[id]? := by
  rw [covers.size, List.getElem?_append]
  by_cases last : id = entries.length
  · rw [if_neg (by omega), if_pos last, last, Nat.sub_self]
    rfl
  · rw [if_neg last]
    by_cases below : id < entries.length
    · rw [if_pos below]
    · rw [if_neg below, List.getElem?_eq_none (by rw [List.length_singleton]; omega),
        List.getElem?_eq_none (by omega)]

/-- A registered root gets the next variable. -/
theorem Covers.number {entries : List ChoiceEntry} (covers : numbering.Covers entries)
    {entry : ChoiceEntry} (registered : entry.registered = true)
    (plain : entry.choice.isAlias = false) :
    (⟨numbering.atoms.push (some (numbering.count + 1)), numbering.count + 1⟩ : Numbering).Covers
      (entries ++ [entry]) := by
  have found := atom?_push numbering (numbering.count + 1) (some (numbering.count + 1))
  constructor
  · rw [Array.size_push, List.length_append, covers.size]
    rfl
  · intro id atom given
    rw [found] at given
    by_cases last : id = numbering.atoms.size
    · rw [if_pos last] at given
      cases given
      exact ⟨Nat.le_add_left _ _, Nat.le_refl _⟩
    · rw [if_neg last] at given
      have bounds := covers.within id atom given
      exact ⟨bounds.1, Nat.le_succ_of_le bounds.2⟩
  · intro first second atom one two
    -- the next variable is above all that were given before
    have unused : ∀ id, numbering.atom? id ≠ some (numbering.count + 1) := fun id given =>
      Nat.not_succ_le_self _ (covers.within id _ given).2
    rw [found] at one two
    by_cases last : first = numbering.atoms.size
    · by_cases last' : second = numbering.atoms.size
      · exact last.trans last'.symm
      · rw [if_pos last] at one
        rw [if_neg last', ← one] at two
        exact absurd two (unused second)
    · rw [if_neg last] at one
      by_cases last' : second = numbering.atoms.size
      · rw [if_pos last'] at two
        rw [← two] at one
        exact absurd one (unused first)
      · rw [if_neg last'] at two
        exact covers.injective first second atom one two
  · intro id
    rw [found, covers.getElem?_concat]
    by_cases last : id = numbering.atoms.size
    · rw [if_pos last, if_pos last]
      exact ⟨fun _ => ⟨entry, rfl, registered, plain⟩, fun _ => rfl⟩
    · rw [if_neg last, if_neg last]
      exact covers.rooted id

/-- Any other choice gets none. -/
theorem Covers.skip {entries : List ChoiceEntry} (covers : numbering.Covers entries)
    {entry : ChoiceEntry} (other : ¬(entry.registered = true ∧ entry.choice.isAlias = false)) :
    (⟨numbering.atoms.push none, numbering.count⟩ : Numbering).Covers (entries ++ [entry]) := by
  have found := atom?_push numbering numbering.count none
  have kept : ∀ id, (⟨numbering.atoms.push none, numbering.count⟩ : Numbering).atom? id =
      numbering.atom? id := by
    intro id
    rw [found]
    split
    · next last => exact (atom?_of_le (Nat.le_of_eq last.symm)).symm
    · rfl
  constructor
  · rw [Array.size_push, List.length_append, covers.size]
    rfl
  · intro id atom given
    rw [kept] at given
    exact covers.within id atom given
  · intro first second atom one two
    rw [kept] at one two
    exact covers.injective first second atom one two
  · intro id
    rw [found, covers.getElem?_concat]
    by_cases last : id = numbering.atoms.size
    · rw [if_pos last, if_pos last]
      constructor
      · intro impossible
        cases impossible
      · rintro ⟨same, equal, root⟩
        cases equal
        exact absurd root other
    · rw [if_neg last, if_neg last]
      exact covers.rooted id

/-- Another entry extends what a numbering covers. -/
theorem Covers.extend {entries : List ChoiceEntry} (covers : numbering.Covers entries)
    (entry : ChoiceEntry) : (numbering.extend entry).Covers (entries ++ [entry]) := by
  unfold Numbering.extend
  by_cases root : (entry.registered && !entry.choice.isAlias) = true
  · rw [if_pos root]
    rw [Bool.and_eq_true, Bool.not_eq_true'] at root
    exact covers.number root.1 root.2
  · rw [if_neg root]
    rw [Bool.and_eq_true, Bool.not_eq_true'] at root
    exact covers.skip root

theorem Covers.extendAll {entries rest : List ChoiceEntry} (covers : numbering.Covers entries) :
    (rest.foldl Numbering.extend numbering).Covers (entries ++ rest) := by
  induction rest generalizing numbering entries with
  | nil =>
    rw [List.append_nil]
    exact covers
  | cons entry rest ih =>
    rw [List.append_cons]
    exact ih (covers.extend entry)

/-- **The numbering of a table covers its registered roots.** -/
theorem covers_ofTable (table : ChoiceTable) : (ofTable table).Covers table.entries.toList := by
  have blank : (⟨#[], 0⟩ : Numbering).Covers [] := by
    refine ⟨rfl, ?_, ?_, ?_⟩ <;> simp [atom?]
  exact blank.extendAll

/-- Just the registered roots have variables. -/
theorem isSome_atom?_iff (table : ChoiceTable) (id : ChoiceId) :
    ((ofTable table).atom? id).isSome = true ↔ table.isRoot id = true := by
  rw [(covers_ofTable table).rooted, Array.getElem?_toList]
  unfold ChoiceTable.isRoot ChoiceTable.choice? ChoiceTable.registered?
  cases table.entries[id]? with
  | none => simp
  | some entry =>
    cases registered : entry.registered <;> simp [registered, Option.filter]

/-! ### Assignments and values -/

/-- An assignment to the variables matches the values of the choices. -/
def Matches (numbering : Numbering) (value : ChoiceId → Bool) (assignment : Assignment) : Prop :=
  ∀ id atom, numbering.atom? id = some atom → assignment atom = value id

/-- The values that an assignment gives to the choices with variables; all others are false. -/
def read (numbering : Numbering) (assignment : Assignment) (id : ChoiceId) : Bool :=
  ((numbering.atom? id).map assignment).getD false

theorem matches_read (numbering : Numbering) (assignment : Assignment) :
    numbering.Matches (numbering.read assignment) assignment := by
  intro id atom found
  rw [read, found]
  rfl

/-- The assignment that gives to each variable the value of its choice. -/
def assign (numbering : Numbering) (value : ChoiceId → Bool) : Assignment := fun atom =>
  (List.range numbering.atoms.size).any fun id => numbering.atom? id == some atom && value id

theorem Covers.matches_assign {entries : List ChoiceEntry} (covers : numbering.Covers entries)
    (value : ChoiceId → Bool) : numbering.Matches value (numbering.assign value) := by
  intro id atom found
  rw [Bool.eq_iff_iff, assign, List.any_eq_true]
  constructor
  · rintro ⟨other, _, both⟩
    rw [Bool.and_eq_true, beq_iff_eq] at both
    rw [covers.injective id other atom found both.1]
    exact both.2
  · intro holds
    refine ⟨id, List.mem_range.mpr ?_, ?_⟩
    · refine Nat.lt_of_not_le fun beyond => ?_
      rw [atom?_of_le beyond] at found
      cases found
    · rw [found, holds, beq_self_eq_true, Bool.and_self]

/-! ### Handles as literals -/

/-- The literal of a handle is proper and true with it. -/
theorem literal_spec {entries : List ChoiceEntry} (covers : numbering.Covers entries)
    (agrees : numbering.Matches value assignment) {handle : Handle} {literal : Literal}
    (found : numbering.literal handle = .ok literal) :
    literal.isVoid = false ∧ literal.holds assignment = handle.holds value := by
  unfold Numbering.literal at found
  cases given : numbering.atom? handle.choice with
  | none =>
    rw [given] at found
    cases found
  | some atom =>
    rw [given] at found
    cases found
    have positive := (covers.within _ _ given).1
    refine ⟨beq_false_of_ne (by dsimp only; omega), ?_⟩
    show (assignment atom == !handle.negated) = (value handle.choice != handle.negated)
    rw [agrees _ _ given]
    cases value handle.choice <;> cases handle.negated <;> rfl

end Numbering

end Loadout
