/-
**What the bounded sums of a numbering say about choices.**

Where an assignment to the variables matches the values of the choices, the sums that encode a
cardinality hold just when the cardinality does (`encode_spec`), so do those of several
cardinalities together (`encodeAll_spec`), and the objective adds up the weights of the choices
whose root is true (`signedWeight_objective`).
-/

import Loadout.Proofs.Computations
import Loadout.Proofs.Engine.Variables
import Loadout.Proofs.Search.Normalization

namespace Loadout

/-! ### Sums of ones -/

/-- How many of some literals are true. -/
def trueCount (assignment : Assignment) (literals : List Literal) : Nat :=
  (literals.filter (Literal.holds assignment)).length

theorem trueCount_le (assignment : Assignment) (literals : List Literal) :
    trueCount assignment literals ≤ literals.length := List.length_filter_le _ _

/-- With one for each coefficient a sum counts its true literals. -/
theorem signedWeight_ones {assignment : Assignment} {literals : List Literal}
    (proper : ∀ literal ∈ literals, literal.isVoid = false) :
    signedWeight assignment (literals.map fun literal => (1, literal)) =
      trueCount assignment literals := by
  induction literals with
  | nil => rfl
  | cons literal rest ih =>
    have below := ih fun other inside => proper other (List.mem_cons_of_mem _ inside)
    have here := proper literal List.mem_cons_self
    rw [List.map_cons, AtMost.signedWeight_cons, below]
    unfold trueCount
    cases holds : literal.holds assignment with
    | true =>
      rw [List.filter_cons_of_pos holds, List.length_cons]
      simp only [here, Bool.not_false, Bool.and_self, if_true]
      omega
    | false =>
      rw [List.filter_cons_of_neg (by rw [holds]; exact Bool.false_ne_true)]
      simp only [Bool.and_false, Bool.false_eq_true, if_false]
      omega

/-- The opposites of some literals count what is false of them. -/
theorem trueCount_neg (assignment : Assignment) (literals : List Literal) :
    trueCount assignment (literals.map fun literal => -literal) +
      trueCount assignment literals = literals.length := by
  induction literals with
  | nil => rfl
  | cons literal rest ih =>
    unfold trueCount at ih ⊢
    rw [List.map_cons, List.filter_cons, List.filter_cons, Literal.holds_neg]
    cases literal.holds assignment <;>
      simp only [Bool.not_true, Bool.not_false, Bool.false_eq_true, if_true, if_false,
        List.length_cons] <;> omega

theorem signedWeight_opposites {assignment : Assignment} {literals : List Literal}
    (proper : ∀ literal ∈ literals, literal.isVoid = false) :
    signedWeight assignment (literals.map fun literal => (1, -literal)) =
      literals.length - trueCount assignment literals := by
  have mapped : literals.map (fun literal => ((1 : Int), -literal)) =
      (literals.map fun literal => -literal).map fun literal => (1, literal) := by
    rw [List.map_map]
    rfl
  have counted := trueCount_neg assignment literals
  rw [mapped, signedWeight_ones]
  · omega
  · intro literal inside
    obtain ⟨other, member, rfl⟩ := List.mem_map.mp inside
    exact proper other member

namespace Numbering

variable {numbering : Numbering} {value : ChoiceId → Bool} {assignment : Assignment}
  {entries : List ChoiceEntry}

/-! ### Cardinalities -/

/-- The literals of some handles are as often true as the handles. -/
theorem trueCount_literals (covers : numbering.Covers entries)
    (agrees : numbering.Matches value assignment) {handles : List Handle}
    {literals : List Literal}
    (found : List.Forall₂ (fun handle literal => numbering.literal handle = .ok literal)
      handles literals) :
    (∀ literal ∈ literals, literal.isVoid = false) ∧
      trueCount assignment literals = (handles.filter (Handle.holds value)).length := by
  induction found with
  | nil => exact ⟨fun literal inside => absurd inside List.not_mem_nil, rfl⟩
  | cons here _ ih =>
    obtain ⟨proper, same⟩ := literal_spec covers agrees here
    refine ⟨List.forall_mem_cons.mpr ⟨proper, ih.1⟩, ?_⟩
    unfold trueCount at ih ⊢
    rw [List.filter_cons, List.filter_cons, same]
    split
    · rw [List.length_cons, List.length_cons, ih.2]
    · exact ih.2

/-- **The encoded sums say what the cardinality says.** -/
theorem encode_spec (covers : numbering.Covers entries)
    (agrees : numbering.Matches value assignment) {cardinality : Cardinality} {forms : List AtMost}
    (encoded : numbering.encode cardinality = .ok forms) :
    (∀ form ∈ forms, form.holds assignment = true) ↔ cardinality.holds value = true := by
  unfold encode at encoded
  cases found : cardinality.handles.mapM numbering.literal with
  | error error =>
    rw [found] at encoded
    cases encoded
  | ok literals =>
    rw [found] at encoded
    cases encoded
    obtain ⟨proper, counted⟩ := trueCount_literals covers agrees (forall₂_of_mapM found)
    have total := trueCount_le assignment literals
    have upper : (∀ form ∈ (if cardinality.most < literals.length then
        [(⟨literals.map fun literal => (1, literal), cardinality.most⟩ : AtMost)] else []),
        form.holds assignment = true) ↔ trueCount assignment literals ≤ cardinality.most := by
      split
      · rw [List.forall_mem_singleton, AtMost.holds, signedWeight_ones proper, decide_eq_true_eq]
        exact Int.ofNat_le
      · next light =>
        exact ⟨fun _ => by omega, fun _ form inside => absurd inside List.not_mem_nil⟩
    have lower : (∀ form ∈ (if 0 < cardinality.least then
        [(⟨literals.map fun literal => (1, -literal),
          (literals.length : Int) - cardinality.least⟩ : AtMost)] else []),
        form.holds assignment = true) ↔ cardinality.least ≤ trueCount assignment literals := by
      split
      · rw [List.forall_mem_singleton, AtMost.holds, signedWeight_opposites proper,
          decide_eq_true_eq]
        constructor <;> intro within <;> dsimp only at within ⊢ <;> omega
      · next free =>
        exact ⟨fun _ => by omega, fun _ form inside => absurd inside List.not_mem_nil⟩
    rw [List.forall_mem_append, upper, lower, Cardinality.holds, ← counted]
    rw [Bool.and_eq_true, decide_eq_true_eq, decide_eq_true_eq]
    exact And.comm

/-- The sums of several cardinalities say that all of them hold. -/
theorem encodeAll_spec (covers : numbering.Covers entries)
    (agrees : numbering.Matches value assignment) {cardinalities : List Cardinality}
    {forms : List AtMost} (encoded : numbering.encodeAll cardinalities = .ok forms) :
    (∀ form ∈ forms, form.holds assignment = true) ↔
      ∀ cardinality ∈ cardinalities, cardinality.holds value = true := by
  unfold encodeAll at encoded
  cases found : cardinalities.mapM numbering.encode with
  | error error =>
    rw [found] at encoded
    cases encoded
  | ok lists =>
    rw [found] at encoded
    cases encoded
    have paired := forall₂_of_mapM found
    clear found
    induction paired with
    | nil => simp
    | cons here _ ih =>
      rw [List.flatten_cons, List.forall_mem_append, List.forall_mem_cons]
      exact and_congr (encode_spec covers agrees here) ih

/-! ### The objective -/

/-- The term of the objective for a registered choice. -/
def term? (numbering : Numbering) (table : ChoiceTable) (entry : ChoiceId × ChoiceEntry) :
    Option (Int × Literal) :=
  if entry.2.weight = 0 then none
  else (numbering.atom? (table.root entry.1)).map fun atom => (entry.2.weight, .ofAtom atom)

theorem objective_eq (numbering : Numbering) (table : ChoiceTable) :
    numbering.objective table = table.toList.filterMap (numbering.term? table) := by
  unfold objective
  congr 1
  funext entry
  unfold term? literal Handle.ofChoice
  dsimp only
  cases numbering.atom? (table.root entry.1) with
  | none => rfl
  | some atom => rfl

/-- A term counts its weight where the root is true. -/
theorem signedWeight_term (covers : numbering.Covers entries) (table : ChoiceTable)
    (assignment : Assignment) (entry : ChoiceId × ChoiceEntry) :
    signedWeight assignment (numbering.term? table entry).toList =
      if numbering.read assignment (table.root entry.1) then entry.2.weight else 0 := by
  unfold term? read
  by_cases light : entry.2.weight = 0
  · rw [if_pos light, light, ite_self]
    rfl
  · rw [if_neg light]
    cases found : numbering.atom? (table.root entry.1) with
    | none => rfl
    | some atom =>
      have positive := (covers.within _ _ found).1
      have proper : (Literal.ofAtom atom).isVoid = false :=
        beq_false_of_ne (by show atom ≠ 0; omega)
      have same : (Literal.ofAtom atom).holds assignment = assignment atom :=
        beq_true _
      rw [Option.map_some, Option.toList_some, AtMost.signedWeight_cons, proper, same,
        AtMost.signedWeight_nil, Int.add_zero]
      rfl

/-- **The objective adds up the weights of the choices whose root is true.** -/
theorem signedWeight_objective (covers : numbering.Covers entries) (table : ChoiceTable)
    (assignment : Assignment) :
    signedWeight assignment (numbering.objective table) =
      ((table.toList.filter fun entry =>
        numbering.read assignment (table.root entry.1)).map fun entry => entry.2.weight).sum := by
  rw [objective_eq]
  induction table.toList with
  | nil => rfl
  | cons entry rest ih =>
    have here := signedWeight_term covers table assignment entry
    have split : signedWeight assignment ((entry :: rest).filterMap (numbering.term? table)) =
        signedWeight assignment (numbering.term? table entry).toList +
          signedWeight assignment (rest.filterMap (numbering.term? table)) := by
      rw [List.filterMap_cons]
      cases numbering.term? table entry with
      | none => exact (Int.zero_add _).symm
      | some term =>
        rw [Option.toList_some, AtMost.signedWeight_cons, AtMost.signedWeight_cons,
          AtMost.signedWeight_nil, Int.add_zero]
    rw [split, here, ih, List.filter_cons]
    by_cases loaded : numbering.read assignment (table.root entry.1) = true
    · rw [if_pos loaded, if_pos loaded, List.map_cons, List.sum_cons]
    · rw [if_neg loaded, if_neg loaded, Int.zero_add]

/-- The literals of the objective are proper. -/
theorem objective_proper (covers : numbering.Covers entries) (table : ChoiceTable) :
    ∀ term ∈ numbering.objective table, term.2.isVoid = false := by
  intro term inside
  rw [objective_eq] at inside
  obtain ⟨entry, _, given⟩ := List.mem_filterMap.mp inside
  unfold term? at given
  split at given
  · cases given
  · obtain ⟨atom, found, rfl⟩ := Option.map_eq_some_iff.mp given
    exact beq_false_of_ne (Nat.ne_of_gt (covers.within _ _ found).1)

end Numbering

end Loadout
