/-
**The normal form of a bounded sum says the same as the sum.**

* `holds_normalize`: a bounded sum and its normal form hold under the same assignments.
* `normalize_atoms`: the normal form names no void literal.

The steps of the normal form are followed one by one. Gathering keeps the distance between weight
and bound (`gather_exact`); moving the negative coefficients to the opposite literals takes their
sum off the bound (`mergedWeight_eq`); cutting a coefficient to the bound plus one changes no
comparison with the bound (`cut_le_iff`); and a sum that fits as soon as one literal is false is a
clause (`holds_settle`).
-/

import Loadout.Proofs.Search.Weights
import Mathlib.Tactic.ByContra

namespace Loadout

namespace AtMost

/-! ### Merged coefficients -/

/-- The weight of merged coefficients: those whose variable is true count. -/
def mergedWeight (assignment : Assignment) (merged : List (Nat × Int)) : Int :=
  (merged.map fun entry => if assignment entry.1 then entry.2 else 0).sum

@[simp] theorem mergedWeight_nil (assignment : Assignment) : mergedWeight assignment [] = 0 := rfl

@[simp] theorem mergedWeight_cons (assignment : Assignment) (entry : Nat × Int)
    (rest : List (Nat × Int)) :
    mergedWeight assignment (entry :: rest) =
      (if assignment entry.1 then entry.2 else 0) + mergedWeight assignment rest := rfl

/-- Adding to a coefficient adds to the weight where the variable is true. -/
theorem mergedWeight_addAt (assignment : Assignment) (atom : Nat) (amount : Int)
    (merged : List (Nat × Int)) :
    mergedWeight assignment (addAt atom amount merged) =
      (if assignment atom then amount else 0) + mergedWeight assignment merged := by
  induction merged with
  | nil => rfl
  | cons entry rest ih =>
    obtain ⟨other, coefficient⟩ := entry
    unfold addAt
    by_cases before : atom < other
    · rw [if_pos before, mergedWeight_cons]
    · rw [if_neg before]
      by_cases same : atom = other
      · subst same
        rw [if_pos rfl, mergedWeight_cons, mergedWeight_cons]
        split <;> omega
      · rw [if_neg same, mergedWeight_cons, mergedWeight_cons, ih]
        omega

/-- Adding to a coefficient names no other variable. -/
theorem mem_addAt {atom : Nat} {amount : Int} {merged : List (Nat × Int)} {entry : Nat × Int}
    (inside : entry ∈ addAt atom amount merged) :
    entry.1 = atom ∨ ∃ old ∈ merged, old.1 = entry.1 := by
  induction merged with
  | nil =>
    rw [addAt, List.mem_singleton] at inside
    exact Or.inl (by rw [inside])
  | cons head rest ih =>
    obtain ⟨other, coefficient⟩ := head
    unfold addAt at inside
    by_cases before : atom < other
    · rw [if_pos before] at inside
      rcases List.mem_cons.mp inside with new | old
      · exact Or.inl (by rw [new])
      · exact Or.inr ⟨entry, old, rfl⟩
    · rw [if_neg before] at inside
      by_cases same : atom = other
      · rw [if_pos same] at inside
        rcases List.mem_cons.mp inside with new | old
        · exact Or.inl (by rw [new, same])
        · exact Or.inr ⟨entry, List.mem_cons_of_mem _ old, rfl⟩
      · rw [if_neg same] at inside
        rcases List.mem_cons.mp inside with new | old
        · exact Or.inr ⟨(other, coefficient), List.mem_cons_self, by rw [new]⟩
        · rcases ih old with here | ⟨earlier, member, equal⟩
          · exact Or.inl here
          · exact Or.inr ⟨earlier, List.mem_cons_of_mem _ member, equal⟩

/-! ### Gathering -/

/-- One step of gathering. -/
def gatherTerm (state : List (Nat × Int) × Int) (term : Int × Literal) :
    List (Nat × Int) × Int :=
  if term.1 = 0 ∨ term.2.isVoid then state
  else if term.2.positive then (addAt term.2.atom term.1 state.1, state.2)
  else (addAt term.2.atom (-term.1) state.1, state.2 - term.1)

theorem gather_eq (constraint : AtMost) :
    constraint.gather = constraint.terms.foldl gatherTerm ([], constraint.bound) := rfl

@[simp] theorem signedWeight_nil (assignment : Assignment) : signedWeight assignment [] = 0 := rfl

@[simp] theorem signedWeight_cons (assignment : Assignment) (term : Int × Literal)
    (rest : List (Int × Literal)) :
    signedWeight assignment (term :: rest) =
      (if !term.2.isVoid && term.2.holds assignment then term.1 else 0) +
        signedWeight assignment rest := by
  unfold signedWeight
  by_cases counted : (!term.2.isVoid && term.2.holds assignment) = true
  · rw [List.filter_cons, if_pos counted, if_pos counted, List.map_cons, List.sum_cons]
  · rw [List.filter_cons, if_neg counted, if_neg counted]
    omega

/-- One step of gathering moves the weight of its term to the merged side. -/
theorem gatherTerm_exact (assignment : Assignment) (state : List (Nat × Int) × Int)
    (term : Int × Literal) :
    mergedWeight assignment (gatherTerm state term).1 - (gatherTerm state term).2 =
      mergedWeight assignment state.1 - state.2 +
        if !term.2.isVoid && term.2.holds assignment then term.1 else 0 := by
  obtain ⟨coefficient, atom, positive⟩ := term
  obtain ⟨merged, bound⟩ := state
  unfold gatherTerm
  by_cases skipped : coefficient = 0 ∨ (⟨atom, positive⟩ : Literal).isVoid = true
  · rw [if_pos skipped]
    rcases skipped with zero | isVoid
    · simp [zero]
    · simp [isVoid]
  · rw [if_neg skipped]
    have real : (⟨atom, positive⟩ : Literal).isVoid = false := by
      simpa using fun isVoid => skipped (Or.inr isVoid)
    cases positive with
    | true =>
      simp only [if_true, mergedWeight_addAt, real, Literal.holds]
      cases assignment atom with
      | true =>
        simp
        omega
      | false => simp
    | false =>
      simp only [Bool.false_eq_true, if_false, mergedWeight_addAt, real, Literal.holds]
      cases assignment atom <;> simp <;> omega

/-- **Gathering keeps the distance between weight and bound.** -/
theorem gather_exact (assignment : Assignment) (constraint : AtMost) :
    mergedWeight assignment constraint.gather.1 - constraint.gather.2 =
      signedWeight assignment constraint.terms - constraint.bound := by
  have general : ∀ (terms : List (Int × Literal)) (state : List (Nat × Int) × Int),
      mergedWeight assignment (terms.foldl gatherTerm state).1 -
          (terms.foldl gatherTerm state).2 =
        mergedWeight assignment state.1 - state.2 + signedWeight assignment terms := by
    intro terms
    induction terms with
    | nil => intro state; simp
    | cons term rest ih =>
      intro state
      rw [List.foldl_cons, ih, gatherTerm_exact, signedWeight_cons]
      omega
  rw [gather_eq, general, mergedWeight_nil]
  omega

/-- Gathering names no void literal. -/
theorem gather_atoms (constraint : AtMost) : ∀ entry ∈ constraint.gather.1, entry.1 ≠ 0 := by
  have general : ∀ (terms : List (Int × Literal)) (state : List (Nat × Int) × Int),
      (∀ entry ∈ state.1, entry.1 ≠ 0) →
        ∀ entry ∈ (terms.foldl gatherTerm state).1, entry.1 ≠ 0 := by
    intro terms
    induction terms with
    | nil => exact fun state named => named
    | cons term rest ih =>
      intro state named
      refine ih (gatherTerm state term) ?_
      unfold gatherTerm
      by_cases skipped : term.1 = 0 ∨ term.2.isVoid = true
      · rw [if_pos skipped]
        exact named
      · have real : term.2.atom ≠ 0 := fun zero =>
          skipped (Or.inr (by rw [Literal.isVoid, zero]; rfl))
        have added : ∀ amount, ∀ entry ∈ addAt term.2.atom amount state.1, entry.1 ≠ 0 := by
          intro amount entry inside
          rcases mem_addAt inside with new | ⟨old, member, equal⟩
          · rw [new]
            exact real
          · rw [← equal]
            exact named old member
        rw [if_neg skipped]
        split
        · exact added _
        · exact added _
  rw [gather_eq]
  exact general _ _ fun entry inside => by cases inside

/-! ### Orienting -/

/-- **Orienting the merged coefficients takes the negative ones off the weight.** -/
theorem mergedWeight_eq (assignment : Assignment) (merged : List (Nat × Int)) :
    mergedWeight assignment merged =
      trueWeight assignment (merged.filterMap orient) + negativePart merged := by
  induction merged with
  | nil => rfl
  | cons entry rest ih =>
    obtain ⟨atom, coefficient⟩ := entry
    have parts : negativePart ((atom, coefficient) :: rest) =
        min coefficient 0 + negativePart rest := rfl
    rw [mergedWeight_cons, parts, ih, trueWeight_eq, trueWeight_eq]
    by_cases positive : 0 < coefficient
    · have oriented : orient (atom, coefficient) = some (coefficient.toNat, ⟨atom, true⟩) := by
        simp [orient, positive]
      rw [List.filterMap_cons_some oriented, passedWeight_cons]
      by_cases value : assignment atom = true
      · simp only [Literal.holds, value, beq_self_eq_true, if_true]
        omega
      · simp only [Literal.holds, value]
        simp
        omega
    · by_cases negative : coefficient < 0
      · have oriented :
            orient (atom, coefficient) = some ((-coefficient).toNat, ⟨atom, false⟩) := by
          simp [orient, positive, negative]
        rw [List.filterMap_cons_some oriented, passedWeight_cons]
        by_cases value : assignment atom = true
        · simp only [Literal.holds, value]
          simp
          omega
        · simp only [Literal.holds, value]
          simp
          omega
      · have cancelled : orient (atom, coefficient) = none := by
          simp [orient, positive, negative]
        rw [List.filterMap_cons_none cancelled]
        simp only
        split <;> omega

/-- An oriented term stands on the variable of its coefficient. -/
theorem orient_atom {entry : Nat × Int} {term : Nat × Literal}
    (oriented : orient entry = some term) : term.2.atom = entry.1 := by
  unfold orient at oriented
  split at oriented
  · cases oriented
    rfl
  · split at oriented
    · cases oriented
      rfl
    · cases oriented

/-! ### Settling -/

/-- The terms with every coefficient cut to the bound plus one. -/
def cut (terms : List (Nat × Literal)) (bound : Nat) : List (Nat × Literal) :=
  terms.map fun term => (min term.1 (bound + 1), term.2)

/-- **Cutting coefficients changes no comparison with the bound.** -/
theorem cut_le_iff (test : Literal → Bool) (terms : List (Nat × Literal)) (bound : Nat) :
    passedWeight test (cut terms bound) ≤ bound ↔ passedWeight test terms ≤ bound := by
  have general : passedWeight test (cut terms bound) ≤ passedWeight test terms ∧
      (passedWeight test (cut terms bound) ≤ bound →
        passedWeight test (cut terms bound) = passedWeight test terms) := by
    induction terms with
    | nil => exact ⟨Nat.le_refl 0, fun _ => rfl⟩
    | cons term rest ih =>
      obtain ⟨below, exact⟩ := ih
      have unfolded : cut (term :: rest) bound =
          (min term.1 (bound + 1), term.2) :: cut rest bound := rfl
      rw [unfolded, passedWeight_cons, passedWeight_cons]
      by_cases passes : test term.2 = true
      · simp only [passes, if_true]
        refine ⟨by omega, fun within => ?_⟩
        have same := exact (by omega)
        omega
      · simp only [passes]
        refine ⟨by simpa using below, fun within => ?_⟩
        have same := exact (by simpa using within)
        simpa using same
  constructor
  · intro within
    rw [← general.2 within]
    exact within
  · intro within
    exact Nat.le_trans general.1 within

/-- The smallest coefficient is no greater than any. -/
theorem smallest_le {terms : List (Nat × Literal)} {term : Nat × Literal} (inside : term ∈ terms) :
    smallest terms ≤ term.1 := by
  have member : term.1 ∈ terms.map Prod.fst := List.mem_map_of_mem inside
  unfold smallest
  cases least : (terms.map Prod.fst).min? with
  | none =>
    rw [List.min?_eq_none_iff] at least
    rw [least] at member
    cases member
  | some value => exact (List.min?_eq_some_iff.mp least).2 _ member

/-- **A settled sum holds when the weight of its true terms is within the bound.** -/
theorem holds_settle (assignment : Assignment) (terms : List (Nat × Literal)) (bound : Nat) :
    (settle terms bound).holds assignment = decide (trueWeight assignment terms ≤ bound) := by
  rw [trueWeight_eq]
  have agrees := cut_le_iff (Literal.holds assignment) terms bound
  unfold settle
  by_cases light : (terms.map Prod.fst).sum ≤ bound
  · rw [if_pos light]
    have below := passedWeight_le_total (Literal.holds assignment) terms
    simp only [Normal.holds]
    exact (decide_eq_true (by omega)).symm
  · rw [if_neg light]
    change (if ((cut terms bound).map Prod.fst).sum - smallest (cut terms bound) ≤ bound then
      Normal.clause ((cut terms bound).map fun term => -term.2)
      else Normal.linear ⟨cut terms bound, bound⟩).holds assignment = _
    by_cases tight : ((cut terms bound).map Prod.fst).sum - smallest (cut terms bound) ≤ bound
    · rw [if_pos tight]
      simp only [Normal.holds, Clause.holds, List.any_map]
      rw [Bool.eq_iff_iff, List.any_eq_true, decide_eq_true_iff, ← agrees]
      constructor
      · rintro ⟨term, inside, opposite⟩
        have stopped : term.2.holds assignment = false := by simpa using opposite
        have rest := passedWeight_add_le_total inside stopped
        have least := smallest_le inside
        omega
      · intro within
        by_contra allTrue
        -- With every term true the weight is the whole sum, which the bound does not admit.
        have every : ∀ term ∈ cut terms bound, term.2.holds assignment = true := by
          intro term inside
          by_contra isFalse
          exact allTrue ⟨term, inside, by simpa using isFalse⟩
        have uncut : ∀ term ∈ terms, term.2.holds assignment = true := fun term inside =>
          every (min term.1 (bound + 1), term.2) (List.mem_map.mpr ⟨term, inside, rfl⟩)
        have whole := passedWeight_of_all uncut
        have := agrees.mp within
        omega
    · rw [if_neg tight]
      rw [Bool.eq_iff_iff, decide_eq_true_iff, ← agrees]
      exact decide_eq_true_iff

/-! ### The normal form -/

theorem normalize_eq (constraint : AtMost) : constraint.normalize =
    if constraint.gather.2 - negativePart constraint.gather.1 < 0 then .contradiction
    else settle (constraint.gather.1.filterMap orient)
      (constraint.gather.2 - negativePart constraint.gather.1).toNat := rfl

/-- **A bounded sum and its normal form hold under the same assignments.** -/
theorem holds_normalize (assignment : Assignment) (constraint : AtMost) :
    constraint.normalize.holds assignment = constraint.holds assignment := by
  have gathered := gather_exact assignment constraint
  have oriented := mergedWeight_eq assignment constraint.gather.1
  rw [normalize_eq, AtMost.holds]
  by_cases impossible : constraint.gather.2 - negativePart constraint.gather.1 < 0
  · rw [if_pos impossible]
    exact (decide_eq_false (by omega)).symm
  · rw [if_neg impossible, holds_settle, decide_eq_decide]
    omega

end AtMost

/-- The literals that a normal form names. -/
def Normal.literals : Normal → List Literal
  | .tautology => []
  | .contradiction => []
  | .clause literals => literals
  | .linear sum => sum.terms.map Prod.snd

/-- The normal form names no void literal. -/
theorem AtMost.normalize_atoms (constraint : AtMost) :
    ∀ literal ∈ constraint.normalize.literals, literal.atom ≠ 0 := by
  have oriented : ∀ term ∈ constraint.gather.1.filterMap orient, term.2.atom ≠ 0 := by
    intro term inside
    obtain ⟨entry, member, orientation⟩ := List.mem_filterMap.mp inside
    rw [orient_atom orientation]
    exact gather_atoms constraint entry member
  intro literal inside
  rw [normalize_eq] at inside
  split at inside
  · cases inside
  · unfold settle at inside
    split at inside
    · cases inside
    · simp only at inside
      split at inside
      · simp only [Normal.literals, List.map_map, List.mem_map] at inside
        obtain ⟨term, member, rfl⟩ := inside
        exact oriented term member
      · simp only [Normal.literals, List.map_map, List.mem_map] at inside
        obtain ⟨term, member, rfl⟩ := inside
        exact oriented term member

end Loadout
