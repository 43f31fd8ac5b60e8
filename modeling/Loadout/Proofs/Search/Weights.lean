/-
**Weights of the true terms of a sum.**

Sums of coefficients over the terms that pass a test, for natural coefficients (`passedWeight`):
the weight grows with the test (`passedWeight_le`), strictly so by the coefficient of any term that
only the larger test lets pass (`passedWeight_add_le`), and depends on the test's values at the
terms alone (`passedWeight_congr`).
-/

import Loadout.Search.AtMost

namespace Loadout

/-- The sum of the coefficients of the terms whose literal passes a test. -/
def passedWeight (test : Literal → Bool) (terms : List (Nat × Literal)) : Nat :=
  ((terms.filter fun term => test term.2).map Prod.fst).sum

/-- The weight of the true terms is the weight of those that pass the test of truth. -/
theorem trueWeight_eq (assignment : Assignment) (terms : List (Nat × Literal)) :
    trueWeight assignment terms = passedWeight (Literal.holds assignment) terms := rfl

@[simp] theorem passedWeight_nil (test : Literal → Bool) : passedWeight test [] = 0 := rfl

@[simp] theorem passedWeight_cons (test : Literal → Bool) (term : Nat × Literal)
    (rest : List (Nat × Literal)) :
    passedWeight test (term :: rest) =
      (if test term.2 then term.1 else 0) + passedWeight test rest := by
  unfold passedWeight
  by_cases passes : test term.2 = true
  · simp [passes]
  · simp [passes]

/-- Only the values of the test at the terms matter. -/
theorem passedWeight_congr {first second : Literal → Bool} {terms : List (Nat × Literal)}
    (same : ∀ term ∈ terms, first term.2 = second term.2) :
    passedWeight first terms = passedWeight second terms := by
  unfold passedWeight
  rw [List.filter_congr same]

/-- A test that lets more terms pass gives no smaller weight. -/
theorem passedWeight_le {first second : Literal → Bool} {terms : List (Nat × Literal)}
    (weaker : ∀ term ∈ terms, first term.2 = true → second term.2 = true) :
    passedWeight first terms ≤ passedWeight second terms := by
  induction terms with
  | nil => exact Nat.le_refl 0
  | cons term rest ih =>
    have below := ih fun other inside => weaker other (List.mem_cons_of_mem _ inside)
    have here := weaker term List.mem_cons_self
    rw [passedWeight_cons, passedWeight_cons]
    by_cases passes : first term.2 = true
    · rw [if_pos passes, if_pos (here passes)]
      omega
    · rw [if_neg passes]
      omega

/-- A term that only the larger test lets pass adds its coefficient. -/
theorem passedWeight_add_le (first second : Literal → Bool) {terms : List (Nat × Literal)}
    {term : Nat × Literal} (inside : term ∈ terms) (stopped : first term.2 = false)
    (passes : second term.2 = true)
    (weaker : ∀ other ∈ terms, first other.2 = true → second other.2 = true) :
    passedWeight first terms + term.1 ≤ passedWeight second terms := by
  induction terms with
  | nil => cases inside
  | cons head rest ih =>
    have restWeaker : ∀ other ∈ rest, first other.2 = true → second other.2 = true :=
      fun other member => weaker other (List.mem_cons_of_mem _ member)
    rw [passedWeight_cons, passedWeight_cons]
    rcases List.mem_cons.mp inside with here | later
    · subst here
      have below := passedWeight_le restWeaker
      rw [if_neg (by rw [stopped]; exact Bool.false_ne_true), if_pos passes]
      omega
    · have below := ih later restWeaker
      have headWeaker := weaker head List.mem_cons_self
      by_cases headPasses : first head.2 = true
      · rw [if_pos headPasses, if_pos (headWeaker headPasses)]
        omega
      · rw [if_neg headPasses]
        omega

/-- No test gives more than the sum of all coefficients. -/
theorem passedWeight_le_total (test : Literal → Bool) (terms : List (Nat × Literal)) :
    passedWeight test terms ≤ (terms.map Prod.fst).sum := by
  induction terms with
  | nil => exact Nat.le_refl 0
  | cons term rest ih =>
    rw [passedWeight_cons, List.map_cons, List.sum_cons]
    split <;> omega

/-- A test that all terms pass gives the sum of all coefficients. -/
theorem passedWeight_of_all {test : Literal → Bool} {terms : List (Nat × Literal)}
    (passes : ∀ term ∈ terms, test term.2 = true) :
    passedWeight test terms = (terms.map Prod.fst).sum := by
  unfold passedWeight
  rw [List.filter_eq_self.mpr passes]

/-- A term that is stopped leaves at most the rest of the sum. -/
theorem passedWeight_add_le_total {test : Literal → Bool} {terms : List (Nat × Literal)}
    {term : Nat × Literal} (inside : term ∈ terms) (stopped : test term.2 = false) :
    passedWeight test terms + term.1 ≤ (terms.map Prod.fst).sum := by
  have whole : passedWeight (fun _ => true) terms = (terms.map Prod.fst).sum :=
    passedWeight_of_all fun _ _ => rfl
  rw [← whole]
  exact passedWeight_add_le test _ inside stopped rfl fun _ _ _ => rfl

end Loadout
