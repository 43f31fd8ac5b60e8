/-
**Upper bounds on weighted sums of literals, and their normal form.**

An `AtMost` constraint says that the signed coefficients of its true literals add up to at most a
bound. `AtMost.normalize` brings it into one of four forms (`Normal`):

* `Normal.tautology` holds always and `Normal.contradiction` never;
* `Normal.clause` holds when one of its literals does; it stands for a sum that only the
  assignment making every term true can exceed;
* `Normal.linear` is a sum of positive coefficients over distinct variables, in ascending order of
  the variables, with no coefficient above the bound plus one.

The steps are: terms on one variable are merged, where a negative literal counts as one minus its
variable; a negative coefficient moves to the opposite literal; a coefficient that already exceeds
the bound is cut to the bound plus one.
-/

import Loadout.Search.Literal

namespace Loadout

/-- A bound on a sum of signed coefficients of true literals. -/
structure AtMost where
  /-- The coefficients and their literals; a literal may occur more than once. -/
  terms : List (Int × Literal)
  /-- The greatest sum allowed. -/
  bound : Int
deriving DecidableEq, Repr, Inhabited

/-- A bound on a sum of positive coefficients over distinct variables. -/
structure Linear where
  terms : List (Nat × Literal)
  bound : Nat
deriving DecidableEq, Repr, Inhabited

/-- The forms that a bounded sum is brought into. -/
inductive Normal
  /-- Holds under every assignment. -/
  | tautology
  /-- Holds under no assignment. -/
  | contradiction
  /-- Holds when one of the literals does. -/
  | clause (literals : Clause)
  /-- A sum that stays within its bound. -/
  | linear (sum : Linear)
deriving DecidableEq, Repr

/-! ### What the constraints mean -/

/-- The signed sum of the coefficients whose literal is true; a void literal counts nothing. -/
def signedWeight (assignment : Assignment) (terms : List (Int × Literal)) : Int :=
  ((terms.filter fun term => !term.2.isVoid && term.2.holds assignment).map Prod.fst).sum

/-- Whether the sum of the true coefficients is within the bound. -/
def AtMost.holds (assignment : Assignment) (constraint : AtMost) : Bool :=
  decide (signedWeight assignment constraint.terms ≤ constraint.bound)

/-- Whether the weight of the true literals is within the bound. -/
def Linear.holds (assignment : Assignment) (linear : Linear) : Bool :=
  decide (trueWeight assignment linear.terms ≤ linear.bound)

/-- The sum of all coefficients. -/
def Linear.total (linear : Linear) : Nat :=
  (linear.terms.map Prod.fst).sum

/-- Whether a normal form holds under an assignment. -/
def Normal.holds (assignment : Assignment) : Normal → Bool
  | .tautology => true
  | .contradiction => false
  | .clause literals => Clause.holds assignment literals
  | .linear sum => sum.holds assignment

/-! ### Normalization -/

namespace AtMost

/-- Adds an amount to the coefficient of a variable, in a list ascending by variable. -/
def addAt (atom : Nat) (amount : Int) : List (Nat × Int) → List (Nat × Int)
  | [] => [(atom, amount)]
  | (other, coefficient) :: rest =>
    if atom < other then (atom, amount) :: (other, coefficient) :: rest
    else if atom = other then (other, coefficient + amount) :: rest
    else (other, coefficient) :: addAt atom amount rest

/-- One coefficient per variable, and what is left of the bound once each negative literal is
written as one minus its variable. -/
def gather (constraint : AtMost) : List (Nat × Int) × Int :=
  constraint.terms.foldl
    (fun (merged, bound) (coefficient, literal) =>
      if coefficient = 0 ∨ literal.isVoid then (merged, bound)
      else if literal.positive then (addAt literal.atom coefficient merged, bound)
      else (addAt literal.atom (-coefficient) merged, bound - coefficient))
    ([], constraint.bound)

/-- The term of a merged coefficient: a negative one is carried by the negative literal, and a
variable whose coefficients cancel has none. -/
def orient (entry : Nat × Int) : Option (Nat × Literal) :=
  if 0 < entry.2 then some (entry.2.toNat, ⟨entry.1, true⟩)
  else if entry.2 < 0 then some ((-entry.2).toNat, ⟨entry.1, false⟩)
  else none

/-- The negative parts of the merged coefficients, which move into the bound. -/
def negativePart (merged : List (Nat × Int)) : Int :=
  (merged.map fun entry => min entry.2 0).sum

/-- The smallest coefficient, zero when there is none. -/
def smallest (terms : List (Nat × Literal)) : Nat :=
  (terms.map Prod.fst).min?.getD 0

/-- The form of a sum of positive coefficients over distinct variables. -/
def settle (terms : List (Nat × Literal)) (bound : Nat) : Normal :=
  if (terms.map Prod.fst).sum ≤ bound then .tautology
  else
    let cut := terms.map fun term => (min term.1 (bound + 1), term.2)
    if (cut.map Prod.fst).sum - smallest cut ≤ bound then
      .clause (cut.map fun term => -term.2)
    else .linear ⟨cut, bound⟩

/-- The normal form of a bounded sum. -/
def normalize (constraint : AtMost) : Normal :=
  let (merged, bound) := constraint.gather
  let bound := bound - negativePart merged
  if bound < 0 then .contradiction
  else settle (merged.filterMap orient) bound.toNat

end AtMost

end Loadout
