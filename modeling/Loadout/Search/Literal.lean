/-
**Literals over numbered variables, and the assignments that make them true.**

Variables are numbered from `1`. A `Literal` names a variable and the truth value it asks for;
its *signed number* is the variable for a positive literal and minus the variable for a negative
one (`Literal.ofInt`, `Literal.toInt`). The number `0` names no variable (`Literal.isVoid`): it
may stand in a clause or in a weighted sum and is ignored there.

An `Assignment` gives every variable a value. A clause holds when one of its literals does
(`Clause.holds`); a weighted sum counts the coefficients of its true literals (`trueWeight`).
-/

namespace Loadout

-- Sums of weights start from the numeral zero; other instances come with the algebra that only
-- some of the modules import.
scoped instance natZero : Zero Nat := ⟨0⟩

scoped instance intZero : Zero Int := ⟨0⟩

/-- A variable together with the truth value that is asked of it. -/
structure Literal where
  /-- The number of the variable. -/
  atom : Nat
  /-- Whether the variable is asked to be true. -/
  positive : Bool
deriving DecidableEq, Repr, Inhabited

/-- A truth value for every variable. -/
abbrev Assignment := Nat → Bool

namespace Literal

/-! ### Signed numbers -/

/-- The literal written as a signed number; zero gives a literal on no variable. -/
def ofInt (number : Int) : Literal :=
  ⟨number.natAbs, 0 < number⟩

/-- The signed number of a literal. -/
def toInt (literal : Literal) : Int :=
  if literal.positive then literal.atom else -literal.atom

/-- The positive literal of a variable. -/
def ofAtom (atom : Nat) : Literal :=
  ⟨atom, true⟩

/-- Whether the literal names no variable. -/
def isVoid (literal : Literal) : Bool :=
  literal.atom == 0

/-- The opposite literal. -/
def negate (literal : Literal) : Literal :=
  { literal with positive := !literal.positive }

instance : Neg Literal := ⟨negate⟩

@[simp] theorem neg_atom (literal : Literal) : (-literal).atom = literal.atom := rfl

@[simp] theorem neg_positive (literal : Literal) : (-literal).positive = !literal.positive := rfl

@[simp] theorem neg_neg (literal : Literal) : - -literal = literal := by
  cases literal
  simp [Neg.neg, negate]

/-! ### Truth -/

/-- Whether the literal is true under an assignment. -/
def holds (assignment : Assignment) (literal : Literal) : Bool :=
  assignment literal.atom == literal.positive

/-- Exactly one of a literal and its opposite is true. -/
@[simp] theorem holds_neg (assignment : Assignment) (literal : Literal) :
    (-literal).holds assignment = !literal.holds assignment := by
  simp only [holds, neg_atom, neg_positive]
  cases assignment literal.atom <;> cases literal.positive <;> rfl

end Literal

/-- A disjunction of literals. -/
abbrev Clause := List Literal

/-- Whether some literal of the clause is true. -/
def Clause.holds (assignment : Assignment) (clause : Clause) : Bool :=
  clause.any (Literal.holds assignment)

/-- The sum of the coefficients whose literal is true. -/
def trueWeight (assignment : Assignment) (terms : List (Nat × Literal)) : Nat :=
  ((terms.filter fun term => term.2.holds assignment).map Prod.fst).sum

end Loadout
