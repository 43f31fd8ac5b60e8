/-
**Comparisons and constraints over versions.**

A `Comparator` compares a version with a fixed one by an `Operator`. A `Constraint` is a list of
alternatives, each of which is a list of comparators: it matches a version when every comparator of
some alternative does (`Constraint.accepts`). An alternative without comparators matches every
version.
-/

import Loadout.Version

namespace Loadout

/-- How a version is compared with the version of a comparator. -/
inductive Operator
  | equal
  | notEqual
  | less
  | lessOrEqual
  | greater
  | greaterOrEqual
deriving DecidableEq, Repr, Inhabited

namespace Operator

/-- The sign of the operator. -/
def sign : Operator → String
  | .equal => "="
  | .notEqual => "!="
  | .less => "<"
  | .lessOrEqual => "<="
  | .greater => ">"
  | .greaterOrEqual => ">="

/-- Whether the operator accepts a version that stands so to the version of the comparator. -/
def accepts : Operator → Ordering → Bool
  | .equal, ordering => ordering == .eq
  | .notEqual, ordering => ordering != .eq
  | .less, ordering => ordering == .lt
  | .lessOrEqual, ordering => ordering != .gt
  | .greater, ordering => ordering == .gt
  | .greaterOrEqual, ordering => ordering != .lt

end Operator

/-- One comparison with a version. -/
structure Comparator where
  operator : Operator
  version : Version
deriving DecidableEq, Repr, Inhabited

namespace Comparator

/-- Whether a version passes the comparison. -/
def accepts (comparator : Comparator) (version : Version) : Bool :=
  comparator.operator.accepts (version.order comparator.version)

/-- The comparison as it is written. -/
def text (comparator : Comparator) : String :=
  comparator.operator.sign ++ comparator.version.text

end Comparator

/-- A predicate over versions: alternatives of comparators that hold together. -/
structure Constraint where
  alternatives : List (List Comparator)
  /-- The constraint as it is written. -/
  text : String
deriving DecidableEq, Repr, Inhabited

namespace Constraint

/-- The constraint that matches every version. -/
def any : Constraint :=
  ⟨[[]], "*"⟩

/-- The constraint that matches the versions equal to one. -/
def exact (version : Version) : Constraint :=
  ⟨[[⟨.equal, version⟩]], "=" ++ version.text⟩

/-- Whether a version satisfies the constraint. -/
def accepts (constraint : Constraint) (version : Version) : Bool :=
  constraint.alternatives.any fun alternative => alternative.all (Comparator.accepts · version)

/-- Whether some alternative has no comparators, so that every version is accepted. -/
def acceptsAll (constraint : Constraint) : Bool :=
  constraint.alternatives.any List.isEmpty

end Constraint

end Loadout
