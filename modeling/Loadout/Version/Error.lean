/-
**What can be wrong with the text of a version or of a constraint.**

Each cause is a constructor; `VersionError.message` holds the wording.
-/

namespace Loadout

/-- Why a text is not a constraint. -/
inductive ConstraintFault
  /-- There is nothing between two double bars, or beside one at an end. -/
  | emptyAlternative
  /-- An operator stands without a version. -/
  | operatorWithoutVersion
  /-- A component of a wildcard does not write a number below `2 ^ 64`. -/
  | componentOutOfRange
  /-- A caret or tilde stands before a version without number components. -/
  | rangeNeedsNumericVersion
  /-- The text is no comparison operator. -/
  | unknownOperator
deriving DecidableEq, Repr, Inhabited

/-- What is wrong with the text of a version or constraint. -/
inductive VersionError
  /-- A version is blank. -/
  | invalidVersion (text : String)
  | invalidConstraint (text : String) (fault : ConstraintFault)
deriving DecidableEq, Repr, Inhabited

/-- The wording of a fault. -/
def ConstraintFault.message : ConstraintFault → String
  | .emptyAlternative => "empty alternative"
  | .operatorWithoutVersion => "operator without a version"
  | .componentOutOfRange => "component out of range"
  | .rangeNeedsNumericVersion => "range operators need a numeric version"
  | .unknownOperator => "unknown operator"

/-- The wording of an error. -/
def VersionError.message : VersionError → String
  | .invalidVersion text => s!"Invalid version: '{text}'"
  | .invalidConstraint text fault =>
    s!"Invalid version constraint '{text}': " ++ fault.message

end Loadout
