/-
**Reading constraints.**

A constraint is a list of alternatives between double bars; a blank text is the constraint that
accepts everything. The tokens of an alternative stand between blanks and commas. A token of
operator characters alone goes with the next other token, and the last such token before it counts.
The terms mean:

* `*`, `x` or `X` accepts every version;
* a wildcard `1.2.x` accepts from `1.2` up to, but without, `1.3`;
* `^1.2.3` accepts from `1.2.3` up to the version in which the first component that is not zero is
  raised by one, and `~1.2.3` up to the version in which the second component is (the only one, or
  the first of two);
* any other operator compares with the version behind it, and none at all means equality.

The greatest number of 64 bits cannot be raised: the program stops where a term asks for it
(`ConstraintFailure.overflow`), without a constraint and without an error.
-/

import Loadout.Constraint
import Loadout.Version.Parser

namespace Loadout

/-- Reads an operator. -/
def Operator.parse (text : String) : Except VersionError Operator :=
  if text = "" ∨ text = "=" ∨ text = "==" then .ok .equal
  else if text = "!=" ∨ text = "<>" then .ok .notEqual
  else if text = "<" then .ok .less
  else if text = "<=" then .ok .lessOrEqual
  else if text = ">" then .ok .greater
  else if text = ">=" then .ok .greaterOrEqual
  else .error (.invalidConstraint text .unknownOperator)

/-- How the reading of a constraint ends without one. -/
inductive ConstraintFailure
  /-- The text is no constraint. -/
  | refused (error : VersionError)
  /-- A component that is to be raised is the greatest number of 64 bits, and the program stops. -/
  | overflow
deriving DecidableEq, Repr, Inhabited

/-- What stands in front of the version of a term. -/
inductive Range
  /-- The first component that is not zero stays fixed. -/
  | caret
  /-- All components before the last one stay fixed, two of them at most. -/
  | tilde
  | compare (operator : Operator)
deriving DecidableEq, Repr, Inhabited

namespace Constraint

/-! ### Tokens and terms -/

/-- Whether a character may stand in a token that goes with the next one. -/
def isOperatorCharacter (character : Char) : Bool :=
  "<>=!^~".toList.contains character

/-- The terms of a list of tokens, where `pending` goes in front of the next term. -/
def glue (pending : List Char) : List (List Char) → List (List Char)
  | [] => if pending.isEmpty then [] else [pending]
  | token :: rest =>
    if token.all isOperatorCharacter then glue token rest
    else (pending ++ token) :: glue [] rest

/-- The terms of an alternative. -/
def termsOf (alternative : List Char) : List (List Char) :=
  glue [] ((piecesBy (fun character => isBlank character || character == ',')
    alternative).filter fun token => !token.isEmpty)

/-- The operator at the start of a term and the text behind it; two characters are taken for an
operator before one is. -/
def splitRange : List Char → Range × List Char
  | '^' :: rest => (.caret, rest)
  | '~' :: rest => (.tilde, rest)
  | '>' :: '=' :: rest => (.compare .greaterOrEqual, rest)
  | '<' :: '=' :: rest => (.compare .lessOrEqual, rest)
  | '=' :: '=' :: rest => (.compare .equal, rest)
  | '!' :: '=' :: rest => (.compare .notEqual, rest)
  | '<' :: '>' :: rest => (.compare .notEqual, rest)
  | '>' :: rest => (.compare .greater, rest)
  | '<' :: rest => (.compare .less, rest)
  | '=' :: rest => (.compare .equal, rest)
  | rest => (.compare .equal, rest)

/-- The components of a wildcard, each as it is written; `none` if the term is no wildcard. -/
def wildcard? (term : List Char) : Option (List (List Char)) :=
  match (piecesBy (· == '.') (Version.dropMark term)).reverse with
  | [last] :: first :: rest =>
    let components := (first :: rest).reverse
    if (last == 'x' || last == 'X' || last == '*') &&
        components.all (fun component => !component.isEmpty && component.all isDecimalDigit)
    then some components
    else none
  | _ => none

/-! ### Bounds -/

/-- The components up to a place, the last of them raised by one. -/
def raise (numbers : List Nat) (place : Nat) : Version :=
  .ofNumbers (numbers.take place ++ [numbers[place]?.getD 0 + 1])

/-- The place of the first component that is not zero, or else of the last component. -/
def caretPlace (numbers : List Nat) : Nat :=
  (numbers.findIdx? (· != 0)).getD (numbers.length - 1)

/-- The place of the component that a tilde raises. -/
def tildePlace (numbers : List Nat) : Nat :=
  min (numbers.length - 2) 1

/-- The comparators that accept from a version up to, but without, another. -/
def between (lowest above : Version) : List Comparator :=
  [⟨.greaterOrEqual, lowest⟩, ⟨.less, above⟩]

/-- The range from a version up to the one in which the component at a place is raised. -/
def rangeFrom (lowest : Version) (place : Nat) : Except ConstraintFailure (List Comparator) :=
  if lowest.component place + 1 < wordLimit then .ok (between lowest (raise lowest.numbers place))
  else .error .overflow

/-! ### Reading -/

/-- The range of the version behind a caret or tilde, of which `place` says what is raised; `whole`
is the text that an error names. -/
def signedRange (whole : String) (version : Version) (place : List Nat → Nat) :
    Except ConstraintFailure (List Comparator) :=
  if version.isNumeric then rangeFrom version (place version.numbers)
  else .error (.refused (.invalidConstraint whole .rangeNeedsNumericVersion))

/-- What is made of a version by what stands in front of it. -/
def applyRange (whole : String) (version : Version) :
    Range → Except ConstraintFailure (List Comparator)
  | .compare operator => .ok [⟨operator, version⟩]
  | .caret => signedRange whole version caretPlace
  | .tilde => signedRange whole version tildePlace

/-- Reads a term. -/
def readTerm (whole : String) (term : List Char) : Except ConstraintFailure (List Comparator) :=
  if term = ['*'] ∨ term = ['x'] ∨ term = ['X'] then .ok []
  else match wildcard? term with
    | some components =>
      match components.mapM readWord with
      | some numbers => rangeFrom (.ofNumbers numbers) (numbers.length - 1)
      | none => .error (.refused (.invalidConstraint whole .componentOutOfRange))
    | none =>
      let (range, operand) := splitRange term
      if operand.isEmpty then .error (.refused (.invalidConstraint whole .operatorWithoutVersion))
      else applyRange whole (Version.ofTrimmed operand) range

/-- Reads an alternative. -/
def readAlternative (whole : String) (alternative : List Char) :
    Except ConstraintFailure (List Comparator) := do
  let alternative := trimBlank alternative
  if alternative.isEmpty then throw (.refused (.invalidConstraint whole .emptyAlternative))
  return (← (termsOf alternative).mapM (readTerm whole)).flatten

/-- Reads a constraint. -/
def parse (text : String) : Except ConstraintFailure Constraint := do
  let trimmed := trimBlank text.toList
  if trimmed.isEmpty then return any
  let alternatives ← (piecesAtBars trimmed).mapM (readAlternative text)
  return ⟨alternatives, String.ofList trimmed⟩

end Constraint

end Loadout
