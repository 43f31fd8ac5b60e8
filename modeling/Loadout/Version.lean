/-
**Versions and their order.**

A version that is written as dotted numbers, such as `1.4.2-rc.1+build`, is *numeric*: it has
number components and perhaps pre-release identifiers. Every other text is a *raw* version.
`Version.order` compares two versions:

* every numeric version comes after every raw one;
* numeric versions compare by their components, missing ones counting as zero, and then a version
  with pre-release identifiers comes before the one without;
* identifiers compare one by one, numbers before names, and a shorter list before its extensions;
* raw versions compare by their text, character by character.

Build metadata has no part in the order, so two versions with different texts may be equal in it.
-/

namespace Loadout

/-- One of the dot-separated identifiers of a pre-release tag. -/
inductive Identifier
  | number (value : Nat)
  | name (text : String)
deriving DecidableEq, Repr, Inhabited

/-- A version with its text and, if it is numeric, its parts. -/
structure Version where
  /-- The version as it is written. -/
  text : String
  /-- The number components; a raw version has none. -/
  numbers : List Nat
  /-- The identifiers of the pre-release tag, if there is one. -/
  preRelease : List Identifier
deriving DecidableEq, Repr, Inhabited

/-- The order of two texts by the code points of their characters. -/
def compareTexts (left right : String) : Ordering :=
  List.compareLex compare (left.toList.map Char.toNat) (right.toList.map Char.toNat)

namespace Identifier

/-- Numbers come before names. -/
def order : Identifier → Identifier → Ordering
  | .number left, .number right => compare left right
  | .number _, .name _ => .lt
  | .name _, .number _ => .gt
  | .name left, .name right => compareTexts left right

end Identifier

namespace Version

/-! ### Making versions -/

/-- The version that has no parts but its text. -/
def raw (text : String) : Version :=
  ⟨text, [], []⟩

/-- The version with the given number components. -/
def ofNumbers (numbers : List Nat) : Version :=
  ⟨".".intercalate (numbers.map toString), numbers, []⟩

/-! ### Parts of versions -/

/-- Whether the version has number components. -/
def isNumeric (version : Version) : Bool :=
  !version.numbers.isEmpty

/-- Whether the version has a pre-release tag. -/
def isPreRelease (version : Version) : Bool :=
  !version.preRelease.isEmpty

/-- The component at a place, zero past the last one. -/
def component (version : Version) (place : Nat) : Nat :=
  version.numbers[place]?.getD 0

/-! ### The order -/

/-- The order of components that are all zero against others. -/
def compareZeros : List Nat → Ordering
  | [] => .eq
  | number :: rest => (compare 0 number).then (compareZeros rest)

/-- The order of components, missing ones counting as zero. -/
def compareNumbers : List Nat → List Nat → Ordering
  | [], right => compareZeros right
  | number :: rest, [] => (compare number 0).then (compareNumbers rest [])
  | number :: rest, other :: others => (compare number other).then (compareNumbers rest others)

/-- The order of pre-release tags: without one comes last. -/
def comparePreReleases (left right : List Identifier) : Ordering :=
  match left.isEmpty, right.isEmpty with
  | true, true => .eq
  | true, false => .gt
  | false, true => .lt
  | false, false => List.compareLex Identifier.order left right

/-- The order of versions. -/
def order (left right : Version) : Ordering :=
  match left.isNumeric, right.isNumeric with
  | true, true =>
    (compareNumbers left.numbers right.numbers).then
      (comparePreReleases left.preRelease right.preRelease)
  | true, false => .gt
  | false, true => .lt
  | false, false => compareTexts left.text right.text

/-- Whether two versions stand at the same place of the order. -/
def equals (left right : Version) : Bool :=
  left.order right == .eq

instance : Ord Version := ⟨order⟩

instance : ToString Version := ⟨text⟩

end Version

end Loadout
