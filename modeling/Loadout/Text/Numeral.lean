/-
**Decimal numerals with a fraction and an exponent.**

`readNumeral` reads a whole part without superfluous zeros, an optional fraction and an optional
exponent. A numeral stands for `significand * 10 ^ exponent`, in which no digit is lost;
`Numeral.exceedsDoubles` tells by this value whether the nearest double would be infinite.
-/

import Loadout.Text.Digit

namespace Loadout

/-- A number in decimal notation, without a sign. -/
structure Numeral where
  significand : Nat
  exponent : Int
  /-- Whether there is neither a fraction nor an exponent. -/
  isWhole : Bool
deriving DecidableEq, Repr, Inhabited

/-- The least magnitude whose nearest double is infinite: it lies halfway between the greatest
double, `(2 ^ 53 - 1) * 2 ^ 971`, and `2 ^ 1024`. -/
def doubleLimit : Nat :=
  0x3FFFFFFFFFFFFF <<< 970

/-- Whether the nearest double is infinite. The limit has 309 digits, so only numbers with as many
digits in front of the point have to be compared with it. -/
def Numeral.exceedsDoubles (numeral : Numeral) : Bool :=
  let length := ((Nat.toDigits 10 numeral.significand).length : Int) + numeral.exponent
  numeral.significand != 0 &&
    (309 < length ||
      (length == 309 &&
        doubleLimit * Nat.pow 10 (-numeral.exponent).toNat ≤
          numeral.significand * Nat.pow 10 numeral.exponent.toNat))

/-- Reads an exponent from all of a text; without a text it is zero. -/
def readExponent : List Char → Option Int
  | [] => some 0
  | mark :: digits =>
    if mark == 'e' || mark == 'E' then
      match digits with
      | '+' :: digits => (readDigits digits).map Int.ofNat
      | '-' :: digits => (readDigits digits).map fun value => -(value : Int)
      | _ => (readDigits digits).map Int.ofNat
    else none

/-- Whether a run of digits has a zero in front that adds nothing. -/
def hasIdleZero : List Char → Bool
  | '0' :: _ :: _ => true
  | _ => false

/-- Reads a numeral from all of a text. -/
def readNumeral (text : List Char) : Option Numeral :=
  let whole := text.takeWhile Char.isDigit
  if hasIdleZero whole then none
  else
    match text.dropWhile Char.isDigit with
    | [] => (readDigits whole).map fun value => ⟨value, 0, true⟩
    | '.' :: rest => do
      let fraction := rest.takeWhile Char.isDigit
      let _ ← readDigits whole
      let _ ← readDigits fraction
      let significand ← readDigits (whole ++ fraction)
      let exponent ← readExponent (rest.dropWhile Char.isDigit)
      return ⟨significand, exponent - fraction.length, false⟩
    | rest => do
      let significand ← readDigits whole
      let exponent ← readExponent rest
      return ⟨significand, exponent, false⟩

end Loadout
