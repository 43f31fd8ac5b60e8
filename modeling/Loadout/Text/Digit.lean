/-
**Decimal digits and the numbers they write.**

`isDecimalDigit` holds for the characters of the category Nd, the decimal digits of every script;
only the ten ASCII digits write numbers (`readDigits`). The readers keep to a range: `readNatural`
reads a number below a limit, with an optional `+` in front, and `readInteger` a number between two
limits, with an optional sign.
-/

namespace Loadout

/-- The zeros of the category Nd. Each of them is followed by its other nine digits. -/
def decimalZeros : List Nat :=
  [0x30, 0x660, 0x6F0, 0x7C0, 0x966, 0x9E6, 0xA66, 0xAE6, 0xB66, 0xBE6, 0xC66, 0xCE6, 0xD66, 0xDE6,
    0xE50, 0xED0, 0xF20, 0x1040, 0x1090, 0x17E0, 0x1810, 0x1946, 0x19D0, 0x1A80, 0x1A90, 0x1B50,
    0x1BB0, 0x1C40, 0x1C50, 0xA620, 0xA8D0, 0xA900, 0xA9D0, 0xA9F0, 0xAA50, 0xABF0, 0xFF10,
    0x104A0, 0x10D30, 0x10D40, 0x11066, 0x110F0, 0x11136, 0x111D0, 0x112F0, 0x11450, 0x114D0,
    0x11650, 0x116C0, 0x116D0, 0x116DA, 0x11730, 0x118E0, 0x11950, 0x11BF0, 0x11C50, 0x11D50,
    0x11DA0, 0x11F50, 0x16130, 0x16A60, 0x16AC0, 0x16B50, 0x16D70, 0x1CCF0, 0x1D7CE, 0x1D7D8,
    0x1D7E2, 0x1D7EC, 0x1D7F6, 0x1E140, 0x1E2F0, 0x1E4F0, 0x1E5F1, 0x1E950, 0x1FBF0]

/-- Whether a character is a decimal digit of some script. -/
def isDecimalDigit (character : Char) : Bool :=
  decimalZeros.any fun start => start ≤ character.toNat && character.toNat ≤ start + 9

/-- The value of an ASCII digit. -/
def digitValue (character : Char) : Nat :=
  character.toNat - 0x30

/-- The number that a run of characters writes in ASCII digits; an empty run writes none. -/
def readDigits (text : List Char) : Option Nat :=
  if text.isEmpty || !text.all Char.isDigit then none
  else some (text.foldl (fun number character => 10 * number + digitValue character) 0)

/-- The value of a digit in a notation with a base of at most sixteen. -/
def digitValue? (base : Nat) (character : Char) : Option Nat :=
  let value? :=
    if character.isDigit then some (digitValue character)
    else if 'a' ≤ character ∧ character ≤ 'f' then some (character.toNat - 0x57)
    else if 'A' ≤ character ∧ character ≤ 'F' then some (character.toNat - 0x37)
    else none
  value?.filter (· < base)

/-- The number that a run of characters writes in a base of at most sixteen; an empty run writes
none. -/
def readInBase (base : Nat) (text : List Char) : Option Nat :=
  if text.isEmpty then none
  else text.foldlM (fun number character => (digitValue? base character).map (base * number + ·)) 0

/-- The number that a run of hexadecimal digits writes. -/
def readHex (text : List Char) : Option Nat :=
  readInBase 16 text

/-- The least number that has no place in 64 bits, the power of two with the exponent 64. -/
def wordLimit : Nat :=
  0x10000000000000000

/-- The least magnitude that has no place in 64 bits of which one is a sign. -/
def signedLimit : Nat :=
  0x8000000000000000

/-- The number that a run of ASCII digits writes, if it has a place in 64 bits. -/
def readWord (text : List Char) : Option Nat :=
  (readDigits text).filter (· < wordLimit)

/-- The number below a limit that a text writes, with an optional plus sign. -/
def readNatural (limit : Nat) (text : List Char) : Option Nat :=
  let digits := match text with
    | '+' :: rest => rest
    | _ => text
  (readDigits digits).filter (· < limit)

/-- The number from `lowest` to `highest` that a text writes, with an optional sign. -/
def readInteger (lowest highest : Int) (text : List Char) : Option Int :=
  let number := match text with
    | '-' :: rest => (readDigits rest).map fun value => -(value : Int)
    | '+' :: rest => (readDigits rest).map Int.ofNat
    | _ => (readDigits text).map Int.ofNat
  number.filter fun value => lowest ≤ value && value ≤ highest

end Loadout
