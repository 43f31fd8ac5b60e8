/-
**Numbers, truth values and moments in TOML.**

All of them are words (`isWordCharacter`). An integer is decimal, hexadecimal, octal or binary and
lies between `-2 ^ 63` and `2 ^ 63 - 1`. In a number an underscore may stand between two digits
(`joinGroups`). A moment is a date, a time of day, or both, with a space or the letter T between
them; it has no counterpart in JSON and is read as an object without fields.
-/

import Loadout.Json
import Loadout.Text.Numeral

namespace Loadout

namespace Toml

/-- Whether a character may stand in a number or moment. -/
def isWordCharacter (character : Char) : Bool :=
  character.isAlphanum || ['+', '-', '.', ':', '_'].contains character

/-! ### Numbers -/

/-- The text without its underscores, each of which has to stand between two digits; `behind` says
whether the character in front of the text is a digit. -/
def joinGroupsFrom (isDigit : Char → Bool) : Bool → List Char → Option (List Char)
  | _, [] => some []
  | behind, '_' :: rest =>
    if behind && (rest.head?.map isDigit).getD false then joinGroupsFrom isDigit false rest
    else none
  | _, character :: rest => (joinGroupsFrom isDigit (isDigit character) rest).map (character :: ·)

/-- The text without its underscores, each of which has to stand between two digits. -/
def joinGroups (isDigit : Char → Bool) (text : List Char) : Option (List Char) :=
  joinGroupsFrom isDigit false text

/-- A text without its sign, and whether that is a minus. -/
def splitSign : List Char → Bool × List Char
  | '-' :: rest => (true, rest)
  | '+' :: rest => (false, rest)
  | text => (false, text)

/-- Reads an integer without sign in some base. -/
def readBased (base : Nat) (digits : List Char) : Option Int := do
  let digits ← joinGroups (fun character => (digitValue? base character).isSome) digits
  let value ← readInBase base digits
  if value < signedLimit then some value else none

/-- Reads an integer. -/
def readInteger? (word : List Char) : Option Int :=
  match word with
  | '0' :: 'x' :: digits => readBased 16 digits
  | '0' :: 'o' :: digits => readBased 8 digits
  | '0' :: 'b' :: digits => readBased 2 digits
  | _ => do
    let text ← joinGroups Char.isDigit word
    if hasIdleZero (splitSign text).2 then none
    else readInteger (-(signedLimit : Int)) (signedLimit - 1) text

/-- Reads a number that is not an integer. Infinities have to be written as such. -/
def readDecimal? (word : List Char) : Option Json := do
  let (negative, unsigned) := splitSign (← joinGroups Char.isDigit word)
  if unsigned != ['i', 'n', 'f'] && unsigned != ['n', 'a', 'n'] then
    let numeral ← readNumeral unsigned
    if numeral.isWhole || (numeral.exceedsDoubles && !negative) then failure
  return .decimal (String.ofList word)

/-! ### Moments -/

/-- The number that two digits write. -/
def twoDigits (first second : Char) : Option Nat :=
  readDigits [first, second]

/-- How many days a month has. -/
def daysInMonth (year month : Nat) : Nat :=
  if month == 2 then
    if year % 4 == 0 && (year % 100 != 0 || year % 400 == 0) then 29 else 28
  else if [4, 6, 9, 11].contains month then 30
  else 31

/-- What follows a date at the start of a text. -/
def skipDate : List Char → Option (List Char)
  | y₁ :: y₂ :: y₃ :: y₄ :: '-' :: m₁ :: m₂ :: '-' :: d₁ :: d₂ :: rest => do
    let year ← readDigits [y₁, y₂, y₃, y₄]
    let month ← twoDigits m₁ m₂
    let day ← twoDigits d₁ d₂
    if 1 ≤ month && month ≤ 12 && 1 ≤ day && day ≤ daysInMonth year month then some rest else none
  | _ => none

/-- What follows an hour and a minute at the start of a text. -/
def skipMinute : List Char → Option (List Char)
  | h₁ :: h₂ :: ':' :: m₁ :: m₂ :: rest => do
    if (← twoDigits h₁ h₂) < 24 && (← twoDigits m₁ m₂) < 60 then some rest else none
  | _ => none

/-- What follows a time of day at the start of a text. A minute may have sixty-one seconds. -/
def skipTime (text : List Char) : Option (List Char) := do
  match ← skipMinute text with
  | ':' :: s₁ :: s₂ :: rest =>
    if 60 < (← twoDigits s₁ s₂) then failure
    match rest with
    | '.' :: fraction =>
      if (fraction.takeWhile Char.isDigit).isEmpty then none
      else some (fraction.dropWhile Char.isDigit)
    | _ => some rest
  | _ => none

/-- What follows the offset of a time of day from Greenwich, which may be missing. -/
def skipOffset : List Char → Option (List Char)
  | 'Z' :: rest => some rest
  | 'z' :: rest => some rest
  | '+' :: rest => skipMinute rest
  | '-' :: rest => skipMinute rest
  | rest => some rest

/-- Whether a text is a time of day, perhaps with an offset. -/
def isTimeOfDate (text : List Char) : Bool :=
  (skipTime text).bind skipOffset == some []

/-- Whether a word is a date and a time, or a time. -/
def isTimed (word : List Char) : Bool :=
  skipTime word == some [] ||
    match skipDate word with
    | some ('T' :: time) => isTimeOfDate time
    | some ('t' :: time) => isTimeOfDate time
    | _ => false

/-- What stands for a moment. -/
def moment : Json :=
  .object []

/-! ### Words -/

/-- The value of a word. -/
def wordValue? (word : List Char) : Option Json :=
  if word == ['t', 'r', 'u', 'e'] then some (.bool true)
  else if word == ['f', 'a', 'l', 's', 'e'] then some (.bool false)
  else if isTimed word then some moment
  else (readInteger? word).map .integer <|> readDecimal? word

/-- Reads a word from the start of a text, or a date and its time with a space between them. -/
def readWord? (text : List Char) : Option (Json × List Char) :=
  let word := text.takeWhile isWordCharacter
  let rest := text.dropWhile isWordCharacter
  if skipDate word == some [] then
    match rest with
    | ' ' :: next =>
      let time := next.takeWhile isWordCharacter
      if time.isEmpty then some (moment, rest)
      else if isTimeOfDate time then some (moment, next.dropWhile isWordCharacter)
      else none
    | _ => some (moment, rest)
  else (wordValue? word).map fun value => (value, rest)

end Toml

end Loadout
