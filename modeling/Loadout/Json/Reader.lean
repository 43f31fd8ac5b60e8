/-
**Reading JSON texts.**

A text is cut into tokens (`Json.tokens`), and the tokens drive a machine with a stack of the
arrays and objects that are still open (`Json.Machine.step`). A text is refused when

* a token is malformed: a control character in a quoted text, a number with a superfluous zero, an
  unknown word;
* a token does not fit where it stands, or the text ends early.

A value that lies within more arrays and objects than a given depth allows is unreadable, and so is
one that only looks like a text or a number (`Json.unreadable`).
-/

import Loadout.Json
import Loadout.Text.Digit
import Loadout.Text.Numeral

namespace Loadout

namespace Json

/-! ### Tokens -/

/-- A token of a JSON text. -/
inductive Token
  | openArray
  | closeArray
  | openObject
  | closeObject
  | comma
  | colon
  /-- A text, or none if it holds half a surrogate pair. -/
  | text (content : Option String)
  /-- A null, truth value or number. -/
  | scalar (value : Json)
deriving Repr, Inhabited

/-- Whether a character may stand between tokens. -/
def isGap (character : Char) : Bool :=
  character == ' ' || character == '\n' || character == '\r' || character == '\t'

/-- The character that a letter stands for behind a backslash. -/
def shortEscape : Char → Option Char
  | '"' => some '"'
  | '\\' => some '\\'
  | '/' => some '/'
  | 'b' => some '\x08'
  | 'f' => some '\x0c'
  | 'n' => some '\n'
  | 'r' => some '\r'
  | 't' => some '\t'
  | _ => none

/-- Whether a unit is the first half of a surrogate pair. -/
def isHighHalf (unit : Nat) : Bool :=
  0xD800 ≤ unit && unit ≤ 0xDBFF

/-- Whether a unit is the second half of a surrogate pair. -/
def isLowHalf (unit : Nat) : Bool :=
  0xDC00 ≤ unit && unit ≤ 0xDFFF

/-- The text of some units, in which surrogate pairs stand for one character each; none if half a
pair stands alone. -/
def joinHalves : List Nat → Option (List Char)
  | [] => some []
  | unit :: rest =>
    if isLowHalf unit then none
    else if isHighHalf unit then
      match rest with
      | low :: rest =>
        if isLowHalf low then
          (joinHalves rest).map
            (Char.ofNat (0x10000 + (unit - 0xD800) * 0x400 + (low - 0xDC00)) :: ·)
        else none
      | [] => none
    else (joinHalves rest).map (Char.ofNat unit :: ·)

/-- Puts a unit in front of those that were read. -/
def before (unit : Nat) : Option (List Nat × List Char) → Option (List Nat × List Char)
  | some (units, rest) => some (unit :: units, rest)
  | none => none

/-- Reads a quoted text from behind its opening quote; gives its units and what follows it. -/
def readQuoted : List Char → Option (List Nat × List Char)
  | [] => none
  | '"' :: rest => some ([], rest)
  | '\\' :: 'u' :: a :: b :: c :: d :: rest =>
    match readHex [a, b, c, d] with
    | none => none
    | some unit => before unit (readQuoted rest)
  | '\\' :: letter :: rest =>
    match shortEscape letter with
    | none => none
    | some character => before character.toNat (readQuoted rest)
  | character :: rest =>
    if character.toNat < 0x20 then none else before character.toNat (readQuoted rest)

/-- Whether a character may stand in a number. -/
def isNumberCharacter (character : Char) : Bool :=
  character.isDigit || character == '-' || character == '+' || character == '.' ||
    character == 'e' || character == 'E'

/-- Reads a number from all of a text. The number minus zero is not an integer. -/
def readNumber (text : List Char) : Option Json :=
  let unsigned := match text with
    | '-' :: rest => rest
    | _ => text
  let negative := unsigned.length != text.length
  (readNumeral unsigned).map fun numeral =>
    let value := numeral.significand
    let fits := if negative then 0 < value && value ≤ signedLimit else value < wordLimit
    if numeral.isWhole && fits then .integer (if negative then -(value : Int) else value)
    else if numeral.exceedsDoubles then .unreadable
    else .decimal (String.ofList text)

/-- Reads a word or a number from the start of a text. -/
def readPlain (text : List Char) : Option (Json × List Char) :=
  match text with
  | 'n' :: 'u' :: 'l' :: 'l' :: rest => some (.null, rest)
  | 't' :: 'r' :: 'u' :: 'e' :: rest => some (.bool true, rest)
  | 'f' :: 'a' :: 'l' :: 's' :: 'e' :: rest => some (.bool false, rest)
  | _ =>
    (readNumber (text.takeWhile isNumberCharacter)).map fun number =>
      (number, text.dropWhile isNumberCharacter)

/-- Reads one token from the start of a text that does not start with a gap. -/
def readToken : List Char → Option (Token × List Char)
  | '[' :: rest => some (.openArray, rest)
  | ']' :: rest => some (.closeArray, rest)
  | '\x7b' :: rest => some (.openObject, rest)
  | '\x7d' :: rest => some (.closeObject, rest)
  | ',' :: rest => some (.comma, rest)
  | ':' :: rest => some (.colon, rest)
  | '"' :: rest => (readQuoted rest).map fun (units, rest) =>
      (.text ((joinHalves units).map String.ofList), rest)
  | text => (readPlain text).map fun (value, rest) => (.scalar value, rest)

/-- Reads at most a number of tokens, which have to exhaust the text. -/
def readTokens : Nat → List Char → Option (List Token)
  | 0, text => if text.all isGap then some [] else none
  | limit + 1, text =>
    match text.dropWhile isGap with
    | [] => some []
    | start :: rest =>
      match readToken (start :: rest) with
      | none => none
      | some (token, rest) => (readTokens limit rest).map (token :: ·)

/-- The tokens of a text. There are no more of them than characters. -/
def tokens (text : List Char) : Option (List Token) :=
  readTokens text.length text

/-! ### Values -/

/-- An array or object that is still open. -/
inductive Frame
  /-- The elements so far, latest first. -/
  | array (elements : List Json)
  /-- The fields so far, latest first, the name of the field whose value is being read, and
  whether some field has no readable name. -/
  | object (fields : List (String × Json)) (name : String) (spoilt : Bool)
deriving Inhabited

/-- What may come next. -/
inductive Expected
  | value
  /-- The first element of an array, or its end. -/
  | valueOrEnd
  /-- The first name in an object, or its end. -/
  | nameOrEnd
  | name
  | colon
  /-- A comma, or the end of the innermost array or object. -/
  | commaOrEnd
  /-- Nothing: the value is complete. -/
  | nothing (result : Json)
deriving Inhabited

/-- A text that has been read in part. -/
structure Machine where
  /-- The open arrays and objects, innermost first. -/
  frames : List Frame
  expected : Expected
deriving Inhabited

namespace Machine

/-- Puts a complete value where it belongs. -/
def place (value : Json) : List Frame → Machine
  | [] => ⟨[], .nothing value⟩
  | .array elements :: frames => ⟨.array (value :: elements) :: frames, .commaOrEnd⟩
  | .object fields name spoilt :: frames =>
    ⟨.object ((name, value) :: fields) name spoilt :: frames, .commaOrEnd⟩

/-- Starts a value with a token. -/
def start (frames : List Frame) : Token → Option Machine
  | .openArray => some ⟨.array [] :: frames, .valueOrEnd⟩
  | .openObject => some ⟨.object [] "" false :: frames, .nameOrEnd⟩
  | .text content => some (place ((content.map Json.string).getD .unreadable) frames)
  | .scalar value => some (place value frames)
  | _ => none

/-- Closes the innermost array or object with a token. It is unreadable within `depth` others. -/
def close (depth : Nat) (frames : List Frame) : Token → Option Machine
  | .closeArray =>
    match frames with
    | .array elements :: frames =>
      some (place (if frames.length < depth then .array elements.reverse else .unreadable) frames)
    | _ => none
  | .closeObject =>
    match frames with
    | .object fields _ spoilt :: frames =>
      some (place (if frames.length < depth && !spoilt then .object fields.reverse
        else .unreadable) frames)
    | _ => none
  | _ => none

/-- Takes the name of a field. -/
def takeName (frames : List Frame) (token : Token) : Option Machine :=
  match token, frames with
  | .text (some name), .object fields _ spoilt :: frames =>
    some ⟨.object fields name spoilt :: frames, .colon⟩
  | .text none, .object fields name _ :: frames => some ⟨.object fields name true :: frames, .colon⟩
  | _, _ => none

/-- The machine after one more token, at most `depth` arrays and objects being readable within
each other. -/
def step (depth : Nat) (machine : Machine) (token : Token) : Option Machine :=
  match machine.expected with
  | .value => start machine.frames token
  | .valueOrEnd =>
    match token with
    | .closeArray => close depth machine.frames token
    | _ => start machine.frames token
  | .name => takeName machine.frames token
  | .nameOrEnd =>
    match token with
    | .closeObject => close depth machine.frames token
    | _ => takeName machine.frames token
  | .colon =>
    match token with
    | .colon => some { machine with expected := .value }
    | _ => none
  | .commaOrEnd =>
    match token, machine.frames with
    | .comma, .array _ :: _ => some { machine with expected := .value }
    | .comma, .object _ _ _ :: _ => some { machine with expected := .name }
    | _, _ => close depth machine.frames token
  | .nothing _ => none

end Machine

/-- Reads a value from all of a text, in which at most `depth` arrays and objects are readable
within each other. -/
def parse (depth : Nat) (text : String) : Option Json := do
  let machine ← (← tokens text.toList).foldlM (Machine.step depth) ⟨[], .value⟩
  match machine.expected with
  | .nothing result => some result
  | _ => none

end Json

end Loadout
