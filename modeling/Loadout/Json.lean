/-
**JSON values and how they are written.**

An object keeps its fields in the order in which they stand, repeated names included. Numbers are
kept apart by what reading needs: an `integer` from `-2 ^ 63` to `2 ^ 64 - 1`, and any other number
as the `decimal` it is written as. Some values are well-formed and yet stand for nothing; such an
`unreadable` value does no harm where values are passed over.

`Json.compact` writes a value on one line, `Json.pretty` over several lines with two blanks for
each level.
-/

namespace Loadout

/-- A JSON value. -/
inductive Json
  | null
  | bool (value : Bool)
  /-- A number without fraction and exponent that has a place in 64 bits. -/
  | integer (value : Int)
  /-- Any other number, as it is written. -/
  | decimal (text : String)
  | string (text : String)
  | array (elements : List Json)
  | object (fields : List (String × Json))
  /-- A text with half a surrogate pair, a number beyond all doubles, or an array or object that
  lies too deep or has a field with such a name. -/
  | unreadable
deriving Repr, Inhabited

namespace Json

mutual

/-- Whether all parts of a value are readable. -/
def isReadable : Json → Bool
  | .unreadable => false
  | .array elements => areReadable elements
  | .object fields => haveReadable fields
  | _ => true

/-- Whether all elements are readable. -/
def areReadable : List Json → Bool
  | [] => true
  | element :: rest => isReadable element && areReadable rest

/-- Whether all fields are readable. -/
def haveReadable : List (String × Json) → Bool
  | [] => true
  | (_, value) :: rest => isReadable value && haveReadable rest

end

/-- The lower-case hexadecimal digit of a value below sixteen. -/
def hexDigit (value : Nat) : Char :=
  if value < 10 then Char.ofNat (0x30 + value) else Char.ofNat (0x57 + value)

/-- A character inside of a quoted text. Only quotes, backslashes and control characters have a
form of their own. -/
def quoteCharacter (character : Char) : List Char :=
  match character with
  | '"' => ['\\', '"']
  | '\\' => ['\\', '\\']
  | '\x08' => ['\\', 'b']
  | '\x0c' => ['\\', 'f']
  | '\n' => ['\\', 'n']
  | '\r' => ['\\', 'r']
  | '\t' => ['\\', 't']
  | _ =>
    if character.toNat < 0x20 then
      ['\\', 'u', '0', '0', hexDigit (character.toNat / 16), hexDigit (character.toNat % 16)]
    else [character]

/-- A text in quotes. -/
def quote (text : String) : String :=
  String.ofList ('"' :: text.toList.flatMap quoteCharacter ++ ['"'])

/-- A value that is neither an array nor an object. -/
def scalarText : Json → String
  | .null => "null"
  | .bool value => if value then "true" else "false"
  | .integer value => toString value
  | .decimal text => text
  | .string text => quote text
  | .array _ => "[]"
  | .object _ => "\x7b\x7d"
  | .unreadable => "null"

mutual

/-- The value on one line. -/
def compact : Json → String
  | .array elements => "[" ++ compactElements elements ++ "]"
  | .object fields => "\x7b" ++ compactFields fields ++ "\x7d"
  | value => scalarText value

/-- The elements of an array, separated by commas. -/
def compactElements : List Json → String
  | [] => ""
  | [element] => compact element
  | element :: rest => compact element ++ "," ++ compactElements rest

/-- The fields of an object, separated by commas. -/
def compactFields : List (String × Json) → String
  | [] => ""
  | [(name, value)] => quote name ++ ":" ++ compact value
  | (name, value) :: rest => quote name ++ ":" ++ compact value ++ "," ++ compactFields rest

end

/-- The start of a new line at a depth. -/
def newLine (depth : Nat) : String :=
  "\n" ++ String.ofList (List.replicate (2 * depth) ' ')

mutual

/-- The value over several lines, where the lines of its parts are deeper than `depth`. An empty
array or object stays on one line. -/
def prettyAt (depth : Nat) : Json → String
  | .array (element :: rest) =>
    "[" ++ prettyElements (depth + 1) (element :: rest) ++ newLine depth ++ "]"
  | .object (field :: rest) =>
    "\x7b" ++ prettyFields (depth + 1) (field :: rest) ++ newLine depth ++ "\x7d"
  | value => scalarText value

/-- The elements of an array, each on lines of its own. -/
def prettyElements (depth : Nat) : List Json → String
  | [] => ""
  | [element] => newLine depth ++ prettyAt depth element
  | element :: rest => newLine depth ++ prettyAt depth element ++ "," ++ prettyElements depth rest

/-- The fields of an object, each on lines of its own. -/
def prettyFields (depth : Nat) : List (String × Json) → String
  | [] => ""
  | [(name, value)] => newLine depth ++ quote name ++ ": " ++ prettyAt depth value
  | (name, value) :: rest =>
    newLine depth ++ quote name ++ ": " ++ prettyAt depth value ++ "," ++
      prettyFields depth rest

end

/-- The value over several lines. -/
def pretty (value : Json) : String :=
  prettyAt 0 value

end Json

end Loadout
