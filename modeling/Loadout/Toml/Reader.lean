/-
**Reading TOML documents.**

A document is a run of statements, each on a line of its own: table headers and assignments of
values to keys. Comments and blank lines may stand between them. `Toml.parse` reads a document as a
JSON object. At most 79 arrays and inline tables may be open at once, and a key has at most 79
parts.
-/

import Loadout.Toml.Quoted
import Loadout.Toml.Scalar
import Loadout.Toml.Table

namespace Loadout

namespace Toml

/-- How many arrays and inline tables may be open at once, and how many parts a key may have. -/
def depthLimit : Nat :=
  79

/-! ### Keys -/

/-- Whether a character may stand in a key without quotes. -/
def isBareCharacter (character : Char) : Bool :=
  character.isAlphanum || character == '_' || character == '-'

/-- Reads one part of a key. -/
def readKeyPart (text : List Char) : Option (String × List Char) :=
  match text with
  | '"' :: rest => (readQuoted '"' false rest).map fun (part, rest) => (String.ofList part, rest)
  | '\'' :: rest => (readQuoted '\'' false rest).map fun (part, rest) => (String.ofList part, rest)
  | _ =>
    let part := text.takeWhile isBareCharacter
    if part.isEmpty then none
    else some (String.ofList part, text.dropWhile isBareCharacter)

/-- Reads at most a number of parts of a key, separated by dots. -/
def readKeyParts : Nat → List Char → Option (List String × List Char)
  | 0, _ => none
  | limit + 1, text => do
    let (part, rest) ← readKeyPart (text.dropWhile isSpace)
    match rest.dropWhile isSpace with
    | '.' :: rest => (readKeyParts limit rest).map fun (parts, rest) => (part :: parts, rest)
    | rest => return ([part], rest)

/-- Reads a key. -/
def readKey (text : List Char) : Option (List String × List Char) :=
  readKeyParts depthLimit text

/-! ### Values -/

/-- What follows the blanks, line ends and comments at the start of a text, the text starting within
a comment or not. -/
def skipGapFrom : Bool → List Char → Option (List Char)
  | _, '\n' :: rest => skipGapFrom false rest
  | _, '\r' :: '\n' :: rest => skipGapFrom false rest
  | true, character :: rest => if isPlain character then skipGapFrom true rest else none
  | true, [] => none
  | false, ' ' :: rest => skipGapFrom false rest
  | false, '\t' :: rest => skipGapFrom false rest
  | false, '#' :: rest => skipGapFrom true rest
  | false, rest => some rest

/-- What follows the blanks, line ends and comments at the start of a text. -/
def skipGap (text : List Char) : Option (List Char) :=
  skipGapFrom false text

/-- Reads at most a number of elements of an array from behind its bracket or a comma, given how an
element is read. -/
def readElements (element : List Char → Option (Json × List Char)) :
    Nat → List Char → Option (List Json × List Char)
  | 0, _ => none
  | limit + 1, text => do
    match ← skipGap text with
    | ']' :: rest => return ([], rest)
    | text =>
      let (value, rest) ← element text
      match ← skipGap rest with
      | ',' :: rest =>
        (readElements element limit rest).map fun (values, rest) => (value :: values, rest)
      | ']' :: rest => return ([value], rest)
      | _ => none

/-- Reads a key and its value, given how a value is read. -/
def readPair (value : List Char → Option (Json × List Char)) (text : List Char) :
    Option ((List String × Json) × List Char) := do
  let (path, rest) ← readKey text
  match rest with
  | '=' :: rest =>
    let (value, rest) ← value (rest.dropWhile isSpace)
    return ((path, value), rest)
  | _ => none

/-- Reads at most a number of pairs of an inline table from behind its brace or a comma, given how a
value is read. -/
def readPairs (value : List Char → Option (Json × List Char)) :
    Nat → List Char → Option (List (List String × Json) × List Char)
  | 0, _ => none
  | limit + 1, text => do
    let (pair, rest) ← readPair value text
    match rest.dropWhile isSpace with
    | ',' :: rest => (readPairs value limit rest).map fun (pairs, rest) => (pair :: pairs, rest)
    | '\x7d' :: rest => return ([pair], rest)
    | _ => none

/-- The inline table of some pairs. -/
def inlineTable? (pairs : List (List String × Json)) : Option Json :=
  (pairs.foldlM (fun fields pair => Fields.assign pair.1 pair.2 .header fields) []).map
    fun fields => .object (Node.fieldValues fields)

/-- Reads a text in quotes. -/
def readText : List Char → Option (List Char × List Char)
  | '"' :: '"' :: '"' :: rest => readQuoted '"' true rest
  | '\'' :: '\'' :: '\'' :: rest => readQuoted '\'' true rest
  | '"' :: rest => readQuoted '"' false rest
  | '\'' :: rest => readQuoted '\'' false rest
  | _ => none

/-- Reads a value within which at most `depth` arrays and inline tables are open at once. -/
def readValue : Nat → List Char → Option (Json × List Char)
  | depth + 1, '[' :: rest =>
    (readElements (readValue depth) (rest.length + 1) rest).map fun (elements, rest) =>
      (.array elements, rest)
  | depth + 1, '\x7b' :: rest =>
    match rest.dropWhile isSpace with
    | '\x7d' :: rest => some (.object [], rest)
    | rest => do
      let (pairs, rest) ← readPairs (readValue depth) (rest.length + 1) rest
      let table ← inlineTable? pairs
      return (table, rest)
  | _, text =>
    match text with
    | '"' :: _ => (readText text).map fun (text, rest) => (.string (String.ofList text), rest)
    | '\'' :: _ => (readText text).map fun (text, rest) => (.string (String.ofList text), rest)
    | _ => readWord? text

/-! ### Documents -/

/-- What follows the rest of a line, in which only a comment may stand. -/
def skipLine (text : List Char) : Option (List Char) :=
  let text := text.dropWhile isSpace
  let text := match text with
    | '#' :: rest => rest.dropWhile isPlain
    | _ => text
  if text.isEmpty then some [] else skipLineEnd text

/-- Reads the header of a table from behind its bracket, or that of an array of tables. -/
def readHeader (text : List Char) : Option (Statement × List Char) :=
  match text with
  | '[' :: rest => do
    match ← readKey rest with
    | (path, ']' :: ']' :: rest) => return (.element path, rest)
    | _ => none
  | _ => do
    match ← readKey text with
    | (path, ']' :: rest) => return (.table path, rest)
    | _ => none

/-- Reads a statement. -/
def readStatement : List Char → Option (Statement × List Char)
  | '[' :: rest => readHeader rest
  | text => (readPair (readValue depthLimit) text).map fun ((path, value), rest) =>
      (.assignment path value, rest)

/-- Reads at most a number of lines. A line is blank, or it holds a statement. -/
def readStatements : Nat → List Char → Option (List Statement)
  | 0, _ => none
  | limit + 1, text =>
    match text.dropWhile isSpace with
    | [] => some []
    | start :: rest =>
      if start == '#' || start == '\n' || start == '\r' then do
        readStatements limit (← skipLine (start :: rest))
      else do
        let (statement, rest) ← readStatement (start :: rest)
        return statement :: (← readStatements limit (← skipLine rest))

/-- Reads a document as an object. A byte order mark may stand in front of it. -/
def parse (text : String) : Option Json := do
  let text := match text.toList with
    | '\uFEFF' :: rest => rest
    | text => text
  let document ← (← readStatements (text.length + 1) text).foldlM Document.step .empty
  return .object (Node.fieldValues document.root)

end Toml

end Loadout
