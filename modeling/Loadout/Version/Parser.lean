/-
**Reading versions.**

A text is trimmed first; only a blank one is refused. The trimmed text is a numeric version when it
is an optional `v` or `V`, dotted runs of digits that each write a number below `2 ^ 64`, an
optional `-` with a pre-release tag and an optional `+` with build metadata, where tag and metadata
are non-empty texts over ASCII letters, digits, dots and hyphens. Otherwise it is a raw version.
-/

import Loadout.Text.Blank
import Loadout.Text.Digit
import Loadout.Text.Pieces
import Loadout.Version
import Loadout.Version.Error

namespace Loadout

/-- Whether a character may stand in a pre-release tag or in build metadata. -/
def isTagCharacter (character : Char) : Bool :=
  character.isAlphanum || character == '.' || character == '-'

/-- Whether a character may stand among the number components. -/
def isComponentCharacter (character : Char) : Bool :=
  character.isDigit || character == '.'

/-- Reads one identifier of a pre-release tag. -/
def Identifier.ofChars (text : List Char) : Identifier :=
  match readWord text with
  | some value => .number value
  | none => .name (String.ofList text)

namespace Version

/-- The text behind the optional `v` of a version. -/
def dropMark : List Char → List Char
  | 'v' :: rest => rest
  | 'V' :: rest => rest
  | text => text

/-- Reads dotted number components. -/
def readNumbers (text : List Char) : Option (List Nat) :=
  (piecesBy (· == '.') text).mapM readWord

/-- Whether the text is empty, or a plus sign with build metadata. -/
def isMetadata : List Char → Bool
  | [] => true
  | '+' :: metadata => !metadata.isEmpty && metadata.all isTagCharacter
  | _ => false

/-- Reads what follows the number components: the identifiers of the pre-release tag, of which
there are none without a tag. -/
def readTail : List Char → Option (List Identifier)
  | '-' :: rest =>
    let tag := rest.takeWhile isTagCharacter
    if tag.isEmpty || !isMetadata (rest.dropWhile isTagCharacter) then none
    else some ((piecesBy (· == '.') tag).map Identifier.ofChars)
  | rest => if isMetadata rest then some [] else none

/-- Reads the components and pre-release identifiers of a numeric version. -/
def readParts (text : List Char) : Option (List Nat × List Identifier) := do
  let text := dropMark text
  let numbers ← readNumbers (text.takeWhile isComponentCharacter)
  let preRelease ← readTail (text.dropWhile isComponentCharacter)
  return (numbers, preRelease)

/-- The version that a trimmed text writes. -/
def ofTrimmed (text : List Char) : Version :=
  match readParts text with
  | some (numbers, preRelease) => ⟨String.ofList text, numbers, preRelease⟩
  | none => raw (String.ofList text)

/-- Reads a version. -/
def parse (text : String) : Except VersionError Version :=
  let trimmed := trimBlank text.toList
  if trimmed.isEmpty then .error (.invalidVersion text) else .ok (ofTrimmed trimmed)

end Version

end Loadout
