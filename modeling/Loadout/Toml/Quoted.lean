/-
**Quoted texts in TOML.**

A text stands between double quotes, where a backslash starts an escape, or between single quotes,
where it does not. With three quotes on each side a text may run over several lines: its first line
end is dropped, and a backslash at the end of a line takes the line end and the gap behind it away
(`readQuoted`).
-/

import Loadout.Text.Digit

namespace Loadout

namespace Toml

/-- Whether a character separates words within a line. -/
def isSpace (character : Char) : Bool :=
  character == ' ' || character == '\t'

/-- Whether a character may stand in texts and comments. -/
def isPlain (character : Char) : Bool :=
  character == '\t' || (0x20 ≤ character.toNat && character.toNat != 0x7F)

/-- What follows a line end at the start of a text. -/
def skipLineEnd : List Char → Option (List Char)
  | '\n' :: rest => some rest
  | '\r' :: '\n' :: rest => some rest
  | _ => none

/-- What follows all spaces and line ends at the start of a text. -/
def skipBlankLines : List Char → List Char
  | ' ' :: rest => skipBlankLines rest
  | '\t' :: rest => skipBlankLines rest
  | '\n' :: rest => skipBlankLines rest
  | '\r' :: '\n' :: rest => skipBlankLines rest
  | text => text

/-- What follows a line that was broken by a backslash, from behind the backslash. -/
def skipBrokenLine (text : List Char) : Option (List Char) :=
  (skipLineEnd (text.dropWhile isSpace)).map skipBlankLines

/-- The character with a number; surrogates are none. -/
def characterOf (number : Nat) : Option Char :=
  if number.isValidChar then some (Char.ofNat number) else none

/-- The character that a letter stands for behind a backslash. -/
def letterEscape : Char → Option Char
  | 'b' => some '\x08'
  | 't' => some '\t'
  | 'n' => some '\n'
  | 'f' => some '\x0c'
  | 'r' => some '\r'
  | '"' => some '"'
  | '\\' => some '\\'
  | _ => none

/-- Reads an escape from behind its backslash. -/
def readEscape : List Char → Option (Char × List Char)
  | 'u' :: a :: b :: c :: d :: rest =>
    ((readHex [a, b, c, d]).bind characterOf).map fun character => (character, rest)
  | 'U' :: a :: b :: c :: d :: e :: f :: g :: h :: rest =>
    ((readHex [a, b, c, d, e, f, g, h]).bind characterOf).map fun character => (character, rest)
  | letter :: rest => (letterEscape letter).map fun character => (character, rest)
  | [] => none

/-- Puts characters in front of a text that was read. -/
def inFront (characters : List Char) (read : Option (List Char × List Char)) :
    Option (List Char × List Char) :=
  read.map fun (text, rest) => (characters ++ text, rest)

/-- Reads at most a number of characters of a text that ends with a quote, or with three quotes if
it is long; gives the text and what follows it. Up to two more quotes at the end of a long text
belong to it. -/
def readQuotedWithin (quote : Char) (long : Bool) : Nat → List Char →
    Option (List Char × List Char)
  | 0, _ => none
  | _, [] => none
  | limit + 1, character :: rest =>
    if character == quote then
      let quotes := (rest.takeWhile (· == quote)).length + 1
      if !long then some ([], rest)
      else if quotes < 3 then inFront [quote] (readQuotedWithin quote long limit rest)
      else
        let more := min (quotes - 3) 2
        some (List.replicate more quote, rest.drop (more + 2))
    else if character == '\\' && quote == '"' then
      match if long then skipBrokenLine rest else none with
      | some rest => readQuotedWithin quote long limit rest
      | none =>
        match readEscape rest with
        | some (character, rest) => inFront [character] (readQuotedWithin quote long limit rest)
        | none => none
    else if isPlain character then inFront [character] (readQuotedWithin quote long limit rest)
    else
      match if long then skipLineEnd (character :: rest) else none with
      | some rest => inFront ['\n'] (readQuotedWithin quote long limit rest)
      | none => none

/-- Reads a text from behind its opening quotes. -/
def readQuoted (quote : Char) (long : Bool) (text : List Char) : Option (List Char × List Char) :=
  let text := if long then (skipLineEnd text).getD text else text
  readQuotedWithin quote long (text.length + 1) text

end Toml

end Loadout
