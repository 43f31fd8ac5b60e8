/-
**Files kept in memory.**

A `Folder` holds texts by the names on the way to them, and the directory from which relative paths
start. Its directories are those on the way to a text or to that directory. A path leads over one
name after the other, each of which has to be a directory except for the last (`Folder.find?`).
-/

import Loadout.Command.Surroundings
import Loadout.Text.Pieces

namespace Loadout

/-- Texts by their names, and the directory from which relative paths start. -/
structure Folder where
  texts : List (List String × String)
  directory : List String
deriving Inhabited

namespace Folder

/-- The pieces of a path between its slashes. -/
def pieces (path : String) : List String :=
  (piecesBy (· == '/') path.toList).map String.ofList

/-- Whether a piece of a path names nothing by itself. -/
def isIdle (piece : String) : Bool :=
  piece.isEmpty || piece == "."

/-- The names in a path. -/
def names (path : String) : List String :=
  (pieces path).filter fun piece => !isIdle piece

/-- Whether names lead to a directory. -/
def isDirectory (folder : Folder) (names : List String) : Bool :=
  names.isPrefixOf folder.directory ||
    folder.texts.any fun (path, _) => names.isPrefixOf path && names.length < path.length

/-- Follows the pieces of a path from one directory to another. -/
def follow (folder : Folder) : List String → List String → Option (List String)
  | place, [] => some place
  | place, piece :: rest =>
    if isIdle piece then follow folder place rest
    else if piece == ".." then follow folder place.dropLast rest
    else if folder.isDirectory (place ++ [piece]) then follow folder (place ++ [piece]) rest
    else none

/-- The text at a path. -/
def find? (folder : Folder) (path : String) : Option String := do
  let pieces := pieces path
  let start := if path.startsWith "/" then [] else folder.directory
  let last ← pieces.getLast?
  if isIdle last || last == ".." then none
  else
    let place ← folder.follow start pieces.dropLast
    folder.texts.lookup (place ++ [last])

/-- The surroundings of a command that finds the folder and an environment. -/
def surroundings (folder : Folder) (environment : Environment) : Surroundings where
  directory := folder.directory
  isFile path := (folder.find? path).isSome
  text? := folder.find?
  environment := environment

end Folder

end Loadout
