/-
**Tables in TOML and how they grow.**

A document fills a tree of tables (`Node`) statement by statement. A header opens a table, which
may be done once, or adds a table to an array of tables. A key sets a value, which may be done once
too. The tables on the way are made where they are missing, and their `Origin` says who may still
add to them:

* a table with a header of its own cannot be reached by dotted keys of another table;
* a table that only lies on the way of a header may still be given a header;
* a table made by dotted keys grows by dotted keys.
-/

import Loadout.Json

namespace Loadout

namespace Toml

/-- How a table came to be. -/
inductive Origin
  /-- It has a header. -/
  | header
  /-- It lies on the way of a header. -/
  | way
  /-- It lies on the way of a dotted key. -/
  | dotted
deriving DecidableEq, Repr, Inhabited

/-- What a key of a table leads to. -/
inductive Node
  | leaf (value : Json)
  | table (origin : Origin) (fields : List (String × Node))
  /-- An array of tables, latest first. -/
  | tables (elements : List (List (String × Node)))

/-- The fields of a table. -/
abbrev Fields := List (String × Node)

namespace Node

mutual

/-- The value of a node. -/
def value : Node → Json
  | .leaf value => value
  | .table _ fields => .object (fieldValues fields)
  | .tables elements => .array (elementValues elements).reverse

/-- The values of the fields of a table. -/
def fieldValues : List (String × Node) → List (String × Json)
  | [] => []
  | (name, node) :: rest => (name, value node) :: fieldValues rest

/-- The values of some tables. -/
def elementValues : List (List (String × Node)) → List Json
  | [] => []
  | fields :: rest => .object (fieldValues fields) :: elementValues rest

end

end Node

namespace Fields

/-- Changes what a key leads to, if the change is allowed. -/
def edit (key : String) (change : Option Node → Option Node) : Fields → Option Fields
  | [] => (change none).map fun node => [(key, node)]
  | (other, node) :: rest =>
    if other = key then (change (some node)).map fun node => (other, node) :: rest
    else (edit key change rest).map ((other, node) :: ·)

/-- Changes the table that a node is, made if it is missing. Of an array of tables the latest is
changed. -/
def enter (dotted : Bool) (change : Origin → Fields → Option Fields) : Option Node → Option Node
  | none =>
    let origin := if dotted then .dotted else .way
    (change origin []).map (.table origin)
  | some (.table origin fields) =>
    if dotted && origin == .header then none else (change origin fields).map (.table origin)
  | some (.tables (latest :: earlier)) =>
    (change .header latest).map fun latest => .tables (latest :: earlier)
  | some (.tables []) => none
  | some (.leaf _) => none

/-- Changes the table at the end of a path, which may be a dotted key. -/
def editAt (dotted : Bool) (change : Origin → Fields → Option Fields) :
    List String → Origin → Fields → Option Fields
  | [], origin, fields => change origin fields
  | key :: path, _, fields => edit key (enter dotted (editAt dotted change path)) fields

/-- Changes what a path leads to, in the table that the path without its last key leads to. -/
def editLast (path : List String) (change : Option Node → Option Node) (fields : Fields) :
    Option Fields :=
  editAt false (fun _ fields => edit (path.getLastD "") change fields) path.dropLast .header fields

/-- Opens the table of a header. -/
def openTable (path : List String) (fields : Fields) : Option Fields :=
  editLast path (fun
    | none => some (.table .header [])
    | some (.table .way fields) => some (.table .header fields)
    | _ => none) fields

/-- Adds a table to an array of tables. -/
def addElement (path : List String) (fields : Fields) : Option Fields :=
  editLast path (fun
    | none => some (.tables [[]])
    | some (.tables elements) => some (.tables ([] :: elements))
    | _ => none) fields

/-- Sets the value of a dotted key. Only the last table on the way of dotted keys may take it, and a
key without dots is set in the table that it stands in. -/
def assign (path : List String) (value : Json) (origin : Origin) (fields : Fields) :
    Option Fields :=
  editAt true (fun origin fields =>
    if (origin == .dotted) == path.dropLast.isEmpty then none
    else
      edit (path.getLastD "") (fun
        | none => some (.leaf value)
        | some _ => none) fields) path.dropLast origin fields

end Fields

/-- A statement of a document. -/
inductive Statement
  /-- The header of a table. -/
  | table (path : List String)
  /-- The header of the next table of an array. -/
  | element (path : List String)
  /-- The value of a key in the table whose header came last. -/
  | assignment (path : List String) (value : Json)

/-- A document that has been read in part. -/
structure Document where
  root : Fields
  /-- The path of the header that came last. -/
  current : List String

namespace Document

/-- The document without statements. -/
def empty : Document :=
  ⟨[], []⟩

/-- The document with one more statement. -/
def step (document : Document) : Statement → Option Document
  | .table path => (Fields.openTable path document.root).map (⟨·, path⟩)
  | .element path => (Fields.addElement path document.root).map (⟨·, path⟩)
  | .assignment path value =>
    (Fields.editAt false (Fields.assign path value) document.current .header document.root).map
      (⟨·, document.current⟩)

end Document

end Toml

end Loadout
