/-
**Records in JSON: values with named fields.**

A record is written as an object with its fields by name, or as an array with its fields in order,
where fields at the end may be missing. In an object, fields that the record does not have are
ignored, and a field of the record that is there twice is refused. `Json.record?` gives the value of
each field, where it is there.
-/

import Loadout.Json

namespace Loadout

namespace Json

/-! ### Records -/

/-- The value of a field, if it is there; `none` if it is there more than once. -/
def field? (name : String) (fields : List (String × Json)) : Option (Option Json) :=
  match fields.filter fun field => field.1 == name with
  | [] => some none
  | [field] => some (some field.2)
  | _ => none

/-- The values of the fields of a record that is written as an object. -/
def objectRecord? (names : List String) : Json → Option (List (Option Json))
  | .object fields => names.mapM fun name => field? name fields
  | _ => none

/-- The values of the fields of a record. -/
def record? (names : List String) : Json → Option (List (Option Json))
  | .array elements =>
    if elements.length ≤ names.length then
      some ((List.range names.length).map fun place => elements[place]?)
    else none
  | value => objectRecord? names value

/-- Reads a field that has to be there. -/
def required {α : Type} (read : Json → Option α) (field : Option Json) : Option α :=
  field.bind read

/-- Reads a field that has a value where it is missing. -/
def optional {α : Type} (read : Json → Option α) (default : α) : Option Json → Option α
  | none => some default
  | some value => read value

/-- Reads a value that may be null. -/
def nullable {α : Type} (read : Json → Option α) : Json → Option (Option α)
  | .null => some none
  | value => (read value).map some

/-! ### Plain values -/

/-- Reads a text. -/
def text? : Json → Option String
  | .string text => some text
  | _ => none

/-- Reads a truth value. -/
def bool? : Json → Option Bool
  | .bool value => some value
  | _ => none

/-- Reads an integer between two limits. -/
def integer? (lowest highest : Int) : Json → Option Int
  | .integer value => if lowest ≤ value ∧ value ≤ highest then some value else none
  | _ => none

/-- Reads a natural number, which has a place in 64 bits. -/
def natural? : Json → Option Nat
  | .integer value => if 0 ≤ value then some value.toNat else none
  | _ => none

/-- Reads a value of which no part is unreadable. -/
def whole? {α : Type} (read : Json → Option α) (value : Json) : Option α :=
  if value.isReadable then read value else none

/-- Reads an array. -/
def list? {α : Type} (read : Json → Option α) : Json → Option (List α)
  | .array elements => elements.mapM read
  | _ => none

/-- Reads an object as a map; of several fields with one name the last counts. -/
def entries? {α : Type} (read : Json → Option α) : Json → Option (List (String × α))
  | .object fields => fields.mapM fun (name, value) => (read value).map fun value => (name, value)
  | _ => none

/-! ### Writing -/

/-- The field of a list, which is left out when the list is empty. -/
def unlessEmpty {α : Type} (name : String) (write : α → Json) (list : List α) :
    List (String × Json) :=
  if list.isEmpty then [] else [(name, .array (list.map write))]

/-- The field of a value that may be missing, and is left out then. -/
def ifPresent {α : Type} (name : String) (write : α → Json) (value : Option α) :
    List (String × Json) :=
  (value.map fun value => (name, write value)).toList

end Json

end Loadout
