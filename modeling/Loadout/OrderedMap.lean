/-
**Maps that keep the order in which their keys arrived.**

An `OrderedMap` is a list of keys with values in which no key occurs twice. `OrderedMap.alter`
changes the value of a key where it stands, or adds the key at the end; all other changes are made
by it, so a key that is set again keeps its place (`OrderedMap.keys_alter`).
-/

namespace Loadout

/-- A map from texts, in the order of its keys. -/
structure OrderedMap (α : Type) where
  entries : List (String × α)
  distinct : (entries.map Prod.fst).Nodup

namespace OrderedMap

variable {α : Type}

/-- Changes the value of a key in a list of entries, or adds the key at the end. -/
def alterEntries (key : String) (edit : Option α → α) : List (String × α) → List (String × α)
  | [] => [(key, edit none)]
  | (other, value) :: rest =>
    if other = key then (other, edit (some value)) :: rest
    else (other, value) :: alterEntries key edit rest

/-- A key that is there keeps its place, and a new one comes last. -/
theorem keys_alterEntries (key : String) (edit : Option α → α) (entries : List (String × α)) :
    (alterEntries key edit entries).map Prod.fst =
      if key ∈ entries.map Prod.fst then entries.map Prod.fst
      else entries.map Prod.fst ++ [key] := by
  induction entries with
  | nil => simp [alterEntries]
  | cons entry rest inductive_step =>
    obtain ⟨other, value⟩ := entry
    by_cases same : other = key
    · simp [alterEntries, same]
    · have differs : key ≠ other := fun equal => same equal.symm
      simp only [alterEntries, same, if_false, List.map_cons, inductive_step, List.mem_cons,
        differs, false_or]
      split <;> simp

theorem distinct_alterEntries (key : String) (edit : Option α → α) {entries : List (String × α)}
    (distinct : (entries.map Prod.fst).Nodup) :
    ((alterEntries key edit entries).map Prod.fst).Nodup := by
  rw [keys_alterEntries]
  split
  · exact distinct
  · next absent =>
    rw [List.nodup_append]
    exact ⟨distinct, by simp, fun other inside last appended => by
      rw [List.mem_singleton.mp appended]
      exact fun equal => absent (equal ▸ inside)⟩

/-- The map without keys. -/
def empty : OrderedMap α :=
  ⟨[], by simp⟩

instance : Inhabited (OrderedMap α) := ⟨empty⟩

/-- Changes the value of a key, or adds the key at the end. -/
def alter (key : String) (edit : Option α → α) (map : OrderedMap α) : OrderedMap α :=
  ⟨alterEntries key edit map.entries, distinct_alterEntries key edit map.distinct⟩

/-- Sets the value of a key. -/
def insert (key : String) (value : α) (map : OrderedMap α) : OrderedMap α :=
  map.alter key fun _ => value

/-- The map of some entries; of several for one key the last counts, at the place of the first. -/
def ofList (entries : List (String × α)) : OrderedMap α :=
  entries.foldl (fun map entry => map.insert entry.1 entry.2) empty

/-- The keys in order. -/
def keys (map : OrderedMap α) : List String :=
  map.entries.map Prod.fst

/-- The values in the order of their keys. -/
def values (map : OrderedMap α) : List α :=
  map.entries.map Prod.snd

/-- The value of a key. -/
def get? (map : OrderedMap α) (key : String) : Option α :=
  (map.entries.find? fun entry => entry.1 == key).map Prod.snd

/-- A key that is there keeps its place, and a new one comes last. -/
theorem keys_alter (key : String) (edit : Option α → α) (map : OrderedMap α) :
    (map.alter key edit).keys = if key ∈ map.keys then map.keys else map.keys ++ [key] :=
  keys_alterEntries key edit map.entries

end OrderedMap

/-- A map whose values are lists. -/
def OrderedMap.append {α : Type} (key : String) (value : α) (map : OrderedMap (List α)) :
    OrderedMap (List α) :=
  map.alter key fun values => values.getD [] ++ [value]

end Loadout
