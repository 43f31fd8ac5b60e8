/-
**What is in an ordered map.**

A map is its entries (`OrderedMap.eq_of_entries`). A new key comes last
(`OrderedMap.entries_insert`), so a map is that of its own entries:

* `get?_alter`: to change the value of one key leaves the others as they are;
* `pairs_append`: to append a value to those of a key adds it to what is there;
* `get?_perm`: values are found whatever the order of the keys;
* **`ofList_entries`**: the map of the entries of a map is that map.
-/

import Loadout.OrderedMap

namespace Loadout

namespace OrderedMap

variable {α : Type}

theorem eq_of_entries {map map' : OrderedMap α} (same : map.entries = map'.entries) :
    map = map' := by
  cases map
  cases map'
  cases same
  rfl

/-! ### Changing the value of a key -/

theorem alterEntries_new {key : String} {edit : Option α → α} {entries : List (String × α)}
    (absent : key ∉ entries.map Prod.fst) :
    alterEntries key edit entries = entries ++ [(key, edit none)] := by
  induction entries with
  | nil => rfl
  | cons entry rest ih =>
    rw [List.map_cons, List.mem_cons, not_or] at absent
    unfold alterEntries
    rw [if_neg (Ne.symm absent.1), ih absent.2]
    rfl

/-- A new key comes last. -/
theorem entries_insert {key : String} {map : OrderedMap α} (absent : key ∉ map.keys) (value : α) :
    (map.insert key value).entries = map.entries ++ [(key, value)] :=
  alterEntries_new absent

theorem get?_alter (key other : String) (edit : Option α → α) (map : OrderedMap α) :
    (map.alter key edit).get? other =
      if other = key then some (edit (map.get? key)) else map.get? other := by
  unfold get? alter
  dsimp only
  induction map.entries with
  | nil =>
    unfold alterEntries
    by_cases same : other = key
    · simp [same]
    · simp [same, Ne.symm same]
  | cons entry rest ih =>
    unfold alterEntries
    by_cases here : entry.1 = key
    · rw [if_pos here]
      by_cases same : other = key
      · simp [here, same]
      · have differs : ¬key = other := Ne.symm same
        simp [here, same, differs]
    · rw [if_neg here]
      by_cases found : entry.1 = other
      · have differs : ¬other = key := fun same => here (found.trans same)
        simp [found, differs]
      · by_cases same : other = key
        · subst same
          simpa [found] using ih
        · simpa [found, same] using ih

theorem get?_append (key value other : String) (map : OrderedMap (List String)) :
    (map.append key value).get? other =
      if other = key then some ((map.get? key).getD [] ++ [value]) else map.get? other := by
  unfold OrderedMap.append
  rw [get?_alter]

theorem mem_keys_append (key value other : String) (map : OrderedMap (List String)) :
    other ∈ (map.append key value).keys ↔ other ∈ map.keys ∨ other = key := by
  unfold OrderedMap.append
  rw [keys_alter]
  split
  · next held => exact (or_iff_left_of_imp fun same => same ▸ held).symm
  · rw [List.mem_append, List.mem_singleton]

/-- The values of all keys, each with its key. -/
def pairs (map : OrderedMap (List α)) : List (String × α) :=
  map.entries.flatMap fun entry => entry.2.map fun value => (entry.1, value)

/-- To append a value adds it to what is there. -/
theorem pairs_append (key : String) (value : α) (map : OrderedMap (List α)) :
    (map.append key value).pairs.Perm (map.pairs ++ [(key, value)]) := by
  unfold pairs OrderedMap.append alter
  dsimp only
  induction map.entries with
  | nil => exact .rfl
  | cons entry rest ih =>
    unfold alterEntries
    by_cases here : entry.1 = key
    · rw [if_pos here, List.flatMap_cons, List.flatMap_cons, Option.getD_some, List.map_append,
        List.append_assoc, List.append_assoc, ← here]
      exact List.perm_append_comm.append_left _
    · rw [if_neg here, List.flatMap_cons, List.flatMap_cons, List.append_assoc]
      exact ih.append_left _

/-! ### Looking up -/

/-- A key is found with the value that is entered for it. -/
theorem get?_eq_some_iff {map : OrderedMap α} {key : String} {value : α} :
    map.get? key = some value ↔ (key, value) ∈ map.entries := by
  obtain ⟨entries, distinct⟩ := map
  unfold get?
  dsimp only
  induction entries with
  | nil => simp
  | cons entry rest ih =>
    obtain ⟨other, held⟩ := entry
    rw [List.map_cons, List.nodup_cons] at distinct
    by_cases same : other = key
    · subst same
      have absent : (other, value) ∉ rest := fun inside =>
        distinct.1 (List.mem_map.mpr ⟨_, inside, rfl⟩)
      simp [absent, eq_comm]
    · have differs : ¬key = other := Ne.symm same
      simpa [same, differs] using ih distinct.2

/-- Values are found whatever the order of the keys. -/
theorem get?_perm {map map' : OrderedMap α} (order : map.entries.Perm map'.entries)
    (key : String) : map.get? key = map'.get? key := by
  apply Option.ext
  intro value
  rw [get?_eq_some_iff, get?_eq_some_iff, order.mem_iff]

/-- What the entries of one key come to is what the value that is found for it does. -/
theorem flatMap_of_key {β : Type} (map : OrderedMap α) (key : String) (change : α → List β) :
    (map.entries.flatMap fun entry => if entry.1 = key then change entry.2 else []) =
      ((map.get? key).map change).getD [] := by
  obtain ⟨entries, distinct⟩ := map
  unfold get?
  dsimp only
  induction entries with
  | nil => rfl
  | cons entry rest ih =>
    obtain ⟨other, held⟩ := entry
    rw [List.map_cons, List.nodup_cons] at distinct
    rw [List.flatMap_cons]
    by_cases same : other = key
    · subst same
      have nothing : (rest.flatMap fun entry =>
          if entry.1 = other then change entry.2 else []) = [] := by
        refine List.flatMap_eq_nil_iff.mpr fun entry inside => if_neg fun equal => ?_
        exact distinct.1 (List.mem_map.mpr ⟨entry, inside, equal⟩)
      rw [nothing]
      simp
    · simpa [same] using ih distinct.2

/-! ### Maps of entries -/

/-- Entries with keys of their own are added at the end. -/
theorem entries_foldl_insert (entries : List (String × α)) (map : OrderedMap α)
    (distinct : (map.keys ++ entries.map Prod.fst).Nodup) :
    (entries.foldl (fun map entry => map.insert entry.1 entry.2) map).entries =
      map.entries ++ entries := by
  induction entries generalizing map with
  | nil => exact (List.append_nil _).symm
  | cons entry rest ih =>
    rw [List.map_cons, List.nodup_append] at distinct
    have absent : entry.1 ∉ map.keys := fun inside =>
      distinct.2.2 entry.1 inside entry.1 List.mem_cons_self rfl
    have here := entries_insert absent entry.2
    have keys : (map.insert entry.1 entry.2).keys = map.keys ++ [entry.1] := by
      unfold OrderedMap.keys
      rw [here, List.map_append]
      rfl
    rw [List.foldl_cons, ih, here, List.append_assoc]
    · rfl
    · rw [keys, List.append_assoc]
      exact List.nodup_append.mpr distinct

/-- **The map of the entries of a map is that map.** -/
theorem ofList_entries (map : OrderedMap α) : ofList map.entries = map :=
  eq_of_entries (entries_foldl_insert map.entries .empty map.distinct)

end OrderedMap

end Loadout
