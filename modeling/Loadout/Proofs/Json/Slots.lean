/-
**Records some of whose fields are left out.**

A record is written as one *slot* for each field: its name, and its value unless it is left out
(`Json.slotFields`). Where no name occurs twice, each slot is found again:

* `field?_slotFields`: a field is read from its slot;
* `objectRecord?_slots`, `record?_slots`: all fields of the record are read in their order;
* `list?_map`, `entries?_map`: lists and maps are read again from what was written of their parts;
* `depth_lt_of_slot`, `depth_lt_of_element`: a part is less deep than the whole.
-/

import Loadout.Request.Json

namespace Loadout

namespace Json

/-! ### Slots -/

/-- The fields of a record of which some are left out. -/
def slotFields (slots : List (String × Option Json)) : List (String × Json) :=
  slots.flatMap fun slot => (slot.2.map fun value => (slot.1, value)).toList

variable {name : String} {slots : List (String × Option Json)}

theorem slotFields_cons (slot : String × Option Json) (slots : List (String × Option Json)) :
    slotFields (slot :: slots) =
      (slot.2.map fun value => (slot.1, value)).toList ++ slotFields slots :=
  List.flatMap_cons

theorem mem_slotFields {field : String × Json} :
    field ∈ slotFields slots ↔ (field.1, some field.2) ∈ slots := by
  unfold slotFields
  rw [List.mem_flatMap]
  constructor
  · rintro ⟨⟨name, value⟩, inside, found⟩
    obtain ⟨value, rfl, rfl⟩ := Option.map_eq_some_iff.mp (Option.mem_toList.mp found)
    exact inside
  · exact fun inside => ⟨_, inside, by simp⟩

/-- Fields of other names are passed over. -/
theorem filter_slotFields (absent : name ∉ slots.map Prod.fst) :
    ((slotFields slots).filter fun field => field.1 == name) = [] := by
  rw [List.filter_eq_nil_iff]
  intro field inside same
  rw [beq_iff_eq] at same
  exact absent (same ▸ List.mem_map_of_mem (mem_slotFields.mp inside))

/-- **A field is read from its slot.** -/
theorem field?_slotFields (distinct : (slots.map Prod.fst).Nodup) {value : Option Json}
    (inside : (name, value) ∈ slots) : field? name (slotFields slots) = some value := by
  induction slots with
  | nil => cases inside
  | cons slot rest ih =>
    rw [List.map_cons, List.nodup_cons] at distinct
    unfold field?
    rw [slotFields_cons, List.filter_append]
    obtain rfl | later := List.mem_cons.mp inside
    · rw [filter_slotFields distinct.1]
      cases value with
      | none => rfl
      | some value => simp
    · have differs : slot.1 ≠ name := fun same =>
        distinct.1 (same ▸ List.mem_map_of_mem later)
      have none : ((slot.2.map fun value => (slot.1, value)).toList.filter fun field =>
          field.1 == name) = [] := by
        cases slot.2 <;> simp [differs]
      rw [none]
      exact ih distinct.2 later

/-- A field without a slot is not there. -/
theorem field?_of_absent (absent : name ∉ slots.map Prod.fst) :
    field? name (slotFields slots) = some none := by
  unfold field?
  rw [filter_slotFields absent]

/-- **All fields of an object are read from their slots.** -/
theorem objectRecord?_slots (distinct : (slots.map Prod.fst).Nodup) :
    objectRecord? (slots.map Prod.fst) (.object (slotFields slots)) =
      some (slots.map Prod.snd) := by
  have read : ∀ rest : List (String × Option Json), (∀ slot ∈ rest, slot ∈ slots) →
      (rest.map Prod.fst).mapM (fun name => field? name (slotFields slots)) =
        some (rest.map Prod.snd) := by
    intro rest inside
    induction rest with
    | nil => rfl
    | cons slot rest ih =>
      rw [List.map_cons, List.mapM_cons, field?_slotFields distinct (inside slot List.mem_cons_self),
        ih fun other member => inside other (List.mem_cons_of_mem _ member)]
      rfl
  exact read slots fun _ inside => inside

/-- So they are of a record. -/
theorem record?_slots (distinct : (slots.map Prod.fst).Nodup) :
    record? (slots.map Prod.fst) (.object (slotFields slots)) = some (slots.map Prod.snd) :=
  objectRecord?_slots distinct

/-! ### Lists and maps -/

/-- What is read again of every element is read again of a list. -/
theorem mapM_map {α : Type} {read : Json → Option α} {write : α → Json} {list : List α}
    (each : ∀ item ∈ list, read (write item) = some item) :
    (list.map write).mapM read = some list := by
  induction list with
  | nil => rfl
  | cons item rest ih =>
    rw [List.map_cons, List.mapM_cons, each item List.mem_cons_self,
      ih fun other member => each other (List.mem_cons_of_mem _ member)]
    rfl

theorem list?_map {α : Type} {read : Json → Option α} {write : α → Json} {list : List α}
    (each : ∀ item ∈ list, read (write item) = some item) :
    list? read (.array (list.map write)) = some list :=
  mapM_map each

/-- A list that is left out when it is empty is read again. -/
theorem optional_list {α : Type} {read : Json → Option α} {write : α → Json} {list : List α}
    (each : ∀ item ∈ list, read (write item) = some item) :
    optional (list? read) [] (if list.isEmpty then none else some (.array (list.map write))) =
      some list := by
  cases list with
  | nil => rfl
  | cons item rest => exact list?_map each

/-- What is read again of every value is read again of a map. -/
theorem entries?_map {α : Type} {read : Json → Option α} {write : α → Json}
    {entries : List (String × α)} (each : ∀ entry ∈ entries, read (write entry.2) = some entry.2) :
    entries? read (.object (entries.map fun entry => (entry.1, write entry.2))) =
      some entries := by
  unfold entries?
  dsimp only
  induction entries with
  | nil => rfl
  | cons entry rest ih =>
    rw [List.map_cons, List.mapM_cons, each entry List.mem_cons_self,
      ih fun other member => each other (List.mem_cons_of_mem _ member)]
    rfl

/-! ### Depth -/

theorem depth_le_listDepth {elements : List Json} {element : Json} (inside : element ∈ elements) :
    element.depth ≤ listDepth elements := by
  induction elements with
  | nil => cases inside
  | cons first rest ih =>
    unfold listDepth
    obtain rfl | later := List.mem_cons.mp inside
    · exact Nat.le_max_left ..
    · exact Nat.le_trans (ih later) (Nat.le_max_right ..)

theorem depth_le_fieldsDepth {fields : List (String × Json)} {field : String × Json}
    (inside : field ∈ fields) : field.2.depth ≤ fieldsDepth fields := by
  induction fields with
  | nil => cases inside
  | cons first rest ih =>
    unfold fieldsDepth
    obtain rfl | later := List.mem_cons.mp inside
    · exact Nat.le_max_left ..
    · exact Nat.le_trans (ih later) (Nat.le_max_right ..)

/-- An element is less deep than its array. -/
theorem depth_lt_of_element {elements : List Json} {element : Json} (inside : element ∈ elements) :
    element.depth < (Json.array elements).depth :=
  Nat.lt_succ_of_le (depth_le_listDepth inside)

/-- The value of a slot is less deep than its object. -/
theorem depth_lt_of_slot {value : Json} (inside : (name, some value) ∈ slots) :
    value.depth < (Json.object (slotFields slots)).depth := by
  have field : (name, value) ∈ slotFields slots := mem_slotFields.mpr inside
  exact Nat.lt_succ_of_le (depth_le_fieldsDepth field)

/-! ### Readable values -/

theorem isReadable_array {elements : List Json}
    (each : ∀ element ∈ elements, element.isReadable = true) :
    (Json.array elements).isReadable = true := by
  unfold isReadable
  induction elements with
  | nil => rfl
  | cons first rest ih =>
    unfold areReadable
    rw [each first List.mem_cons_self,
      ih fun other member => each other (List.mem_cons_of_mem _ member)]
    rfl

/-- An object is readable if the values of its slots are. -/
theorem isReadable_slots (each : ∀ slot ∈ slots, ∀ value ∈ slot.2, value.isReadable = true) :
    (Json.object (slotFields slots)).isReadable = true := by
  have fields : ∀ fields : List (String × Json),
      (∀ field ∈ fields, field.2.isReadable = true) → haveReadable fields = true := by
    intro fields readable
    induction fields with
    | nil => rfl
    | cons first rest ih =>
      unfold haveReadable
      rw [readable first List.mem_cons_self,
        ih fun other member => readable other (List.mem_cons_of_mem _ member)]
      rfl
  exact fields _ fun field inside => each _ (mem_slotFields.mp inside) field.2 rfl

end Json

end Loadout
