/-
**What the candidates of a request offer and weigh.**

In the table of a request a loaded seat offers its own mod id, and the aliases that follow it offer
what it provides:

* `plain_tableOf`: the table is plain;
* **`exists_offer_iff`**: the choices with a seat as their root offer what its candidate does;
* **`totalWeight_loadedBy`**: what is loaded weighs as much as the seats that are.
-/

import Loadout.Proofs.Resolver.Registration
import Mathlib.Algebra.BigOperators.Group.List.Basic

namespace Loadout

namespace Resolver

variable {bias : Int} {seats : List Seat} {id : ChoiceId} {value : ChoiceId → Bool}

/-! ### Seats by their numbers -/

theorem mem_seated {registered : Registered} :
    registered ∈ seated 0 seats ↔ ∃ seat, seats[registered.choice]? = some seat ∧
      seat.modId = registered.modId ∧ seat.candidate = registered.candidate := by
  unfold seated
  rw [List.mem_map]
  constructor
  · rintro ⟨⟨seat, place⟩, inside, rfl⟩
    exact ⟨seat, List.mem_zipIdx_iff_getElem?.mp inside, rfl, rfl⟩
  · rintro ⟨seat, found, modId, candidate⟩
    refine ⟨(seat, registered.choice), List.mem_zipIdx_iff_getElem?.mpr found, ?_⟩
    rw [modId, candidate]

theorem lt_of_mem_seated {registered : Registered} (inside : registered ∈ seated 0 seats) :
    registered.choice < seats.length := by
  obtain ⟨seat, found, _⟩ := mem_seated.mp inside
  exact (List.getElem?_eq_some_iff.mp found).1

theorem lt_size_tableOf (bias : Int) (inside : id < seats.length) :
    id < (tableOf bias seats).entries.size := by
  unfold tableOf
  rw [List.size_toArray, List.length_append, List.length_map]
  exact inside.trans_le (Nat.le_add_right _ _)

theorem mem_seats_lt {registered : Registered} (inside : registered ∈ seated 0 seats) :
    registered.choice < (tableOf bias seats).entries.size :=
  lt_size_tableOf bias (lt_of_mem_seated inside)

/-- The number of a seat tells what sits there. -/
theorem eq_of_choice_eq {first second : Registered} (inside : first ∈ seated 0 seats)
    (inside' : second ∈ seated 0 seats) (same : first.choice = second.choice) :
    first = second := by
  obtain ⟨seat, found, modId, candidate⟩ := mem_seated.mp inside
  obtain ⟨seat', found', modId', candidate'⟩ := mem_seated.mp inside'
  rw [same, found'] at found
  cases found
  obtain ⟨_, _, _⟩ := first
  obtain ⟨_, _, _⟩ := second
  cases modId
  cases modId'
  cases candidate
  cases candidate'
  cases same
  rfl

/-! ### The table of the seats -/

/-- A seat or an alias. -/
theorem entries_tableOf {entry : ChoiceEntry} :
    (tableOf bias seats).entries[id]? = some entry ↔
      (∃ seat, seats[id]? = some seat ∧ entry = seat.entry bias) ∨
      (seats.length ≤ id ∧
        ((seated 0 seats).flatMap aliasEntries)[id - seats.length]? = some entry) := by
  unfold tableOf
  rw [← Array.getElem?_toList]
  dsimp only
  rw [List.getElem?_append, List.length_map]
  split
  · next inside =>
    rw [List.getElem?_map, Option.map_eq_some_iff]
    constructor
    · rintro ⟨seat, found, rfl⟩
      exact .inl ⟨seat, found, rfl⟩
    · rintro (⟨seat, found, rfl⟩ | ⟨beyond, _⟩)
      · exact ⟨seat, found, rfl⟩
      · exact absurd inside (Nat.not_lt.mpr beyond)
  · next beyond =>
    constructor
    · exact fun found => .inr ⟨Nat.le_of_not_lt beyond, found⟩
    · rintro (⟨seat, found, _⟩ | ⟨_, found⟩)
      · exact absurd (List.getElem?_eq_some_iff.mp found).1 beyond
      · exact found

theorem mem_aliases {entry : ChoiceEntry} :
    entry ∈ (seated 0 seats).flatMap aliasEntries ↔
      ∃ registered ∈ seated 0 seats,
        ∃ provided ∈ registered.candidate.extras registered.modId,
          entry = ⟨.alias registered.choice provided.modId
            (provided.version.getD registered.candidate.version), 0, true⟩ := by
  unfold aliasEntries
  rw [List.mem_flatMap]
  refine exists_congr fun registered => and_congr_right fun _ => ?_
  rw [List.mem_map]
  exact exists_congr fun provided => and_congr_right fun _ => eq_comm

theorem target?_seat (bias : Int) {seat : Seat} (found : seats[id]? = some seat) :
    (tableOf bias seats).target? id = none := by
  unfold ChoiceTable.target?
  rw [entries_tableOf.mpr (.inl ⟨seat, found, rfl⟩)]
  rfl

/-- **The table of a request is plain.** -/
theorem plain_tableOf (bias : Int) (seats : List Seat) : (tableOf bias seats).Plain where
  registered entry inside := by
    obtain ⟨id, found⟩ := List.mem_iff_getElem?.mp inside
    rw [Array.getElem?_toList] at found
    rcases entries_tableOf.mp found with ⟨seat, _, rfl⟩ | ⟨_, found'⟩
    · rfl
    · obtain ⟨_, _, _, _, rfl⟩ := mem_aliases.mp (List.mem_of_getElem? found')
      rfl
  target id target found := by
    obtain ⟨entry, present, given⟩ := Option.bind_eq_some_iff.mp found
    rcases entries_tableOf.mp present with ⟨seat, _, rfl⟩ | ⟨_, found'⟩
    · cases given
    · obtain ⟨registered, inside, _, _, rfl⟩ := mem_aliases.mp (List.mem_of_getElem? found')
      cases given
      obtain ⟨seat, at', _⟩ := mem_seated.mp inside
      exact ⟨mem_seats_lt inside, target?_seat bias at'⟩

theorem offer?_tableOf {entry : ChoiceEntry}
    (found : (tableOf bias seats).entries[id]? = some entry) :
    (tableOf bias seats).offer? id = entry.choice.offer? := by
  unfold ChoiceTable.offer? ChoiceTable.choice?
  rw [(plain_tableOf bias seats).registered?, found]
  rfl

theorem root_tableOf {entry : ChoiceEntry}
    (found : (tableOf bias seats).entries[id]? = some entry) :
    (tableOf bias seats).root id = entry.choice.target?.getD id := by
  rw [(plain_tableOf bias seats).root_eq]
  unfold ChoiceTable.target?
  rw [found]
  rfl

/-- **What the choices of a seat offer is what its candidate offers.** -/
theorem exists_offer_iff (bias : Int) {offer : Offer} {seat : ChoiceId} :
    (∃ id, (tableOf bias seats).offer? id = some offer ∧ (tableOf bias seats).root id = seat) ↔
      ∃ registered ∈ seated 0 seats, registered.choice = seat ∧
        offer ∈ registered.candidate.offers registered.modId := by
  constructor
  · rintro ⟨id, offered, rfl⟩
    have within := (plain_tableOf bias seats).contains_iff.mp
      (ChoiceTable.contains_of_offer? offered)
    have found := Array.getElem?_eq_getElem within
    rw [offer?_tableOf found] at offered
    rw [root_tableOf found]
    generalize (tableOf bias seats).entries[id] = entry at found offered
    rcases entries_tableOf.mp found with ⟨seat, sits, rfl⟩ | ⟨_, follows⟩
    · cases offered
      exact ⟨⟨seat.modId, seat.candidate, id⟩, mem_seated.mpr ⟨seat, sits, rfl, rfl⟩, rfl,
        List.mem_cons_self⟩
    · obtain ⟨registered, inside, provided, extra, rfl⟩ :=
        mem_aliases.mp (List.mem_of_getElem? follows)
      cases offered
      exact ⟨registered, inside, rfl, List.mem_cons_of_mem _ (List.mem_map_of_mem extra)⟩
  · rintro ⟨registered, inside, rfl, offered⟩
    obtain ⟨seat, sits, modId, candidate⟩ := mem_seated.mp inside
    rcases List.mem_cons.mp offered with rfl | extra
    · have found : (tableOf bias seats).entries[registered.choice]? = some (seat.entry bias) :=
        entries_tableOf.mpr (.inl ⟨seat, sits, rfl⟩)
      refine ⟨registered.choice, ?_, ?_⟩
      · rw [offer?_tableOf found, ← modId, ← candidate]
        rfl
      · rw [root_tableOf found]
        rfl
    · obtain ⟨provided, member, rfl⟩ := List.mem_map.mp extra
      obtain ⟨place, follows⟩ := List.mem_iff_getElem?.mp
        (mem_aliases.mpr ⟨registered, inside, provided, member, rfl⟩)
      have found : (tableOf bias seats).entries[seats.length + place]? = _ :=
        entries_tableOf.mpr
          (.inr ⟨Nat.le_add_right _ _, by rw [Nat.add_sub_cancel_left]; exact follows⟩)
      refine ⟨seats.length + place, ?_, ?_⟩
      · rw [offer?_tableOf found]
        rfl
      · rw [root_tableOf found]
        rfl

end Resolver

/-! ### Weights -/

namespace ChoiceTable

variable {table : ChoiceTable}

/-- **The choices that are loaded, with their entries.** -/
theorem Plain.loadedBy_eq (plain : table.Plain) (value : ChoiceId → Bool) :
    table.loadedBy value =
      (table.entries.toList.zipIdx.filter fun entry => table.loads value entry.2).map Prod.snd := by
  have loaded : table.loadedBy value = table.ids.filter (table.loads value) := by
    refine List.filter_congr fun id inside => ?_
    have registered := plain.grounded.root_lt.mpr (plain.contains_iff.mp (mem_ids_iff.mp inside))
    have isRoot := isRoot_iff.mpr ⟨plain.contains_iff.mpr registered, plain.grounded.acyclic id⟩
    unfold loads
    rw [isRoot, plain.contains_iff.mpr registered]
  have all : table.ids = table.entries.toList.zipIdx.map Prod.snd := by
    unfold ids toList
    rw [List.map_map, List.filter_eq_self.mpr]
    · rfl
    · intro entry inside
      exact plain.registered entry.1 (List.fst_mem_of_mem_zipIdx inside)
  rw [loaded, all, List.filter_map]
  rfl

/-- Only the entries that weigh something count. -/
theorem Plain.totalWeight_loadedBy (plain : table.Plain) {first second : List ChoiceEntry}
    (split : table.entries.toList = first ++ second)
    (light : ∀ entry ∈ second, entry.weight = 0) (value : ChoiceId → Bool) :
    table.totalWeight (table.loadedBy value) =
      ((first.zipIdx.filter fun entry => table.loads value entry.2).map
        fun entry => entry.1.weight).sum := by
  have weights : table.totalWeight (table.loadedBy value) =
      ((table.entries.toList.zipIdx.filter fun entry => table.loads value entry.2).map
        fun entry => entry.1.weight).sum := by
    unfold totalWeight
    rw [plain.loadedBy_eq, List.map_map]
    congr 1
    refine List.map_congr_left fun entry inside => ?_
    have found := List.mem_zipIdx_iff_getElem?.mp (List.mem_filter.mp inside).1
    rw [Array.getElem?_toList] at found
    show (table.weight? entry.2).getD 0 = entry.1.weight
    unfold weight?
    rw [plain.registered?, found]
    rfl
  rw [weights, split, List.zipIdx_append, List.filter_append, List.map_append, List.sum_append]
  have nothing : (((second.zipIdx (0 + first.length)).filter
      fun entry => table.loads value entry.2).map fun entry => entry.1.weight).sum = 0 := by
    refine List.sum_eq_zero fun number inside => ?_
    obtain ⟨entry, member, rfl⟩ := List.mem_map.mp inside
    exact light entry.1 (List.fst_mem_of_mem_zipIdx (List.mem_filter.mp member).1)
  rw [nothing, Int.add_zero]

end ChoiceTable

namespace Resolver

variable {bias : Int} {seats : List Seat}

/-- What comes after the seats. -/
theorem entries_later {later : ChoiceTable} (extends' : (tableOf bias seats).Extends later) :
    ∃ labels : List String, later.entries.toList = seats.map (Seat.entry bias) ++
      ((seated 0 seats).flatMap aliasEntries ++ labels.map ChoiceTable.branchEntry) := by
  obtain ⟨labels, split⟩ := extends'
  refine ⟨labels, ?_⟩
  rw [split, ← List.append_assoc]
  rfl

/-- A seat is loaded when its value says so. -/
theorem loads_of_mem_seats {later : ChoiceTable} (extends' : (tableOf bias seats).Extends later)
    {seat : Seat} {id : ChoiceId} (found : seats[id]? = some seat) (value : ChoiceId → Bool) :
    later.loads value id = value id := by
  have plain := plain_tableOf bias seats
  have within := lt_size_tableOf bias (List.getElem?_eq_some_iff.mp found).1
  have registered := plain.contains_iff.mpr within
  rw [extends'.loads plain.grounded within]
  unfold ChoiceTable.loads
  rw [ChoiceTable.root_of_final (target?_seat bias found), registered, Bool.true_and]

/-- The seats that are loaded. -/
theorem filter_seats {later : ChoiceTable} (extends' : (tableOf bias seats).Extends later)
    (value : ChoiceId → Bool) :
    (seats.map (Seat.entry bias)).zipIdx.filter (fun entry => later.loads value entry.2) =
      (seats.zipIdx.filter fun entry => value entry.2).map (Prod.map (Seat.entry bias) id) := by
  rw [List.zipIdx_map, List.filter_map]
  congr 1
  refine List.filter_congr fun entry inside => ?_
  exact loads_of_mem_seats extends' (List.mem_zipIdx_iff_getElem?.mp inside) value

/-- **What is loaded weighs as much as the seats that are.** -/
theorem totalWeight_loadedBy {later : ChoiceTable} (extends' : (tableOf bias seats).Extends later)
    (value : ChoiceId → Bool) :
    later.totalWeight (later.loadedBy value) =
      ((seats.zipIdx.filter fun entry => value entry.2).map
        fun entry => derivedWeight bias entry.1.place entry.1.candidate).sum := by
  obtain ⟨labels, split⟩ := entries_later extends'
  have light : ∀ entry ∈ (seated 0 seats).flatMap aliasEntries ++
      labels.map ChoiceTable.branchEntry, entry.weight = 0 := by
    intro entry inside
    rcases List.mem_append.mp inside with provided | branch
    · obtain ⟨_, _, _, _, rfl⟩ := mem_aliases.mp provided
      rfl
    · obtain ⟨_, _, rfl⟩ := List.mem_map.mp branch
      rfl
  rw [(extends'.plain (plain_tableOf bias seats)).totalWeight_loadedBy split light,
    filter_seats extends', List.map_map]
  rfl

end Resolver

end Loadout
