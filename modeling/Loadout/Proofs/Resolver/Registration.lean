/-
**The candidates of a request as choices.**

Every candidate has a *seat*: its place in the order of its pool (`Resolver.Seat`,
`Request.seats`). Registering the candidates of a request gives the table with a choice for each
seat and, after them, an alias for everything that is provided (`Resolver.tableOf`):

* **`registerCandidates_gives`**: where no key occurs twice and no pool has two mandatory
  candidates, all candidates are registered, and their numbers are those of their seats.
-/

import Loadout.Proofs.Resolver.Drafts

namespace Loadout

namespace ChoiceTable

variable {table : ChoiceTable}

/-- The table with further entries. -/
def appendAll (entries : List ChoiceEntry) (table : ChoiceTable) : ChoiceTable :=
  ⟨(table.entries.toList ++ entries).toArray⟩

@[simp] theorem appendAll_nil (table : ChoiceTable) : table.appendAll [] = table := by
  simp [appendAll]

theorem appendAll_add (choice : Choice) (weight : Int) (entries : List ChoiceEntry)
    (table : ChoiceTable) : (table.add choice weight).2.appendAll entries =
      table.appendAll (⟨choice, weight, true⟩ :: entries) := by
  simp [appendAll, add]

theorem size_add (choice : Choice) (weight : Int) (table : ChoiceTable) :
    (table.add choice weight).2.entries.size = table.entries.size + 1 := Array.size_push _

theorem appendAll_appendAll (first second : List ChoiceEntry) (table : ChoiceTable) :
    (table.appendAll first).appendAll second = table.appendAll (first ++ second) := by
  simp [appendAll]

theorem size_appendAll (entries : List ChoiceEntry) (table : ChoiceTable) :
    (table.appendAll entries).entries.size = table.entries.size + entries.length := by
  simp [appendAll]

end ChoiceTable

namespace Resolver

open Engine

/-! ### Seats -/

/-- A candidate with its place in the order of its pool. -/
structure Seat where
  modId : String
  candidate : Candidate
  place : Nat

/-- The entry of the choice for a seat. -/
def Seat.entry (bias : Int) (seat : Seat) : ChoiceEntry :=
  ⟨choiceOf seat.modId seat.candidate, derivedWeight bias seat.place seat.candidate, true⟩

/-- The seats of ranked candidates from a place on. -/
def seatsFrom (modId : String) (place : Nat) (candidates : List Candidate) : List Seat :=
  (candidates.zipIdx place).map fun entry => ⟨modId, entry.1, entry.2⟩

/-- The seats of the candidates of some pools. -/
def poolSeats (pools : List (String × List Candidate)) : List Seat :=
  pools.flatMap fun pool => seatsFrom pool.1 0 (ranked pool.2)

/-- Candidates with choices that are numbered from a number on. -/
def seated (start : Nat) (seats : List Seat) : List Registered :=
  (seats.zipIdx start).map fun entry => ⟨entry.1.modId, entry.1.candidate, entry.2⟩

theorem seated_append (start : Nat) (first second : List Seat) :
    seated start (first ++ second) =
      seated start first ++ seated (start + first.length) second := by
  unfold seated
  rw [List.zipIdx_append, List.map_append]

theorem ranked_perm (pool : List Candidate) : (ranked pool).Perm pool :=
  List.mergeSort_perm _ _

/-! ### Registering candidates -/

/-- Choices are added to a draft without rules. -/
theorem addChoice_bare (config : Config) (table : ChoiceTable) (choice : Choice) (weight : Int) :
    Gives (addChoice choice weight) (draft config table .empty) table.entries.size
      (draft config (table.add choice weight).2 .empty) := by
  have same : Forest.empty.react
      (Rule.choiceAdded (table.add choice weight).2 table.entries.size) = .empty := by
    simp [Forest.react, Forest.empty]
  exact congrArg (fun forest => ((.ok table.entries.size,
    draft config (table.add choice weight).2 forest) : Engine.Outcome ChoiceId)) same

/-- **The candidates of a ranked pool are registered in their order.** -/
theorem registerPool_gives (config : Config) (bias : Int) (modId : String)
    (candidates : List Candidate) (place : Nat) (mandatory : Option String) (keys : List String)
    (table : ChoiceTable) (fresh : ∀ candidate ∈ candidates, candidate.key ∉ keys)
    (distinct : (candidates.map Candidate.key).Nodup)
    (single : mandatory.toList.length + candidates.countP Candidate.mandatory ≤ 1) :
    Gives (registerPool bias modId place mandatory keys candidates) (draft config table .empty)
      (seated table.entries.size (seatsFrom modId place candidates),
        (candidates.map Candidate.key).reverse ++ keys)
      (draft config (table.appendAll ((seatsFrom modId place candidates).map (Seat.entry bias)))
        .empty) := by
  induction candidates generalizing place mandatory keys table with
  | nil =>
    unfold registerPool
    show Gives _ _ _ (draft config (table.appendAll []) .empty)
    rw [ChoiceTable.appendAll_nil]
    exact gives_pure _ _
  | cons candidate rest ih =>
    rw [List.map_cons, List.nodup_cons] at distinct
    have new := fresh candidate List.mem_cons_self
    have fresh' : ∀ other ∈ rest, other.key ∉ candidate.key :: keys := by
      intro other inside met
      rcases List.mem_cons.mp met with same | old
      · exact distinct.1 (same ▸ List.mem_map_of_mem inside)
      · exact fresh other (List.mem_cons_of_mem _ inside) old
    have added := addChoice_bare config table (choiceOf modId candidate)
      (derivedWeight bias place candidate)
    have registered := fun mandatory' single' => ih (place + 1) mandatory' (candidate.key :: keys)
      (table.add (choiceOf modId candidate) (derivedWeight bias place candidate)).2 fresh'
      distinct.2 single'
    rw [ChoiceTable.appendAll_add, ChoiceTable.size_add] at registered
    have met : ((candidate :: rest).map Candidate.key).reverse ++ keys =
        (rest.map Candidate.key).reverse ++ candidate.key :: keys := by simp
    rw [met]
    unfold registerPool
    rw [if_neg (by rwa [List.contains_iff_mem])]
    dsimp only
    by_cases must : candidate.mandatory = true
    · rw [List.countP_cons_of_pos must] at single
      have none' : mandatory = none := by
        cases mandatory with
        | none => rfl
        | some first =>
          rw [Option.toList_some, List.length_singleton] at single
          omega
      subst none'
      rw [if_pos must]
      have single' : (some candidate.key).toList.length + rest.countP Candidate.mandatory ≤ 1 := by
        rw [Option.toList_some, List.length_singleton]
        rw [Option.toList_none, List.length_nil] at single
        omega
      exact (gives_pure _ _).bind
        (added.bind ((registered (some candidate.key) single').bind (gives_pure _ _)))
    · rw [List.countP_cons_of_neg must] at single
      rw [if_neg must]
      exact (gives_pure _ _).bind
        (added.bind ((registered mandatory single).bind (gives_pure _ _)))

/-- The candidates of all pools are registered, one pool after the other. -/
theorem registerPools_gives (config : Config) (bias : Int)
    (pools : List (String × List Candidate)) (keys : List String) (table : ChoiceTable)
    (fresh : ∀ pool ∈ pools, ∀ candidate ∈ pool.2, candidate.key ∉ keys)
    (distinct : (pools.flatMap fun pool => pool.2.map Candidate.key).Nodup)
    (single : ∀ pool ∈ pools, pool.2.countP Candidate.mandatory ≤ 1) :
    Gives (registerPools bias keys pools) (draft config table .empty)
      (seated table.entries.size (poolSeats pools))
      (draft config (table.appendAll ((poolSeats pools).map (Seat.entry bias))) .empty) := by
  induction pools generalizing keys table with
  | nil =>
    unfold registerPools
    show Gives _ _ _ (draft config (table.appendAll []) .empty)
    rw [ChoiceTable.appendAll_nil]
    exact gives_pure _ _
  | cons pool rest ih =>
    obtain ⟨modId, pool⟩ := pool
    have order := ranked_perm pool
    rw [List.flatMap_cons, List.nodup_append] at distinct
    obtain ⟨distinct, distinct', apart⟩ := distinct
    have first := registerPool_gives config bias modId (ranked pool) 0 none keys table
      (fun candidate inside => fresh _ List.mem_cons_self candidate (order.mem_iff.mp inside))
      ((order.map _).nodup_iff.mpr distinct) (by
        rw [order.countP_eq]
        exact (Nat.zero_add _).trans_le (single _ List.mem_cons_self))
    have fresh' : ∀ other ∈ rest, ∀ candidate ∈ other.2,
        candidate.key ∉ ((ranked pool).map Candidate.key).reverse ++ keys := by
      intro other inside candidate member met
      rcases List.mem_append.mp met with new | old
      · rw [List.mem_reverse, (order.map _).mem_iff] at new
        exact apart _ new _ (List.mem_flatMap.mpr ⟨other, inside, List.mem_map_of_mem member⟩) rfl
      · exact fresh other (List.mem_cons_of_mem _ inside) candidate member old
    have second := ih _ (table.appendAll ((seatsFrom modId 0 (ranked pool)).map (Seat.entry bias)))
      fresh' distinct' fun other inside => single other (List.mem_cons_of_mem _ inside)
    rw [ChoiceTable.appendAll_appendAll, ← List.map_append, ChoiceTable.size_appendAll,
      List.length_map] at second
    have all : poolSeats ((modId, pool) :: rest) =
        seatsFrom modId 0 (ranked pool) ++ poolSeats rest := List.flatMap_cons
    unfold registerPools
    rw [all, seated_append]
    exact first.bind (second.bind (gives_pure _ _))

/-! ### Registering aliases -/

/-- The entries of the aliases of a candidate. -/
def aliasEntries (registered : Registered) : List ChoiceEntry :=
  (registered.candidate.extras registered.modId).map fun provided =>
    ⟨.alias registered.choice provided.modId
      (provided.version.getD registered.candidate.version), 0, true⟩

theorem registerAliases_gives (config : Config) (registered : Registered) (table : ChoiceTable) :
    Gives (registerAliases registered) (draft config table .empty) ()
      (draft config (table.appendAll (aliasEntries registered)) .empty) := by
  unfold registerAliases aliasEntries
  induction registered.candidate.extras registered.modId generalizing table with
  | nil =>
    show Gives _ _ _ (draft config (table.appendAll []) .empty)
    rw [ChoiceTable.appendAll_nil]
    exact gives_pure _ _
  | cons provided rest ih =>
    have added := addChoice_bare config table (.alias registered.choice provided.modId
      (provided.version.getD registered.candidate.version)) 0
    have others := ih (table.add (.alias registered.choice provided.modId
      (provided.version.getD registered.candidate.version)) 0).2
    rw [ChoiceTable.appendAll_add] at others
    have first : Gives (do let _ ← addChoice (.alias registered.choice provided.modId
        (provided.version.getD registered.candidate.version)) 0) (draft config table .empty) ()
        _ := added.bind (gives_pure () _)
    exact first.bind others

theorem forM_registerAliases_gives (config : Config) (all : List Registered)
    (table : ChoiceTable) :
    Gives (all.forM registerAliases) (draft config table .empty) ()
      (draft config (table.appendAll (all.flatMap aliasEntries)) .empty) := by
  induction all generalizing table with
  | nil =>
    show Gives _ _ _ (draft config (table.appendAll []) .empty)
    rw [ChoiceTable.appendAll_nil]
    exact gives_pure _ _
  | cons registered rest ih =>
    have others := ih (table.appendAll (aliasEntries registered))
    rw [ChoiceTable.appendAll_appendAll] at others
    exact (registerAliases_gives config registered table).bind others

/-! ### The table of a request -/

/-- The table with a choice for each seat and the aliases after them. -/
def tableOf (bias : Int) (seats : List Seat) : ChoiceTable :=
  ⟨(seats.map (Seat.entry bias) ++ (seated 0 seats).flatMap aliasEntries).toArray⟩

end Resolver

namespace Request

/-- The seats of a request. -/
def seats (request : Request) : List Resolver.Seat :=
  Resolver.poolSeats request.pools.entries

/-- **No key occurs twice, and no pool has two mandatory candidates.** -/
structure Proper (request : Request) : Prop where
  distinct : (request.candidates.map fun entry => entry.2.key).Nodup
  single : ∀ pool ∈ request.pools.values, pool.countP Candidate.mandatory ≤ 1

end Request

namespace Resolver

open Engine

/-- **The candidates of a request are registered without an error.** -/
theorem registerCandidates_gives (config : Config) (bias : Int) {request : Request}
    (proper : request.Proper) :
    Gives (registerCandidates bias request) (draft config .empty .empty)
      (seated 0 request.seats) (draft config (tableOf bias request.seats) .empty) := by
  have keys : request.candidates.map (fun entry => entry.2.key) =
      request.pools.entries.flatMap fun pool => pool.2.map Candidate.key := by
    unfold Request.candidates
    rw [List.map_flatMap]
    exact List.flatMap_congr fun pool _ => by rw [List.map_map]; rfl
  have distinct := proper.distinct
  rw [keys] at distinct
  have first := registerPools_gives config bias request.pools.entries [] .empty
    (fun _ _ _ _ => List.not_mem_nil) distinct
    fun pool inside => proper.single pool.2 (List.mem_map_of_mem inside)
  have second := forM_registerAliases_gives config (seated 0 request.seats)
    (ChoiceTable.empty.appendAll (request.seats.map (Seat.entry bias)))
  rw [ChoiceTable.appendAll_appendAll] at second
  exact first.bind (second.bind (gives_pure _ _))

end Resolver

end Loadout
