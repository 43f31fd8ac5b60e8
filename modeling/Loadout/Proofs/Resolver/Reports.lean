/-
**What a resolution reports.**

A list of loaded choices is sorted out by what each of them claims (`foldlM_takeClaim`). Where the
selection that is loaded is admissible, no mod id is claimed twice, and:

* `sortOut_spec`: its claims are noted in their order;
* **`sortOut_reports`**: the keys of the selection are reported as selected, those of the candidates
  behind what it provides as provided, and all others as rejected.
-/

import Loadout.Proofs.Resolver.Selections
import Loadout.Resolver

namespace Loadout

namespace Resolver

/-! ### Claims of loaded choices -/

/-- A claim: a mod id, the key of the candidate behind it, and whether it is provided. -/
abbrev Claim := String × String × Bool

/-- The claims of candidates for themselves. -/
def ownClaims (claims : List Claim) : List (String × String) :=
  (claims.filter fun claim => !claim.2.2).map fun claim => (claim.1, claim.2.1)

/-- The claims of candidates for what they provide. -/
def extraClaims (claims : List Claim) : List (String × String) :=
  (claims.filter fun claim => claim.2.2).map fun claim => (claim.1, claim.2.1)

/-- The resolution with one more claim. -/
def note (resolution : Resolution) (claim : Claim) : Resolution :=
  if claim.2.2 then { resolution with provided := resolution.provided.insert claim.1 claim.2.1 }
  else { resolution with selected := resolution.selected.insert claim.1 claim.2.1 }

/-- The mod id is claimed in a resolution. -/
def Claimed (resolution : Resolution) (modId : String) : Prop :=
  modId ∈ resolution.selected.keys ∨ modId ∈ resolution.provided.keys

theorem takeClaim_none {table : ChoiceTable} {id : ChoiceId}
    (found : claim? table id = .ok none) (resolution : Resolution) :
    takeClaim table resolution id = .ok resolution := by
  unfold takeClaim
  rw [found]
  rfl

/-- A new claim is noted. -/
theorem takeClaim_some {table : ChoiceTable} {id : ChoiceId} {claim : Claim}
    (found : claim? table id = .ok (some claim)) {resolution : Resolution}
    (fresh : ¬Claimed resolution claim.1) :
    takeClaim table resolution id = .ok (note resolution claim) := by
  obtain ⟨modId, key, isProvided⟩ := claim
  have unclaimed : ¬(resolution.selected.keys.contains modId ||
      resolution.provided.keys.contains modId) = true := by
    rw [Bool.or_eq_true, List.contains_iff_mem, List.contains_iff_mem]
    exact fresh
  unfold takeClaim
  rw [found]
  show (if _ then _ else _) = _
  rw [if_neg unclaimed]
  cases isProvided <;> rfl

theorem entries_note {resolution : Resolution} {claim : Claim}
    (fresh : ¬Claimed resolution claim.1) :
    (note resolution claim).selected.entries =
        resolution.selected.entries ++ ownClaims [claim] ∧
      (note resolution claim).provided.entries =
        resolution.provided.entries ++ extraClaims [claim] := by
  obtain ⟨modId, key, isProvided⟩ := claim
  obtain ⟨unselected, unprovided⟩ := not_or.mp fresh
  cases isProvided with
  | false => exact ⟨OrderedMap.entries_insert unselected key, (List.append_nil _).symm⟩
  | true => exact ⟨(List.append_nil _).symm, OrderedMap.entries_insert unprovided key⟩

/-- A claim adds its own mod id and no other. -/
theorem claimed_note {resolution : Resolution} {claim : Claim}
    (fresh : ¬Claimed resolution claim.1) {modId : String}
    (claimed : Claimed (note resolution claim) modId) :
    Claimed resolution modId ∨ modId = claim.1 := by
  obtain ⟨selected, provided⟩ := entries_note fresh
  obtain ⟨own, key, isProvided⟩ := claim
  unfold Claimed OrderedMap.keys at claimed ⊢
  rw [selected, provided] at claimed
  cases isProvided <;>
    simp only [ownClaims, extraClaims, List.filter_cons, List.filter_nil, Bool.not_true,
      Bool.not_false, if_true, Bool.false_eq_true, if_false, List.map_cons, List.map_nil,
      List.append_nil, List.map_append, List.mem_append, List.mem_singleton] at claimed <;>
    tauto

/-- **Claims of different mod ids are all noted**, in their order. -/
theorem foldlM_takeClaim {table : ChoiceTable} (claims : ChoiceId → Option Claim)
    {ids : List ChoiceId} (known : ∀ id ∈ ids, claim? table id = .ok (claims id))
    (resolution : Resolution)
    (distinct : ((ids.filterMap claims).map Prod.fst).Nodup)
    (fresh : ∀ claim ∈ ids.filterMap claims, ¬Claimed resolution claim.1) :
    ∃ after, ids.foldlM (takeClaim table) resolution = .ok after ∧
      after.selected.entries =
        resolution.selected.entries ++ ownClaims (ids.filterMap claims) ∧
      after.provided.entries =
        resolution.provided.entries ++ extraClaims (ids.filterMap claims) := by
  induction ids generalizing resolution with
  | nil => exact ⟨resolution, rfl, (List.append_nil _).symm, (List.append_nil _).symm⟩
  | cons id rest ih =>
    have known' : ∀ id ∈ rest, claim? table id = .ok (claims id) :=
      fun other inside => known other (List.mem_cons_of_mem _ inside)
    have found := known id List.mem_cons_self
    rw [List.foldlM_cons]
    cases claimed : claims id with
    | none =>
      rw [List.filterMap_cons_none claimed] at distinct fresh ⊢
      rw [takeClaim_none (found.trans (congrArg _ claimed))]
      exact ih known' resolution distinct fresh
    | some claim =>
      rw [List.filterMap_cons_some claimed] at distinct fresh ⊢
      rw [List.map_cons, List.nodup_cons] at distinct
      have unclaimed := fresh claim List.mem_cons_self
      have fresh' : ∀ later ∈ rest.filterMap claims, ¬Claimed (note resolution claim) later.1 := by
        intro later inside held
        rcases claimed_note unclaimed held with old | same
        · exact fresh later (List.mem_cons_of_mem _ inside) old
        · exact distinct.1 (List.mem_map.mpr ⟨later, inside, same⟩)
      obtain ⟨after, taken, selected, provided⟩ :=
        ih known' (note resolution claim) distinct.2 fresh'
      obtain ⟨selected', provided'⟩ := entries_note unclaimed
      rw [takeClaim_some (found.trans (congrArg _ claimed)) unclaimed]
      refine ⟨after, taken, ?_, ?_⟩
      · rw [selected, selected', List.append_assoc]
        unfold ownClaims
        rw [← List.map_append, ← List.filter_append]
        rfl
      · rw [provided, provided', List.append_assoc]
        unfold extraClaims
        rw [← List.map_append, ← List.filter_append]
        rfl

/-! ### Claims by seats -/

variable {bias : Int} {seats : List Seat} {later : ChoiceTable} {value : ChoiceId → Bool}

/-- What the choice of an entry claims. -/
def claimOf (seats : List Seat) (entry : ChoiceEntry) : Option Claim :=
  match entry.choice with
  | .candidate modId key _ _ => some (modId, key, false)
  | .alias target modId _ => (seats[target]?).map fun seat => (modId, seat.candidate.key, true)
  | .branch _ => none

theorem claimOf_alias {registered : Registered} (inside : registered ∈ seated 0 seats)
    (modId : String) (version : Version) (weight : Int) (known : Bool) :
    claimOf seats ⟨.alias registered.choice modId version, weight, known⟩ =
      some (modId, registered.candidate.key, true) := by
  obtain ⟨seat, found, _, candidate⟩ := mem_seated.mp inside
  show (seats[registered.choice]?).map _ = _
  rw [found, Option.map_some, candidate]

/-- **Every choice claims what its entry says.** -/
theorem claim?_later (extends' : (tableOf bias seats).Extends later) {id : ChoiceId}
    {entry : ChoiceEntry} (found : later.entries[id]? = some entry) :
    claim? later id = .ok (claimOf seats entry) := by
  have plain := plain_tableOf bias seats
  have plain' := extends'.plain plain
  have choice : ∀ {id : ChoiceId} {entry : ChoiceEntry}, later.entries[id]? = some entry →
      later.choice? id = some entry.choice := by
    intro id entry found
    unfold ChoiceTable.choice?
    rw [plain'.registered?, found]
    rfl
  by_cases inside : id < (tableOf bias seats).entries.size
  · rcases entries_tableOf.mp ((extends'.getElem? inside).symm.trans found) with
      ⟨seat, _, rfl⟩ | ⟨_, follows⟩
    · unfold claim?
      rw [choice found]
      rfl
    · obtain ⟨registered, member, provided, _, rfl⟩ :=
        mem_aliases.mp (List.mem_of_getElem? follows)
      obtain ⟨seat, sits, _, candidate⟩ := mem_seated.mp member
      have root : later.root id = registered.choice := by
        rw [extends'.root plain.grounded,
          root_tableOf ((extends'.getElem? inside).symm.trans found)]
        rfl
      have target : later.entries[registered.choice]? = some (seat.entry bias) := by
        rw [extends'.getElem? (mem_seats_lt member)]
        exact entries_tableOf.mpr (.inl ⟨seat, sits, rfl⟩)
      rw [claimOf_alias member]
      unfold claim?
      rw [choice found]
      dsimp only
      rw [root, choice target, ← candidate]
      rfl
  · obtain ⟨label, rfl⟩ := extends'.getElem?_branch (Nat.le_of_not_lt inside) found
    unfold claim?
    rw [choice found]
    rfl

/-- What a list says of its items, it says of them at their places. -/
theorem filterMap_zipIdx {α β : Type} (list : List α) (start : Nat) (test : α → Bool)
    (change : α → Option β) :
    ((list.zipIdx start).filter fun entry => test entry.1).filterMap (fun entry => change entry.1) =
      (list.filter test).filterMap change := by
  show List.filterMap (change ∘ Prod.fst) (List.filter (test ∘ Prod.fst) _) = _
  rw [← List.filterMap_map, ← List.filter_map, List.zipIdx_map_fst]

theorem flatMap_filter {α β : Type} (test : α → Bool) (change : α → List β) (list : List α) :
    (list.filter test).flatMap change =
      list.flatMap fun item => if test item then change item else [] := by
  induction list with
  | nil => rfl
  | cons item rest ih =>
    rw [List.flatMap_cons, ← ih]
    by_cases holds : test item = true
    · rw [List.filter_cons_of_pos holds, if_pos holds, List.flatMap_cons]
    · rw [List.filter_cons_of_neg holds, if_neg holds, List.nil_append]

/-- The claims of a selection: its candidates for themselves, and then for what they provide. -/
def claimsOf (loaded : List (String × Candidate)) : List Claim :=
  loaded.map (fun entry => (entry.1, entry.2.key, false)) ++
    loaded.flatMap fun entry =>
      (entry.2.extras entry.1).map fun provided => (provided.modId, entry.2.key, true)

/-- The aliases that are loaded claim what the selection provides. -/
theorem claims_aliases (extends' : (tableOf bias seats).Extends later)
    (value : ChoiceId → Bool) (start : Nat)
    (placed : ∀ place entry, ((seated 0 seats).flatMap aliasEntries)[place]? = some entry →
      later.entries[start + place]? = some entry) :
    ((((seated 0 seats).flatMap aliasEntries).zipIdx start).filter
      fun entry => later.loads value entry.2).filterMap (fun entry => claimOf seats entry.1) =
    (selected seats value).flatMap fun entry =>
      (entry.2.extras entry.1).map fun provided => (provided.modId, entry.2.key, true) := by
  have plain' := extends'.plain (plain_tableOf bias seats)
  have loads : (((seated 0 seats).flatMap aliasEntries).zipIdx start).filter
      (fun entry => later.loads value entry.2) =
      (((seated 0 seats).flatMap aliasEntries).zipIdx start).filter
        fun entry => entry.1.choice.target?.any value := by
    refine List.filter_congr fun entry inside => ?_
    obtain ⟨beyond, found⟩ := List.mk_mem_zipIdx_iff_le_and_getElem?_sub.mp inside
    obtain ⟨registered, member, provided, _, same⟩ := mem_aliases.mp (List.mem_of_getElem? found)
    have at' := placed _ _ found
    rw [Nat.add_sub_cancel' beyond] at at'
    have target : later.target? entry.2 = some registered.choice := by
      unfold ChoiceTable.target?
      rw [at', same]
      rfl
    have within := (Array.getElem?_eq_some_iff.mp at').1
    rw [Bool.eq_iff_iff, plain'.loads_iff, plain'.root_eq, target, same]
    exact ⟨fun loaded => loaded.2, fun holds => ⟨within, holds⟩⟩
  rw [loads, filterMap_zipIdx _ _ (fun entry => entry.choice.target?.any value) (claimOf seats),
    List.filter_flatMap, List.filterMap_flatMap]
  unfold selected
  rw [List.flatMap_map, flatMap_filter]
  refine List.flatMap_congr fun registered inside => ?_
  unfold aliasEntries
  rw [List.filter_map, List.filterMap_map]
  have kept : List.filter ((fun entry : ChoiceEntry => entry.choice.target?.any value) ∘
      fun provided : Provided => ⟨.alias registered.choice provided.modId
        (provided.version.getD registered.candidate.version), 0, true⟩)
      (registered.candidate.extras registered.modId) =
      if value registered.choice then registered.candidate.extras registered.modId else [] := by
    by_cases holds : value registered.choice = true
    · rw [if_pos holds]
      exact List.filter_eq_self.mpr fun _ _ => holds
    · rw [if_neg holds]
      exact List.filter_eq_nil_iff.mpr fun _ _ => holds
  rw [kept]
  split
  · show _ = List.map _ _
    rw [← List.filterMap_eq_map]
    exact List.filterMap_congr fun provided _ => claimOf_alias inside _ _ _ _
  · rfl

/-- **What is loaded claims what the selection does.** -/
theorem claims_loadedBy (extends' : (tableOf bias seats).Extends later)
    (value : ChoiceId → Bool) :
    (later.loadedBy value).filterMap (fun id => later.entries[id]?.bind (claimOf seats)) =
      claimsOf (selected seats value) := by
  obtain ⟨labels, split⟩ := entries_later extends'
  have byEntries : (later.loadedBy value).filterMap
      (fun id => later.entries[id]?.bind (claimOf seats)) =
      (later.entries.toList.zipIdx.filter fun entry => later.loads value entry.2).filterMap
        fun entry => claimOf seats entry.1 := by
    rw [(extends'.plain (plain_tableOf bias seats)).loadedBy_eq, List.filterMap_map]
    refine List.filterMap_congr fun entry inside => ?_
    have found := List.mem_zipIdx_iff_getElem?.mp (List.mem_filter.mp inside).1
    rw [Array.getElem?_toList] at found
    show later.entries[entry.2]?.bind (claimOf seats) = _
    rw [found]
    rfl
  rw [byEntries, split, List.zipIdx_append, List.zipIdx_append, List.filter_append,
    List.filter_append, List.filterMap_append, List.filterMap_append, filter_seats extends',
    List.filterMap_map]
  have own : (seats.zipIdx.filter fun entry => value entry.2).filterMap
      ((fun entry : ChoiceEntry × Nat => claimOf seats entry.1) ∘
        Prod.map (Seat.entry bias) id) =
      (selected seats value).map fun entry => (entry.1, entry.2.key, false) := by
    unfold selected seated
    rw [List.filter_map, List.map_map, List.map_map, ← List.filterMap_eq_map]
    rfl
  have branches : ∀ start, (((labels.map ChoiceTable.branchEntry).zipIdx start).filter
      fun entry => later.loads value entry.2).filterMap (fun entry => claimOf seats entry.1) =
      [] := by
    intro start
    refine List.filterMap_eq_nil_iff.mpr fun entry inside => ?_
    obtain ⟨label, _, same⟩ := List.mem_map.mp
      (List.fst_mem_of_mem_zipIdx (List.mem_filter.mp inside).1)
    rw [← same]
    rfl
  have aliases := claims_aliases extends' value
    (0 + (seats.map (Seat.entry bias)).length) fun place entry found => by
      have within := (List.getElem?_eq_some_iff.mp found).1
      rw [← Array.getElem?_toList, split, List.getElem?_append_right (by omega), Nat.zero_add,
        Nat.add_sub_cancel_left, List.getElem?_append_left within, found]
  rw [own, aliases, branches, List.append_nil]
  rfl

theorem claims_distinct {request : Request} {loaded : List (String × Candidate)}
    (admissible : request.Admissible loaded) : ((claimsOf loaded).map Prod.fst).Nodup := by
  have order : ((claimsOf loaded).map Prod.fst).Perm
      ((Request.offers loaded).map Offer.modId) := by
    unfold claimsOf Request.offers
    rw [List.map_append, List.map_map, List.map_flatMap, List.map_flatMap]
    refine (List.map_append_flatMap_perm loaded _ _).trans (List.Perm.of_eq ?_)
    refine List.flatMap_congr fun entry _ => ?_
    unfold Candidate.offers
    rw [List.map_cons, List.map_map, List.map_map]
    rfl
  exact order.nodup_iff.mpr admissible.unique

theorem ownClaims_claimsOf (loaded : List (String × Candidate)) :
    ownClaims (claimsOf loaded) = loaded.map fun entry => (entry.1, entry.2.key) := by
  unfold ownClaims claimsOf
  rw [List.filter_append, List.filter_map, List.filter_flatMap, List.filter_eq_self.mpr]
  · have none : loaded.flatMap (fun entry => List.filter (fun claim : Claim => !claim.2.2)
        ((entry.2.extras entry.1).map fun provided =>
          (provided.modId, entry.2.key, true))) = [] := by
      refine List.flatMap_eq_nil_iff.mpr fun entry _ => List.filter_eq_nil_iff.mpr ?_
      rintro claim inside
      obtain ⟨_, _, rfl⟩ := List.mem_map.mp inside
      exact Bool.false_ne_true
    rw [none, List.append_nil, List.map_map]
    rfl
  · exact fun _ _ => rfl

theorem extraClaims_claimsOf (loaded : List (String × Candidate)) :
    extraClaims (claimsOf loaded) = loaded.flatMap fun entry =>
      (entry.2.extras entry.1).map fun provided => (provided.modId, entry.2.key) := by
  unfold extraClaims claimsOf
  rw [List.filter_append, List.filter_map, List.filter_flatMap, List.filter_eq_nil_iff.mpr]
  · rw [List.map_nil, List.nil_append, List.map_flatMap]
    refine List.flatMap_congr fun entry _ => ?_
    rw [List.filter_eq_self.mpr, List.map_map]
    · rfl
    · rintro claim inside
      obtain ⟨_, _, rfl⟩ := List.mem_map.mp inside
      rfl
  · exact fun _ _ => Bool.false_ne_true

/-! ### Reports -/

/-- The keys of the candidates of one mod id. -/
def keysOf (modId : String) (entries : List Registered) : List String :=
  (entries.filter fun entry => entry.modId == modId).map fun entry => entry.candidate.key

theorem keysOf_cons (modId : String) (entry : Registered) (rest : List Registered) :
    keysOf modId (entry :: rest) =
      if entry.modId = modId then entry.candidate.key :: keysOf modId rest
      else keysOf modId rest := by
  unfold keysOf
  by_cases own : entry.modId = modId <;> simp [own]

/-- The keys of a mod id are appended to those that are there for it. -/
theorem get?_foldl_append (entries : List Registered) (map : OrderedMap (List String))
    (modId : String) :
    (entries.foldl (fun rejected entry => rejected.append entry.modId entry.candidate.key)
      map).get? modId =
      if keysOf modId entries = [] then map.get? modId
      else some ((map.get? modId).getD [] ++ keysOf modId entries) := by
  induction entries generalizing map with
  | nil => rfl
  | cons entry rest ih =>
    rw [List.foldl_cons, ih, OrderedMap.get?_append, keysOf_cons]
    by_cases own : entry.modId = modId
    · subst own
      rw [if_pos rfl, if_pos rfl, if_neg (List.cons_ne_nil _ _)]
      by_cases last : keysOf entry.modId rest = []
      · rw [if_pos last, last]
      · rw [if_neg last, Option.getD_some, List.append_assoc]
        rfl
    · rw [if_neg (Ne.symm own), if_neg own]

theorem getD_foldl_append (entries : List Registered) (modId : String) :
    ((entries.foldl (fun rejected entry => rejected.append entry.modId entry.candidate.key)
      OrderedMap.empty).get? modId).getD [] = keysOf modId entries := by
  rw [get?_foldl_append]
  by_cases none : keysOf modId entries = []
  · rw [if_pos none, none]
    rfl
  · rw [if_neg none]
    rfl

end Resolver

/-- **What a resolution reports of a selection**: the keys of its candidates, those of the
candidates behind what it provides, and those of all other candidates. -/
structure Resolution.Reports (resolution : Resolution) (request : Request)
    (loaded : List (String × Candidate)) : Prop where
  selected : resolution.selected.entries = loaded.map fun entry => (entry.1, entry.2.key)
  provided : resolution.provided.entries = loaded.flatMap fun entry =>
    (entry.2.extras entry.1).map fun provided => (provided.modId, entry.2.key)
  rejected : ∀ modId key, key ∈ (resolution.rejected.get? modId).getD [] ↔
    ∃ candidate, (modId, candidate) ∈ request.candidates ∧ candidate.key = key ∧
      (modId, candidate) ∉ loaded

namespace Resolver

variable {bias : Int} {request : Request} {later : ChoiceTable} {value : ChoiceId → Bool}

/-- **What is loaded is sorted out without an error**: the claims of the selection are noted in
their order, and the candidates whose seats are not loaded are rejected. -/
theorem sortOut_spec (extends' : (tableOf bias request.seats).Extends later)
    (admissible : request.Admissible (selected request.seats value)) :
    ∃ resolution, sortOut later (seated 0 request.seats) (later.loadedBy value) = .ok resolution ∧
      resolution.selected.entries = ownClaims (claimsOf (selected request.seats value)) ∧
      resolution.provided.entries = extraClaims (claimsOf (selected request.seats value)) ∧
      resolution.rejected = ((seated 0 request.seats).filter fun registered =>
        !value registered.choice).foldl
          (fun rejected entry => rejected.append entry.modId entry.candidate.key) .empty := by
  have plain' := extends'.plain (plain_tableOf bias request.seats)
  have claims := claims_loadedBy extends' value
  have known : ∀ id ∈ later.loadedBy value,
      claim? later id = .ok (later.entries[id]?.bind (claimOf request.seats)) := by
    intro id inside
    have within := (plain'.loads_iff.mp (plain'.mem_loadedBy.mp inside)).1
    have found := Array.getElem?_eq_getElem within
    rw [claim?_later extends' found, found]
    rfl
  obtain ⟨taken, sorted, selected', provided⟩ := foldlM_takeClaim
    (fun id => later.entries[id]?.bind (claimOf request.seats)) known ⟨.empty, .empty, .empty⟩
    (by rw [claims]; exact claims_distinct admissible)
    (fun _ _ => not_or.mpr ⟨List.not_mem_nil, List.not_mem_nil⟩)
  rw [claims] at selected' provided
  have unloaded : (seated 0 request.seats).filter
      (fun registered => !(later.loadedBy value).contains registered.choice) =
      (seated 0 request.seats).filter fun registered => !value registered.choice := by
    refine List.filter_congr fun registered inside => congrArg (!·) ?_
    rw [Bool.eq_iff_iff, List.contains_iff_mem, plain'.mem_loadedBy, loads_seat extends' inside]
  unfold sortOut
  rw [sorted, unloaded]
  exact ⟨_, rfl, selected', provided, rfl⟩

/-- **What is loaded is sorted out without an error**, and reports the selection. -/
theorem sortOut_reports (proper : request.Proper)
    (extends' : (tableOf bias request.seats).Extends later)
    (admissible : request.Admissible (selected request.seats value)) :
    ∃ resolution, sortOut later (seated 0 request.seats) (later.loadedBy value) = .ok resolution ∧
      resolution.Reports request (selected request.seats value) := by
  obtain ⟨resolution, sorted, selected', provided, rejected⟩ := sortOut_spec extends' admissible
  refine ⟨resolution, sorted, selected'.trans (ownClaims_claimsOf _),
    provided.trans (extraClaims_claimsOf _), fun modId key => ?_⟩
  rw [rejected, getD_foldl_append]
  show key ∈ List.map _ _ ↔ _
  rw [List.mem_map]
  constructor
  · rintro ⟨registered, member, rfl⟩
    obtain ⟨unloaded, own⟩ := List.mem_filter.mp member
    obtain ⟨inside, absent⟩ := List.mem_filter.mp unloaded
    cases beq_iff_eq.mp own
    refine ⟨registered.candidate, mem_candidates_iff.mpr ⟨registered, inside, rfl⟩, rfl,
      fun held => ?_⟩
    obtain ⟨other, inside', holds, same⟩ := mem_selected.mp held
    have equal := eq_of_entry_eq proper inside' inside same
    subst equal
    rw [holds] at absent
    cases absent
  · rintro ⟨candidate, known, rfl, unselected⟩
    obtain ⟨registered, inside, same⟩ := mem_candidates_iff.mp known
    cases same
    refine ⟨registered, List.mem_filter.mpr ⟨List.mem_filter.mpr ⟨inside, ?_⟩,
      beq_self_eq_true _⟩, rfl⟩
    rw [Bool.not_eq_true', ← Bool.not_eq_true]
    exact fun holds => unselected (mem_selected.mpr ⟨registered, inside, holds, rfl⟩)

end Resolver

end Loadout
