/-
**What the rules of a request ask for is that a selection is admissible.**

The seats that are loaded are a selection of candidates (`Resolver.selected`).

* `holds_congr`, `isActive_congr`: links are judged by what is offered, in whatever order;
* **`requestMet_iff`**: values meet what the rules of a request ask for just when their selection
  is admissible;
* **`exists_selected`**: every admissible selection is that of some values, up to its order;
* **`cost_selected`**: what is loaded weighs as much as its selection costs.
-/

import Loadout.Proofs.OrderedMap
import Loadout.Proofs.Resolver.Requests

namespace Loadout

/-! ### Offers in any order -/

section Congruence

variable {offers others : List Offer}

theorem any_congr (same : ∀ offer, offer ∈ offers ↔ offer ∈ others) (test : Offer → Bool) :
    offers.any test = others.any test := by
  rw [Bool.eq_iff_iff, List.any_eq_true, List.any_eq_true]
  exact exists_congr fun offer => and_congr_left fun _ => same offer

mutual

/-- **Dependencies are judged by what is offered, in whatever order.** -/
theorem holds_congr (same : ∀ offer, offer ∈ offers ↔ offer ∈ others) :
    ∀ dependency : Dependency, dependency.holds offers = dependency.holds others
  | .only modId versions optional exception => by
    unfold Dependency.holds
    rw [any_congr same, any_congr same, exceptionHolds_congr same exception]
  | .any alternatives exception => by
    unfold Dependency.holds
    rw [someHolds_congr same alternatives, exceptionHolds_congr same exception]

theorem exceptionHolds_congr (same : ∀ offer, offer ∈ offers ↔ offer ∈ others) :
    ∀ exception : Option Dependency,
      Dependency.exceptionHolds offers exception = Dependency.exceptionHolds others exception
  | none => rfl
  | some exception => by
    unfold Dependency.exceptionHolds
    exact holds_congr same exception

theorem someHolds_congr (same : ∀ offer, offer ∈ offers ↔ offer ∈ others) :
    ∀ dependencies : List Dependency,
      Dependency.someHolds offers dependencies = Dependency.someHolds others dependencies
  | [] => rfl
  | dependency :: rest => by
    unfold Dependency.someHolds
    rw [holds_congr same dependency, someHolds_congr same rest]

end

mutual

/-- **Breakages are judged by what is offered, in whatever order.** -/
theorem isActive_congr (same : ∀ offer, offer ∈ offers ↔ offer ∈ others) :
    ∀ breakage : Breakage, breakage.isActive offers = breakage.isActive others
  | .only modId versions optional exception => by
    unfold Breakage.isActive
    rw [any_congr same, exceptionHolds_congr same exception]
  | .all parts exception => by
    unfold Breakage.isActive
    rw [allActive_congr same parts, exceptionHolds_congr same exception]

theorem allActive_congr (same : ∀ offer, offer ∈ offers ↔ offer ∈ others) :
    ∀ parts : List Breakage, Breakage.allActive offers parts = Breakage.allActive others parts
  | [] => rfl
  | part :: rest => by
    unfold Breakage.allActive
    rw [isActive_congr same part, allActive_congr same rest]

end

end Congruence

/-! ### What a candidate offers -/

namespace Candidate

/-- What is kept of some things to provide: the first of each mod id. -/
theorem foldl_kept (provides kept : List Provided) (distinct : (kept.map Provided.modId).Nodup) :
    ((provides.foldl (fun kept provided =>
      if kept.any fun other => other.modId == provided.modId then kept else kept ++ [provided])
      kept).map Provided.modId).Nodup ∧
    ∀ provided ∈ provides.foldl (fun kept provided =>
      if kept.any fun other => other.modId == provided.modId then kept else kept ++ [provided])
      kept, provided ∈ kept ∨ provided ∈ provides := by
  induction provides generalizing kept with
  | nil => exact ⟨distinct, fun provided inside => .inl inside⟩
  | cons first rest ih =>
    rw [List.foldl_cons]
    split
    · obtain ⟨distinct', within⟩ := ih kept distinct
      exact ⟨distinct', fun provided inside =>
        (within provided inside).imp_right (List.mem_cons_of_mem _)⟩
    · next new =>
      have distinct' : ((kept ++ [first]).map Provided.modId).Nodup := by
        rw [List.map_append, List.map_singleton, List.nodup_append]
        refine ⟨distinct, List.nodup_singleton _, fun modId inside other member same => new ?_⟩
        obtain ⟨provided, held, equal⟩ := List.mem_map.mp inside
        rw [List.any_eq_true]
        refine ⟨provided, held, beq_iff_eq.mpr ?_⟩
        rw [equal, same, List.mem_singleton.mp member]
      obtain ⟨distinct'', within⟩ := ih (kept ++ [first]) distinct'
      refine ⟨distinct'', fun provided inside => ?_⟩
      rcases within provided inside with held | later
      · rcases List.mem_append.mp held with old | last
        · exact .inl old
        · rw [List.mem_singleton.mp last]
          exact .inr List.mem_cons_self
      · exact .inr (List.mem_cons_of_mem _ later)

/-- What is provided in earnest is declared, and is not the own mod id. -/
theorem mem_extras {modId : String} {candidate : Candidate} {provided : Provided}
    (inside : provided ∈ candidate.extras modId) :
    provided ∈ candidate.provides ∧ provided.modId ≠ modId := by
  rcases (foldl_kept _ [] List.nodup_nil).2 provided inside with none | declared
  · cases none
  · obtain ⟨declared, other⟩ := List.mem_filter.mp declared
    exact ⟨declared, bne_iff_ne.mp other⟩

/-- Nothing that is provided is kept away but by its own mod id. -/
theorem modIds_foldl_kept (provides kept : List Provided) (modId : String) :
    modId ∈ (provides.foldl (fun kept provided =>
      if kept.any fun other => other.modId == provided.modId then kept else kept ++ [provided])
      kept).map Provided.modId ↔
    modId ∈ kept.map Provided.modId ∨ modId ∈ provides.map Provided.modId := by
  induction provides generalizing kept with
  | nil => simp
  | cons first rest ih =>
    rw [List.foldl_cons, ih, List.map_cons, List.mem_cons]
    split
    · next met =>
      obtain ⟨other, held, same⟩ := List.any_eq_true.mp met
      have here : first.modId ∈ kept.map Provided.modId :=
        List.mem_map.mpr ⟨other, held, beq_iff_eq.mp same⟩
      rw [← or_assoc, or_iff_left_of_imp (b := modId = first.modId) fun equal => equal ▸ here]
    · rw [List.map_append, List.map_singleton, List.mem_append, List.mem_singleton, or_assoc]

/-- **The mod ids that are provided in earnest** are those that are declared but for the own one. -/
theorem mem_modIds_extras {own modId : String} {candidate : Candidate} :
    modId ∈ (candidate.extras own).map Provided.modId ↔
      modId ∈ candidate.provides.map Provided.modId ∧ modId ≠ own := by
  unfold extras
  rw [modIds_foldl_kept, List.map_nil, or_iff_right List.not_mem_nil]
  simp only [List.mem_map, List.mem_filter, bne_iff_ne]
  constructor
  · rintro ⟨provided, ⟨declared, other⟩, rfl⟩
    exact ⟨⟨provided, declared, rfl⟩, other⟩
  · rintro ⟨⟨provided, declared, rfl⟩, other⟩
    exact ⟨provided, ⟨declared, other⟩, rfl⟩

/-- **A candidate offers no mod id twice.** -/
theorem nodup_offers (modId : String) (candidate : Candidate) :
    ((candidate.offers modId).map Offer.modId).Nodup := by
  unfold offers
  rw [List.map_cons, List.map_map, List.nodup_cons]
  refine ⟨fun inside => ?_, (foldl_kept _ [] List.nodup_nil).1⟩
  obtain ⟨provided, extra, same⟩ := List.mem_map.mp inside
  exact (mem_extras extra).2 same

end Candidate

/-! ### Selections by seats -/

/-- The candidate with its mod id. -/
def Registered.entry (registered : Registered) : String × Candidate :=
  (registered.modId, registered.candidate)

/-- The candidates of a request in the order in which they are registered: pool by pool, the best of
each first. -/
def Request.lineup (request : Request) : List (String × Candidate) :=
  request.pools.entries.flatMap fun pool =>
    (Resolver.ranked pool.2).map fun candidate => (pool.1, candidate)

namespace Resolver

variable {bias : Int} {request : Request} {seats : List Seat} {value : ChoiceId → Bool}

/-- The candidates whose seats are loaded. -/
def selected (seats : List Seat) (value : ChoiceId → Bool) : List (String × Candidate) :=
  ((seated 0 seats).filter fun registered => value registered.choice).map Registered.entry

/-- The seats of a request have its candidates in their order. -/
theorem entries_seats (request : Request) :
    request.seats.map (fun seat => (seat.modId, seat.candidate)) = request.lineup := by
  unfold Request.seats poolSeats Request.lineup
  rw [List.map_flatMap]
  refine List.flatMap_congr fun pool _ => ?_
  unfold seatsFrom
  rw [List.map_map]
  show List.map ((fun candidate => (pool.1, candidate)) ∘ Prod.fst) _ = _
  rw [← List.map_map, List.zipIdx_map_fst]

theorem lineup_perm (request : Request) : request.lineup.Perm request.candidates :=
  List.Perm.flatMap_left _ fun pool _ => (ranked_perm pool.2).map _

/-- **The seats of a request are its candidates.** -/
theorem entries_perm (request : Request) :
    ((seated 0 request.seats).map Registered.entry).Perm request.candidates := by
  have entries : (seated 0 request.seats).map Registered.entry =
      request.seats.map fun seat => (seat.modId, seat.candidate) := by
    unfold seated
    rw [List.map_map]
    show List.map ((fun seat : Seat => (seat.modId, seat.candidate)) ∘ Prod.fst) _ = _
    rw [← List.map_map, List.zipIdx_map_fst]
  rw [entries, entries_seats]
  exact lineup_perm request

theorem mem_candidates_iff {entry : String × Candidate} :
    entry ∈ request.candidates ↔
      ∃ registered ∈ seated 0 request.seats, registered.entry = entry := by
  rw [← (entries_perm request).mem_iff, List.mem_map]

theorem mem_selected {entry : String × Candidate} :
    entry ∈ selected seats value ↔
      ∃ registered ∈ seated 0 seats, value registered.choice = true ∧ registered.entry = entry := by
  unfold selected
  simp only [List.mem_map, List.mem_filter, and_assoc]

/-- In a proper request no two seats are of one candidate. -/
theorem nodup_entries (proper : request.Proper) :
    ((seated 0 request.seats).map Registered.entry).Nodup := by
  refine (entries_perm request).nodup_iff.mpr ?_
  exact List.Nodup.of_map _ proper.distinct

theorem eq_of_entry_eq (proper : request.Proper) {first second : Registered}
    (inside : first ∈ seated 0 request.seats) (inside' : second ∈ seated 0 request.seats)
    (same : first.entry = second.entry) : first = second :=
  List.inj_on_of_nodup_map (nodup_entries proper) inside inside' same

theorem nodup_selected (proper : request.Proper) (value : ChoiceId → Bool) :
    (selected request.seats value).Nodup :=
  (nodup_entries proper).sublist (List.filter_sublist.map _)

theorem mem_offers_selected {offer : Offer} :
    offer ∈ Request.offers (selected seats value) ↔
      ∃ registered ∈ seated 0 seats, value registered.choice = true ∧
        offer ∈ registered.candidate.offers registered.modId := by
  unfold Request.offers
  rw [List.mem_flatMap]
  constructor
  · rintro ⟨entry, inside, offered⟩
    obtain ⟨registered, member, holds, rfl⟩ := mem_selected.mp inside
    exact ⟨registered, member, holds, offered⟩
  · rintro ⟨registered, member, holds, offered⟩
    exact ⟨registered.entry, mem_selected.mpr ⟨registered, member, holds, rfl⟩, offered⟩

/-- **What is offered in the table is what the selection offers.** -/
theorem mem_offers_tableOf (bias : Int) (seats : List Seat) (value : ChoiceId → Bool)
    (offer : Offer) :
    offer ∈ (tableOf bias seats).offers value ↔ offer ∈ Request.offers (selected seats value) := by
  rw [(plain_tableOf bias seats).grounded.mem_offers, mem_offers_selected]
  constructor
  · rintro ⟨id, loaded, offered⟩
    obtain ⟨registered, inside, root, member⟩ := (exists_offer_iff bias).mp ⟨id, offered, rfl⟩
    refine ⟨registered, inside, ?_, member⟩
    rw [root]
    exact ((plain_tableOf bias seats).loads_iff.mp loaded).2
  · rintro ⟨registered, inside, holds, member⟩
    obtain ⟨id, offered, root⟩ :=
      (exists_offer_iff bias).mpr ⟨registered, inside, rfl, member⟩
    refine ⟨id, (plain_tableOf bias seats).loads_iff.mpr ⟨?_, by rw [root]; exact holds⟩, offered⟩
    exact (plain_tableOf bias seats).contains_iff.mp (ChoiceTable.contains_of_offer? offered)

/-! ### Mod ids that are claimed once -/

/-- Every mod id that is claimed has rules. -/
theorem claimed_mem {registered : Registered} (inside : registered ∈ seated 0 request.seats)
    {modId : String} (claims : registered.Claims modId) :
    modId ∈ allModIds request (seated 0 request.seats) := by
  unfold allModIds
  rw [List.mem_eraseDups, List.mem_append]
  obtain ⟨offer, offered, rfl⟩ := claims
  rcases List.mem_cons.mp offered with rfl | extra
  · left
    have known := mem_candidates_iff.mpr ⟨registered, inside, rfl⟩
    obtain ⟨pool, member, held⟩ := List.mem_flatMap.mp known
    obtain ⟨candidate, _, equal⟩ := List.mem_map.mp held
    have same : pool.1 = registered.modId := congrArg Prod.fst equal
    exact List.mem_map.mpr ⟨pool, member, same⟩
  · right
    obtain ⟨provided, member, rfl⟩ := List.mem_map.mp extra
    refine List.mem_flatMap.mpr ⟨registered, inside, List.mem_append_left _ ?_⟩
    exact List.mem_map_of_mem (Candidate.mem_extras member).1

/-- Seats that are loaded claim different mod ids just when nothing is offered twice. -/
theorem unique_iff : ((Request.offers (selected seats value)).map Offer.modId).Nodup ↔
    ∀ first ∈ seated 0 seats, ∀ second ∈ seated 0 seats,
      value first.choice = true → value second.choice = true →
      ∀ modId, first.Claims modId → second.Claims modId → first = second := by
  have claims_iff : ∀ (registered : Registered) (modId : String), registered.Claims modId ↔
      modId ∈ (registered.candidate.offers registered.modId).map Offer.modId :=
    fun registered modId => List.mem_map.symm
  have nodup : ((seated 0 seats).filter fun registered => value registered.choice).Nodup := by
    refine List.Nodup.filter _ (List.Nodup.of_map Registered.choice ?_)
    unfold seated
    rw [List.map_map]
    show (List.map Prod.snd _).Nodup
    rw [List.zipIdx_map_snd]
    exact List.nodup_range'
  unfold Request.offers selected
  rw [List.flatMap_map, List.map_flatMap, List.nodup_flatMap]
  constructor
  · rintro ⟨_, apart⟩ first inside second inside' holds holds'
    refine List.Pairwise.forall_of_forall_of_flip
      (R := fun first second => ∀ modId, first.Claims modId → second.Claims modId → first = second)
      (fun _ _ _ _ _ => rfl) (apart.imp fun disjoint modId claims claims' => ?_)
      (apart.imp fun disjoint modId claims claims' => ?_)
      (List.mem_filter.mpr ⟨inside, holds⟩) (List.mem_filter.mpr ⟨inside', holds'⟩)
    · exact (disjoint ((claims_iff _ modId).mp claims) ((claims_iff _ modId).mp claims')).elim
    · exact (disjoint ((claims_iff _ modId).mp claims') ((claims_iff _ modId).mp claims)).elim
  · intro only
    refine ⟨fun registered _ => Candidate.nodup_offers _ _, ?_⟩
    refine nodup.pairwise_of_forall_ne fun first inside second inside' differs modId claims
      claims' => differs ?_
    obtain ⟨member, holds⟩ := List.mem_filter.mp inside
    obtain ⟨member', holds'⟩ := List.mem_filter.mp inside'
    exact only first member second member' holds holds' modId ((claims_iff first modId).mpr claims)
      ((claims_iff second modId).mpr claims')

/-! ### Admissible selections -/

/-- **What the rules of a request ask for is that the selection is admissible.** -/
theorem requestMet_iff (proper : request.Proper) : RequestMet bias request value ↔
    request.Admissible (selected request.seats value) := by
  have offers := mem_offers_tableOf bias request.seats value
  constructor
  · rintro ⟨sets, links⟩
    refine ⟨fun entry inside => ?_, fun entry inside must => ?_, unique_iff.mpr ?_,
      fun entry inside dependency declared => ?_, fun entry inside breakage declared => ?_⟩
    · obtain ⟨registered, member, _, same⟩ := mem_selected.mp inside
      exact mem_candidates_iff.mpr ⟨registered, member, same⟩
    · obtain ⟨registered, member, rfl⟩ := mem_candidates_iff.mp inside
      have holds := (sets registered.modId (claimed_mem member registered.claims_own)).2 registered
        member must rfl
      exact mem_selected.mpr ⟨registered, member, holds, rfl⟩
    · intro first inside second inside' holds holds' modId claims claims'
      exact (sets modId (claimed_mem inside claims)).1 first inside second inside' holds holds'
        claims claims'
    · obtain ⟨registered, member, holds, rfl⟩ := mem_selected.mp inside
      rw [← holds_congr offers dependency]
      exact (links registered member holds).1 dependency declared
    · obtain ⟨registered, member, holds, rfl⟩ := mem_selected.mp inside
      rw [← isActive_congr offers breakage]
      exact (links registered member holds).2 breakage declared
  · intro admissible
    refine ⟨fun modId _ => ⟨fun first inside second inside' holds holds' claims claims' => ?_,
      fun winner inside must _ => ?_⟩, fun registered inside holds =>
        ⟨fun dependency declared => ?_, fun breakage declared => ?_⟩⟩
    · exact unique_iff.mp admissible.unique first inside second inside' holds holds' modId claims
        claims'
    · obtain ⟨registered, member, holds, same⟩ := mem_selected.mp (admissible.mandatory winner.entry
        (mem_candidates_iff.mpr ⟨winner, inside, rfl⟩) must)
      rwa [← eq_of_entry_eq proper member inside same]
    · rw [holds_congr offers dependency]
      exact admissible.depends registered.entry
        (mem_selected.mpr ⟨registered, inside, holds, rfl⟩) dependency declared
    · rw [isActive_congr offers breakage]
      exact admissible.breaks registered.entry
        (mem_selected.mpr ⟨registered, inside, holds, rfl⟩) breakage declared

end Resolver

namespace Request

/-! ### Selections in any order -/

/-- No two candidates of one mod id are loaded. -/
theorem Admissible.distinct {request : Request} {loaded : List (String × Candidate)}
    (admissible : request.Admissible loaded) : (loaded.map Prod.fst).Nodup := by
  have unique := admissible.unique
  unfold offers at unique
  rw [List.map_flatMap, List.nodup_flatMap] at unique
  refine List.pairwise_map.mpr (unique.2.imp fun {first second} disjoint same => ?_)
  exact disjoint List.mem_cons_self (List.mem_cons.mpr (.inl same))

theorem Admissible.nodup {request : Request} {loaded : List (String × Candidate)}
    (admissible : request.Admissible loaded) : loaded.Nodup :=
  .of_map _ admissible.distinct

/-- **Whether a selection is admissible does not depend on its order.** -/
theorem Admissible.perm {request : Request} {loaded other : List (String × Candidate)}
    (admissible : request.Admissible loaded) (order : loaded.Perm other) :
    request.Admissible other := by
  have offered : (offers loaded).Perm (offers other) := order.flatMap_right _
  have same : ∀ offer, offer ∈ offers other ↔ offer ∈ offers loaded :=
    fun offer => offered.mem_iff.symm
  refine ⟨fun entry inside => admissible.known entry (order.mem_iff.mpr inside),
    fun entry inside must => order.mem_iff.mp (admissible.mandatory entry inside must),
    (offered.map _).nodup_iff.mp admissible.unique, fun entry inside dependency declared => ?_,
    fun entry inside breakage declared => ?_⟩
  · rw [holds_congr same dependency]
    exact admissible.depends entry (order.mem_iff.mpr inside) dependency declared
  · rw [isActive_congr same breakage]
    exact admissible.breaks entry (order.mem_iff.mpr inside) breakage declared

/-! ### Costs -/

/-- The place of the candidate with a key in the order of its pool. -/
def placeOf (request : Request) (modId key : String) : Nat :=
  (Resolver.ranked (request.pool modId)).findIdx fun candidate => candidate.key == key

/-- What loading a candidate of a request adds to the cost. -/
def weightOf (bias : Int) (request : Request) (entry : String × Candidate) : Int :=
  Resolver.derivedWeight bias (request.placeOf entry.1 entry.2.key) entry.2

/-- **What a selection costs.** -/
def cost (bias : Int) (request : Request) (loaded : List (String × Candidate)) : Int :=
  (loaded.map (request.weightOf bias)).sum

theorem cost_perm (bias : Int) (request : Request) {loaded other : List (String × Candidate)}
    (order : loaded.Perm other) : request.cost bias loaded = request.cost bias other := by
  unfold cost
  induction order with
  | nil => rfl
  | cons entry _ ih => rw [List.map_cons, List.map_cons, List.sum_cons, List.sum_cons, ih]
  | swap first second rest =>
    simp only [List.map_cons, List.sum_cons]
    omega
  | trans _ _ ih ih' => exact ih.trans ih'

/-- The pool of a mod id is the one that is entered for it. -/
theorem pool_of_mem {request : Request} {pool : String × List Candidate}
    (inside : pool ∈ request.pools.entries) : request.pool pool.1 = pool.2 := by
  unfold Request.pool
  rw [OrderedMap.get?_eq_some_iff.mpr inside]
  rfl

end Request

namespace Resolver

variable {bias : Int} {request : Request} {value : ChoiceId → Bool}

/-- The candidates of a mod id are those of its pool. -/
theorem mem_pool {modId : String} {candidate : Candidate} :
    candidate ∈ request.pool modId ↔ (modId, candidate) ∈ request.candidates := by
  constructor
  · intro inside
    unfold Request.pool at inside
    cases entered : request.pools.get? modId with
    | none =>
      rw [entered] at inside
      cases inside
    | some pool =>
      rw [entered] at inside
      exact List.mem_flatMap.mpr ⟨(modId, pool), OrderedMap.get?_eq_some_iff.mp entered,
        List.mem_map_of_mem inside⟩
  · intro known
    obtain ⟨pool, entered, held⟩ := List.mem_flatMap.mp known
    obtain ⟨_, inside, equal⟩ := List.mem_map.mp held
    cases equal
    rwa [Request.pool_of_mem entered]

/-- No two candidates of a pool of a proper request have one key. -/
theorem nodup_keys_ranked (proper : request.Proper) (modId : String) :
    ((ranked (request.pool modId)).map Candidate.key).Nodup := by
  rw [((ranked_perm _).map _).nodup_iff]
  have all := proper.distinct
  unfold Request.candidates at all
  rw [List.map_flatMap, List.nodup_flatMap] at all
  unfold Request.pool
  cases entered : request.pools.get? modId with
  | none => exact List.nodup_nil
  | some pool =>
    have own := all.1 (modId, pool) (OrderedMap.get?_eq_some_iff.mp entered)
    rwa [List.map_map] at own

/-- No candidate stands twice in its pool. -/
theorem nodup_ranked (proper : request.Proper) (modId : String) :
    (ranked (request.pool modId)).Nodup :=
  .of_map _ (nodup_keys_ranked proper modId)

/-- A candidate is at the place that it has in its ranked pool. -/
theorem placeOf_ranked (proper : request.Proper) {modId : String} {candidate : Candidate}
    {place : Nat} (found : (ranked (request.pool modId))[place]? = some candidate) :
    request.placeOf modId candidate.key = place := by
  obtain ⟨within, equal⟩ := List.getElem?_eq_some_iff.mp found
  refine (List.findIdx_eq within).mpr ⟨?_, fun other before => ?_⟩
  · rw [equal, beq_self_eq_true]
  · rw [beq_eq_false_iff_ne]
    intro same
    have distinct := List.pairwise_map.mp (nodup_keys_ranked proper modId)
    exact List.pairwise_iff_getElem.mp distinct other place (before.trans within) within before
      (equal ▸ same)

/-- A seat is at the place of its candidate. -/
theorem place_of_mem (proper : request.Proper) {seat : Seat} (inside : seat ∈ request.seats) :
    seat.place = request.placeOf seat.modId seat.candidate.key := by
  obtain ⟨pool, member, held⟩ := List.mem_flatMap.mp inside
  obtain ⟨⟨candidate, place⟩, ranks, rfl⟩ := List.mem_map.mp held
  refine (placeOf_ranked proper ?_).symm
  rw [Request.pool_of_mem member]
  exact List.mem_zipIdx_iff_getElem?.mp ranks

/-- **What is loaded weighs as much as its selection costs.** -/
theorem cost_selected (proper : request.Proper) {later : ChoiceTable}
    (extends' : (tableOf bias request.seats).Extends later) (value : ChoiceId → Bool) :
    later.totalWeight (later.loadedBy value) =
      request.cost bias (selected request.seats value) := by
  rw [totalWeight_loadedBy extends']
  unfold Request.cost selected seated
  rw [List.filter_map, List.map_map, List.map_map]
  congr 1
  refine List.map_congr_left fun entry inside => ?_
  have found := List.mem_zipIdx_iff_getElem?.mp (List.mem_filter.mp inside).1
  have place := place_of_mem proper (List.mem_of_getElem? found)
  rw [place]
  rfl

/-- **Every admissible selection is that of some values**, up to its order. -/
theorem exists_selected (proper : request.Proper) {loaded : List (String × Candidate)}
    (admissible : request.Admissible loaded) :
    ∃ value, (selected request.seats value).Perm loaded := by
  classical
  refine ⟨fun id => decide (∃ registered ∈ seated 0 request.seats,
    registered.choice = id ∧ registered.entry ∈ loaded), ?_⟩
  rw [List.perm_ext_iff_of_nodup (nodup_selected proper _) admissible.nodup]
  intro entry
  rw [mem_selected]
  constructor
  · rintro ⟨registered, inside, holds, rfl⟩
    obtain ⟨other, inside', same, member⟩ := of_decide_eq_true holds
    rwa [← eq_of_choice_eq inside' inside same]
  · intro member
    obtain ⟨registered, inside, rfl⟩ := mem_candidates_iff.mp (admissible.known entry member)
    exact ⟨registered, inside, decide_eq_true ⟨registered, inside, rfl, member⟩, rfl⟩

end Resolver

end Loadout
