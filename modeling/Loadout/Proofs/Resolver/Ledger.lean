/-
**Every candidate of a request is accounted for.**

A resolution selects candidates, provides mod ids and rejects the other candidates. Whatever the
resolver is and whatever happens outside:

* `accounts_of_sorted`: what an admissible selection of a proper request is sorted out to accounts
  for every candidate and every mod id;
* **`resolve_accounts`**: every resolution does, and no request fails for a fault of the engine.
-/

import Loadout.Proofs.Resolver.Faults
import Loadout.Proofs.Resolver.Pools
import Loadout.Proofs.Resolver.Ranking

namespace Loadout

/-- **The account of a resolution**: where the candidates of a request are, and which of them
provides what. -/
structure Resolution.Accounts (report : Resolution) (request : Request) : Prop where
  /-- No two candidates have one key. -/
  distinct : (request.candidates.map fun entry => entry.2.key).Nodup
  /-- What is selected or rejected for mod ids are the candidates of these, each once. -/
  whole : (report.selected.entries ++ report.rejected.pairs).Perm
    (request.candidates.map fun entry => (entry.1, entry.2.key))
  /-- What is rejected for a mod id are candidates of its pool, the best first. -/
  ordered : ∀ modId keys, report.rejected.get? modId = some keys →
    ∃ passed : List Candidate, keys = passed.map Candidate.key ∧
      passed.Pairwise Candidate.Outranks ∧ ∀ candidate ∈ passed, candidate ∈ request.pool modId
  /-- A mod id is provided just by a selected candidate that declares it and has another. -/
  provided : ∀ modId key, report.provided.get? modId = some key ↔
    ∃ own candidate, (own, candidate) ∈ request.candidates ∧ candidate.key = key ∧
      report.selected.get? own = some key ∧
      modId ∈ candidate.provides.map Provided.modId ∧ modId ≠ own
  /-- No mod id is both selected and provided. -/
  apart : report.selected.keys.Disjoint report.provided.keys

namespace Resolver

open Engine

variable {request : Request} {value : ChoiceId → Bool} {report : Resolution}

/-! ### What is rejected -/

/-- The rejected candidates of all mod ids are those that were appended. -/
theorem pairs_foldl_append (entries : List Registered) (map : OrderedMap (List String)) :
    (entries.foldl (fun rejected entry => rejected.append entry.modId entry.candidate.key)
      map).pairs.Perm
      (map.pairs ++ entries.map fun entry => (entry.modId, entry.candidate.key)) := by
  induction entries generalizing map with
  | nil =>
    rw [List.map_nil, List.append_nil]
    exact .rfl
  | cons entry rest ih =>
    refine (ih _).trans ?_
    have appended := map.pairs_append entry.modId entry.candidate.key
    rw [List.map_cons, ← List.singleton_append, ← List.append_assoc]
    exact appended.append_right _

/-- What is loaded and what is not are the candidates of a request. -/
theorem loaded_perm (request : Request) (value : ChoiceId → Bool) :
    ((selected request.seats value).map (fun entry => (entry.1, entry.2.key)) ++
      ((seated 0 request.seats).filter fun registered => !value registered.choice).map
        fun registered => (registered.modId, registered.candidate.key)).Perm
      (request.candidates.map fun entry => (entry.1, entry.2.key)) := by
  have split : ((seated 0 request.seats).filter (fun registered => value registered.choice) ++
      (seated 0 request.seats).filter fun registered => !value registered.choice).Perm
      (seated 0 request.seats) := by
    have halves := List.filter_append_perm (fun registered : Registered => value registered.choice)
      (seated 0 request.seats)
    simpa only [Bool.not_eq_true, Bool.decide_eq_false] using halves
  have entries := (entries_perm request).map fun entry => (entry.1, entry.2.key)
  unfold selected
  rw [List.map_map] at entries ⊢
  have parts := split.map ((fun entry : String × Candidate => (entry.1, entry.2.key)) ∘
    Registered.entry)
  rw [List.map_append] at parts
  exact parts.trans entries

/-! ### Accounts -/

/-- **What a selection is sorted out to accounts for every candidate.** -/
theorem accounts_of_sorted (proper : request.Proper)
    (admissible : request.Admissible (selected request.seats value))
    (listed : report.selected.entries =
      (selected request.seats value).map fun entry => (entry.1, entry.2.key))
    (offered : report.provided.entries = (selected request.seats value).flatMap fun entry =>
      (entry.2.extras entry.1).map fun provided => (provided.modId, entry.2.key))
    (rejected : report.rejected = ((seated 0 request.seats).filter fun registered =>
      !value registered.choice).foldl
        (fun rejected entry => rejected.append entry.modId entry.candidate.key) .empty) :
    report.Accounts request where
  distinct := proper.distinct
  whole := by
    rw [listed, rejected]
    exact ((pairs_foldl_append _ .empty).append_left _).trans (loaded_perm request value)
  ordered modId keys found := by
    rw [rejectsRest_of_sorted proper listed rejected] at found
    split at found
    · cases found
    · cases found
      refine ⟨(ranked (request.pool modId)).filter fun candidate =>
        !report.selected.entries.contains (modId, candidate.key), ?_, ?_,
        fun candidate inside => ?_⟩
      · unfold passedOver
        rw [List.filter_map]
        rfl
      · exact (ranked_outranks (nodup_keys_ranked proper modId)).sublist List.filter_sublist
      · exact (ranked_perm _).mem_iff.mp (List.mem_of_mem_filter inside)
  provided modId key := by
    rw [OrderedMap.get?_eq_some_iff, offered, List.mem_flatMap]
    constructor
    · rintro ⟨⟨own, candidate⟩, inside, extra⟩
      obtain ⟨provided, held, same⟩ := List.mem_map.mp extra
      cases same
      refine ⟨own, candidate, admissible.known _ inside, rfl, ?_, ?_⟩
      · rw [OrderedMap.get?_eq_some_iff, listed]
        exact List.mem_map.mpr ⟨_, inside, rfl⟩
      · exact Candidate.mem_modIds_extras.mp (List.mem_map_of_mem held)
    · rintro ⟨own, candidate, known, rfl, chosen, declared⟩
      -- the key tells which candidate is selected
      have inside : (own, candidate) ∈ selected request.seats value := by
        rw [OrderedMap.get?_eq_some_iff, listed, List.mem_map] at chosen
        obtain ⟨entry, inside, same⟩ := chosen
        rwa [← List.inj_on_of_nodup_map proper.distinct (admissible.known _ inside) known
          (Prod.mk.inj same).2]
      obtain ⟨provided, held, rfl⟩ := List.mem_map.mp (Candidate.mem_modIds_extras.mpr declared)
      exact ⟨_, inside, List.mem_map.mpr ⟨provided, held, rfl⟩⟩
  apart := by
    have claims := claims_distinct admissible
    unfold claimsOf at claims
    rw [List.map_append, List.map_map, List.map_flatMap] at claims
    unfold OrderedMap.keys
    rw [listed, offered, List.map_map, List.map_flatMap]
    simpa only [List.map_map, Function.comp_def] using List.disjoint_of_nodup_append claims

/-- **Every candidate is accounted for.** Whatever the settings, the time limit among them, whatever
cancellation a resolver starts under and whatever happens while it searches: a resolution accounts
for the candidates of the request; and nothing that is loaded is claimed twice, is provided without
a candidate behind it, or leads to another fault of the engine. -/
theorem resolve_accounts (events : List OutsideEvent) (request : Request) (resolver : Resolver) :
    (∀ report, (resolveAmid events request resolver).1 = .ok (.solved report) →
      report.Accounts request) ∧
    ∀ fault, (resolveAmid events request resolver).1 ≠ .error (.internal fault) := by
  obtain ⟨config, signal⟩ := resolver
  show (∀ report, (resolution config request ((create config signal).amid events)).1 = _ → _) ∧
    ∀ fault, (resolution config request ((create config signal).amid events)).1 ≠ _
  cases poisoned : signal.isPoisoned with
  | true =>
    have refused : ((create config signal).amid events).signal.isPoisoned = true := poisoned
    obtain ⟨error, failed, other⟩ := resolution_poisoned config request refused
    rw [failed]
    exact ⟨nofun, fun fault same => other fault (Except.error.inj same)⟩
  | false =>
    by_cases proper : request.Proper
    · obtain ⟨outcome, done, earned⟩ | stopped := resolution_yields config proper poisoned events
      · rw [done]
        refine ⟨fun report same => ?_, nofun⟩
        cases same
        obtain ⟨later, value, extends', admissible, _, sorted⟩ := earned
        obtain ⟨report', sorted', listed, offered, rejected⟩ := sortOut_spec extends' admissible
        cases sorted.symm.trans sorted'
        rw [ownClaims_claimsOf] at listed
        rw [extraClaims_claimsOf] at offered
        exact accounts_of_sorted proper admissible listed offered rejected
      · obtain stopped | stopped := stopped <;> rw [stopped] <;> exact ⟨nofun, nofun⟩
    · have free : ((create config signal).amid events).editFault? .addChoice = none := by
        unfold editFault?
        show (if signal.isPoisoned = true then _ else _) = _
        rw [poisoned]
        rfl
      obtain ⟨error, failed, _⟩ := @resolution_refused _ config request proper free
      rw [failed]
      exact ⟨nofun, nofun⟩

/-- A mandatory candidate that breaks the pool and provides two further mod ids, one of them twice,
beside its own. -/
def stockroom : Request :=
  let app := (Candidate.plain "app" (.ofNumbers [1])).asMandatory.breaking
    (.only "lib" .any false none)
  let provides := ["extra", "app", "extra", "more"].map fun modId => ⟨modId, none⟩
  Request.ofPools [("app", [{ app with provides }]), ("lib", libs),
    ("tool", [Candidate.plain "tool" (.ofNumbers [1])])]

/-- All of them are accounted for. -/
theorem resolve_accounts_of_stockroom :
    ∃ report, (resolveAmid [.quiet] stockroom (ofConfig .standard)).1 = .ok (.solved report) ∧
      report.selected.entries = [("app", "app"), ("tool", "tool")] ∧
      report.provided.entries = [("extra", "app"), ("more", "app")] ∧
      report.rejected.entries = [("lib", ["lib c", "lib a", "lib b"])] ∧
      report.Accounts stockroom := by
  have pools : stockroom.pools.entries = [("app", stockroom.pool "app"), ("lib", libs),
      ("tool", stockroom.pool "tool")] := rfl
  have answered : (solved? (resolveAmid [.quiet] stockroom (ofConfig .standard)).1).map
      (fun report => (report.selected.entries, report.provided.entries, report.rejected.entries)) =
      some ([("app", "app"), ("tool", "tool")], [("extra", "app"), ("more", "app")],
        [("lib", ["lib c", "lib a", "lib b"])]) := by
    unfold resolveAmid resolution addRequest registerCandidates
    simp only [pools, registerPools, ranked_libs]
    decide +kernel
  obtain ⟨report, found, entries⟩ := Option.map_eq_some_iff.mp answered
  obtain ⟨selected, others⟩ := Prod.mk.inj entries
  obtain ⟨provided, rejected⟩ := Prod.mk.inj others
  have solved := solved?_eq_some_iff.mp found
  exact ⟨report, solved, selected, provided, rejected,
    (resolve_accounts [.quiet] stockroom (ofConfig .standard)).1 report solved⟩

end Resolver

end Loadout
