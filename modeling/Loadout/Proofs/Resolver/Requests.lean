/-
**What the rules of a request ask for.**

* `addSetRules_makes`: the rules about a mod id ask that no two seats that are loaded claim it, and
  that a mandatory one is loaded;
* `addLinks_makes`: the links of a candidate ask that they hold where its seat is loaded;
* **`addRequest_gives`**: registering a request that is proper leads to a draft whose rules ask for
  just that of the seats.
-/

import Loadout.Proofs.Resolver.Breakages
import Loadout.Proofs.Resolver.Seats

namespace Loadout

/-- The candidate offers a mod id. -/
def Registered.Claims (registered : Registered) (modId : String) : Prop :=
  ∃ offer ∈ registered.candidate.offers registered.modId, offer.modId = modId

theorem Registered.claims_own (registered : Registered) : registered.Claims registered.modId :=
  ⟨_, List.mem_cons_self, rfl⟩

namespace Resolver

open Engine

variable {bias : Int} {config : Config} {seats : List Seat} {later : ChoiceTable}
  {forest : Forest} {value : ChoiceId → Bool} {modId : String}

/-! ### Choices of one mod id -/

theorem loads_seat (extends' : (tableOf bias seats).Extends later) {registered : Registered}
    (inside : registered ∈ seated 0 seats) :
    later.loads value registered.choice = value registered.choice := by
  obtain ⟨seat, found, _⟩ := mem_seated.mp inside
  exact loads_of_mem_seats extends' found value

/-- A loaded choice of a mod id has a loaded seat that claims it as its root. -/
theorem exists_claim_iff (extends' : (tableOf bias seats).Extends later) {seat : ChoiceId} :
    (∃ id ∈ later.ids, later.modId? id = some modId ∧ later.loads value id = true ∧
      later.root id = seat) ↔
    ∃ registered ∈ seated 0 seats, registered.choice = seat ∧
      value registered.choice = true ∧ registered.Claims modId := by
  have plain := plain_tableOf bias seats
  constructor
  · rintro ⟨id, _, claimed, loaded, rfl⟩
    rw [ChoiceTable.modId?_eq] at claimed
    obtain ⟨offer, offered, same⟩ := Option.map_eq_some_iff.mp claimed
    rw [extends'.offer?] at offered
    obtain ⟨registered, inside, choice, member⟩ := (exists_offer_iff bias).mp ⟨id, offered, rfl⟩
    refine ⟨registered, inside, ?_, ?_, offer, member, same⟩
    · rw [choice, extends'.root plain.grounded]
    · rw [choice, ← extends'.root plain.grounded]
      exact ((extends'.plain plain).loads_iff.mp loaded).2
  · rintro ⟨registered, inside, rfl, holds, offer, member, same⟩
    obtain ⟨id, offered, root⟩ := (exists_offer_iff bias).mpr
      ⟨registered, inside, rfl, member⟩
    have present := ChoiceTable.contains_of_offer? offered
    have within := plain.contains_iff.mp present
    have registered' := (extends'.plain plain).contains_iff.mpr
      (within.trans_le extends'.size_le)
    refine ⟨id, ChoiceTable.mem_ids_iff.mpr registered', ?_, ?_, ?_⟩
    · rw [ChoiceTable.modId?_eq, extends'.offer?, offered]
      exact congrArg some same
    · rw [extends'.loads plain.grounded within, plain.loads_iff]
      exact ⟨within, by rw [root]; exact holds⟩
    · rw [extends'.root plain.grounded, root]

/-- **What the rules about a mod id ask for.** -/
def SetMet (seats : List Seat) (modId : String) : ChoiceDemand := fun value =>
  (∀ first ∈ seated 0 seats, ∀ second ∈ seated 0 seats,
    value first.choice = true → value second.choice = true →
    first.Claims modId → second.Claims modId → first = second) ∧
  ∀ winner ∈ seated 0 seats, winner.candidate.mandatory = true → winner.modId = modId →
    value winner.choice = true

/-- No two candidates of a mod id are mandatory. -/
def Lone (seats : List Seat) : Prop :=
  ∀ first ∈ seated 0 seats, ∀ second ∈ seated 0 seats, first.candidate.mandatory = true →
    second.candidate.mandatory = true → first.modId = second.modId → first = second

theorem says_mandatory (extends' : (tableOf bias seats).Extends later) {winner : Registered}
    (inside : winner ∈ seated 0 seats) :
    (acquaint later (.mandatory winner.choice)).Says later value ↔ value winner.choice = true := by
  rw [acquaint_same fun _ => rfl]
  show later.loads value winner.choice = true ↔ _
  rw [loads_seat extends' inside]

theorem says_optionalSet (extends' : (tableOf bias seats).Extends later) :
    (acquaint later (.optionalSet modId [])).Says later value ↔
      ∀ first ∈ seated 0 seats, ∀ second ∈ seated 0 seats,
        value first.choice = true → value second.choice = true →
        first.Claims modId → second.Claims modId → first = second := by
  rw [acquaint_optionalSet]
  unfold Rule.Says
  simp only [List.mem_filter, beq_iff_eq]
  constructor
  · intro only first inside second inside' holds holds' claims claims'
    obtain ⟨id, member, modId, loaded, root⟩ :=
      (exists_claim_iff extends').mpr ⟨first, inside, rfl, holds, claims⟩
    obtain ⟨id', member', modId', loaded', root'⟩ :=
      (exists_claim_iff extends').mpr ⟨second, inside', rfl, holds', claims'⟩
    refine eq_of_choice_eq inside inside' ?_
    rw [← root, ← root', only id ⟨member, modId⟩ id' ⟨member', modId'⟩ loaded loaded']
  · rintro only id ⟨member, modId⟩ id' ⟨member', modId'⟩ loaded loaded'
    obtain ⟨first, inside, root, holds, claims⟩ :=
      (exists_claim_iff extends').mp ⟨id, member, modId, loaded, rfl⟩
    obtain ⟨second, inside', root', holds', claims'⟩ :=
      (exists_claim_iff extends').mp ⟨id', member', modId', loaded', rfl⟩
    rw [← root, ← root', only first inside second inside' holds holds' claims claims']

theorem says_overriddenSet (extends' : (tableOf bias seats).Extends later) (winner : ChoiceId) :
    (acquaint later (.overriddenSet modId winner [])).Says later value ↔
      ∀ registered ∈ seated 0 seats, value registered.choice = true →
        registered.Claims modId → registered.choice = winner := by
  rw [acquaint_overriddenSet]
  unfold Rule.Says
  simp only [List.mem_filter, decide_eq_true_eq]
  constructor
  · intro none registered inside holds claims
    by_contra other
    obtain ⟨id, member, modId, loaded, root⟩ :=
      (exists_claim_iff extends').mpr ⟨registered, inside, rfl, holds, claims⟩
    rw [none id ⟨member, by rwa [root], modId⟩] at loaded
    cases loaded
  · rintro only id ⟨member, differs, modId⟩
    rw [← Bool.not_eq_true]
    intro loaded
    obtain ⟨registered, inside, root, holds, claims⟩ :=
      (exists_claim_iff extends').mp ⟨id, member, modId, loaded, rfl⟩
    exact differs (root ▸ only registered inside holds claims)

theorem below_setMet (extends' : (tableOf bias seats).Extends later) (modId : String) :
    ChoiceDemand.Below later.entries.size (SetMet seats modId) := by
  intro value other agree ⟨only, all⟩
  have same : ∀ registered ∈ seated 0 seats, value registered.choice = other registered.choice :=
    fun registered inside => agree _ ((mem_seats_lt inside).trans_le extends'.size_le)
  refine ⟨fun first inside second inside' holds holds' => ?_, fun winner inside must own => ?_⟩
  · rw [← same first inside] at holds
    rw [← same second inside'] at holds'
    exact only first inside second inside' holds holds'
  · rw [← same winner inside]
    exact all winner inside must own

/-- The rules about a mod id ask that it is claimed once, and by a mandatory candidate if there is
one. -/
theorem addSetRules_makes (config : Config) (lone : Lone seats)
    (extends' : (tableOf bias seats).Extends later) (modId : String) :
    Makes config (addSetRules (seated 0 seats) modId) later forest (SetMet seats modId) := by
  have plain := extends'.plain (plain_tableOf bias seats)
  unfold addSetRules
  cases found : (seated 0 seats).find? fun entry =>
      entry.candidate.mandatory && entry.modId == modId with
  | none =>
    obtain ⟨id, forest', given, _, builds⟩ :=
      gives_addRule config plain.grounded (.optionalSet modId []) none nofun
    refine ⟨later, forest', given.bind (gives_pure _ _), builds.congr fun value => ?_⟩
    rw [says_optionalSet extends']
    refine ⟨fun only => ⟨only, fun winner inside must own => ?_⟩, And.left⟩
    have absent := List.find?_eq_none.mp found winner inside
    rw [must, own, Bool.true_and, beq_self_eq_true] at absent
    exact absurd rfl absent
  | some winner =>
    have inside := List.mem_of_find?_eq_some found
    have test := List.find?_some found
    rw [Bool.and_eq_true, beq_iff_eq] at test
    obtain ⟨must, own⟩ := test
    obtain ⟨_, forest', given, _, builds⟩ :=
      gives_addRule config plain.grounded (.mandatory winner.choice) none nofun
    obtain ⟨_, forest'', given', _, builds'⟩ := gives_addRule config plain.grounded
      (.overriddenSet modId winner.choice []) none nofun
    refine ⟨later, forest'', given.bind (given'.bind (gives_pure _ _)),
      (builds.trans (builds'.congr fun value => says_overriddenSet extends' winner.choice) ?_).congr
        fun value => ?_⟩
    · intro value other agree only registered inside holds
      rw [← agree _ ((mem_seats_lt inside).trans_le extends'.size_le)] at holds
      exact only registered inside holds
    · rw [says_mandatory extends' inside]
      constructor
      · rintro ⟨holds, only⟩
        refine ⟨fun first inside' second inside'' holds' holds'' claims claims' => ?_,
          fun other inside' must' own' => ?_⟩
        · refine eq_of_choice_eq inside' inside'' ?_
          rw [only first inside' holds' claims, only second inside'' holds'' claims']
        · rw [lone other inside' winner inside must' must (own'.trans own.symm)]
          exact holds
      · rintro ⟨only, all⟩
        have holds := all winner inside must own
        refine ⟨holds, fun registered inside' holds' claims => ?_⟩
        exact congrArg Registered.choice (only registered inside' winner inside holds' holds claims
          (own ▸ winner.claims_own))

/-! ### Links of candidates -/

/-- **What the links of a candidate ask for.** -/
def LinksMet (base : ChoiceTable) (registered : Registered) : ChoiceDemand := fun value =>
  value registered.choice = true →
    (∀ dependency ∈ registered.candidate.depends,
      dependency.holds (base.offers value) = true) ∧
    ∀ breakage ∈ registered.candidate.breaks, breakage.isActive (base.offers value) = false

theorem below_linksMet (extends' : (tableOf bias seats).Extends later) {registered : Registered}
    (inside : registered ∈ seated 0 seats) :
    ChoiceDemand.Below later.entries.size (LinksMet (tableOf bias seats) registered) := by
  intro value other agree meets
  unfold LinksMet at meets ⊢
  rw [← ChoiceTable.offers_congr (agree.mono extends'.size_le),
    ← agree _ ((mem_seats_lt inside).trans_le extends'.size_le)]
  exact meets

/-- The links of a candidate ask that they hold where its seat is loaded. -/
theorem addLinks_makes (config : Config) (extends' : (tableOf bias seats).Extends later)
    {registered : Registered} (inside : registered ∈ seated 0 seats) :
    Makes config (addLinks registered) later forest
      (LinksMet (tableOf bias seats) registered) := by
  have grounded := (plain_tableOf bias seats).grounded
  have within := (mem_seats_lt inside).trans_le extends'.size_le
  have depends : Makes config (registered.candidate.depends.forM
      (addDependency registered.choice none)) later forest _ :=
    dependencies_make config extends' grounded within registered.candidate.depends
  have below : ChoiceDemand.Below later.entries.size fun value =>
      ∀ breakage ∈ registered.candidate.breaks,
        breakage.Heeded (tableOf bias seats) later registered.choice .standalone value :=
    fun value other agree meets breakage member =>
      Breakage.below_heeded extends' registered.choice .standalone breakage value other agree
        (meets breakage member)
  refine (depends.bind (fun last forest' further _ =>
    (breakages_make config (extends'.trans further) grounded (within.trans_le further.size_le)
      registered.candidate.breaks).congr fun value => forall₂_congr fun breakage _ =>
        Breakage.heeded_later further (extends'.grounded grounded) within .standalone breakage)
    below).congr fun value => ?_
  unfold LinksMet Dependency.Met Breakage.Heeded Rule.Clash
  rw [loads_seat extends' inside]
  constructor
  · rintro ⟨holds, quiet⟩ loaded
    refine ⟨fun dependency member => holds dependency member loaded, fun breakage member => ?_⟩
    rw [← Bool.not_eq_true]
    intro active
    exact Bool.false_ne_true ((quiet breakage member active).symm.trans loaded)
  · intro meets
    refine ⟨fun dependency member loaded => (meets loaded).1 dependency member,
      fun breakage member active => ?_⟩
    show value registered.choice = false
    rw [← Bool.not_eq_true]
    intro loaded
    exact Bool.false_ne_true (((meets loaded).2 breakage member).symm.trans active)

/-! ### Requests -/

theorem pairwise_of_countP_le_one {α : Type} {test : α → Bool} {list : List α}
    (few : list.countP test ≤ 1) :
    list.Pairwise fun first second => ¬(test first = true ∧ test second = true) := by
  induction list with
  | nil => exact .nil
  | cons item rest ih =>
    refine .cons (fun other inside ⟨holds, holds'⟩ => ?_) (ih ?_)
    · rw [List.countP_cons_of_pos holds] at few
      have none := List.countP_eq_zero.mp (by omega : rest.countP test = 0) other inside
      exact none holds'
    · rw [List.countP_cons] at few
      omega

theorem pairwise_seats {request : Request} (proper : request.Proper) :
    request.seats.Pairwise fun first second => ¬(first.candidate.mandatory = true ∧
      second.candidate.mandatory = true ∧ first.modId = second.modId) := by
  unfold Request.seats poolSeats
  rw [List.pairwise_flatMap]
  constructor
  · intro pool inside
    have few : (ranked pool.2).countP Candidate.mandatory ≤ 1 := by
      rw [(ranked_perm pool.2).countP_eq]
      exact proper.single pool.2 (List.mem_map_of_mem inside)
    have apart := pairwise_of_countP_le_one few
    rw [← List.zipIdx_map_fst 0 (ranked pool.2), List.pairwise_map] at apart
    unfold seatsFrom
    rw [List.pairwise_map]
    exact apart.imp fun apart ⟨must, must', _⟩ => apart ⟨must, must'⟩
  · have distinct := request.pools.distinct
    rw [List.Nodup, List.pairwise_map] at distinct
    refine distinct.imp fun differs first inside second inside' ⟨_, _, same⟩ => differs ?_
    obtain ⟨_, _, rfl⟩ := List.mem_map.mp inside
    obtain ⟨_, _, rfl⟩ := List.mem_map.mp inside'
    exact same

theorem lone_seats {request : Request} (proper : request.Proper) : Lone request.seats := by
  have apart := List.pairwise_iff_getElem.mp (pairwise_seats proper)
  have ordered : ∀ first ∈ seated 0 request.seats, ∀ second ∈ seated 0 request.seats,
      first.candidate.mandatory = true → second.candidate.mandatory = true →
      first.modId = second.modId → ¬ first.choice < second.choice := by
    intro first inside second inside' must must' same before
    obtain ⟨seat, found, modId, candidate⟩ := mem_seated.mp inside
    obtain ⟨seat', found', modId', candidate'⟩ := mem_seated.mp inside'
    obtain ⟨within, rfl⟩ := List.getElem?_eq_some_iff.mp found
    obtain ⟨within', rfl⟩ := List.getElem?_eq_some_iff.mp found'
    refine apart _ _ within within' before ⟨?_, ?_, ?_⟩
    · rwa [candidate]
    · rwa [candidate']
    · rwa [modId, modId']
  intro first inside second inside' must must' same
  refine eq_of_choice_eq inside inside' ?_
  rcases Nat.lt_trichotomy first.choice second.choice with before | equal | after
  · exact absurd before (ordered first inside second inside' must must' same)
  · exact equal
  · exact absurd after (ordered second inside' first inside must' must same.symm)

/-- **What the rules of a request ask of its seats.** -/
def RequestMet (bias : Int) (request : Request) : ChoiceDemand := fun value =>
  (∀ modId ∈ allModIds request (seated 0 request.seats), SetMet request.seats modId value) ∧
  ∀ registered ∈ seated 0 request.seats,
    LinksMet (tableOf bias request.seats) registered value

/-- **A proper request is registered without an error**, and its rules ask for what it says. -/
theorem addRequest_gives (config : Config) (bias : Int) {request : Request}
    (proper : request.Proper) :
    ∃ later forest, Gives (addRequest bias request) (draft config .empty .empty)
        (seated 0 request.seats) (draft config later forest) ∧
      Forest.Builds (tableOf bias request.seats) later .empty forest (RequestMet bias request) := by
  have registers := registerCandidates_gives config bias proper
  have refl := ChoiceTable.Extends.refl (tableOf bias request.seats)
  have sets : Makes config
      ((allModIds request (seated 0 request.seats)).forM (addSetRules (seated 0 request.seats)))
      (tableOf bias request.seats) .empty fun value =>
        ∀ modId ∈ allModIds request (seated 0 request.seats), SetMet request.seats modId value :=
    makes_forM (fun modId _ later forest' further =>
      addSetRules_makes config (lone_seats proper) further modId)
    fun modId _ => below_setMet refl modId
  have links : ∀ later forest', (tableOf bias request.seats).Extends later →
      (∀ id, Forest.empty.contains id = true → forest'.contains id = true) →
      Makes config ((seated 0 request.seats).forM addLinks) later forest' fun value =>
        ∀ registered ∈ seated 0 request.seats,
          LinksMet (tableOf bias request.seats) registered value :=
    fun later forest' further _ => makes_forM
      (fun registered inside last forest'' more =>
        addLinks_makes config (further.trans more) inside)
      fun registered inside => below_linksMet further inside
  obtain ⟨later, forest, given, builds⟩ := sets.bind links
    fun value other agree meets registered inside =>
      below_linksMet refl inside value other agree (meets registered inside)
  refine ⟨later, forest, ?_, builds⟩
  unfold addRequest
  refine registers.bind ?_
  rw [← bind_assoc]
  exact given.bind (gives_pure _ _)

end Resolver

end Loadout
