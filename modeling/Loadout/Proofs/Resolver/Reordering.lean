/-
**Declarations in another order.**

The alternatives of a dependency and the parts of a breakage may stand in another order, and so may
those of their own parts and exceptions, down to any depth (`Dependency.Reordered`,
`Breakage.Reordered`). A request is reordered when its candidates are the same up to the order of
what they depend on and break (`Request.Reordered`).

* `ListReordered.of_perm`: every permutation is a reordering;
* **`holds_reordered`**, **`isActive_reordered`**: links mean the same in any order;
* `seated_reordered`: the seats of a reordered request are the same up to order;
* **`tableOf_reordered`**: its choices are the same;
* **`requestMet_reordered`**: its rules ask for the same of them.
-/

import Loadout.Proofs.Resolver.Selections

namespace Loadout

/-! ### Dependencies -/

mutual

/-- Two dependencies are the same up to the order of alternatives. -/
inductive Dependency.Reordered : Dependency → Dependency → Prop
  | only (modId : String) (versions : Constraint) (optional : Bool)
    {exception exception' : Option Dependency} :
    Dependency.ExceptionReordered exception exception' →
    Dependency.Reordered (.only modId versions optional exception)
      (.only modId versions optional exception')
  | any {alternatives alternatives' : List Dependency}
    {exception exception' : Option Dependency} :
    Dependency.ListReordered alternatives alternatives' →
    Dependency.ExceptionReordered exception exception' →
    Dependency.Reordered (.any alternatives exception) (.any alternatives' exception')

/-- Two exceptions are the same up to the order of alternatives. -/
inductive Dependency.ExceptionReordered : Option Dependency → Option Dependency → Prop
  | none : Dependency.ExceptionReordered none none
  | some {exception exception' : Dependency} : Dependency.Reordered exception exception' →
    Dependency.ExceptionReordered (some exception) (some exception')

/-- Two lists of dependencies are the same up to their order, and that of alternatives. -/
inductive Dependency.ListReordered : List Dependency → List Dependency → Prop
  | nil : Dependency.ListReordered [] []
  | cons {first first' : Dependency} {rest rest' : List Dependency} :
    Dependency.Reordered first first' → Dependency.ListReordered rest rest' →
    Dependency.ListReordered (first :: rest) (first' :: rest')
  | swap (first second : Dependency) (rest : List Dependency) :
    Dependency.ListReordered (first :: second :: rest) (second :: first :: rest)
  | trans {list list' list'' : List Dependency} : Dependency.ListReordered list list' →
    Dependency.ListReordered list' list'' → Dependency.ListReordered list list''

end

namespace Dependency

mutual

theorem Reordered.refl : ∀ dependency : Dependency, Reordered dependency dependency
  | .only modId versions optional exception =>
    .only modId versions optional (ExceptionReordered.refl exception)
  | .any alternatives exception =>
    .any (ListReordered.refl alternatives) (ExceptionReordered.refl exception)

theorem ExceptionReordered.refl :
    ∀ exception : Option Dependency, ExceptionReordered exception exception
  | none => .none
  | some exception => .some (Reordered.refl exception)

theorem ListReordered.refl :
    ∀ dependencies : List Dependency, ListReordered dependencies dependencies
  | [] => .nil
  | dependency :: rest => .cons (Reordered.refl dependency) (ListReordered.refl rest)

end

/-- **Every permutation is a reordering.** -/
theorem ListReordered.of_perm {list list' : List Dependency} (order : list.Perm list') :
    ListReordered list list' := by
  induction order with
  | nil => exact .nil
  | cons dependency _ ih => exact .cons (.refl dependency) ih
  | swap first second rest => exact .swap second first rest
  | trans _ _ ih ih' => exact .trans ih ih'

variable {offers : List Offer}

mutual

/-- **A dependency holds or not in any order of alternatives.** -/
theorem holds_reordered : ∀ {dependency dependency' : Dependency},
    Reordered dependency dependency' → dependency.holds offers = dependency'.holds offers
  | _, _, .only _ _ _ exception => by
    unfold holds
    rw [exceptionHolds_reordered exception]
  | _, _, .any alternatives exception => by
    unfold holds
    rw [someHolds_reordered alternatives, exceptionHolds_reordered exception]

theorem exceptionHolds_reordered : ∀ {exception exception' : Option Dependency},
    ExceptionReordered exception exception' →
      exceptionHolds offers exception = exceptionHolds offers exception'
  | _, _, .none => rfl
  | _, _, .some exception => by
    unfold exceptionHolds
    exact holds_reordered exception

theorem someHolds_reordered : ∀ {list list' : List Dependency}, ListReordered list list' →
    someHolds offers list = someHolds offers list'
  | _, _, .nil => rfl
  | _, _, .cons first rest => by
    unfold someHolds
    rw [holds_reordered first, someHolds_reordered rest]
  | _, _, .swap first second rest => by
    simp only [someHolds]
    exact Bool.or_left_comm _ _ _
  | _, _, .trans one two => (someHolds_reordered one).trans (someHolds_reordered two)

end

/-- Several dependencies hold or not in any order. -/
theorem forall_holds_reordered : ∀ {list list' : List Dependency}, ListReordered list list' →
    ((∀ dependency ∈ list, dependency.holds offers = true) ↔
      ∀ dependency ∈ list', dependency.holds offers = true)
  | _, _, .nil => Iff.rfl
  | _, _, .cons first rest => by
    rw [List.forall_mem_cons, List.forall_mem_cons, holds_reordered first,
      forall_holds_reordered rest]
  | _, _, .swap first second rest => by
    simp only [List.forall_mem_cons]
    exact and_left_comm
  | _, _, .trans one two => (forall_holds_reordered one).trans (forall_holds_reordered two)

end Dependency

/-! ### Breakages -/

mutual

/-- Two breakages are the same up to the order of parts and of alternatives. -/
inductive Breakage.Reordered : Breakage → Breakage → Prop
  | only (modId : String) (versions : Constraint) (optional : Bool)
    {exception exception' : Option Dependency} :
    Dependency.ExceptionReordered exception exception' →
    Breakage.Reordered (.only modId versions optional exception)
      (.only modId versions optional exception')
  | all {parts parts' : List Breakage} {exception exception' : Option Dependency} :
    Breakage.ListReordered parts parts' → Dependency.ExceptionReordered exception exception' →
    Breakage.Reordered (.all parts exception) (.all parts' exception')

/-- Two lists of breakages are the same up to their order, and that of parts and alternatives. -/
inductive Breakage.ListReordered : List Breakage → List Breakage → Prop
  | nil : Breakage.ListReordered [] []
  | cons {first first' : Breakage} {rest rest' : List Breakage} :
    Breakage.Reordered first first' → Breakage.ListReordered rest rest' →
    Breakage.ListReordered (first :: rest) (first' :: rest')
  | swap (first second : Breakage) (rest : List Breakage) :
    Breakage.ListReordered (first :: second :: rest) (second :: first :: rest)
  | trans {list list' list'' : List Breakage} : Breakage.ListReordered list list' →
    Breakage.ListReordered list' list'' → Breakage.ListReordered list list''

end

namespace Breakage

mutual

theorem Reordered.refl : ∀ breakage : Breakage, Reordered breakage breakage
  | .only modId versions optional exception =>
    .only modId versions optional (.refl exception)
  | .all parts exception => .all (ListReordered.refl parts) (.refl exception)

theorem ListReordered.refl : ∀ breakages : List Breakage, ListReordered breakages breakages
  | [] => .nil
  | breakage :: rest => .cons (Reordered.refl breakage) (ListReordered.refl rest)

end

/-- **Every permutation is a reordering.** -/
theorem ListReordered.of_perm {list list' : List Breakage} (order : list.Perm list') :
    ListReordered list list' := by
  induction order with
  | nil => exact .nil
  | cons breakage _ ih => exact .cons (.refl breakage) ih
  | swap first second rest => exact .swap second first rest
  | trans _ _ ih ih' => exact .trans ih ih'

theorem isEmpty_reordered : ∀ {list list' : List Breakage}, ListReordered list list' →
    list.isEmpty = list'.isEmpty
  | _, _, .nil => rfl
  | _, _, .cons _ _ => rfl
  | _, _, .swap _ _ _ => rfl
  | _, _, .trans one two => (isEmpty_reordered one).trans (isEmpty_reordered two)

variable {offers : List Offer}

mutual

/-- **A breakage is active or not in any order of parts.** -/
theorem isActive_reordered : ∀ {breakage breakage' : Breakage}, Reordered breakage breakage' →
    breakage.isActive offers = breakage'.isActive offers
  | _, _, .only _ _ _ exception => by
    unfold isActive
    rw [Dependency.exceptionHolds_reordered exception]
  | _, _, .all parts exception => by
    unfold isActive
    rw [isEmpty_reordered parts, allActive_reordered parts,
      Dependency.exceptionHolds_reordered exception]

theorem allActive_reordered : ∀ {list list' : List Breakage}, ListReordered list list' →
    allActive offers list = allActive offers list'
  | _, _, .nil => rfl
  | _, _, .cons first rest => by
    unfold allActive
    rw [isActive_reordered first, allActive_reordered rest]
  | _, _, .swap first second rest => by
    simp only [allActive]
    exact Bool.and_left_comm _ _ _
  | _, _, .trans one two => (allActive_reordered one).trans (allActive_reordered two)

end

/-- Several breakages are active or not in any order. -/
theorem forall_inactive_reordered : ∀ {list list' : List Breakage}, ListReordered list list' →
    ((∀ breakage ∈ list, breakage.isActive offers = false) ↔
      ∀ breakage ∈ list', breakage.isActive offers = false)
  | _, _, .nil => Iff.rfl
  | _, _, .cons first rest => by
    rw [List.forall_mem_cons, List.forall_mem_cons, isActive_reordered first,
      forall_inactive_reordered rest]
  | _, _, .swap first second rest => by
    simp only [List.forall_mem_cons]
    exact and_left_comm
  | _, _, .trans one two => (forall_inactive_reordered one).trans (forall_inactive_reordered two)

end Breakage

/-! ### Requests -/

/-- **Two candidates are the same up to the order of what they depend on and break.** -/
structure Candidate.Reordered (candidate candidate' : Candidate) : Prop where
  key : candidate.key = candidate'.key
  version : candidate.version = candidate'.version
  mandatory : candidate.mandatory = candidate'.mandatory
  weight : candidate.weight = candidate'.weight
  provides : candidate.provides = candidate'.provides
  depends : Dependency.ListReordered candidate.depends candidate'.depends
  breaks : Breakage.ListReordered candidate.breaks candidate'.breaks

/-- **Two requests are the same up to the order of what their candidates depend on and break.** -/
def Request.Reordered (request request' : Request) : Prop :=
  List.Forall₂
    (fun pool pool' => pool.1 = pool'.1 ∧ List.Forall₂ Candidate.Reordered pool.2 pool'.2)
    request.pools.entries request'.pools.entries

section Lists

variable {α β γ : Type} {relation : α → β → Prop} {list : List α} {list' : List β}

/-- What is said of the items of a list is said of those that are related to them. -/
theorem forall_mem_forall₂ (related : List.Forall₂ relation list list') {test : α → Prop}
    {test' : β → Prop} (same : ∀ item item', relation item item' → (test item ↔ test' item')) :
    (∀ item ∈ list, test item) ↔ ∀ item ∈ list', test' item := by
  induction related with
  | nil => exact ⟨fun _ => nofun, fun _ => nofun⟩
  | cons here _ ih => rw [List.forall_mem_cons, List.forall_mem_cons, same _ _ here, ih]

/-- Related lists come to the same by changes that agree on related items. -/
theorem map_eq_of_forall₂ (related : List.Forall₂ relation list list') {change : α → γ}
    {change' : β → γ} (same : ∀ item item', relation item item' → change item = change' item') :
    list.map change = list'.map change' := by
  rw [← List.forall₂_eq_eq_eq]
  exact List.rel_map same related

theorem flatMap_eq_of_forall₂ (related : List.Forall₂ relation list list') {change : α → List γ}
    {change' : β → List γ}
    (same : ∀ item item', relation item item' → change item = change' item') :
    list.flatMap change = list'.flatMap change' := by
  rw [List.flatMap_def, List.flatMap_def, map_eq_of_forall₂ related same]

/-- Related lists have related items at the same places. -/
theorem zipIdx_forall₂ (related : List.Forall₂ relation list list') (start : Nat) :
    List.Forall₂ (fun entry entry' => relation entry.1 entry'.1 ∧ entry.2 = entry'.2)
      (list.zipIdx start) (list'.zipIdx start) := by
  induction related generalizing start with
  | nil => exact .nil
  | cons here _ ih => exact .cons ⟨here, rfl⟩ (ih (start + 1))

/-- Related lists are sorted alike by what related items have in common. -/
theorem mergeSort_forall₂ {before : α → α → Bool} {before' : β → β → Bool}
    (related : List.Forall₂ relation list list')
    (same : ∀ first first' second second', relation first first' → relation second second' →
      before first second = before' first' second') :
    List.Forall₂ relation (list.mergeSort before) (list'.mergeSort before') := by
  obtain ⟨length, pairs⟩ := List.forall₂_iff_zip.mp related
  -- both lists are sorted by sorting their pairs
  have left : ((list.zip list').mergeSort fun one two => before one.1 two.1).map Prod.fst =
      list.mergeSort before := by
    rw [List.map_mergeSort (s := before) fun _ _ _ _ => rfl,
      List.map_fst_zip (Nat.le_of_eq length)]
  have right : ((list.zip list').mergeSort fun one two => before one.1 two.1).map Prod.snd =
      list'.mergeSort before' := by
    rw [List.map_mergeSort (s := before') fun one inside two inside' =>
      same _ _ _ _ (pairs inside) (pairs inside'), List.map_snd_zip (Nat.le_of_eq length.symm)]
  rw [← left, ← right, List.forall₂_map_left_iff, List.forall₂_map_right_iff, List.forall₂_same]
  exact fun pair inside => pairs (List.mem_mergeSort.mp inside)

end Lists

namespace Candidate

variable {candidate candidate' : Candidate}

theorem Reordered.refl (candidate : Candidate) : candidate.Reordered candidate :=
  ⟨rfl, rfl, rfl, rfl, rfl, .refl _, .refl _⟩

/-- What is provided does not depend on the order of declarations. -/
theorem Reordered.extras (reordered : candidate.Reordered candidate') (modId : String) :
    candidate.extras modId = candidate'.extras modId := by
  unfold Candidate.extras
  rw [reordered.provides]

theorem Reordered.offers (reordered : candidate.Reordered candidate') (modId : String) :
    candidate.offers modId = candidate'.offers modId := by
  unfold Candidate.offers
  rw [reordered.version, reordered.extras]

theorem Reordered.derivedWeight (reordered : candidate.Reordered candidate') (bias : Int)
    (place : Nat) :
    Resolver.derivedWeight bias place candidate = Resolver.derivedWeight bias place candidate' := by
  unfold Resolver.derivedWeight
  rw [reordered.mandatory, reordered.weight]

theorem Reordered.choiceOf (reordered : candidate.Reordered candidate') (modId : String) :
    Resolver.choiceOf modId candidate = Resolver.choiceOf modId candidate' := by
  unfold Resolver.choiceOf
  rw [reordered.key, reordered.version, reordered.mandatory]

end Candidate

/-- A reordered request is proper as well. -/
theorem Request.Proper.reordered {request request' : Request} (proper : request.Proper)
    (reordered : request.Reordered request') : request'.Proper where
  distinct := by
    have distinct := proper.distinct
    have keys : request.candidates.map (fun entry => entry.2.key) =
        request'.candidates.map fun entry => entry.2.key := by
      unfold Request.candidates
      rw [List.map_flatMap, List.map_flatMap]
      refine flatMap_eq_of_forall₂ reordered fun pool pool' ⟨_, pools⟩ => ?_
      rw [List.map_map, List.map_map]
      exact map_eq_of_forall₂ pools fun candidate candidate' same => same.key
    rwa [keys] at distinct
  single := by
    have single := proper.single
    unfold OrderedMap.values at single ⊢
    rw [List.forall_mem_map] at single ⊢
    refine (forall_mem_forall₂ reordered fun pool pool' ⟨_, pools⟩ => ?_).mp single
    have count : ∀ pool : List Candidate,
        pool.countP Candidate.mandatory = (pool.map Candidate.mandatory).countP id :=
      fun pool => by rw [List.countP_map]; rfl
    rw [count, count, map_eq_of_forall₂ pools fun candidate candidate' same => same.mandatory]

/-! ### Seats -/

/-- Two candidates with their choices are the same up to the order of declarations. -/
structure Registered.Reordered (registered registered' : Registered) : Prop where
  modId : registered.modId = registered'.modId
  candidate : registered.candidate.Reordered registered'.candidate
  choice : registered.choice = registered'.choice

theorem Registered.Reordered.claims_iff {registered registered' : Registered}
    (reordered : registered.Reordered registered') (modId : String) :
    registered.Claims modId ↔ registered'.Claims modId := by
  unfold Registered.Claims
  rw [reordered.candidate.offers, reordered.modId]

namespace Resolver

variable {bias : Int} {request request' : Request} {value : ChoiceId → Bool}

/-- Two seats are the same up to the order of declarations. -/
structure Seat.Reordered (seat seat' : Seat) : Prop where
  modId : seat.modId = seat'.modId
  candidate : seat.candidate.Reordered seat'.candidate
  place : seat.place = seat'.place

/-- Pools are ranked alike. -/
theorem ranked_reordered {pool pool' : List Candidate}
    (reordered : List.Forall₂ Candidate.Reordered pool pool') :
    List.Forall₂ Candidate.Reordered (ranked pool) (ranked pool') := by
  refine mergeSort_forall₂ reordered fun first first' second second' one two => ?_
  unfold ranksBefore
  rw [one.version, one.key, two.version, two.key]

theorem seats_reordered (reordered : request.Reordered request') :
    List.Forall₂ Seat.Reordered request.seats request'.seats := by
  refine List.rel_flatMap reordered fun pool pool' ⟨modId, pools⟩ => ?_
  unfold seatsFrom
  refine List.rel_map (fun entry entry' ⟨candidate, place⟩ => ?_)
    (zipIdx_forall₂ (ranked_reordered pools) 0)
  exact ⟨modId, candidate, place⟩

/-- **The seats of a reordered request are the same, with the same choices.** -/
theorem seated_reordered (reordered : request.Reordered request') :
    List.Forall₂ Registered.Reordered (seated 0 request.seats) (seated 0 request'.seats) := by
  unfold seated
  refine List.rel_map (fun entry entry' ⟨seat, choice⟩ => ?_)
    (zipIdx_forall₂ (seats_reordered reordered) 0)
  exact ⟨seat.modId, seat.candidate, choice⟩

/-- **The choices of a reordered request are the same.** -/
theorem tableOf_reordered (bias : Int) (reordered : request.Reordered request') :
    tableOf bias request.seats = tableOf bias request'.seats := by
  have seats : request.seats.map (Seat.entry bias) = request'.seats.map (Seat.entry bias) := by
    refine map_eq_of_forall₂ (seats_reordered reordered) fun seat seat' same => ?_
    unfold Seat.entry
    rw [same.candidate.choiceOf, same.candidate.derivedWeight, same.modId, same.place]
  have aliases : (seated 0 request.seats).flatMap aliasEntries =
      (seated 0 request'.seats).flatMap aliasEntries := by
    refine flatMap_eq_of_forall₂ (seated_reordered reordered) fun registered registered' same => ?_
    unfold aliasEntries
    rw [same.candidate.extras, same.modId, same.candidate.version, same.choice]
  unfold tableOf
  rw [seats, aliases]

/-! ### What the rules ask for -/

/-- Every mod id may be asked about, since one without rules is not claimed. -/
theorem requestMet_iff_all : RequestMet bias request value ↔
    (∀ modId, SetMet request.seats modId value) ∧
      ∀ registered ∈ seated 0 request.seats,
        LinksMet (tableOf bias request.seats) registered value := by
  refine and_congr_left fun _ => ⟨fun sets modId => ?_, fun sets modId _ => sets modId⟩
  refine ⟨fun first inside second inside' holds holds' claims claims' => ?_,
    fun winner inside must own => ?_⟩
  · exact (sets modId (claimed_mem inside claims)).1 first inside second inside' holds holds' claims
      claims'
  · exact (sets modId (claimed_mem inside (own ▸ winner.claims_own))).2 winner inside must own

/-- What is asked about a mod id may be said of the choices of seats. -/
theorem setMet_iff {seats : List Seat} {modId : String} : SetMet seats modId value ↔
    (∀ first ∈ seated 0 seats, ∀ second ∈ seated 0 seats,
      value first.choice = true → value second.choice = true →
      first.Claims modId → second.Claims modId → first.choice = second.choice) ∧
    ∀ winner ∈ seated 0 seats, winner.candidate.mandatory = true → winner.modId = modId →
      value winner.choice = true := by
  refine and_congr_left fun _ =>
    ⟨fun only first inside second inside' holds holds' claims claims' => ?_,
      fun only first inside second inside' holds holds' claims claims' => ?_⟩
  · rw [only first inside second inside' holds holds' claims claims']
  · exact eq_of_choice_eq inside inside'
      (only first inside second inside' holds holds' claims claims')

theorem setMet_reordered {modId : String} (reordered : request.Reordered request') :
    SetMet request.seats modId value ↔ SetMet request'.seats modId value := by
  have seats := seated_reordered reordered
  rw [setMet_iff, setMet_iff]
  refine and_congr (forall_mem_forall₂ seats fun first first' one =>
    forall_mem_forall₂ seats fun second second' two => ?_)
    (forall_mem_forall₂ seats fun winner winner' same => ?_)
  · rw [one.choice, two.choice, one.claims_iff, two.claims_iff]
  · rw [same.choice, same.modId, same.candidate.mandatory]

theorem linksMet_reordered {base : ChoiceTable} {registered registered' : Registered}
    (reordered : registered.Reordered registered') :
    LinksMet base registered value ↔ LinksMet base registered' value := by
  unfold LinksMet
  rw [reordered.choice, Dependency.forall_holds_reordered reordered.candidate.depends,
    Breakage.forall_inactive_reordered reordered.candidate.breaks]

/-- **The rules of a reordered request ask for the same of its choices.** -/
theorem requestMet_reordered (bias : Int) (reordered : request.Reordered request') :
    RequestMet bias request value ↔ RequestMet bias request' value := by
  rw [requestMet_iff_all, requestMet_iff_all, tableOf_reordered bias reordered]
  refine and_congr (forall_congr' fun modId => setMet_reordered reordered) ?_
  exact forall_mem_forall₂ (seated_reordered reordered) fun _ _ same => linksMet_reordered same

end Resolver

end Loadout
