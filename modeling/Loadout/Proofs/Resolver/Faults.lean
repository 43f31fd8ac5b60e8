/-
**Inspecting a request foretells whether it is refused.**

An inspection goes through the pools as they stand, and a resolver through the ranked candidates of
each, up to the first fault. Both come to the same:

* `mem_keyFaults`, `mem_poolFaults`: what the faults of keys and of pools are;
* `faults_nil_iff`: a request has no faults just when it is proper;
* `registerPools_attempt`: registering the candidates of pools ends in a fault of theirs at most;
* **`faults_foretell`**: a request is refused just when it has faults, for one of them, and nothing
  else but an interruption keeps it from an outcome.
-/

import Loadout.Inspection
import Loadout.Proofs.Resolver.Endings
import Loadout.Proofs.Resolver.Refusals

namespace Loadout

namespace Request

/-! ### Faults of keys -/

/-- **A key is met again** among some keys that follow others. -/
def MetAgain (key : String) (seen keys : List String) : Prop :=
  key ∈ seen ∧ key ∈ keys ∨ 2 ≤ keys.count key

/-- A key is met again among the first keys, or among the others, which follow those too. -/
theorem metAgain_append {key : String} {seen first second : List String} :
    MetAgain key seen (first ++ second) ↔
      MetAgain key seen first ∨ MetAgain key (first ++ seen) second := by
  unfold MetAgain
  simp only [List.count_append, ← List.count_pos_iff]
  omega

/-- Whether a key is met again is about which keys came before, not about their order. -/
theorem metAgain_congr {key : String} {seen seen' keys : List String}
    (same : key ∈ seen ↔ key ∈ seen') : MetAgain key seen keys ↔ MetAgain key seen' keys := by
  unfold MetAgain
  rw [same]

/-- Nor is it about the order of the keys. -/
theorem metAgain_perm {key : String} {seen keys keys' : List String} (order : keys.Perm keys') :
    MetAgain key seen keys ↔ MetAgain key seen keys' := by
  unfold MetAgain
  rw [order.mem_iff, order.count_eq]

theorem not_metAgain_nil {key : String} {seen : List String} : ¬MetAgain key seen [] := by
  simp [MetAgain]

theorem metAgain_singleton {key other : String} {seen : List String} :
    MetAgain key seen [other] ↔ key = other ∧ key ∈ seen := by
  have few : ¬2 ≤ List.count key [other] :=
    Nat.not_le_of_lt (Nat.lt_succ_of_le List.count_le_length)
  simp [MetAgain, few, and_comm]

/-- **The faults of keys** are those that are met again. -/
theorem mem_keyFaults {fault : Fault} {keys seen : List String} :
    fault ∈ keyFaults seen keys ↔ ∃ key, fault = .keyTwice key ∧ MetAgain key seen keys := by
  induction keys generalizing seen with
  | nil => simp [keyFaults, not_metAgain_nil]
  | cons key rest ih =>
    have here_or_later (other : String) : MetAgain other seen (key :: rest) ↔
        other = key ∧ other ∈ seen ∨ MetAgain other (key :: seen) rest := by
      rw [← metAgain_singleton]
      exact @metAgain_append other seen [key] rest
    simp only [here_or_later, keyFaults]
    by_cases met : seen.contains key = true
    · rw [if_pos met, List.mem_cons, ih]
      rw [List.contains_iff_mem] at met
      have same (other : String) : MetAgain other (key :: seen) rest ↔ MetAgain other seen rest :=
        metAgain_congr (by rw [List.mem_cons, or_iff_right_of_imp fun here => here ▸ met])
      simp only [same]
      constructor
      · rintro (rfl | ⟨other, rfl, again⟩)
        · exact ⟨key, rfl, .inl ⟨rfl, met⟩⟩
        · exact ⟨other, rfl, .inr again⟩
      · rintro ⟨other, rfl, ⟨rfl, _⟩ | again⟩
        · exact .inl rfl
        · exact .inr ⟨other, rfl, again⟩
    · rw [if_neg met, ih]
      rw [List.contains_iff_mem] at met
      refine exists_congr fun other => and_congr_right fun _ => ⟨.inr, fun again => ?_⟩
      exact again.resolve_left fun ⟨here, old⟩ => met (here ▸ old)

/-! ### Faults of pools -/

/-- The keys of the mandatory candidates of a pool. -/
def mandatoryKeys (pool : List Candidate) : List String :=
  (pool.filter (·.mandatory)).map (·.key)

/-- The keys of the candidates of pools. -/
def poolKeys (pools : List (String × List Candidate)) : List String :=
  pools.flatMap fun pool => pool.2.map Candidate.key

theorem mem_mandatoryFaults {fault : Fault} {modId : String} {pool : List Candidate} :
    fault ∈ mandatoryFaults modId pool ↔
      fault = .mandatoryTwice modId (mandatoryKeys pool) ∧ 1 < (mandatoryKeys pool).length := by
  show fault ∈ (if 1 < (mandatoryKeys pool).length then _ else _) ↔ _
  split
  · next several => rw [List.mem_singleton, and_iff_left several]; rfl
  · next few => simp [few]

/-- **The faults of pools**: some pool has several mandatory candidates, or some key is met again. -/
theorem mem_poolFaults {fault : Fault} {pools : List (String × List Candidate)}
    {seen : List String} :
    fault ∈ poolFaults seen pools ↔
      (∃ pool ∈ pools, fault = .mandatoryTwice pool.1 (mandatoryKeys pool.2) ∧
        1 < (mandatoryKeys pool.2).length) ∨
      ∃ key, fault = .keyTwice key ∧ MetAgain key seen (poolKeys pools) := by
  induction pools generalizing seen with
  | nil => simp [poolFaults, poolKeys, not_metAgain_nil]
  | cons pool rest ih =>
    obtain ⟨modId, pool⟩ := pool
    have keys : poolKeys ((modId, pool) :: rest) = pool.map Candidate.key ++ poolKeys rest :=
      List.flatMap_cons
    unfold poolFaults
    rw [List.mem_append, List.mem_append, mem_mandatoryFaults, mem_keyFaults, ih, keys]
    simp only [metAgain_append, List.exists_mem_cons_iff, and_or_left, exists_or]
    exact or_or_or_comm

/-- **A request has no faults just when it is proper.** -/
theorem faults_nil_iff {request : Request} :
    (Inspection.ofRequest request).faults = [] ↔ request.Proper := by
  have keys : request.candidates.map (fun entry => entry.2.key) =
      poolKeys request.pools.entries := by
    unfold Request.candidates poolKeys
    rw [List.map_flatMap]
    exact List.flatMap_congr fun pool _ => by rw [List.map_map]; rfl
  have count (pool : List Candidate) :
      (mandatoryKeys pool).length = pool.countP Candidate.mandatory := by
    unfold mandatoryKeys
    rw [List.length_map, List.countP_eq_length_filter]
  rw [List.eq_nil_iff_forall_not_mem]
  show (∀ fault, fault ∉ poolFaults [] request.pools.entries) ↔ _
  simp only [mem_poolFaults, not_or, not_exists, not_and]
  constructor
  · intro none
    refine ⟨?_, fun pool inside => ?_⟩
    · rw [keys, List.nodup_iff_count_le_one]
      intro key
      by_contra twice
      exact (none (.keyTwice key)).2 key rfl (.inr (Nat.lt_of_not_le twice))
    · obtain ⟨entry, among, rfl⟩ := List.mem_map.mp inside
      rw [← count]
      exact Nat.le_of_not_lt ((none _).1 entry among rfl)
  · rintro ⟨distinct, single⟩ fault
    rw [keys, List.nodup_iff_count_le_one] at distinct
    refine ⟨fun pool inside _ several => ?_, fun key _ again => ?_⟩
    · rw [count] at several
      exact Nat.not_le_of_lt several (single pool.2 (List.mem_map_of_mem inside))
    · obtain ⟨old, _⟩ | twice := again
      · exact List.not_mem_nil old
      · exact Nat.not_le_of_lt twice (distinct key)

end Request

/-- **An error names a fault that was found**: a key that two candidates have, or two mandatory
candidates of a mod id. -/
def DefinitionError.NamesOne (faults : List Fault) : DefinitionError → Prop
  | .duplicateCandidate key => .keyTwice key ∈ faults
  | .duplicateMandatory modId first second =>
    ∃ keys, .mandatoryTwice modId keys ∈ faults ∧ first ∈ keys ∧ second ∈ keys
  | _ => False

/-- To find more faults keeps what was found. -/
theorem DefinitionError.NamesOne.mono {faults faults' : List Fault} {error : DefinitionError}
    (names : error.NamesOne faults) (more : ∀ fault ∈ faults, fault ∈ faults') :
    error.NamesOne faults' := by
  cases error with
  | duplicateCandidate key => exact more _ names
  | duplicateMandatory modId first second =>
    obtain ⟨keys, found, here, there⟩ := names
    exact ⟨keys, more _ found, here, there⟩
  | _ => exact names

namespace Engine

variable {α β : Type} {engine after : Engine} {fault : DefinitionError → Prop}

/-! ### Actions that may be refused -/

/-- **An action succeeds unless the request is at fault**, on an engine whose choices may be
changed; they still may afterwards. -/
def Attempts (action : Action α) (engine : Engine) (fault : DefinitionError → Prop) : Prop :=
  (∃ result after, Gives action engine result after ∧ after.editFault? .addChoice = none) ∨
    ∃ error after, action engine = (.error (.definition error), after) ∧ fault error

theorem attempts_pure (result : α) (free : engine.editFault? .addChoice = none) :
    Attempts (pure result) engine fault :=
  .inl ⟨result, engine, gives_pure result engine, free⟩

theorem attempts_throw {error : DefinitionError} (wrong : fault error) :
    Attempts (throw (.definition error) : Action α) engine fault :=
  .inr ⟨error, engine, rfl, wrong⟩

theorem Attempts.bind {action : Action α} {next : α → Action β}
    (one : Attempts action engine fault)
    (two : ∀ result after, Gives action engine result after →
      after.editFault? .addChoice = none → Attempts (next result) after fault) :
    Attempts (action >>= next) engine fault := by
  obtain ⟨result, middle, given, free⟩ | ⟨error, after, failed, wrong⟩ := one
  · obtain ⟨final, after, given', free'⟩ | ⟨error, after, failed, wrong⟩ :=
      two result middle given free
    · exact .inl ⟨final, after, given.bind given', free'⟩
    · exact .inr ⟨error, after, (bind_of_gives given next).trans failed, wrong⟩
  · exact .inr ⟨error, after, bind_of_error failed next, wrong⟩

theorem attempts_forM {items : List α} {action : α → Action Unit}
    (each : ∀ item (engine : Engine), engine.editFault? .addChoice = none →
      Attempts (action item) engine fault) (free : engine.editFault? .addChoice = none) :
    Attempts (items.forM action) engine fault := by
  induction items generalizing engine with
  | nil => exact attempts_pure () free
  | cons item rest ih => exact (each item engine free).bind fun _ _ _ free' => ih free'

theorem Attempts.mono {action : Action α} {fault' : DefinitionError → Prop}
    (attempts : Attempts action engine fault) (more : ∀ error, fault error → fault' error) :
    Attempts action engine fault' :=
  attempts.imp_right fun ⟨error, after, failed, wrong⟩ => ⟨error, after, failed, more error wrong⟩

end Engine

namespace Resolver

open Engine

variable {engine : Engine}

/-- A choice is registered where choices may be changed. -/
theorem attempts_addChoice (choice : Choice) (weight : Int)
    (free : engine.editFault? .addChoice = none) {fault : DefinitionError → Prop} :
    Attempts (addChoice choice weight) engine fault := by
  have given : Gives (addChoice choice weight) engine (engine.choices.add choice weight).1
      ({ engine with
        choices := (engine.choices.add choice weight).2
        forest := engine.forest.react (Rule.choiceAdded (engine.choices.add choice weight).2
          (engine.choices.add choice weight).1) } : Engine).markChanged := by
    unfold Gives addChoice Engine.addChoice
    rw [free]
  exact .inl ⟨_, _, given, free⟩

/-- The fault of candidates for which their pool is refused, where the keys `seen` and perhaps one
mandatory candidate of the pool came before them. -/
def PoolFault (modId : String) (mandatory : Option String) (seen : List String)
    (candidates : List Candidate) : DefinitionError → Prop
  | .duplicateCandidate key => Request.MetAgain key seen (candidates.map Candidate.key)
  | .duplicateMandatory other first second => other = modId ∧
      ∃ before after, mandatory.toList ++ Request.mandatoryKeys candidates =
        before ++ first :: after ∧ second ∈ after
  | _ => False

/-- **Registering the candidates of a ranked pool ends in a fault of theirs at most.** -/
theorem registerPool_attempt (bias : Int) (modId : String) (candidates : List Candidate)
    (place : Nat) (mandatory : Option String) (keys : List String)
    (free : engine.editFault? .addChoice = none) :
    Attempts (registerPool bias modId place mandatory keys candidates) engine
      (PoolFault modId mandatory keys candidates) := by
  induction candidates generalizing place mandatory keys engine with
  | nil => exact attempts_pure _ free
  | cons candidate rest ih =>
    have again (other : String) : Request.MetAgain other (candidate.key :: keys)
        (rest.map Candidate.key) → Request.MetAgain other keys
          ((candidate :: rest).map Candidate.key) := fun later =>
      (@Request.metAgain_append other keys [candidate.key] _).mpr (.inr later)
    have later : ∀ mandatory', mandatory'.toList ++ Request.mandatoryKeys rest =
        mandatory.toList ++ Request.mandatoryKeys (candidate :: rest) →
        Attempts (do
          let choice ← addChoice (choiceOf modId candidate) (derivedWeight bias place candidate)
          let later ← registerPool bias modId (place + 1) mandatory' (candidate.key :: keys) rest
          return (⟨modId, candidate, choice⟩ :: later.1, later.2)) engine
        (PoolFault modId mandatory keys (candidate :: rest)) := by
      intro mandatory' same
      refine (attempts_addChoice _ _ free).bind fun choice middle _ free' => ?_
      refine Attempts.bind ?_ fun later last _ free'' => attempts_pure _ free''
      refine (ih (place + 1) mandatory' (candidate.key :: keys) free').mono fun error wrong => ?_
      cases error with
      | duplicateCandidate key => exact again key wrong
      | duplicateMandatory other first second =>
        unfold PoolFault at wrong ⊢
        rwa [← same]
      | _ => exact wrong
    unfold registerPool
    by_cases met : keys.contains candidate.key = true
    · rw [if_pos met]
      refine attempts_throw ?_
      exact .inl ⟨List.contains_iff_mem.mp met, List.mem_cons_self⟩
    · rw [if_neg met]
      dsimp only
      by_cases must : candidate.mandatory = true
      · have kept : Request.mandatoryKeys (candidate :: rest) =
            candidate.key :: Request.mandatoryKeys rest := by
          unfold Request.mandatoryKeys
          rw [List.filter_cons_of_pos must, List.map_cons]
        rw [if_pos must]
        cases mandatory with
        | some first =>
          have wrong : PoolFault modId (some first) keys (candidate :: rest)
              (.duplicateMandatory modId first candidate.key) :=
            ⟨rfl, [], Request.mandatoryKeys (candidate :: rest), rfl, by simp [kept]⟩
          exact attempts_throw wrong
        | none => exact later (some candidate.key) (by rw [kept]; rfl)
      · have kept : Request.mandatoryKeys (candidate :: rest) = Request.mandatoryKeys rest := by
          unfold Request.mandatoryKeys
          rw [List.filter_cons_of_neg must]
        rw [if_neg must]
        exact later mandatory (by rw [kept])

/-- A fault of the ranked candidates of a pool is one that an inspection of the pool finds. -/
theorem namesOne_of_poolFault {modId : String} {pool : List Candidate} {keys seen : List String}
    (same : ∀ key, key ∈ keys ↔ key ∈ seen) {error : DefinitionError}
    (wrong : PoolFault modId none keys (ranked pool) error) :
    error.NamesOne (Request.mandatoryFaults modId pool ++
      Request.keyFaults seen (pool.map Candidate.key)) := by
  have order := ranked_perm pool
  cases error with
  | duplicateCandidate key =>
    have again := (Request.metAgain_perm (order.map Candidate.key)).mp wrong
    exact List.mem_append_right _ (Request.mem_keyFaults.mpr
      ⟨key, rfl, (Request.metAgain_congr (same key)).mp again⟩)
  | duplicateMandatory other first second =>
    obtain ⟨rfl, before, after, split, inside⟩ := wrong
    rw [Option.toList_none, List.nil_append] at split
    have perm : (Request.mandatoryKeys (ranked pool)).Perm (Request.mandatoryKeys pool) :=
      (order.filter _).map _
    rw [split] at perm
    refine ⟨_, List.mem_append_left _ (Request.mem_mandatoryFaults.mpr ⟨rfl, ?_⟩), ?_, ?_⟩
    · have several := List.length_pos_of_mem inside
      rw [← perm.length_eq, List.length_append, List.length_cons]
      omega
    · exact perm.mem_iff.mp (List.mem_append_right _ List.mem_cons_self)
    · exact perm.mem_iff.mp (List.mem_append_right _ (List.mem_cons_of_mem _ inside))
  | _ => exact wrong.elim

/-- **Registering the candidates of pools ends in a fault of theirs at most.** -/
theorem registerPools_attempt (bias : Int) (pools : List (String × List Candidate))
    (keys seen : List String) (same : ∀ key, key ∈ keys ↔ key ∈ seen)
    (free : engine.editFault? .addChoice = none) :
    Attempts (registerPools bias keys pools) engine
      (DefinitionError.NamesOne (Request.poolFaults seen pools)) := by
  induction pools generalizing keys seen engine with
  | nil => exact attempts_pure _ free
  | cons pool rest ih =>
    obtain ⟨modId, pool⟩ := pool
    unfold registerPools Request.poolFaults
    refine Attempts.bind ?_ fun first middle given free' => ?_
    · refine (registerPool_attempt bias modId (ranked pool) 0 none keys free).mono
        fun error wrong => ?_
      exact (namesOne_of_poolFault same wrong).mono fun fault => List.mem_append_left _
    · obtain ⟨registered, keys'⟩ := first
      obtain ⟨_, _, _, rfl⟩ := fresh_of_registerPool given
      refine Attempts.bind ?_ fun others last _ free'' => attempts_pure _ free''
      refine (ih _ (pool.map Candidate.key ++ seen) (fun key => ?_) free').mono
        fun error wrong => wrong.mono fun fault => List.mem_append_right _
      rw [List.mem_append, List.mem_append, List.mem_reverse, same,
        ((ranked_perm pool).map Candidate.key).mem_iff]

/-- Registering the candidates of a request and what they provide ends in a fault of theirs at
most. -/
theorem registerCandidates_attempt (bias : Int) (request : Request)
    (free : engine.editFault? .addChoice = none) :
    Attempts (registerCandidates bias request) engine
      (DefinitionError.NamesOne (Inspection.ofRequest request).faults) := by
  refine (registerPools_attempt bias request.pools.entries [] [] (fun _ => Iff.rfl) free).bind
    fun registered middle _ free' => ?_
  refine Attempts.bind ?_ fun _ last _ free'' => attempts_pure registered free''
  refine attempts_forM (fun entry _ free => attempts_forM (fun provided _ free => ?_) free) free'
  exact (attempts_addChoice _ 0 free).bind fun _ _ _ free' => attempts_pure () free'

/-- **A request that is not proper is refused for one of its faults.** -/
theorem resolution_refused {config : Config} {request : Request} (improper : ¬request.Proper)
    (free : engine.editFault? .addChoice = none) :
    ∃ error, (resolution config request engine).1 = .error (.definition error) ∧
      error.NamesOne (Inspection.ofRequest request).faults := by
  obtain ⟨registered, after, given, _⟩ | ⟨error, after, failed, names⟩ :=
    registerCandidates_attempt config.inclusionBias request free
  · exact absurd (proper_of_registerCandidates given) improper
  · exact ⟨error, congrArg Prod.fst (bind_of_error (bind_of_error failed _) _), names⟩

/-! ### Inspecting and resolving -/

/-- Resolves a request while things happen outside, of which each poll of a search meets one. -/
def resolveAmid (events : List OutsideEvent) (request : Request) (resolver : Resolver) :
    Except SolverError Outcome × Resolver :=
  let (result, engine) := resolution resolver.config request
    ((Engine.create resolver.config resolver.signal).amid events)
  (result, { resolver with signal := engine.signal })

/-- Where nothing happens, requests are resolved as they are. -/
theorem resolveAmid_nil : resolveAmid [] = resolve := rfl

/-- **An inspection foretells whether a request is refused.** Whatever the settings, the time limit
among them, and whatever happens while it searches, a resolver that is not cancelled at the start:

* refuses a request just when an inspection finds faults in it;
* refuses it for one of these faults, and ends in no other error but an interruption. -/
theorem faults_foretell (request : Request) (events : List OutsideEvent) {resolver : Resolver}
    (uncancelled : resolver.signal = .clear) :
    ((Inspection.ofRequest request).faults = [] ↔
      ∀ error, (resolveAmid events request resolver).1 ≠ .error (.definition error)) ∧
    ∀ error, (resolveAmid events request resolver).1 = .error error →
      (∃ fault, error = .definition fault ∧
        fault.NamesOne (Inspection.ofRequest request).faults) ∨
      error = .cancelled ∨ error = .timeout := by
  obtain ⟨config, signal⟩ := resolver
  cases uncancelled
  show (_ ↔ ∀ error, (resolution config request ((create config .clear).amid events)).1 ≠ _) ∧
    ∀ error, (resolution config request ((create config .clear).amid events)).1 = _ → _
  rw [Request.faults_nil_iff]
  by_cases proper : request.Proper
  · obtain ⟨outcome, done⟩ | stopped := resolution_amid config proper events
    · rw [done]
      exact ⟨iff_of_true proper nofun, nofun⟩
    · obtain stopped | stopped := stopped <;> rw [stopped]
      · exact ⟨iff_of_true proper nofun, fun error same => .inr (.inl (Except.error.inj same).symm)⟩
      · exact ⟨iff_of_true proper nofun, fun error same => .inr (.inr (Except.error.inj same).symm)⟩
  · have free : ((create config .clear).amid events).editFault? .addChoice = none := rfl
    obtain ⟨error, failed, names⟩ := @resolution_refused _ config request proper free
    rw [failed]
    refine ⟨iff_of_false proper fun none => none error rfl, fun other same => ?_⟩
    cases same
    exact .inl ⟨error, rfl, names⟩

/-- A request of two mods, one of which has a key twice and the other two mandatory candidates. -/
def muddled : Request :=
  Request.ofPools [("app", [Candidate.plain "app" default, Candidate.plain "app" default]),
    ("lib", [(Candidate.plain "lib 1" default).asMandatory,
      (Candidate.plain "lib 2" default).asMandatory])]

/-- It is refused for a key that occurs twice. -/
theorem faults_foretell_of_muddled :
    (ofConfig .standard).signal = .clear ∧
    (Inspection.ofRequest muddled).faults =
      [.keyTwice "app", .mandatoryTwice "lib" ["lib 1", "lib 2"]] ∧
    ¬∀ error, (resolveAmid [.timeUp] muddled (ofConfig .standard)).1 ≠
      .error (.definition error) := by
  have faults : (Inspection.ofRequest muddled).faults =
      [.keyTwice "app", .mandatoryTwice "lib" ["lib 1", "lib 2"]] := by decide +kernel
  refine ⟨rfl, faults, fun accepted => ?_⟩
  have none := (faults_foretell muddled [.timeUp] rfl).1.mpr accepted
  rw [faults] at none
  cases none

end Resolver

end Loadout
