/-
**A search that is not interrupted comes to an answer.**

A condition is *calm* when it never stops a search (`Interruption.Calm`). Under a calm condition no
round gives up (`round_calm`), and every round makes the profile of the trail greater, of which
there are fewer than the rounds that a search may take. So the search ends with a model or a core:

* `rounds_answer`: as many rounds as there are greater profiles are enough;
* `solve_answer`: a faithful solver answers every search;
* **`solve_terminates`**: the rounds of a search, counted by nothing but the search itself
  (`Solver.Plays`), come to a model or a core after finitely many.
-/

import Loadout.Proofs.Search.Histories
import Loadout.Proofs.Search.Profiles

namespace Loadout

/-! ### Calm conditions -/

/-- **Conditions that never stop a search**, whatever happens in it. -/
structure Interruption.Calm {condition : Type} [Interruption condition]
    (quiet : condition → Prop) : Prop where
  poll : ∀ stopping, quiet stopping →
    (Interruption.poll stopping).1 = false ∧ quiet (Interruption.poll stopping).2
  decision : ∀ stopping, quiet stopping → quiet (Interruption.afterDecision stopping)

/-- What polls and free decisions can make of a condition. -/
inductive Interruption.Becomes {condition : Type} [Interruption condition] (first : condition) :
    condition → Prop
  | refl : Becomes first first
  | poll {later : condition} : Becomes first later → Becomes first (Interruption.poll later).2
  | decision {later : condition} :
    Becomes first later → Becomes first (Interruption.afterDecision later)

/-- **A condition that never stops a search**, however often it is polled and whatever is
decided. -/
def Interruption.NeverStops {condition : Type} [Interruption condition] (stopping : condition) :
    Prop :=
  ∀ later, Becomes stopping later → (Interruption.poll later).1 = false

/-- What becomes of a condition that never stops a search never does so either. -/
theorem Interruption.calm_becomes {condition : Type} [Interruption condition]
    {stopping : condition} (never : NeverStops stopping) : Calm (Becomes stopping) where
  poll later becomes := ⟨never later becomes, becomes.poll⟩
  decision _ becomes := becomes.decision

/-- **What stays true of a condition as long as it lets a search go on.** -/
structure Interruption.Lasting {condition : Type} [Interruption condition]
    (safe : condition → Prop) : Prop where
  poll : ∀ stopping, safe stopping → (Interruption.poll stopping).1 = false →
    safe (Interruption.poll stopping).2
  decision : ∀ stopping, safe stopping → safe (Interruption.afterDecision stopping)

namespace Interruption

variable {condition : Type} [Interruption condition] {first second third : condition}

theorem Becomes.trans (one : Becomes first second) (two : Becomes second third) :
    Becomes first third := by
  induction two with
  | refl => exact one
  | poll _ ih => exact ih.poll
  | decision _ ih => exact ih.decision

/-- Never to stop a search is to stay so. -/
theorem calm_neverStops : Calm fun stopping : condition => NeverStops stopping where
  poll _ never := ⟨never _ .refl, fun later becomes =>
    never later (Becomes.trans (Becomes.refl.poll) becomes)⟩
  decision _ never := fun later becomes =>
    never later (Becomes.trans (Becomes.refl.decision) becomes)

/-- What is calm never stops a search. -/
theorem Calm.neverStops {quiet : condition → Prop} (calm : Calm quiet) (calmly : quiet first) :
    NeverStops first := by
  have kept : ∀ later, Becomes first later → quiet later := by
    intro later becomes
    induction becomes with
    | refl => exact calmly
    | poll _ ih => exact (calm.poll _ ih).2
    | decision _ ih => exact calm.decision _ ih
  exact fun later becomes => (calm.poll later (kept later becomes)).1

/-- What is calm stays so as long as a search goes on. -/
theorem Calm.lasting {quiet : condition → Prop} (calm : Calm quiet) : Lasting quiet where
  poll stopping calmly _ := (calm.poll stopping calmly).2
  decision := calm.decision

end Interruption

/-- A watchdog that lets a search go on has met no cancellation. -/
theorem lasting_free :
    Interruption.Lasting fun dog : Watchdog => dog.signal.isPoisoned = false where
  poll dog _ goes := by
    have clear : dog.advance.signal.isCancelled = false := (Bool.or_eq_false_iff.mp goes).1
    show dog.advance.signal.isPoisoned = false
    cases signal : dog.advance.signal with
    | poisoned =>
      rw [signal] at clear
      cases clear
    | _ => rfl
  decision _ free := free

/-- The watchdog over a search that nothing interrupts. -/
def Watchdog.idle : Watchdog :=
  ⟨.clear, none, []⟩

theorem calm_idle : Interruption.Calm fun dog : Watchdog => dog = .idle where
  poll dog quiet := by
    rw [quiet]
    exact ⟨rfl, rfl⟩
  decision dog quiet := quiet

namespace Solver

variable {condition : Type} [Interruption condition] {quiet : condition → Prop}
  {assumptions : Array Literal} {demands : List Demand} {phases : Assignment} {solver : Solver}

/-- A round under a calm condition does not give up. -/
theorem round_calm (calm : Interruption.Calm quiet) (assumptions : Array Literal)
    (stopping : condition) (calmly : quiet stopping) (solver : Solver) :
    (solver.round assumptions stopping).1 ≠ .done .unknown ∧
      quiet (solver.round assumptions stopping).2.1 := by
  obtain ⟨goes, kept⟩ := calm.poll stopping calmly
  unfold round
  obtain ⟨conflict, middle⟩ := solver.propagate
  cases conflict with
  | some conflict =>
    refine ⟨?_, calmly⟩
    dsimp only
    unfold afterConflict
    dsimp only
    split <;> exact nofun
  | none =>
    dsimp only
    generalize Interruption.poll stopping = polled at goes kept
    obtain ⟨stop, stopping'⟩ := polled
    dsimp only at goes kept
    rw [goes]
    dsimp only
    split
    · refine ⟨?_, kept⟩
      dsimp only
      unfold assume
      split <;> exact nofun
    · unfold branch
      split
      · exact ⟨nofun, calm.decision _ kept⟩
      · exact ⟨nofun, kept⟩

/-- **Rounds go on until there is an answer**, as long as there may be as many as there are greater
profiles. -/
theorem rounds_answer (calm : Interruption.Calm quiet) (limit : Nat) {bound : Nat}
    (stopping : condition) (calmly : quiet stopping) (solver : Solver)
    (working : solver.Working) (ordered : solver.trail.Ordered assumptions solver.preferred)
    (consistent : solver.inconsistent = false)
    (used : ∀ literal ∈ assumptions, solver.Uses literal)
    (spaced : solver.trail.Spaced assumptions.size)
    (room : 2 * solver.trail.room + assumptions.size = bound)
    (enough : 2 ^ (bound + 1) ≤ limit + rank bound solver.trail.profile) :
    (rounds assumptions limit stopping solver).1 ≠ .unknown ∧
      quiet (rounds assumptions limit stopping solver).2.1 := by
  induction limit generalizing stopping solver with
  | zero =>
    have below := rank_lt bound solver.trail.profile
    omega
  | succ limit ih =>
    obtain ⟨stable, outcome⟩ := round_spec stopping working ordered consistent used
    obtain ⟨goes, kept⟩ := round_calm calm assumptions stopping calmly solver
    obtain ⟨advance, attached, exhausted⟩ := propagate_spec working.core working.attached
    have coherent := working.core.grounded.coherent
    have coherent' : solver.propagate.2.trail.Coherent := by
      generalize solver.propagate = result at exhausted
      obtain ⟨conflict, middle⟩ := result
      cases conflict with
      | none => exact exhausted.1.grounded.coherent
      | some conflict =>
        obtain ⟨done, _, _, core, _⟩ := exhausted
        exact core.grounded.coherent
    have spaced' := spaced.grow advance.levelStarts advance.length
    have grown := coherent.profile_grow advance.levelStarts advance.length
    unfold rounds
    generalize solver.round assumptions stopping = result at stable outcome goes kept
    obtain ⟨verdict, stopping', next⟩ := result
    dsimp only at stable outcome goes kept
    cases verdict with
    | done answer => exact ⟨fun unknown => goes (congrArg Round.done unknown), kept⟩
    | next =>
      obtain ⟨working', ordered', consistent', moves⟩ := outcome
      have spaced'' := Trail.Moves.spaced coherent' spaced' moves
      have room' : 2 * next.trail.room + assumptions.size = bound := by
        rw [stable.room]
        exact room
      have within := working'.core.grounded.coherent.length_profile_le spaced''
      rw [room'] at within
      have greater := Trail.Moves.rank_lt coherent' moves within
      have notLess :
          rank bound solver.trail.profile ≤ rank bound solver.propagate.2.trail.profile := by
        rw [grown]
        exact rank_le_append _ _ _
      exact ih stopping' kept next working' ordered' consistent'
        (fun literal inside => stable.uses.mpr (used literal inside)) spaced'' room' (by omega)

/-- **A faithful solver answers every search that is not interrupted.** -/
theorem solve_answer (calm : Interruption.Calm quiet) {solver : Solver}
    (faithful : solver.Faithful demands phases) (assumptions : List Literal)
    (proper : ∀ literal ∈ assumptions, literal.atom ≠ 0) (stopping : condition)
    (calmly : quiet stopping) :
    (solver.solve assumptions stopping).1 ≠ .unknown ∧
      quiet (solver.solve assumptions stopping).2.1 := by
  cases inconsistent : solver.inconsistent with
  | true =>
    rw [solve_of_inconsistent inconsistent]
    exact ⟨nofun, calmly⟩
  | false =>
    rw [solve_of_consistent inconsistent]
    have ready := (faithful.backtrack.ready inconsistent).reserveAll assumptions
    have uses := uses_reserveAll assumptions proper (solver.backtrack 0)
    generalize reserveAll assumptions (solver.backtrack 0) = wider at ready uses
    refine rounds_answer calm _ stopping calmly wider ready.working
      (ready.ordered assumptions.toArray) ready.consistent
      (fun literal inside => uses literal (List.mem_toArray.mp inside))
      (Trail.spaced_of_closed _ ready.closed) rfl ?_
    have more : 2 ^ (2 * wider.trail.room + assumptions.toArray.size + 1) ≤
        2 ^ (2 * wider.trail.room + assumptions.toArray.size + 2) :=
      Nat.pow_le_pow_right (by omega) (by omega)
    exact Nat.le_trans more (Nat.le_add_right _ _)

/-! ### What a search leaves of its condition -/

section Lasting

variable {safe : condition → Prop}

theorem round_lasting (lasting : Interruption.Lasting safe) (assumptions : Array Literal)
    {stopping : condition} (safely : safe stopping) (solver : Solver)
    (answered : (solver.round assumptions stopping).1 ≠ .done .unknown) :
    safe (solver.round assumptions stopping).2.1 := by
  have goes := lasting.poll stopping safely
  unfold round at answered ⊢
  generalize solver.propagate = drawn at answered ⊢
  obtain ⟨conflict, middle⟩ := drawn
  cases conflict with
  | some conflict => exact safely
  | none =>
    dsimp only at answered ⊢
    generalize Interruption.poll stopping = polled at goes answered
    obtain ⟨stop, stopping'⟩ := polled
    cases stop with
    | true => exact absurd rfl answered
    | false =>
      have safely' : safe stopping' := goes rfl
      dsimp only
      split
      · exact safely'
      · unfold branch
        split
        · exact lasting.decision _ safely'
        · exact safely'

theorem rounds_lasting (lasting : Interruption.Lasting safe) (assumptions : Array Literal)
    (limit : Nat) {stopping : condition} (safely : safe stopping) (solver : Solver)
    (answered : (rounds assumptions limit stopping solver).1 ≠ .unknown) :
    safe (rounds assumptions limit stopping solver).2.1 := by
  induction limit generalizing stopping solver with
  | zero => exact absurd rfl answered
  | succ limit ih =>
    have kept := round_lasting lasting assumptions safely solver
    unfold rounds at answered ⊢
    generalize solver.round assumptions stopping = played at kept answered
    obtain ⟨verdict, stopping', next⟩ := played
    cases verdict with
    | done answer => exact kept fun unknown => answered (Round.done.inj unknown)
    | next => exact ih (kept fun impossible => by cases impossible) next answered

/-- **A search that has an answer leaves its condition as it was let go on.** -/
theorem solve_lasting (lasting : Interruption.Lasting safe) (assumptions : List Literal)
    {stopping : condition} (safely : safe stopping) (solver : Solver)
    (answered : (solver.solve assumptions stopping).1 ≠ .unknown) :
    safe (solver.solve assumptions stopping).2.1 := by
  cases inconsistent : solver.inconsistent with
  | true =>
    rw [solve_of_inconsistent inconsistent]
    exact safely
  | false =>
    rw [solve_of_consistent inconsistent] at answered ⊢
    exact rounds_lasting lasting _ _ safely _ answered

end Lasting

/-! ### Searches as loops -/

/-- **A loop of rounds comes to an outcome** in as many rounds as are counted: each of them goes on
but the last one, which gives the answer. No limit is set to their number. -/
inductive Plays (assumptions : Array Literal) :
    Nat → condition → Solver → Answer × condition × Solver → Prop
  | last {stopping stopping' : condition} {solver solver' : Solver} {answer : Answer} :
    solver.round assumptions stopping = (.done answer, stopping', solver') →
      Plays assumptions 1 stopping solver (answer, stopping', solver')
  | goOn {count : Nat} {stopping stopping' : condition} {solver solver' : Solver}
    {outcome : Answer × condition × Solver} :
    solver.round assumptions stopping = (.next, stopping', solver') →
      Plays assumptions count stopping' solver' outcome →
        Plays assumptions (count + 1) stopping solver outcome

/-- Rounds that come to an answer within a limit are those of the loop. -/
theorem plays_of_rounds {assumptions : Array Literal} {limit : Nat} {stopping : condition}
    {solver : Solver} (answers : (rounds assumptions limit stopping solver).1 ≠ .unknown) :
    ∃ count, count ≤ limit ∧
      Plays assumptions count stopping solver (rounds assumptions limit stopping solver) := by
  induction limit generalizing stopping solver with
  | zero => exact absurd rfl answers
  | succ limit ih =>
    unfold rounds at answers ⊢
    cases played : solver.round assumptions stopping with
    | mk verdict rest =>
      obtain ⟨stopping', solver'⟩ := rest
      rw [played] at answers
      cases verdict with
      | done answer => exact ⟨1, Nat.le_add_left 1 limit, .last played⟩
      | next =>
        obtain ⟨count, within, plays⟩ := ih answers
        exact ⟨count + 1, Nat.succ_le_succ within, .goOn played plays⟩

/-- **Every search that nothing stops comes to a model or to a core.** Whatever was asked of the
solver before, and whether the assumptions are repeated, contradict each other or hold already: a
solver that is known to be inconsistent answers at once, and every other one plays rounds until one
of them gives the answer, which is a model or a core. -/
theorem solve_terminates (reached : Reached demands phases solver) {assumptions : List Literal}
    (proper : ∀ literal ∈ assumptions, literal.atom ≠ 0) {stopping : condition}
    (never : Interruption.NeverStops stopping) :
    ((∃ model, (solver.solve assumptions stopping).1 = .satisfiable model) ∨
      ∃ core, (solver.solve assumptions stopping).1 = .unsatisfiable core) ∧
    (solver.inconsistent = true → (solver.solve assumptions stopping).1 = .unsatisfiable []) ∧
    (solver.inconsistent = false → ∃ count,
      Plays assumptions.toArray count stopping (reserveAll assumptions (solver.backtrack 0))
        (solver.solve assumptions stopping)) := by
  have answers := (solve_answer (Interruption.calm_becomes never) reached.faithful assumptions
    proper stopping .refl).1
  refine ⟨?_, fun inconsistent => ?_, fun consistent => ?_⟩
  · cases given : (solver.solve assumptions stopping).1 with
    | satisfiable model => exact .inl ⟨model, rfl⟩
    | unsatisfiable core => exact .inr ⟨core, rfl⟩
    | unknown => exact absurd given answers
  · rw [solve_of_inconsistent inconsistent]
  · rw [solve_of_consistent consistent] at answers ⊢
    obtain ⟨count, _, plays⟩ := plays_of_rounds answers
    exact ⟨count, plays⟩

theorem neverStops_never : Interruption.NeverStops (⟨⟩ : Never) :=
  fun _ _ => rfl

/-- Assumptions of which the second repeats the first, the third is implied by a clause and the
last one contradicts the third. -/
def opposedAssumptions : List Literal :=
  [⟨1, false⟩, ⟨1, false⟩, ⟨2, true⟩, ⟨2, false⟩]

/-- The two empty levels do not keep the search from its end. -/
theorem solve_terminates_of_opposed :
    (pairSolver.solve opposedAssumptions (⟨⟩ : Never)).1 =
      .unsatisfiable [⟨2, false⟩, ⟨1, false⟩] ∧
    ∃ count, Plays opposedAssumptions.toArray count (⟨⟩ : Never)
      (reserveAll opposedAssumptions (pairSolver.backtrack 0))
      (pairSolver.solve opposedAssumptions (⟨⟩ : Never)) :=
  have reached : Reached [.clause [⟨1, true⟩, ⟨2, true⟩]]
      (fun atom => if atom = 3 then true else false) pairSolver :=
    .setPhase ⟨3, true⟩ (by decide) (.addClause [⟨1, true⟩, ⟨2, true⟩] .fresh)
  ⟨by decide +kernel,
    (solve_terminates reached (by decide) neverStops_never).2.2 (by decide +kernel)⟩

end Solver

end Loadout
