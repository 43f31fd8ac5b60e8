/-
**Adding constraints keeps the solver faithful to one more demand.**

* `sift_spec`: the literals that are kept of a clause say the same as the clause, since what is
  decided at level zero follows from the constraints.
* **`addClause_spec`**, **`addAtMost_spec`**: the solver is faithful to the demands with the new one
  behind them, and an answer of false means that it is inconsistent.
-/

import Loadout.Proofs.Search.Readiness
import Loadout.Proofs.Search.Normalization

namespace Loadout

/-- Two literals on one variable are the same or opposite. -/
theorem Literal.eq_or_eq_neg {first second : Literal} (same : first.atom = second.atom) :
    first = second ∨ first = -second := by
  obtain ⟨atom, positive⟩ := first
  obtain ⟨atom', positive'⟩ := second
  have atoms : atom = atom' := same
  subst atoms
  by_cases alike : positive = positive'
  · exact Or.inl (by rw [alike])
  · refine Or.inr ?_
    show (⟨atom, positive⟩ : Literal) = ⟨atom, !positive'⟩
    rw [Bool.eq_not_of_ne alike]

namespace Solver

variable {solver : Solver} {demands : List Demand} {phases : Assignment}

/-! ### Sifting a clause -/

/-- Some literals are undecided, in use, and on distinct variables. -/
structure Pending (solver : Solver) (literals : Clause) : Prop where
  uses : ∀ literal ∈ literals, solver.Uses literal
  undecided : ∀ literal ∈ literals, solver.trail.record? literal.atom = none
  distinct : (literals.map Literal.atom).Nodup

/-- An assignment makes a literal true that is not void. -/
def HoldsProper (assignment : Assignment) (literals : List Literal) : Prop :=
  ∃ literal ∈ literals, literal.isVoid = false ∧ literal.holds assignment = true

theorem demand_clause_iff {literals : List Literal} {assignment : Assignment} :
    (Demand.clause literals).holds assignment = true ↔ HoldsProper assignment literals := by
  simp [Demand.holds, HoldsProper]

theorem holdsProper_cons {literal : Literal} {rest : List Literal} {assignment : Assignment} :
    HoldsProper assignment (literal :: rest) ↔
      literal.isVoid = false ∧ literal.holds assignment = true ∨ HoldsProper assignment rest := by
  simp [HoldsProper]

/-- What is known after sifting, by its result. -/
def Sifted (old : Solver) (kept literals : List Literal) (new : Solver) : Option Clause → Prop
  | none => ∀ assignment, old.Satisfies assignment →
      Clause.holds assignment kept = true ∨ HoldsProper assignment literals
  | some clause => new.Pending clause ∧ ∀ assignment, old.Satisfies assignment →
      (Clause.holds assignment clause = true ↔
        Clause.holds assignment kept = true ∨ HoldsProper assignment literals)

/-- Sifting behind a literal that adds nothing. -/
theorem Sifted.skip {old new : Solver} {kept rest : List Literal} {literal : Literal}
    {result : Option Clause} (sifted : Sifted old kept rest new result)
    (idle : ∀ assignment, old.Satisfies assignment → literal.isVoid = false →
      literal.holds assignment = true → Clause.holds assignment kept = true) :
    Sifted old kept (literal :: rest) new result := by
  cases result with
  | none =>
    intro assignment satisfied
    rw [holdsProper_cons]
    exact (sifted assignment satisfied).imp_right Or.inr
  | some clause =>
    refine ⟨sifted.1, fun assignment satisfied => ?_⟩
    rw [sifted.2 assignment satisfied, holdsProper_cons]
    constructor
    · exact Or.imp_right Or.inr
    · rintro (here | ⟨proper, holds⟩ | later)
      · exact Or.inl here
      · exact Or.inl (idle assignment satisfied proper holds)
      · exact Or.inr later

/-- A literal that is added to the kept ones counts among them. -/
theorem Sifted.keep {old new : Solver} {kept rest : List Literal} {literal : Literal}
    {result : Option Clause} (sifted : Sifted old (kept ++ [literal]) rest new result)
    (proper : literal.isVoid = false) : Sifted old kept (literal :: rest) new result := by
  have moved : ∀ assignment, (Clause.holds assignment (kept ++ [literal]) = true ∨
      HoldsProper assignment rest) ↔
      (Clause.holds assignment kept = true ∨ HoldsProper assignment (literal :: rest)) := by
    intro assignment
    rw [holdsProper_cons]
    simp only [Clause.holds, List.any_append, List.any_cons, List.any_nil, Bool.or_false,
      Bool.or_eq_true, proper, true_and, or_assoc]
  cases result with
  | none => exact fun assignment satisfied => (moved assignment).mp (sifted assignment satisfied)
  | some clause =>
    exact ⟨sifted.1, fun assignment satisfied =>
      (sifted.2 assignment satisfied).trans (moved assignment)⟩

theorem sifted_congr {old other new : Solver} {kept literals : List Literal}
    {result : Option Clause} (same : ∀ assignment, old.Satisfies assignment ↔
      other.Satisfies assignment) (sifted : Sifted other kept literals new result) :
    Sifted old kept literals new result := by
  cases result with
  | none => exact fun assignment satisfied => sifted assignment ((same assignment).mp satisfied)
  | some clause =>
    exact ⟨sifted.1, fun assignment satisfied =>
      sifted.2 assignment ((same assignment).mp satisfied)⟩

theorem Pending.reserve {kept : Clause} (pending : solver.Pending kept) (literal : Literal) :
    (solver.reserve literal).Pending kept where
  uses other inside := (pending.uses other inside).reserve
  undecided other inside := by
    rw [record?_reserve]
    exact pending.undecided other inside
  distinct := pending.distinct

/-- An undecided literal may be added when neither it nor its opposite is there. -/
theorem Pending.append {kept : Clause} (pending : solver.Pending kept) {literal : Literal}
    (uses : solver.Uses literal) (undecided : solver.trail.record? literal.atom = none)
    (fresh : literal ∉ kept ∧ -literal ∉ kept) : solver.Pending (kept ++ [literal]) where
  uses other inside := by
    rcases List.mem_append.mp inside with old | new
    · exact pending.uses other old
    · rw [List.mem_singleton.mp new]
      exact uses
  undecided other inside := by
    rcases List.mem_append.mp inside with old | new
    · exact pending.undecided other old
    · rw [List.mem_singleton.mp new]
      exact undecided
  distinct := by
    rw [List.map_append, List.nodup_append]
    refine ⟨pending.distinct, List.nodup_singleton _, fun atom inside last new equal => ?_⟩
    rw [List.map_singleton, List.mem_singleton] at new
    obtain ⟨other, member, same⟩ := List.mem_map.mp inside
    rcases Literal.eq_or_eq_neg (same.trans (equal.trans new)) with whole | whole
    · exact fresh.1 (whole ▸ member)
    · exact fresh.2 (whole ▸ member)

/-- A clause that has a literal and its opposite holds always. -/
theorem sifted_opposed {old new : Solver} {kept rest : List Literal} {literal : Literal}
    (proper : literal.isVoid = false) (opposed : -literal ∈ kept) :
    Sifted old kept (literal :: rest) new none := by
  intro assignment _
  cases holds : literal.holds assignment with
  | true => exact Or.inr (holdsProper_cons.mpr (Or.inl ⟨proper, holds⟩))
  | false =>
    refine Or.inl (List.any_eq_true.mpr ⟨-literal, opposed, ?_⟩)
    rw [Literal.holds_neg, holds]
    rfl

/-- What is decided at level zero follows from the constraints. -/
theorem Ready.fact (ready : solver.Ready demands phases) {literal : Literal}
    (isTrue : solver.trail.isTrue literal = true) {assignment : Assignment}
    (satisfied : solver.Satisfies assignment) : literal.holds assignment = true := by
  have core := ready.working.core
  obtain ⟨entry, records⟩ := Trail.isTrue_iff.mp isTrue
  have within := (core.grounded.coherent.levelled _ entry records.1).1
  have closed := ready.closed
  exact core.supported.fact core.grounded satisfied records (by omega)

/-- **Sifting keeps the solver ready, and what is kept says the same as the clause.** -/
theorem sift_spec (literals : List Literal) (kept : Clause) (solver : Solver)
    (ready : solver.Ready demands phases) (pending : solver.Pending kept) :
    (sift literals kept solver).2.Ready demands phases ∧
      Sifted solver kept literals (sift literals kept solver).2 (sift literals kept solver).1 := by
  induction literals generalizing kept solver with
  | nil =>
    refine ⟨ready, pending, fun assignment _ => ⟨Or.inl, fun either => either.resolve_right ?_⟩⟩
    rintro ⟨literal, impossible, _⟩
    cases impossible
  | cons literal rest ih =>
    unfold sift
    by_cases void : literal.isVoid = true
    · rw [if_pos void]
      obtain ⟨ready', sifted⟩ := ih kept solver ready pending
      refine ⟨ready', sifted.skip fun assignment _ proper => ?_⟩
      rw [void] at proper
      cases proper
    · rw [if_neg void]
      have proper : literal.isVoid = false := by simpa using void
      have nonzero : literal.atom ≠ 0 := by simpa [Literal.isVoid] using void
      have uses := uses_reserve nonzero solver
      have reserved := ready.reserve literal
      have pending' := pending.reserve literal
      have same : ∀ assignment, solver.Satisfies assignment ↔
          (solver.reserve literal).Satisfies assignment :=
        fun assignment => (satisfies_congr (constraints_reserve literal solver) assignment).symm
      generalize solver.reserve literal = wider at uses reserved pending' same
      dsimp only
      cases known : wider.trail.value? literal with
      | none =>
        have undecided := Trail.value?_eq_none_iff.mp known
        dsimp only
        by_cases opposed : kept.contains (-literal) = true
        · rw [if_pos opposed]
          exact ⟨reserved, sifted_opposed proper (by simpa using opposed)⟩
        · rw [if_neg opposed]
          by_cases repeated : kept.contains literal = true
          · rw [if_pos repeated]
            obtain ⟨ready', sifted⟩ := ih kept wider reserved pending'
            refine ⟨ready', (sifted_congr same sifted).skip fun assignment _ _ holds => ?_⟩
            exact List.any_eq_true.mpr ⟨literal, by simpa using repeated, holds⟩
          · rw [if_neg repeated]
            have pending'' : wider.Pending (kept ++ [literal]) := by
              refine pending'.append uses undecided ⟨?_, ?_⟩
              · exact fun inside => repeated (by simpa using inside)
              · exact fun inside => opposed (by simpa using inside)
            obtain ⟨ready', sifted⟩ := ih (kept ++ [literal]) wider reserved pending''
            exact ⟨ready', (sifted_congr same sifted).keep proper⟩
      | some value =>
        cases value with
        | true =>
          refine ⟨reserved, fun assignment satisfied => Or.inr (holdsProper_cons.mpr (Or.inl
            ⟨proper, reserved.fact ?_ ((same assignment).mp satisfied)⟩))⟩
          exact Trail.value?_eq_true_iff.mp known
        | false =>
          obtain ⟨ready', sifted⟩ := ih kept wider reserved pending'
          refine ⟨ready', (sifted_congr same sifted).skip fun assignment satisfied _ holds => ?_⟩
          have isFalse := Trail.value?_eq_false_iff.mp known
          rw [Trail.isFalse_eq] at isFalse
          have opposite := reserved.fact isFalse ((same assignment).mp satisfied)
          rw [Literal.holds_neg, holds] at opposite
          cases opposite

/-! ### Adding a clause -/

/-- **What adding a constraint comes to**: the solver is faithful to one more demand, and the answer
is false only when it is inconsistent. -/
structure Added (demands : List Demand) (demand : Demand) (phases : Assignment)
    (result : Bool × Solver) : Prop where
  faithful : result.2.Faithful (demands ++ [demand]) phases
  answer : result.1 = false → result.2.inconsistent = true

/-- An inconsistent solver stays so under more demands. -/
theorem Faithful.stays_inconsistent (faithful : solver.Faithful demands phases)
    (inconsistent : solver.inconsistent = true) (demand : Demand) :
    Added demands demand phases (false, solver) where
  faithful := Faithful.of_contradictory inconsistent fun assignment meets =>
    faithful.contradictory inconsistent assignment (meets_append.mp meets).1
  answer _ := inconsistent

/-- Giving up is right when no assignment meets the new demand as well. -/
theorem added_giveUp {demand : Demand} (solver : Solver)
    (contradictory : ∀ assignment, ¬Meets (demands ++ [demand]) assignment) :
    Added demands demand phases solver.giveUp where
  faithful := Faithful.of_contradictory rfl contradictory
  answer _ := rfl

/-- A ready solver whose constraints hold exactly where the new demand holds as well. -/
theorem Ready.extend (ready : solver.Ready demands phases) {demand : Demand} {new : Solver}
    (working : new.Working) (closed : new.trail.level = 0)
    (satisfies : ∀ assignment, new.Satisfies assignment ↔
      solver.Satisfies assignment ∧ demand.holds assignment = true)
    (preferred : new.phases = solver.phases)
    (consistent : new.inconsistent = solver.inconsistent) :
    Added demands demand phases (true, new) where
  faithful := by
    have ready' : new.Ready (demands ++ [demand]) phases := by
      refine ⟨working, closed, fun assignment => ?_, ?_, consistent.trans ready.consistent⟩
      · rw [meets_append, ← ready.exact]
        exact satisfies assignment
      · rw [← ready.preferred]
        unfold Solver.preferred
        rw [preferred]
    exact ready'.faithful
  answer impossible := by cases impossible

/-- A demand that the constraints imply already is met for nothing. -/
theorem Ready.added_implied (ready : solver.Ready demands phases) {demand : Demand}
    (implied : ∀ assignment, solver.Satisfies assignment → demand.holds assignment = true) :
    Added demands demand phases (true, solver) :=
  ready.extend ready.working ready.closed
    (fun assignment => (and_iff_left_of_imp (implied assignment)).symm) rfl rfl

/-- **A unit clause is stored and its literal becomes a fact.** -/
theorem Ready.store_unit (ready : solver.Ready demands phases) {unit : Literal}
    (pending : solver.Pending [unit]) {demand : Demand}
    (equivalent : ∀ assignment, solver.Satisfies assignment →
      (Clause.holds assignment [unit] = true ↔ demand.holds assignment = true)) :
    Added demands demand phases
      (true, (solver.store (.clause [unit])).2.push unit solver.constraints.size) := by
  have uses := pending.uses unit List.mem_cons_self
  have undecided := pending.undecided unit List.mem_cons_self
  have stored := ready.working.core.store_forcing uses undecided pending.distinct
    (fun literal inside => absurd inside List.not_mem_nil) (fun second tail same => by cases same)
    fun _ => ready.closed
  have attached := ready.working.attached.store_unit unit
  refine ready.extend ⟨stored, attached.congr rfl fun _ => rfl, ready.working.unmarked⟩ ?_
    (fun assignment => ?_) rfl rfl
  · show (solver.trail.push unit (some solver.constraints.size)).level = 0
    rw [Trail.level_push]
    exact ready.closed
  · have same : (solver.store (.clause [unit])).2.Satisfies assignment ↔ _ := satisfies_store
    have pushed : ((solver.store (.clause [unit])).2.push unit
        solver.constraints.size).Satisfies assignment ↔ _ := satisfies_congr rfl assignment
    exact (pushed.trans same).trans (and_congr_right (equivalent assignment))

/-- A longer clause of undecided literals keeps the invariants. -/
theorem Core.store_pending {done : Nat} (core : solver.Core done) {first second : Literal}
    {rest : List Literal} (pending : solver.Pending (first :: second :: rest)) :
    (solver.store (.clause (first :: second :: rest))).2.Core done := by
  have settled : (solver.store (.clause (first :: second :: rest))).2.Settled done := by
    refine core.settled.store (fun impossible => by cases impossible)
      (fun literal impossible => by cases impossible) ?_ (fun linear impossible => by
        cases impossible)
    intro one two others same literal watched entry records
    cases same
    have known := pending.undecided literal (by
      rcases watched with rfl | rfl
      · exact List.mem_cons_self
      · exact List.mem_cons_of_mem _ List.mem_cons_self)
    rw [show solver.trail.record? literal.atom = some entry from records.1] at known
    cases known
  have grounded : (solver.store (.clause (first :: second :: rest))).2.Grounded := by
    refine core.grounded.store pending.uses fun literals same => ?_
    cases same
    exact pending.distinct
  exact ⟨grounded, core.supported.store _, settled⟩

/-- **A longer clause is stored and watched.** -/
theorem Ready.store_pair (ready : solver.Ready demands phases) {first second : Literal}
    {rest : List Literal} (pending : solver.Pending (first :: second :: rest)) {demand : Demand}
    (equivalent : ∀ assignment, solver.Satisfies assignment →
      (Clause.holds assignment (first :: second :: rest) = true ↔
        demand.holds assignment = true)) :
    Added demands demand phases
      (true, { (solver.store (.clause (first :: second :: rest))).2 with
        watches := solver.watches.watchClause solver.constraints.size first second }) := by
  have different : first ≠ second := by
    intro same
    have once := (List.nodup_cons.mp pending.distinct).1
    rw [same] at once
    exact once List.mem_cons_self
  have stored := ready.working.core.store_pending pending
  generalize final_def : ({ (solver.store (.clause (first :: second :: rest))).2 with
    watches := solver.watches.watchClause solver.constraints.size first second } : Solver) = final
  have core' : final.Core final.frontier := by
    rw [← final_def]
    exact stored.congr rfl rfl rfl rfl rfl
  have attached : final.Attached final.watches.watching := by
    rw [← final_def]
    exact ready.working.attached.store_pair different
  have constraints : final.constraints =
      (solver.store (.clause (first :: second :: rest))).2.constraints := by
    rw [← final_def]
  refine ready.extend ⟨core', attached, ?_⟩ ?_ (fun assignment => ?_) ?_ ?_
  · rw [← final_def]
    exact ready.working.unmarked
  · rw [← final_def]
    exact ready.closed
  · exact ((satisfies_congr constraints assignment).trans satisfies_store).trans
      (and_congr_right (equivalent assignment))
  · rw [← final_def]
    rfl
  · rw [← final_def]
    rfl

/-- **Adding a clause.** -/
theorem addClause_spec (faithful : solver.Faithful demands phases) (literals : List Literal) :
    Added demands (.clause literals) phases (solver.addClause literals) := by
  have reverted := faithful.backtrack
  unfold addClause
  generalize solver.backtrack 0 = solver at reverted
  dsimp only
  by_cases inconsistent : solver.inconsistent = true
  · rw [if_pos inconsistent]
    exact reverted.stays_inconsistent inconsistent _
  · rw [if_neg inconsistent]
    have ready := reverted.ready (by simpa using inconsistent)
    have nothing : ∀ assignment, Clause.holds assignment [] ≠ true := by
      intro assignment impossible
      cases impossible
    obtain ⟨ready', sifted⟩ := sift_spec literals [] solver ready
      ⟨fun _ inside => absurd inside List.not_mem_nil,
        fun _ inside => absurd inside List.not_mem_nil, List.nodup_nil⟩
    generalize sift literals [] solver = result at ready' sifted
    obtain ⟨kept, sifter⟩ := result
    have same : ∀ assignment, sifter.Satisfies assignment ↔ solver.Satisfies assignment :=
      fun assignment => (ready'.exact assignment).trans (ready.exact assignment).symm
    cases kept with
    | none =>
      refine ready'.added_implied fun assignment satisfied => demand_clause_iff.mpr ?_
      exact (sifted assignment ((same assignment).mp satisfied)).resolve_left (nothing assignment)
    | some clause =>
      obtain ⟨pending, equivalent⟩ := sifted
      have equivalent' : ∀ assignment, sifter.Satisfies assignment →
          (Clause.holds assignment clause = true ↔
            (Demand.clause literals).holds assignment = true) := by
        intro assignment satisfied
        rw [demand_clause_iff, equivalent assignment ((same assignment).mp satisfied)]
        exact or_iff_right (nothing assignment)
      match clause with
      | [] =>
        refine added_giveUp sifter fun assignment meets => ?_
        obtain ⟨old, new⟩ := meets_append.mp meets
        exact nothing assignment
          ((equivalent' assignment ((ready'.exact assignment).mpr old)).mpr new)
      | [unit] => exact ready'.store_unit pending equivalent'
      | first :: second :: rest => exact ready'.store_pair pending equivalent'

/-! ### Adding a bounded sum -/

/-- Taking the variables of some literals into use. -/
def reserveAll (literals : List Literal) (solver : Solver) : Solver :=
  literals.foldl (fun solver literal => solver.reserve literal) solver

theorem Ready.reserveAll (literals : List Literal) (ready : solver.Ready demands phases) :
    (reserveAll literals solver).Ready demands phases := by
  induction literals generalizing solver with
  | nil => exact ready
  | cons literal rest ih => exact ih (ready.reserve literal)

theorem Uses.reserveAll (literals : List Literal) {literal : Literal}
    (uses : solver.Uses literal) : (Solver.reserveAll literals solver).Uses literal := by
  induction literals generalizing solver with
  | nil => exact uses
  | cons other rest ih => exact ih uses.reserve

/-- The variables taken into use are in use. -/
theorem uses_reserveAll (literals : List Literal) (proper : ∀ literal ∈ literals, literal.atom ≠ 0)
    (solver : Solver) : ∀ literal ∈ literals, (reserveAll literals solver).Uses literal := by
  induction literals generalizing solver with
  | nil => exact fun literal inside => absurd inside List.not_mem_nil
  | cons other rest ih =>
    intro literal inside
    rcases List.mem_cons.mp inside with rfl | later
    · have uses : (solver.reserve literal).Uses literal :=
        uses_reserve (proper literal List.mem_cons_self) solver
      exact uses.reserveAll rest
    · exact ih (fun side member => proper side (List.mem_cons_of_mem _ member)) _ literal later

/-- A solver with a bounded sum that has been stored and is watched. -/
def withSum (linear : Linear) (solver : Solver) : Solver :=
  { (solver.store (.sum linear)).2 with
    watches := solver.watches.watchSum solver.constraints.size (linear.terms.map Prod.snd) }

theorem getElem?_withSum (linear : Linear) :
    (withSum linear solver).constraints[solver.constraints.size]? = some (.sum linear) := by
  show (solver.store (.sum linear)).2.constraints[solver.constraints.size]? = _
  rw [getElem?_store, if_pos rfl]

theorem satisfies_withSum {linear : Linear} {assignment : Assignment} :
    (withSum linear solver).Satisfies assignment ↔
      solver.Satisfies assignment ∧ linear.holds assignment = true := by
  have constraints : (withSum linear solver).constraints =
      (solver.store (.sum linear)).2.constraints := rfl
  exact (satisfies_congr constraints assignment).trans satisfies_store

/-- Where the constraints hold, a bounded sum is at least what its facts weigh. -/
theorem Ready.decidedWeight_le (ready : solver.Ready demands phases) {linear : Linear}
    {assignment : Assignment} (satisfied : solver.Satisfies assignment)
    (holds : linear.holds assignment = true) :
    decidedWeight solver.trail linear.terms ≤ linear.bound := by
  have within : passedWeight (Literal.holds assignment) linear.terms ≤ linear.bound :=
    of_decide_eq_true holds
  rw [decidedWeight_eq]
  exact Nat.le_trans (passedWeight_le fun term _ isTrue => ready.fact isTrue satisfied) within

/-- A bounded sum that its facts do not exceed keeps the invariants. -/
theorem Ready.core_withSum (ready : solver.Ready demands phases) {linear : Linear}
    (uses : ∀ literal ∈ linear.terms.map Prod.snd, solver.Uses literal)
    (fits : decidedWeight solver.trail linear.terms ≤ linear.bound) :
    (withSum linear solver).Core solver.frontier := by
  have core := ready.working.core
  have settled : (solver.store (.sum linear)).2.Settled solver.frontier := by
    refine core.settled.store (fun impossible => by cases impossible)
      (fun literal impossible => by cases impossible)
      (fun first second rest impossible => by cases impossible) fun other same => ?_
    cases same
    rw [decidedWeight_eq] at fits
    refine Nat.le_trans (passedWeight_le fun term _ before => ?_) fits
    obtain ⟨entry, records, _⟩ := trueBefore_iff.mp before
    exact Trail.isTrue_iff.mpr ⟨entry, records⟩
  have grounded : (solver.store (.sum linear)).2.Grounded :=
    core.grounded.store uses fun literals impossible => by cases impossible
  have plain : (solver.store (.sum linear)).2.Core solver.frontier :=
    ⟨grounded, core.supported.store _, settled⟩
  exact plain.congr rfl rfl rfl rfl rfl

/-- **A bounded sum is stored, watched and checked.** When its facts exceed the bound already, no
assignment meets it. -/
theorem Ready.store_sum (ready : solver.Ready demands phases) {linear : Linear}
    (uses : ∀ literal ∈ linear.terms.map Prod.snd, solver.Uses literal) {demand : Demand}
    (equivalent : ∀ assignment, linear.holds assignment = true ↔ demand.holds assignment = true) :
    Added demands demand phases
      (match (withSum linear solver).checkSum solver.constraints.size with
        | (true, solver) => (true, solver)
        | (false, solver) => solver.giveUp) := by
  have trail : (withSum linear solver).trail = solver.trail := rfl
  by_cases exceeds : linear.bound < decidedWeight solver.trail linear.terms
  · rw [checkSum_eq (getElem?_withSum linear), trail, if_pos exceeds]
    refine added_giveUp (withSum linear solver) fun assignment meets => ?_
    obtain ⟨old, new⟩ := meets_append.mp meets
    have below := ready.decidedWeight_le ((ready.exact assignment).mpr old)
      ((equivalent assignment).mpr new)
    exact absurd exceeds (Nat.not_lt.mpr below)
  · have core := ready.core_withSum uses (Nat.le_of_not_lt exceeds)
    have attached : (withSum linear solver).Attached (withSum linear solver).watches.watching := by
      have watched := ready.working.attached.store_sum linear
      exact watched.of_view fun literal => WatchTable.watching_watchSum _ _ _ _
    have checked := checkSum_spec core solver.constraints.size
    have fits : ((withSum linear solver).checkSum solver.constraints.size).1 = true := by
      rw [checkSum_eq (getElem?_withSum linear), trail, if_neg exceeds]
    generalize (withSum linear solver).checkSum solver.constraints.size = result at checked fits
    obtain ⟨answer, final⟩ := result
    obtain ⟨progress, core', constraints, watches, _⟩ := checked
    dsimp only at fits
    rw [fits]
    refine ready.extend ⟨?_, ?_, fun atom => ?_⟩ ?_ (fun assignment => ?_) progress.phases
      progress.inconsistent
    · rw [progress.frontier]
      exact core'
    · rw [watches]
      exact attached.congr constraints fun _ => by rw [watches]
    · unfold isMarked
      rw [progress.marks]
      exact ready.working.unmarked atom
    · exact progress.toAdvance.level.trans ready.closed
    · exact ((satisfies_congr constraints assignment).trans satisfies_withSum).trans
        (and_congr_right fun _ => equivalent assignment)

/-- Adding a bounded sum in normal form. -/
theorem addLinear_spec (faithful : solver.Faithful demands phases) (linear : Linear)
    (proper : ∀ literal ∈ linear.terms.map Prod.snd, literal.atom ≠ 0) {demand : Demand}
    (equivalent : ∀ assignment, linear.holds assignment = true ↔ demand.holds assignment = true) :
    Added demands demand phases (solver.addLinear linear) := by
  have reverted := faithful.backtrack
  unfold addLinear
  generalize solver.backtrack 0 = solver at reverted
  dsimp only
  by_cases inconsistent : solver.inconsistent = true
  · rw [if_pos inconsistent]
    exact reverted.stays_inconsistent inconsistent _
  · rw [if_neg inconsistent]
    have ready := (reverted.ready (by simpa using inconsistent)).reserveAll
      (linear.terms.map Prod.snd)
    exact ready.store_sum (uses_reserveAll _ proper solver) equivalent

/-- **Adding a bound on a signed sum.** -/
theorem addAtMost_spec (faithful : solver.Faithful demands phases) (constraint : AtMost) :
    Added demands (.atMost constraint) phases (solver.addAtMost constraint) := by
  have exact' := fun assignment => AtMost.holds_normalize assignment constraint
  have proper := constraint.normalize_atoms
  unfold addAtMost
  generalize constraint.normalize = form at exact' proper
  cases form with
  | tautology =>
    cases inconsistent : solver.inconsistent with
    | true => exact faithful.stays_inconsistent inconsistent _
    | false =>
      refine (faithful.ready inconsistent).added_implied fun assignment _ => ?_
      exact (exact' assignment).symm
  | contradiction =>
    refine added_giveUp solver fun assignment meets => ?_
    have holds : constraint.holds assignment = true := (meets_append.mp meets).2
    rw [← exact'] at holds
    cases holds
  | clause literals =>
    have added := addClause_spec faithful literals
    have same : ∀ assignment, (Demand.clause literals).holds assignment =
        (Demand.atMost constraint).holds assignment := by
      intro assignment
      rw [Bool.eq_iff_iff, demand_clause_iff]
      show HoldsProper assignment literals ↔ constraint.holds assignment = true
      rw [← exact']
      show _ ↔ Clause.holds assignment literals = true
      unfold HoldsProper Clause.holds
      rw [List.any_eq_true]
      refine exists_congr fun literal => and_congr_right fun inside => and_iff_right ?_
      simpa [Literal.isVoid] using proper literal inside
    have meets : ∀ assignment, Meets (demands ++ [.clause literals]) assignment ↔
        Meets (demands ++ [.atMost constraint]) assignment := by
      intro assignment
      rw [meets_append, meets_append, same]
    refine ⟨⟨fun inconsistent assignment => ?_, fun consistent => ?_⟩, added.answer⟩
    · rw [← meets]
      exact added.faithful.contradictory inconsistent assignment
    · have ready := added.faithful.ready consistent
      exact ⟨ready.working, ready.closed, fun assignment =>
        (ready.exact assignment).trans (meets assignment), ready.preferred, ready.consistent⟩
  | linear sum =>
    refine addLinear_spec faithful sum proper fun assignment => ?_
    rw [show (Demand.atMost constraint).holds assignment = constraint.holds assignment from rfl,
      ← exact']
    exact Iff.rfl

/-! ### Variables in use -/

theorem atomCount_le_reserve (literal : Literal) (solver : Solver) :
    solver.atomCount ≤ (solver.reserve literal).atomCount := by
  rw [atomCount_reserve]
  exact Nat.le_max_left _ _

theorem atomCount_newVariable (solver : Solver) :
    solver.newVariable.2.atomCount = solver.atomCount + 1 := by
  show (solver.reserve (.ofAtom (solver.atomCount + 1))).atomCount = _
  rw [atomCount_reserve]
  exact Nat.max_eq_right (Nat.le_succ _)

theorem atomCount_le_sift (literals : List Literal) (kept : Clause) (solver : Solver) :
    solver.atomCount ≤ (sift literals kept solver).2.atomCount := by
  induction literals generalizing kept solver with
  | nil => exact Nat.le_refl _
  | cons literal rest ih =>
    have wider := atomCount_le_reserve literal solver
    unfold sift
    split
    · exact ih _ _
    · dsimp only
      split
      · exact wider
      · exact Nat.le_trans wider (ih _ _)
      · split
        · exact wider
        · split <;> exact Nat.le_trans wider (ih _ _)

theorem atomCount_le_addClause (literals : List Literal) (solver : Solver) :
    solver.atomCount ≤ (solver.addClause literals).2.atomCount := by
  have wider := atomCount_le_sift literals [] (solver.backtrack 0)
  unfold addClause
  dsimp only
  generalize sift literals [] (solver.backtrack 0) = sifted at wider
  obtain ⟨result, next⟩ := sifted
  split
  · exact Nat.le_refl _
  · rcases result with _ | (_ | ⟨first, _ | ⟨second, rest⟩⟩) <;> exact wider

theorem atomCount_checkSum (id : ConstraintId) (solver : Solver) :
    (solver.checkSum id).2.atomCount = solver.atomCount := by
  unfold checkSum
  split
  · dsimp only
    split
    · rfl
    · have pushed : ∀ (literals : List Literal) (solver : Solver),
          (literals.foldl
            (fun solver literal => solver.push (-literal) (some id)) solver).atomCount =
            solver.atomCount := by
        intro literals
        induction literals with
        | nil => exact fun _ => rfl
        | cons literal rest ih => exact fun _ => ih _
      exact pushed _ _
  · rfl

theorem atomCount_le_addLinear (linear : Linear) (solver : Solver) :
    solver.atomCount ≤ (solver.addLinear linear).2.atomCount := by
  have reserved : ∀ (literals : List Literal) (solver : Solver),
      solver.atomCount ≤ (reserveAll literals solver).atomCount := by
    intro literals
    induction literals with
    | nil => exact fun _ => Nat.le_refl _
    | cons literal rest ih =>
      exact fun solver => Nat.le_trans (atomCount_le_reserve literal solver) (ih _)
  have wider := reserved (linear.terms.map Prod.snd) (solver.backtrack 0)
  unfold addLinear
  dsimp only
  split
  · exact Nat.le_refl _
  · split
    all_goals
      next found =>
        have same := congrArg (fun result => result.2.atomCount) found
        dsimp only at same
        rw [atomCount_checkSum] at same
        exact Nat.le_trans wider (Nat.le_of_eq same)

/-- **No demand takes a variable out of use.** -/
theorem atomCount_le_addAtMost (constraint : AtMost) (solver : Solver) :
    solver.atomCount ≤ (solver.addAtMost constraint).2.atomCount := by
  unfold addAtMost
  split
  · exact Nat.le_refl _
  · exact Nat.le_refl _
  · exact atomCount_le_addClause _ _
  · exact atomCount_le_addLinear _ _

end Solver

end Loadout
