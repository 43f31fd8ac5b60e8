/-
**Propagation leaves no term of a bounded sum that is too heavy for it.**

`Settled` says that no sum is above its bound by the literals that have been handled. A sum asks for
more: a literal that is still undecided has to fit beside the true ones (`Linear.Spares`). This
alone would not survive going back, where literals become undecided again that were decided when
the sum was looked at last. So the invariant speaks of every level at once:

* `Linear.Fits`: whatever is not decided up to a level fits beside what is true up to that level.
  Going back to a level leaves exactly the records up to it (`Linear.Fits.revertTo`), and a decision
  adds none before the place that has been handled (`Linear.Fits.grow`).
* `Linear.Fits.step`: one more literal is handled once the sums that mention it have been checked.
* **`propagate_fits`**: propagation handles the whole queue so, or finds a constraint that the trail
  violates by a literal of the present level (`Solver.Violates`).
-/

import Loadout.Proofs.Search.Consequences

namespace Loadout

/-! ### What is true up to a level -/

/-- The literal is not decided at a level or below it. -/
def Trail.Open (trail : Trail) (level : Nat) (literal : Literal) : Prop :=
  ∀ entry, trail.record? literal.atom = some entry → level < entry.level

/-- Whether the literal is true, was decided before a place of the queue, and at a level or below
it. -/
def Solver.trueUpTo (trail : Trail) (place level : Nat) (literal : Literal) : Bool :=
  match trail.record? literal.atom with
  | some entry =>
    entry.positive == literal.positive && (entry.position < place && entry.level ≤ level)
  | none => false

theorem Solver.trueUpTo_iff {trail : Trail} {place level : Nat} {literal : Literal} :
    trueUpTo trail place level literal = true ↔
      ∃ entry, trail.Records literal entry ∧ entry.position < place ∧ entry.level ≤ level := by
  unfold trueUpTo Trail.Records
  cases trail.record? literal.atom with
  | none => simp
  | some entry => simp

/-- What is true up to a level is true. -/
theorem Solver.trueBefore_of_trueUpTo {trail : Trail} {place level : Nat} {literal : Literal}
    (counted : trueUpTo trail place level literal = true) :
    trueBefore trail (some place) literal = true := by
  obtain ⟨entry, records, early, _⟩ := trueUpTo_iff.mp counted
  exact trueBefore_iff.mpr ⟨entry, records, early⟩

/-! ### Terms that fit -/

namespace Linear

/-- Every undecided term fits beside the true ones that were decided before a place. -/
def Spares (trail : Trail) (place : Nat) (linear : Linear) : Prop :=
  ∀ term ∈ linear.terms, trail.record? term.2.atom = none →
    term.1 + passedWeight (Solver.trueBefore trail (some place)) linear.terms ≤ linear.bound

/-- **Every term that is open above a level fits beside those that are true up to it.** -/
def Fits (trail : Trail) (place : Nat) (linear : Linear) : Prop :=
  ∀ term ∈ linear.terms, ∀ level, trail.Open level term.2 →
    term.1 + passedWeight (Solver.trueUpTo trail place level) linear.terms ≤ linear.bound

variable {first second trail : Trail} {place : Nat} {linear : Linear}

/-- New records behind a place leave what fits. -/
theorem Spares.grow (spares : linear.Spares first place)
    (kept : ∀ atom entry, first.record? atom = some entry → second.record? atom = some entry)
    (agrees : Trail.Agrees place first second) : linear.Spares second place := by
  intro term inside undecided
  have before : first.record? term.2.atom = none := by
    rw [Option.eq_none_iff_forall_not_mem]
    intro entry found
    rw [kept _ entry found] at undecided
    cases undecided
  refine Nat.le_trans (Nat.le_of_eq ?_) (spares term inside before)
  rw [passedWeight_congr fun other _ =>
    (trueBefore_agrees agrees (Nat.le_refl place) other.2).symm]

/-- A term that is open now was open before above some level, and no more is counted now. -/
theorem Fits.transfer {after : Nat} (fits : linear.Fits first place)
    (opens : ∀ level literal, second.Open level literal → ∃ lower, first.Open lower literal ∧
      ∀ other, Solver.trueUpTo second after level other = true →
        Solver.trueUpTo first place lower other = true) : linear.Fits second after := by
  intro term inside level opened
  obtain ⟨lower, before, counted⟩ := opens level term.2 opened
  refine Nat.le_trans (Nat.add_le_add_left ?_ _) (fits term inside lower before)
  exact passedWeight_le fun other _ => counted other.2

/-- New records behind a place leave what fits. -/
theorem Fits.grow (fits : linear.Fits first place)
    (kept : ∀ atom entry, first.record? atom = some entry → second.record? atom = some entry)
    (agrees : Trail.Agrees place first second) : linear.Fits second place := by
  refine fits.transfer fun level literal opened =>
    ⟨level, fun entry found => opened entry (kept _ entry found), fun other counted => ?_⟩
  obtain ⟨entry, records, early, low⟩ := Solver.trueUpTo_iff.mp counted
  exact Solver.trueUpTo_iff.mpr
    ⟨entry, ⟨(agrees _ entry early).mpr records.1, records.2⟩, early, low⟩

/-- **Going back leaves what fits.** Of the levels above the one gone back to nothing is left, so
that they count as that level. -/
theorem Fits.revertTo (coherent : trail.Coherent) (fits : linear.Fits trail place)
    (target : Nat) {after : Nat} (within : after ≤ place) :
    linear.Fits (trail.revertTo target) after := by
  refine fits.transfer fun level literal opened =>
    ⟨min level target, fun entry found => ?_, fun other counted => ?_⟩
  · by_cases low : entry.level ≤ target
    · have kept : (trail.revertTo target).record? literal.atom = some entry := by
        rw [coherent.record?_revertTo, found, Option.filter_some, if_pos (decide_eq_true low)]
      have above := opened entry kept
      omega
    · omega
  · obtain ⟨entry, records, early, low⟩ := Solver.trueUpTo_iff.mp counted
    obtain ⟨old, lower⟩ := coherent.records_revertTo.mp records
    exact Solver.trueUpTo_iff.mpr ⟨entry, old, by omega, by omega⟩

/-- With the levels that are open, no more than all levels, an undecided term fits. -/
theorem Fits.spares (coherent : trail.Coherent) (fits : linear.Fits trail place) :
    linear.Spares trail place := by
  intro term inside undecided
  have opened : trail.Open trail.level term.2 := by
    intro entry found
    rw [undecided] at found
    cases found
  refine Nat.le_trans (Nat.add_le_add_left (passedWeight_le fun other _ counted => ?_) _)
    (fits term inside trail.level opened)
  obtain ⟨entry, records, early⟩ := Solver.trueBefore_iff.mp counted
  exact Solver.trueUpTo_iff.mpr
    ⟨entry, records, early, (coherent.levelled _ entry records.1).1⟩

/-- Nothing is decided above the present level, so that only undecided terms are open above it. -/
theorem Spares.above (coherent : trail.Coherent) (spares : linear.Spares trail place)
    {term : Nat × Literal} (inside : term ∈ linear.terms) {level : Nat}
    (high : trail.level ≤ level) (opened : trail.Open level term.2) :
    term.1 + passedWeight (Solver.trueUpTo trail place level) linear.terms ≤ linear.bound := by
  have undecided : trail.record? term.2.atom = none := by
    rw [Option.eq_none_iff_forall_not_mem]
    intro entry found
    have above := opened entry found
    have within := (coherent.levelled _ entry found).1
    omega
  refine Nat.le_trans (Nat.add_le_add_left ?_ _) (spares term inside undecided)
  exact passedWeight_le fun other _ counted => Solver.trueBefore_of_trueUpTo counted

/-- At level zero it is enough to look at undecided terms. -/
theorem Spares.fits (coherent : trail.Coherent) (closed : trail.level = 0)
    (spares : linear.Spares trail place) : linear.Fits trail place :=
  fun _ inside _ opened => spares.above coherent inside (by omega) opened

/-- **One more literal is handled**, one of the present level: below that level it does not count,
and from there on the sum has been checked, provided that it mentions the literal. -/
theorem Fits.step (coherent : trail.Coherent) (fits : linear.Fits trail place) {literal : Literal}
    (queued : trail.queue[place]? = some literal)
    (present : ∀ entry, trail.Records literal entry → entry.level = trail.level)
    (checked : literal ∈ linear.terms.map Prod.snd → linear.Spares trail (place + 1)) :
    linear.Fits trail (place + 1) := by
  intro term inside level opened
  by_cases late : literal ∈ linear.terms.map Prod.snd ∧ trail.level ≤ level
  · exact (checked late.1).above coherent inside late.2 opened
  · refine Nat.le_trans (Nat.add_le_add_left (passedWeight_le fun other member counted => ?_) _)
      (fits term inside level opened)
    obtain ⟨entry, records, early, low⟩ := Solver.trueUpTo_iff.mp counted
    by_cases here : entry.position = place
    · -- Then the term is the literal, of the present level.
      have same := coherent.queue_of_records records
      rw [here, queued] at same
      cases Option.some.inj same
      have height := present entry records
      exact absurd ⟨List.mem_map_of_mem member, by omega⟩ late
    · exact Solver.trueUpTo_iff.mpr ⟨entry, records, by omega, low⟩

end Linear

/-! ### All sums of a solver -/

/-- A constraint that the trail violates: all literals of a clause are false, or the true terms of a
sum weigh more than its bound. -/
def Stored.Violated (trail : Trail) : Stored → Prop
  | .clause literals => ∀ literal ∈ literals, trail.isFalse literal = true
  | .sum linear => linear.bound < Solver.decidedWeight trail linear.terms

namespace Trail

/-- A literal is decided once it has been made true, by this decision or an earlier one. -/
theorem record?_push_ne_none (trail : Trail) (literal : Literal) (reason : Option ConstraintId) :
    (trail.push literal reason).record? literal.atom ≠ none := by
  cases before : trail.record? literal.atom with
  | some entry =>
    rw [push_of_decided reason before, record?_makeRoom, before]
    exact Option.some_ne_none entry
  | none =>
    rw [record?_push reason before, if_pos rfl]
    exact Option.some_ne_none _

/-- Records stay under a decision. -/
theorem record?_push_of_some {trail : Trail} (literal : Literal) (reason : Option ConstraintId)
    (atom : Nat) (entry : Entry) (found : trail.record? atom = some entry) :
    (trail.push literal reason).record? atom = some entry := by
  have records : trail.Records ⟨atom, entry.positive⟩ entry := ⟨found, rfl⟩
  exact (records.push literal reason).1

end Trail

namespace Solver

variable {solver old new : Solver} {place : Nat}

/-- **What is open fits into every stored sum.** -/
def Fitting (place : Nat) (solver : Solver) : Prop :=
  ∀ (id : ConstraintId) (linear : Linear), solver.constraints[id]? = some (.sum linear) →
    linear.Fits solver.trail place

/-- The constraint is violated, and one of its literals was decided at the present level. -/
def Violates (solver : Solver) (id : ConstraintId) : Prop :=
  ∃ stored, solver.constraints[id]? = some stored ∧ stored.Violated solver.trail ∧
    ∃ literal ∈ stored.literals, solver.trail.level? literal = some solver.trail.level

/-- What fits depends on the sums and the records alone. -/
theorem Fitting.grow (fitting : old.Fitting place)
    (sums : ∀ (id : ConstraintId) (linear : Linear), new.constraints[id]? = some (.sum linear) →
      old.constraints[id]? = some (.sum linear))
    (kept : ∀ atom entry, old.trail.record? atom = some entry →
      new.trail.record? atom = some entry)
    (agrees : Trail.Agrees place old.trail new.trail) : new.Fitting place :=
  fun id linear found => (fitting id linear (sums id linear found)).grow kept agrees

/-- A reordered solver has the sums of the old one. -/
theorem Reorders.sum (reorders : Reorders old new) (id : ConstraintId) (linear : Linear)
    (found : new.constraints[id]? = some (.sum linear)) :
    old.constraints[id]? = some (.sum linear) := by
  obtain ⟨original, before, same⟩ := reorders.same id _ found
  cases original with
  | clause literals => exact same.elim
  | sum other => rw [before, show other = linear from same]

/-- Propagation does not disturb what fits. -/
theorem Advance.fitting (advance : Advance old new) (within : place ≤ old.trail.length)
    (fitting : old.Fitting place) : new.Fitting place :=
  fitting.grow advance.reorders.sum advance.kept
    fun atom entry early => advance.agrees atom entry (Nat.lt_of_lt_of_le early within)

/-- A decision does not disturb what fits. -/
theorem Fitting.push (fitting : solver.Fitting place) (within : place ≤ solver.trail.length)
    {literal : Literal} (reason : Option ConstraintId)
    (undecided : solver.trail.record? literal.atom = none) :
    (solver.push literal reason).Fitting place :=
  fitting.grow (fun _ _ found => found) (Trail.record?_push_of_some literal reason)
    fun atom entry early =>
      Trail.agrees_push reason undecided atom entry (Nat.lt_of_lt_of_le early within)

theorem Fitting.backtrack (coherent : solver.trail.Coherent) (fitting : solver.Fitting place)
    (level : Nat) {after : Nat} (within : after ≤ place) :
    (solver.backtrack level).Fitting after :=
  fun id linear found => (fitting id linear found).revertTo coherent level within

/-! ### Checking sums -/

/-- All literals that no longer fit are decided. -/
theorem record?_pushAll (id : ConstraintId) (literals : List Literal) (solver : Solver) :
    (∀ atom entry, solver.trail.record? atom = some entry →
      (pushAll id literals solver).trail.record? atom = some entry) ∧
    ∀ literal ∈ literals, (pushAll id literals solver).trail.record? literal.atom ≠ none := by
  induction literals generalizing solver with
  | nil => exact ⟨fun _ _ found => found, fun _ inside => absurd inside List.not_mem_nil⟩
  | cons head rest ih =>
    obtain ⟨kept, decided⟩ := ih (solver.push (-head) id)
    refine ⟨fun atom entry found =>
      kept atom entry (Trail.record?_push_of_some _ _ atom entry found), fun literal inside => ?_⟩
    rcases List.mem_cons.mp inside with rfl | later
    · obtain ⟨entry, found⟩ := Option.ne_none_iff_exists'.mp
        (Trail.record?_push_ne_none solver.trail (-literal) (some id))
      have still : (pushAll id (literal :: rest) solver).trail.record? literal.atom = some entry :=
        kept _ entry found
      rw [still]
      exact Option.some_ne_none entry
    · exact decided literal later

/-- **What a check of a sum leaves undecided fits.** -/
theorem checkSum_spares {done : Nat} (core : solver.Core done) {id : ConstraintId} {linear : Linear}
    (found : solver.constraints[id]? = some (.sum linear))
    (passed : (solver.checkSum id).1 = true) (within : place ≤ solver.trail.length) :
    linear.Spares (solver.checkSum id).2.trail place := by
  have progress := (checkSum_spec core id).1
  rw [checkSum_eq found] at passed progress ⊢
  by_cases exceeds : linear.bound < decidedWeight solver.trail linear.terms
  · rw [if_pos exceeds] at passed
    cases passed
  · rw [if_neg exceeds] at progress ⊢
    intro term inside undecided
    generalize forced_def : tooHeavy solver.trail
      (linear.bound - decidedWeight solver.trail linear.terms) linear.terms = forced
      at progress undecided ⊢
    obtain ⟨kept, decided⟩ := record?_pushAll id forced solver
    have light : term.1 + decidedWeight solver.trail linear.terms ≤ linear.bound := by
      by_contra heavy
      refine decided term.2 ?_ undecided
      rw [← forced_def]
      refine mem_tooHeavy.mpr ⟨term.1, inside, by omega, ?_⟩
      rw [Option.eq_none_iff_forall_not_mem]
      intro entry before
      dsimp only at undecided
      rw [kept _ entry before] at undecided
      cases undecided
    refine Nat.le_trans (Nat.add_le_add_left (passedWeight_le fun other _ counted => ?_) _) light
    obtain ⟨entry, records, early⟩ := trueBefore_iff.mp counted
    have before := (progress.toAdvance.agrees _ entry (by omega)).mpr records.1
    exact Trail.isTrue_iff.mpr ⟨entry, before, records.2⟩

/-- **Checking sums in turn leaves only what fits into each of them.** -/
theorem checkSums_spares {done : Nat} (ids : List ConstraintId) (solver : Solver)
    (core : solver.Core done) (within : place ≤ solver.trail.length)
    (passed : (checkSums ids solver).1 = none) :
    ∀ id ∈ ids, ∀ linear, solver.constraints[id]? = some (.sum linear) →
      linear.Spares (checkSums ids solver).2.trail place := by
  induction ids generalizing solver with
  | nil => exact fun _ inside => absurd inside List.not_mem_nil
  | cons id rest ih =>
    have checked := checkSum_spec core id
    have fits : ∀ linear, solver.constraints[id]? = some (.sum linear) →
        (solver.checkSum id).1 = true → linear.Spares (solver.checkSum id).2.trail place :=
      fun _ found allowed => checkSum_spares core found allowed within
    unfold checkSums at passed ⊢
    generalize solver.checkSum id = result at checked fits passed
    obtain ⟨verdict, next⟩ := result
    obtain ⟨progress, core', constraints, _, _⟩ := checked
    cases verdict with
    | false => cases passed
    | true =>
      dsimp only at passed progress core' constraints fits ⊢
      have later := checkSums_spec rest next core'
      have within' : place ≤ next.trail.length :=
        Nat.le_trans within progress.toAdvance.length
      intro other inside linear found
      rcases List.mem_cons.mp inside with rfl | member
      · exact (fits linear found rfl).grow later.1.toAdvance.kept fun atom entry early =>
          later.1.toAdvance.agrees atom entry (Nat.lt_of_lt_of_le early within')
      · exact ih next core' within' passed other member linear
          (by rw [constraints]; exact found)

/-! ### The queue -/

/-- What is known of the terms after propagation, by its result. -/
def Weighed (before after : Nat) (solver : Solver) : Option ConstraintId → Prop
  | none => solver.Fitting after
  | some conflict => solver.Fitting before ∧ solver.Violates conflict

/-- A sum is listed for the literals of its terms. -/
theorem Attached.mem_mentioning (attached : solver.Attached solver.watches.watching)
    {id : ConstraintId} {linear : Linear} {literal : Literal}
    (found : solver.constraints[id]? = some (.sum linear)) :
    id ∈ solver.watches.mentioning literal ↔ literal ∈ linear.terms.map Prod.snd := by
  rw [attached.mentioned]
  constructor
  · rintro ⟨other, there, member⟩
    rw [found] at there
    cases there
    exact member
  · exact fun member => ⟨linear, found, member⟩

/-- Once the clauses have been visited, checking the sums that mention a literal handles it. -/
theorem checkSums_weighed {done : Nat} (core : solver.Core done)
    (attached : solver.Attached solver.watches.watching) {literal : Literal} {entry : Entry}
    (records : solver.trail.Records literal entry) (here : entry.position = done)
    (present : entry.level = solver.trail.level) (fitting : solver.Fitting done) :
    (checkSums (solver.watches.mentioning literal) solver).2.Weighed done (done + 1)
      (checkSums (solver.watches.mentioning literal) solver).1 := by
  have inside := core.grounded.coherent.position_lt records.1
  obtain ⟨progress, core', constraints, _, outcome⟩ :=
    checkSums_spec (solver.watches.mentioning literal) solver core
  have spares := checkSums_spares (solver.watches.mentioning literal) solver core
    (show done + 1 ≤ solver.trail.length by omega)
  generalize checkSums (solver.watches.mentioning literal) solver = result
    at progress core' constraints outcome spares
  obtain ⟨conflict, final⟩ := result
  dsimp only at progress core' constraints outcome spares ⊢
  have fitting' : final.Fitting done := progress.toAdvance.fitting (by omega) fitting
  have records' := progress.toAdvance.records records
  have present' : entry.level = final.trail.level := by
    rw [progress.toAdvance.level]
    exact present
  cases conflict with
  | some conflict =>
    obtain ⟨listed, linear, found, exceeds⟩ := outcome
    refine ⟨fitting', .sum linear, found, exceeds, literal, ?_, ?_⟩
    · rw [constraints] at found
      exact (attached.mem_mentioning found).mp listed
    · unfold Trail.level?
      rw [records'.1, Option.map_some, present']
  | none =>
    have placed := core'.grounded.coherent.queue_of_records records'
    rw [here] at placed
    intro id linear found
    refine (fitting' id linear found).step core'.grounded.coherent placed
      (fun other recorded => ?_) fun member => ?_
    · rw [recorded.unique records']
      exact present'
    · rw [constraints] at found
      exact spares rfl id ((attached.mem_mentioning found).mpr member) linear found

/-- **Handling one literal of the queue keeps what fits, or finds a violated constraint.** -/
theorem propagateLiteral_weighed {done : Nat} (core : solver.Core done)
    (attached : solver.Attached solver.watches.watching) {literal : Literal}
    (queued : solver.trail.queue[done]? = some literal) (fitting : solver.Fitting done) :
    (solver.propagateLiteral literal).2.Weighed done (done + 1)
      (solver.propagateLiteral literal).1 := by
  obtain ⟨entry, records, here⟩ := core.grounded.coherent.recorded done literal queued
  have inside := core.grounded.coherent.position_lt records.1
  have present := core.settled.fresh _ entry records.1 (by omega)
  have isFalse : solver.trail.isFalse (-literal) = true := by
    rw [Trail.isFalse_eq, Literal.neg_neg]
    exact Trail.isTrue_iff.mpr ⟨entry, records⟩
  obtain ⟨progress, core', attached', outcome⟩ := propagateClauses_spec core attached isFalse
  unfold propagateLiteral
  generalize solver.propagateClauses (-literal) = result at progress core' attached' outcome
  obtain ⟨conflict, middle⟩ := result
  dsimp only at progress core' attached' outcome ⊢
  have records' := progress.toAdvance.records records
  have fitting' : middle.Fitting done := progress.toAdvance.fitting (by omega) fitting
  have present' : entry.level = middle.trail.level := by
    rw [progress.toAdvance.level]
    exact present
  cases conflict with
  | some conflict =>
    obtain ⟨literals, found, member, allFalse⟩ := outcome
    refine ⟨fitting', .clause literals, found, allFalse, -literal, member, ?_⟩
    unfold Trail.level?
    rw [Literal.neg_atom, records'.1, Option.map_some, present']
  | none => exact checkSums_weighed core' attached' records' here present' fitting'

/-- What is known of the terms after the whole queue, or up to a conflict. -/
def Balanced (solver : Solver) : Option ConstraintId → Prop
  | none => solver.Fitting solver.frontier
  | some conflict => ∃ done, solver.frontier = done + 1 ∧ solver.Fitting done ∧
      solver.Violates conflict

/-- The step of the run: with each literal, what has been handled fits. -/
theorem propagateSteps_fits (steps : Nat) (solver : Solver) (core : solver.Core solver.frontier)
    (attached : solver.Attached solver.watches.watching)
    (fitting : solver.Fitting solver.frontier) :
    (propagateSteps steps solver).2.Balanced (propagateSteps steps solver).1 := by
  induction steps generalizing solver with
  | zero => exact fitting
  | succ steps ih =>
    unfold propagateSteps
    cases queued : solver.trail.queue[solver.frontier]? with
    | none => exact fitting
    | some literal =>
      have passed : solver.passFrontier.Core solver.frontier := core.congr rfl rfl rfl rfl rfl
      have passing : solver.passFrontier.Attached solver.passFrontier.watches.watching :=
        attached.congr rfl fun _ => rfl
      have weighed := propagateLiteral_weighed passed passing queued fitting
      obtain ⟨progress, attached', drawn⟩ := propagateLiteral_spec passed passing queued
      dsimp only
      generalize solver.passFrontier.propagateLiteral literal = result
        at weighed progress attached' drawn
      obtain ⟨conflict, next⟩ := result
      have frontier : next.frontier = solver.frontier + 1 := progress.frontier
      cases conflict with
      | some conflict => exact ⟨solver.frontier, frontier, weighed.1, weighed.2⟩
      | none =>
        refine ih next ?_ attached' ?_
        · rw [frontier]
          exact drawn
        · rw [frontier]
          exact weighed

/-- **Propagation leaves what fits, or finds a violated constraint.** -/
theorem propagate_fits (core : solver.Core solver.frontier)
    (attached : solver.Attached solver.watches.watching)
    (fitting : solver.Fitting solver.frontier) :
    solver.propagate.2.Balanced solver.propagate.1 :=
  propagateSteps_fits _ solver core attached fitting

end Solver

end Loadout
