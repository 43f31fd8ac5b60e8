/-
**Propagation keeps the invariants and misses no consequence.**

* `checkSum_spec`: a bounded sum forces every literal that no longer fits, and is in conflict when
  its true terms exceed the bound.
* `propagateLiteral_spec`: after one literal of the queue has been handled, the place behind it is
  settled; otherwise some constraint is in conflict with the trail (`Conflicting`).
* **`propagate_spec`**: without a conflict the whole queue is settled. The room of the trail bounds
  the number of steps, since no more literals are decided than have room.
-/

import Loadout.Proofs.Search.Visits

namespace Loadout

namespace Solver

variable {solver : Solver} {done : Nat}

/-! ### Bounded sums -/

theorem decidedWeight_eq (trail : Trail) (terms : List (Nat × Literal)) :
    decidedWeight trail terms = passedWeight trail.isTrue terms := rfl

theorem mem_tooHeavy {trail : Trail} {slack : Nat} {terms : List (Nat × Literal)}
    {literal : Literal} :
    literal ∈ tooHeavy trail slack terms ↔
      ∃ weight, (weight, literal) ∈ terms ∧ slack < weight ∧
        trail.record? literal.atom = none := by
  unfold tooHeavy
  simp only [List.mem_map, List.mem_filter, Bool.and_eq_true, decide_eq_true_iff,
    Option.isNone_iff_eq_none, Trail.value?_eq_none_iff]
  constructor
  · rintro ⟨⟨weight, other⟩, ⟨inside, heavy, undecided⟩, rfl⟩
    exact ⟨weight, inside, heavy, undecided⟩
  · rintro ⟨weight, inside, heavy, undecided⟩
    exact ⟨(weight, literal), ⟨inside, heavy, undecided⟩, rfl⟩

/-- Deciding literals against one bounded sum. -/
def pushAll (id : ConstraintId) (literals : List Literal) (solver : Solver) : Solver :=
  literals.foldl (fun solver literal => solver.push (-literal) id) solver

/-- **The literals that no longer fit into a sum are forced to be false.** -/
theorem pushAll_spec {id : ConstraintId} {linear : Linear} (literals : List Literal)
    (solver : Solver) (core : solver.Core done)
    (found : solver.constraints[id]? = some (.sum linear))
    (heavy : ∀ literal ∈ literals, ∃ weight, (weight, literal) ∈ linear.terms ∧
      linear.bound < weight + passedWeight solver.trail.isTrue linear.terms) :
    Progress solver (pushAll id literals solver) ∧ (pushAll id literals solver).Core done ∧
      (pushAll id literals solver).constraints = solver.constraints ∧
      (pushAll id literals solver).watches = solver.watches := by
  induction literals generalizing solver with
  | nil => exact ⟨Progress.refl solver, core, rfl, rfl⟩
  | cons literal rest ih =>
    obtain ⟨weight, inside, exceeds⟩ := heavy literal List.mem_cons_self
    have uses : solver.Uses (-literal) :=
      core.grounded.stored id _ found literal (List.mem_map_of_mem inside)
    have progress := Progress.push core.grounded uses id
    have pushed : (solver.push (-literal) id).Core done := by
      refine core.push uses found fun undecided => ⟨?_, weight, ?_, ?_⟩
      · rw [Literal.neg_neg, trueBefore_length core.grounded.coherent]
        by_contra known
        obtain ⟨entry, records, _⟩ := Trail.isTrue_iff.mp (by simpa using known)
        rw [Literal.neg_atom, records] at undecided
        cases undecided
      · rw [Literal.neg_neg]
        exact inside
      · rw [show trueBefore solver.trail (some solver.trail.length) = solver.trail.isTrue from
          funext (trueBefore_length core.grounded.coherent)]
        exact exceeds
    obtain ⟨progress', core', constraints, watches⟩ :=
      ih (solver.push (-literal) id) pushed found fun other member => by
        obtain ⟨weight, inside, exceeds⟩ := heavy other (List.mem_cons_of_mem _ member)
        refine ⟨weight, inside, Nat.lt_of_lt_of_le exceeds (Nat.add_le_add_left ?_ _)⟩
        exact passedWeight_le fun term _ passes => progress.toAdvance.isTrue passes
    exact ⟨progress.trans progress', core', constraints, watches⟩

/-- The true terms of the bounded sum exceed its bound. -/
def Exceeded (solver : Solver) (id : ConstraintId) : Prop :=
  ∃ linear, solver.constraints[id]? = some (.sum linear) ∧
    linear.bound < passedWeight solver.trail.isTrue linear.terms

theorem checkSum_eq {id : ConstraintId} {linear : Linear}
    (found : solver.constraints[id]? = some (.sum linear)) :
    solver.checkSum id =
      if linear.bound < decidedWeight solver.trail linear.terms then (false, solver)
      else (true, pushAll id (tooHeavy solver.trail
        (linear.bound - decidedWeight solver.trail linear.terms) linear.terms) solver) := by
  unfold checkSum
  rw [found]
  rfl

/-- A constraint that is no sum has nothing to check. -/
theorem checkSum_of_no_sum {id : ConstraintId}
    (absent : ∀ linear, solver.constraints[id]? ≠ some (.sum linear)) :
    solver.checkSum id = (true, solver) := by
  unfold checkSum
  split
  · next linear found => exact absurd found (absent linear)
  · rfl

/-- **A check of a bounded sum keeps the invariants.** -/
theorem checkSum_spec (core : solver.Core done) (id : ConstraintId) :
    Progress solver (solver.checkSum id).2 ∧ (solver.checkSum id).2.Core done ∧
      (solver.checkSum id).2.constraints = solver.constraints ∧
      (solver.checkSum id).2.watches = solver.watches ∧
      match (solver.checkSum id).1 with
      | true => ∀ linear, solver.constraints[id]? = some (.sum linear) →
          passedWeight solver.trail.isTrue linear.terms ≤ linear.bound
      | false => (solver.checkSum id).2 = solver ∧ solver.Exceeded id := by
  by_cases found : ∃ linear, solver.constraints[id]? = some (.sum linear)
  · obtain ⟨linear, found⟩ := found
    rw [checkSum_eq found]
    by_cases exceeds : linear.bound < decidedWeight solver.trail linear.terms
    · rw [if_pos exceeds]
      exact ⟨Progress.refl solver, core, rfl, rfl, rfl, linear, found, exceeds⟩
    · rw [if_neg exceeds]
      obtain ⟨progress, core', constraints, watches⟩ := pushAll_spec
        (tooHeavy solver.trail (linear.bound - decidedWeight solver.trail linear.terms)
          linear.terms) solver core found fun literal inside => by
            obtain ⟨weight, member, heavy, _⟩ := mem_tooHeavy.mp inside
            refine ⟨weight, member, ?_⟩
            rw [← decidedWeight_eq]
            omega
      refine ⟨progress, core', constraints, watches, fun other same => ?_⟩
      rw [found] at same
      cases same
      exact Nat.le_of_not_lt exceeds
  · have absent : ∀ linear, solver.constraints[id]? ≠ some (.sum linear) :=
      fun linear there => found ⟨linear, there⟩
    rw [checkSum_of_no_sum absent]
    exact ⟨Progress.refl solver, core, rfl, rfl, fun linear there => absurd there (absent linear)⟩

/-- **Checking bounded sums in turn keeps the invariants**, and without a conflict no sum exceeds
its bound by literals that were decided beforehand. -/
theorem checkSums_spec (ids : List ConstraintId) (solver : Solver) (core : solver.Core done) :
    Progress solver (checkSums ids solver).2 ∧ (checkSums ids solver).2.Core done ∧
      (checkSums ids solver).2.constraints = solver.constraints ∧
      (checkSums ids solver).2.watches = solver.watches ∧
      match (checkSums ids solver).1 with
      | none => ∀ id ∈ ids, ∀ linear, solver.constraints[id]? = some (.sum linear) →
          passedWeight solver.trail.isTrue linear.terms ≤ linear.bound
      | some conflict => conflict ∈ ids ∧ (checkSums ids solver).2.Exceeded conflict := by
  induction ids generalizing solver with
  | nil => exact ⟨Progress.refl solver, core, rfl, rfl, fun id inside => by cases inside⟩
  | cons id rest ih =>
    have checked := checkSum_spec core id
    unfold checkSums
    generalize solver.checkSum id = result at checked
    obtain ⟨fits, next⟩ := result
    obtain ⟨progress, core', constraints, watches, outcome⟩ := checked
    cases fits with
    | false =>
      obtain ⟨rfl, exceeded⟩ := outcome
      exact ⟨progress, core', rfl, rfl, List.mem_cons_self, exceeded⟩
    | true =>
      obtain ⟨progress', core'', constraints', watches', outcome'⟩ := ih next core'
      refine ⟨progress.trans progress', core'', constraints'.trans constraints,
        watches'.trans watches, ?_⟩
      dsimp only
      generalize checkSums rest next = final at outcome'
      obtain ⟨conflict, last⟩ := final
      cases conflict with
      | some conflict => exact ⟨List.mem_cons_of_mem _ outcome'.1, outcome'.2⟩
      | none =>
        intro other inside linear found
        rcases List.mem_cons.mp inside with here | later
        · exact outcome linear (by rw [← here]; exact found)
        · have fits' := outcome' other later linear (by rw [constraints]; exact found)
          refine Nat.le_trans (passedWeight_le fun term _ passes => ?_) fits'
          exact progress.toAdvance.isTrue passes

/-! ### One literal -/

/-- **A constraint is in conflict with the trail**: it asks for one of some literals that are all
false, and one of them has become so at the present level. -/
structure Conflicting (solver : Solver) (id : ConstraintId) : Prop where
  isFalse : ∀ literal ∈ solver.conflictLiterals id, solver.trail.isFalse literal = true
  implied : ∀ assignment, solver.Satisfies assignment →
    ∃ literal ∈ solver.conflictLiterals id, literal.holds assignment = true
  late : ∃ literal ∈ solver.conflictLiterals id, ∃ entry,
    solver.trail.Records (-literal) entry ∧ entry.level = solver.trail.level

/-- A clause of false literals is in conflict. -/
theorem AllFalse.conflicting {id : ConstraintId} {among : Literal}
    (allFalse : solver.AllFalse id among) {entry : Entry}
    (records : solver.trail.Records (-among) entry)
    (present : entry.level = solver.trail.level) : solver.Conflicting id := by
  obtain ⟨literals, found, inside, isFalse⟩ := allFalse
  have same : solver.conflictLiterals id = literals := by
    unfold conflictLiterals
    rw [found]
  refine ⟨?_, fun assignment satisfied => ?_, ?_⟩
  · rw [same]
    exact isFalse
  · rw [same]
    exact List.any_eq_true.mp (satisfied id _ found)
  · rw [same]
    exact ⟨among, inside, entry, records, present⟩

/-- A sum above its bound is in conflict. -/
theorem Exceeded.conflicting {id : ConstraintId} (exceeded : solver.Exceeded id)
    {literal : Literal} {entry : Entry} (records : solver.trail.Records literal entry)
    (present : entry.level = solver.trail.level)
    (mentioned : ∀ linear, solver.constraints[id]? = some (.sum linear) →
      literal ∈ linear.terms.map Prod.snd) : solver.Conflicting id := by
  obtain ⟨linear, found, exceeds⟩ := exceeded
  have same : solver.conflictLiterals id =
      (linear.terms.filter fun term => solver.trail.isTrue term.2).map fun term => -term.2 := by
    unfold conflictLiterals
    rw [found]
  refine ⟨fun other inside => ?_, fun assignment satisfied => ?_, ?_⟩
  · rw [same] at inside
    obtain ⟨term, member, rfl⟩ := List.mem_map.mp inside
    rw [Trail.isFalse_eq, Literal.neg_neg]
    exact (List.mem_filter.mp member).2
  · by_contra none'
    -- All true terms would hold, so that the sum would be above its bound.
    have within : passedWeight (Literal.holds assignment) linear.terms ≤ linear.bound :=
      of_decide_eq_true (satisfied id _ found)
    have below : passedWeight solver.trail.isTrue linear.terms ≤
        passedWeight (Literal.holds assignment) linear.terms := by
      refine passedWeight_le fun term inside isTrue => ?_
      by_contra fails
      refine none' ⟨-term.2, ?_, ?_⟩
      · rw [same]
        exact List.mem_map.mpr ⟨term, List.mem_filter.mpr ⟨inside, isTrue⟩, rfl⟩
      · rw [Literal.holds_neg]
        simpa using fails
    omega
  · obtain ⟨term, inside, rfl⟩ := List.mem_map.mp (mentioned linear found)
    refine ⟨-term.2, ?_, entry, ?_, present⟩
    · rw [same]
      exact List.mem_map.mpr ⟨term, List.mem_filter.mpr
        ⟨inside, Trail.isTrue_iff.mpr ⟨entry, records⟩⟩, rfl⟩
    · rw [Literal.neg_neg]
      exact records

/-- A test before the next place counts the literal of this place in addition. -/
theorem trueBefore_succ {trail : Trail} (coherent : trail.Coherent) {place : Nat}
    {literal other : Literal} (queued : trail.queue[place]? = some literal)
    (before : trueBefore trail (some (place + 1)) other = true) :
    trueBefore trail (some place) other = true ∨ other = literal := by
  obtain ⟨entry, records, early⟩ := trueBefore_iff.mp before
  by_cases here : entry.position = place
  · have same := coherent.queue_of_records records
    rw [here, queued] at same
    exact Or.inr (Option.some.inj same).symm
  · exact Or.inl (trueBefore_iff.mpr ⟨entry, records, by omega⟩)

/-- **One more place is settled** once every clause that watches the opposite of its literal has a
true literal and every sum that mentions the literal is within its bound. -/
theorem Settled.step (grounded : solver.Grounded) (settled : solver.Settled done)
    (attached : solver.Attached solver.watches.watching) {literal : Literal}
    (queued : solver.trail.queue[done]? = some literal)
    (clauses : ∀ node ∈ solver.watches.watching (-literal), solver.HasTrue node.constraint)
    (sums : ∀ id ∈ solver.watches.mentioning literal, ∀ linear,
      solver.constraints[id]? = some (.sum linear) →
        passedWeight (trueBefore solver.trail (some (done + 1))) linear.terms ≤ linear.bound) :
    solver.Settled (done + 1) where
  nonempty := settled.nonempty
  unit := settled.unit
  clause id first second rest found watched side entry records early := by
    by_cases before : entry.position < done
    · exact settled.clause id first second rest found watched side entry records before
    · have here : entry.position = done := by omega
      have same := grounded.coherent.queue_of_records records
      rw [here, queued] at same
      have opposite : watched = -literal := by
        rw [Option.some.inj same, Literal.neg_neg]
      obtain ⟨node, listed, rfl⟩ := attached.watched id first second rest found watched side
      obtain ⟨literals, there, other, inside, isTrue⟩ :=
        clauses node (by rw [← opposite]; exact listed)
      rw [found] at there
      cases there
      obtain ⟨witness, recorded⟩ := Trail.isTrue_iff.mp isTrue
      have present := settled.fresh _ entry records.1 (by omega)
      have within := (grounded.coherent.levelled _ witness recorded.1).1
      exact ⟨other, inside, witness, recorded, by omega⟩
  sum id linear found := by
    by_cases mentioned : literal ∈ linear.terms.map Prod.snd
    · exact sums id ((attached.mentioned id literal).mpr ⟨linear, found, mentioned⟩) linear found
    · refine Nat.le_trans (passedWeight_le fun term inside before => ?_)
        (settled.sum id linear found)
      rcases trueBefore_succ grounded.coherent queued before with earlier | here
      · exact earlier
      · exact absurd (here ▸ List.mem_map_of_mem inside) mentioned
  fresh atom entry recorded late := settled.fresh atom entry recorded (by omega)
  within := (Array.getElem?_eq_some_iff.mp queued).1

/-- What is known after propagation, by its result: how far the queue is settled, or that a
constraint is in conflict. -/
def Drawn (before after : Nat) (solver : Solver) : Option ConstraintId → Prop
  | none => solver.Core after
  | some conflict => solver.Core before ∧ solver.Conflicting conflict

/-- **Once every clause that watches the opposite of a literal has a true literal**, checking the
sums that mention the literal settles the place behind it, or finds a conflict. -/
theorem checkSums_drawn (core : solver.Core done)
    (attached : solver.Attached solver.watches.watching) {literal : Literal} {entry : Entry}
    (records : solver.trail.Records literal entry) (here : entry.position = done)
    (present : entry.level = solver.trail.level)
    (handled : ∀ node ∈ solver.watches.watching (-literal), solver.HasTrue node.constraint) :
    Progress solver (checkSums (solver.watches.mentioning literal) solver).2 ∧
      (checkSums (solver.watches.mentioning literal) solver).2.Attached
        (checkSums (solver.watches.mentioning literal) solver).2.watches.watching ∧
      (checkSums (solver.watches.mentioning literal) solver).2.Drawn done (done + 1)
        (checkSums (solver.watches.mentioning literal) solver).1 := by
  have inside := core.grounded.coherent.position_lt records.1
  have sums := checkSums_spec (solver.watches.mentioning literal) solver core
  generalize checkSums (solver.watches.mentioning literal) solver = result at sums
  obtain ⟨conflict, final⟩ := result
  obtain ⟨progress, core', constraints, watches, outcome⟩ := sums
  dsimp only at outcome progress constraints watches core' ⊢
  have attached' : final.Attached final.watches.watching := by
    rw [watches]
    exact attached.congr constraints fun _ => by rw [watches]
  have records' := progress.toAdvance.records records
  refine ⟨progress, attached', ?_⟩
  cases conflict with
  | some conflict =>
    refine ⟨core', outcome.2.conflicting records' ?_ fun linear found => ?_⟩
    · rw [progress.toAdvance.level]
      exact present
    · rw [constraints] at found
      obtain ⟨other, there, member⟩ := (attached.mentioned conflict literal).mp outcome.1
      rw [found] at there
      cases there
      exact member
  | none =>
    have placed := core'.grounded.coherent.queue_of_records records'
    rw [here] at placed
    refine ⟨core'.grounded, core'.supported,
      core'.settled.step core'.grounded attached' placed ?_ ?_⟩
    · intro node listed
      rw [watches] at listed
      exact (handled node listed).advance progress.toAdvance
    · intro id listed linear found
      rw [constraints] at found
      rw [watches] at listed
      refine Nat.le_trans (passedWeight_le fun term _ before => ?_)
        (outcome id listed linear found)
      rw [← trueBefore_agrees progress.toAdvance.agrees (by omega)] at before
      obtain ⟨other, recorded, _⟩ := trueBefore_iff.mp before
      exact Trail.isTrue_iff.mpr ⟨other, recorded⟩

/-- **Handling one literal of the queue settles the place behind it, or finds a conflict.** -/
theorem propagateLiteral_spec (core : solver.Core done)
    (attached : solver.Attached solver.watches.watching) {literal : Literal}
    (queued : solver.trail.queue[done]? = some literal) :
    Progress solver (solver.propagateLiteral literal).2 ∧
      (solver.propagateLiteral literal).2.Attached
        (solver.propagateLiteral literal).2.watches.watching ∧
      (solver.propagateLiteral literal).2.Drawn done (done + 1)
        (solver.propagateLiteral literal).1 := by
  obtain ⟨entry, records, here⟩ := core.grounded.coherent.recorded done literal queued
  have present := core.settled.fresh _ entry records.1 (by omega)
  have isFalse : solver.trail.isFalse (-literal) = true := by
    rw [Trail.isFalse_eq, Literal.neg_neg]
    exact Trail.isTrue_iff.mpr ⟨entry, records⟩
  have clauses := propagateClauses_spec core attached isFalse
  unfold propagateLiteral
  generalize solver.propagateClauses (-literal) = result at clauses
  obtain ⟨conflict, middle⟩ := result
  obtain ⟨progress, core', attached', outcome⟩ := clauses
  have records' := progress.toAdvance.records records
  have present' : entry.level = middle.trail.level := by
    rw [progress.toAdvance.level]
    exact present
  cases conflict with
  | some conflict =>
    exact ⟨progress, attached', core',
      outcome.conflicting (by rw [Literal.neg_neg]; exact records') present'⟩
  | none =>
    obtain ⟨progress', rest⟩ := checkSums_drawn core' attached' records' here present' outcome
    exact ⟨progress.trans progress', rest⟩

/-! ### The queue -/

/-- Moving the frontier changes nothing that the constraints depend on. -/
theorem advance_passFrontier (solver : Solver) : Advance solver solver.passFrontier :=
  { Advance.refl solver with reorders := Reorders.of_eq rfl }

/-- What is known after the whole queue has been worked off, or up to a conflict. -/
def Exhausted (solver : Solver) : Option ConstraintId → Prop
  | none => solver.Core solver.frontier ∧ solver.frontier = solver.trail.length
  | some conflict => ∃ done, solver.frontier = done + 1 ∧ done < solver.trail.length ∧
      solver.Core done ∧ solver.Conflicting conflict

/-- The step of the run: some more places are settled with each literal. -/
theorem propagateSteps_spec (steps : Nat) (solver : Solver)
    (core : solver.Core solver.frontier) (attached : solver.Attached solver.watches.watching)
    (enough : solver.trail.room ≤ solver.frontier + steps) :
    Advance solver (propagateSteps steps solver).2 ∧
      (propagateSteps steps solver).2.Attached
        (propagateSteps steps solver).2.watches.watching ∧
      (propagateSteps steps solver).2.Exhausted (propagateSteps steps solver).1 := by
  have fits := core.grounded.coherent.length_le_room
  have within := core.settled.within
  induction steps generalizing solver with
  | zero =>
    have ended : solver.frontier = solver.trail.length := by omega
    exact ⟨Advance.refl solver, attached, core, ended⟩
  | succ steps ih =>
    unfold propagateSteps
    cases queued : solver.trail.queue[solver.frontier]? with
    | none =>
      have ended : solver.trail.length ≤ solver.frontier := Array.getElem?_eq_none_iff.mp queued
      exact ⟨Advance.refl solver, attached, core, Nat.le_antisymm within ended⟩
    | some literal =>
      have passed : solver.passFrontier.Core solver.frontier := core.congr rfl rfl rfl rfl rfl
      have handled := propagateLiteral_spec passed (attached.congr rfl fun _ => rfl) queued
      have inside : solver.frontier < solver.trail.length :=
        (Array.getElem?_eq_some_iff.mp queued).1
      dsimp only
      generalize solver.passFrontier.propagateLiteral literal = result at handled
      obtain ⟨conflict, next⟩ := result
      obtain ⟨progress, attached', drawn⟩ := handled
      have frontier : next.frontier = solver.frontier + 1 := progress.frontier
      have advance := (advance_passFrontier solver).trans progress.toAdvance
      have longer := advance.length
      cases conflict with
      | some conflict =>
        exact ⟨advance, attached', solver.frontier, frontier, by
          show solver.frontier < next.trail.length
          exact Nat.lt_of_lt_of_le inside longer, drawn.1, drawn.2⟩
      | none =>
        have core' : next.Core next.frontier := by
          rw [frontier]
          exact drawn
        have room := advance.room
        obtain ⟨advance', rest⟩ := ih next core' attached' (by
          dsimp only at room
          omega) core'.grounded.coherent.length_le_room core'.settled.within
        exact ⟨advance.trans advance', rest⟩

/-- **Propagation settles the whole queue or finds a constraint in conflict.** -/
theorem propagate_spec (core : solver.Core solver.frontier)
    (attached : solver.Attached solver.watches.watching) :
    Advance solver solver.propagate.2 ∧
      solver.propagate.2.Attached solver.propagate.2.watches.watching ∧
      solver.propagate.2.Exhausted solver.propagate.1 :=
  propagateSteps_spec _ solver core attached (by omega)

end Solver

end Loadout
