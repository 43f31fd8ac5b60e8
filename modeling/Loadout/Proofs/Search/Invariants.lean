/-
**What holds of a solver between any two steps of a search.**

A solver is asked for clauses and bounded sums (`Demand`). Four properties carry all results about
its answers; each speaks of its own part of the state.

* `Grounded`: the trail is coherent, and what is stored or decided names variables in use.
* `Supported`: a forced literal follows from its constraint and earlier literals; a literal without
  a reason opens a level.
* `Attached`: the watch lists hold exactly the clauses and sums that have to look at a literal.
* `Settled`: up to a place of the queue, no consequence was missed: a clause with a false watched
  literal has a literal that is true at no later level, and no sum is above its bound.

**`Supported.implied`**: an assignment that satisfies the stored constraints and the decisions up
to a level makes all literals up to that level true. **`Settled.satisfies`**: once everything is
decided and handled, the trail satisfies the stored constraints.
-/

import Loadout.Search.Conflict
import Loadout.Proofs.Search.Coherence
import Loadout.Proofs.Search.WatchLists
import Loadout.Proofs.Search.Weights

namespace Loadout

/-! ### Demands -/

/-- A constraint as it is asked of a solver. -/
inductive Demand
  /-- Some literal is true; void literals count as false. -/
  | clause (literals : List Literal)
  /-- A signed sum stays within its bound. -/
  | atMost (constraint : AtMost)
deriving DecidableEq, Repr

/-- Whether an assignment meets a demand. -/
def Demand.holds (assignment : Assignment) : Demand → Bool
  | .clause literals => literals.any fun literal => !literal.isVoid && literal.holds assignment
  | .atMost constraint => constraint.holds assignment

/-- An assignment meets all of some demands. -/
def Meets (demands : List Demand) (assignment : Assignment) : Prop :=
  ∀ demand ∈ demands, demand.holds assignment = true

theorem meets_append {demands : List Demand} {demand : Demand} {assignment : Assignment} :
    Meets (demands ++ [demand]) assignment ↔
      Meets demands assignment ∧ demand.holds assignment = true := by
  unfold Meets
  rw [List.forall_mem_append]
  simp

/-! ### Stored constraints -/

/-- The literals of a stored constraint. -/
def Stored.literals : Stored → List Literal
  | .clause literals => literals
  | .sum linear => linear.terms.map Prod.snd

/-- A constraint forces a literal by literals that were decided before a place: all others of a
clause are false, or one more term would exceed the bound of a sum. -/
def Stored.Forces (trail : Trail) (literal : Literal) (place : Nat) : Stored → Prop
  | .clause literals => literal ∈ literals ∧ ∀ other ∈ literals, other ≠ literal →
      Solver.trueBefore trail (some place) (-other) = true
  | .sum linear => Solver.trueBefore trail (some place) (-literal) = false ∧
      ∃ weight, (weight, -literal) ∈ linear.terms ∧
        linear.bound < weight + passedWeight (Solver.trueBefore trail (some place)) linear.terms

namespace Solver

/-- A literal was decided before a place when its record stands there. -/
theorem trueBefore_iff {trail : Trail} {place : Nat} {literal : Literal} :
    trueBefore trail (some place) literal = true ↔
      ∃ entry, trail.Records literal entry ∧ entry.position < place := by
  unfold trueBefore
  rw [Bool.and_eq_true, Trail.isTrue_iff]
  unfold Trail.position? Trail.Records
  cases trail.record? literal.atom with
  | none => simp
  | some entry => simp

/-- Without a place every true literal counts. -/
theorem trueBefore_length {trail : Trail} (coherent : trail.Coherent) (literal : Literal) :
    trueBefore trail (some trail.length) literal = trail.isTrue literal := by
  rw [Bool.eq_iff_iff, trueBefore_iff, Trail.isTrue_iff]
  exact ⟨fun ⟨entry, records, _⟩ => ⟨entry, records⟩,
    fun ⟨entry, records⟩ => ⟨entry, records, coherent.position_lt records.1⟩⟩

/-- An assignment satisfies every stored constraint. -/
def Satisfies (solver : Solver) (assignment : Assignment) : Prop :=
  ∀ (id : ConstraintId) (stored : Stored), solver.constraints[id]? = some stored →
    stored.holds assignment = true

/-- The variable of a literal is in use. -/
def Uses (solver : Solver) (literal : Literal) : Prop :=
  literal.atom ≠ 0 ∧ literal.atom ≤ solver.atomCount

/-! ### The invariants -/

/-- **The trail is coherent and all literals are in use.** -/
structure Grounded (solver : Solver) : Prop where
  coherent : solver.trail.Coherent
  /-- Variables in use have room everywhere. -/
  roomy : ∀ literal, solver.Uses literal → literal.atom < solver.trail.room ∧
    literal.atom < solver.marks.size ∧ literal.atom < solver.phases.size
  /-- Decided literals are in use. -/
  decided : ∀ literal, solver.trail.isTrue literal = true → solver.Uses literal
  /-- Stored literals are in use. -/
  stored : ∀ (id : ConstraintId) (stored : Stored), solver.constraints[id]? = some stored →
    ∀ literal ∈ stored.literals, solver.Uses literal
  /-- The variables of a clause are distinct. -/
  distinct : ∀ (id : ConstraintId) (literals : Clause),
    solver.constraints[id]? = some (.clause literals) → (literals.map Literal.atom).Nodup

/-- **Every decided literal has its support.** -/
structure Supported (solver : Solver) : Prop where
  /-- A forced literal is forced by its reason. -/
  forced : ∀ atom entry id, solver.trail.record? atom = some entry → entry.reason = some id →
    ∃ stored, solver.constraints[id]? = some stored ∧
      stored.Forces solver.trail ⟨atom, entry.positive⟩ entry.position
  /-- A literal without a reason is the first of its level. -/
  free : ∀ atom entry, solver.trail.record? atom = some entry → entry.reason = none →
    ∃ below, entry.level = below + 1 ∧ solver.trail.levelStarts[below]? = some entry.position

/-- **Some lists of watchers are those that the constraints ask for.** -/
structure Attached (watching : Literal → List WatchNode) (solver : Solver) : Prop where
  /-- A clause in the list of a literal watches it. -/
  watcher : ∀ literal, ∀ node ∈ watching literal, ∃ first second rest,
    solver.constraints[node.constraint]? = some (.clause (first :: second :: rest)) ∧
      (literal = first ∨ literal = second) ∧ node.blocker ∈ first :: second :: rest
  /-- A clause stands in the lists of its first two literals. -/
  watched : ∀ (id : ConstraintId) (first second : Literal) (rest : List Literal),
    solver.constraints[id]? = some (.clause (first :: second :: rest)) →
      ∀ literal, literal = first ∨ literal = second → ∃ node ∈ watching literal,
        node.constraint = id
  /-- No clause stands twice in one list. -/
  once : ∀ literal, ((watching literal).map WatchNode.constraint).Nodup
  /-- The sums in the list of a literal are those that mention it. -/
  mentioned : ∀ (id : ConstraintId) (literal : Literal),
    id ∈ solver.watches.mentioning literal ↔
      ∃ linear, solver.constraints[id]? = some (.sum linear) ∧
        literal ∈ linear.terms.map Prod.snd

/-- **All consequences of the literals before a place of the queue have been drawn.** -/
structure Settled (done : Nat) (solver : Solver) : Prop where
  /-- No stored clause is empty. -/
  nonempty : ∀ id : ConstraintId, solver.constraints[id]? ≠ some (.clause [])
  /-- The literal of a unit clause is true at level zero. -/
  unit : ∀ (id : ConstraintId) (literal : Literal),
    solver.constraints[id]? = some (.clause [literal]) →
      ∃ entry, solver.trail.Records literal entry ∧ entry.level = 0
  /-- A clause with a false watched literal has one that became true at no later level. -/
  clause : ∀ (id : ConstraintId) (first second : Literal) (rest : List Literal),
    solver.constraints[id]? = some (.clause (first :: second :: rest)) →
      ∀ literal, literal = first ∨ literal = second →
        ∀ entry, solver.trail.Records (-literal) entry → entry.position < done →
          ∃ other ∈ first :: second :: rest, ∃ witness,
            solver.trail.Records other witness ∧ witness.level ≤ entry.level
  /-- No sum is above its bound. -/
  sum : ∀ (id : ConstraintId) (linear : Linear),
    solver.constraints[id]? = some (.sum linear) →
      passedWeight (trueBefore solver.trail (some done)) linear.terms ≤ linear.bound
  /-- The literals that are still to be handled belong to the present level. -/
  fresh : ∀ atom entry, solver.trail.record? atom = some entry → done ≤ entry.position →
    entry.level = solver.trail.level
  /-- The place lies within the queue. -/
  within : done ≤ solver.trail.length

/-! ### Forced literals follow -/

end Solver

/-- **A constraint that forces a literal implies it**: where the earlier true literals hold, so does
the forced one. -/
theorem Stored.Forces.implies {trail : Trail} {literal : Literal} {place : Nat} {stored : Stored}
    (forces : stored.Forces trail literal place) {assignment : Assignment}
    (satisfied : stored.holds assignment = true)
    (earlier : ∀ other ∈ stored.literals, ∀ side, side = other ∨ side = -other →
      Solver.trueBefore trail (some place) side = true → side.holds assignment = true) :
    literal.holds assignment = true := by
  cases stored with
  | clause literals =>
    obtain ⟨inside, others⟩ := forces
    obtain ⟨other, member, isTrue⟩ := List.any_eq_true.mp satisfied
    by_cases same : other = literal
    · rw [← same]
      exact isTrue
    · have opposite := earlier other member (-other) (Or.inr rfl) (others other member same)
      rw [Literal.holds_neg, isTrue] at opposite
      cases opposite
  | sum linear =>
    obtain ⟨uncounted, weight, inside, exceeds⟩ := forces
    by_contra isFalse
    have opposite : (-literal).holds assignment = true := by
      rw [Literal.holds_neg]
      simpa using isFalse
    have within : passedWeight (Literal.holds assignment) linear.terms ≤ linear.bound :=
      of_decide_eq_true satisfied
    have below := passedWeight_add_le (Solver.trueBefore trail (some place))
      (Literal.holds assignment) inside uncounted opposite
      fun other member passes => earlier other.2 (List.mem_map_of_mem member) other.2
        (Or.inl rfl) passes
    simp only at below
    omega

namespace Solver

/-- **What is decided follows from the constraints and the decisions.** An assignment that satisfies
the stored constraints and all free decisions up to a level makes every literal up to that level
true. -/
theorem Supported.implied {solver : Solver} (grounded : solver.Grounded)
    (supported : solver.Supported) {assignment : Assignment}
    (satisfied : solver.Satisfies assignment) (level : Nat)
    (decisions : ∀ literal entry, solver.trail.Records literal entry → entry.reason = none →
      entry.level ≤ level → literal.holds assignment = true) :
    ∀ literal entry, solver.trail.Records literal entry → entry.level ≤ level →
      literal.holds assignment = true := by
  have coherent := grounded.coherent
  -- The induction is on the place in the queue: a reason only looks at earlier places.
  have general : ∀ place literal entry, entry.position = place →
      solver.trail.Records literal entry → entry.level ≤ level →
        literal.holds assignment = true := by
    intro place
    induction place using Nat.strongRecOn with
    | ind place ih =>
      intro literal entry here records low
      cases reason : entry.reason with
      | none => exact decisions literal entry records reason low
      | some id =>
        obtain ⟨stored, found, forces⟩ := supported.forced _ entry id records.1 reason
        rw [records.2] at forces
        refine forces.implies (satisfied id stored found) fun other _ side _ before => ?_
        obtain ⟨earlier, records', position⟩ := trueBefore_iff.mp before
        have lower := coherent.level_mono records'.1 records.1 (by omega)
        exact ih earlier.position (by omega) side earlier rfl records' (by omega)
  exact fun literal entry records low => general entry.position literal entry rfl records low

/-- What is decided at level zero follows from the constraints alone. -/
theorem Supported.fact {solver : Solver} (grounded : solver.Grounded)
    (supported : solver.Supported) {assignment : Assignment}
    (satisfied : solver.Satisfies assignment) {literal : Literal} {entry : Entry}
    (records : solver.trail.Records literal entry) (bottom : entry.level = 0) :
    literal.holds assignment = true := by
  refine supported.implied grounded satisfied 0 ?_ literal entry records (by omega)
  intro decided first recorded reasonless low
  obtain ⟨below, above, _⟩ := supported.free _ first recorded.1 reasonless
  omega

/-- An assignment has the values of a trail. -/
def Follows (trail : Trail) (assignment : Assignment) : Prop :=
  ∀ literal, trail.isTrue literal = true → literal.holds assignment = true

/-- A literal that is false on the trail is false under an assignment that follows it. -/
theorem Follows.of_isFalse {trail : Trail} {assignment : Assignment}
    (follows : Follows trail assignment) {literal : Literal}
    (isFalse : trail.isFalse literal = true) : literal.holds assignment = false := by
  have opposite := follows (-literal) (by rw [← Trail.isFalse_eq]; exact isFalse)
  rw [Literal.holds_neg] at opposite
  simpa using opposite

/-- **A trail that decides and handles everything satisfies the stored constraints.** -/
theorem Settled.satisfies {solver : Solver} (grounded : solver.Grounded)
    (settled : solver.Settled solver.trail.length)
    (complete : ∀ literal, solver.Uses literal → solver.trail.record? literal.atom ≠ none)
    {assignment : Assignment} (follows : Follows solver.trail assignment) :
    solver.Satisfies assignment := by
  have coherent := grounded.coherent
  intro id stored found
  have used := grounded.stored id stored found
  cases stored with
  | sum linear =>
    refine decide_eq_true (Nat.le_trans (passedWeight_le ?_) (settled.sum id linear found))
    intro term inside holds
    rw [trueBefore_length coherent]
    by_contra notTrue
    have known := complete term.2 (used _ (List.mem_map_of_mem inside))
    obtain ⟨entry, decided⟩ := Option.ne_none_iff_exists'.mp known
    rcases Trail.isTrue_or_isFalse decided with isTrue | isFalse
    · exact notTrue isTrue
    · rw [follows.of_isFalse isFalse] at holds
      cases holds
  | clause literals =>
    have witnessed : ∃ literal ∈ literals, solver.trail.isTrue literal = true := by
      match literals, found with
      | [], found => exact absurd found (settled.nonempty id)
      | [literal], found =>
        obtain ⟨entry, records, _⟩ := settled.unit id literal found
        exact ⟨literal, List.mem_cons_self, Trail.isTrue_iff.mpr ⟨entry, records⟩⟩
      | first :: second :: rest, found =>
        have known := complete first (used first List.mem_cons_self)
        obtain ⟨entry, decided⟩ := Option.ne_none_iff_exists'.mp known
        rcases Trail.isTrue_or_isFalse decided with isTrue | isFalse
        · exact ⟨first, List.mem_cons_self, isTrue⟩
        · obtain ⟨record, opposite⟩ := Trail.isFalse_iff.mp isFalse
          obtain ⟨other, inside, witness, records, _⟩ :=
            settled.clause id first second rest found first (Or.inl rfl) record opposite
              (coherent.position_lt opposite.1)
          exact ⟨other, inside, Trail.isTrue_iff.mpr ⟨witness, records⟩⟩
    obtain ⟨literal, inside, isTrue⟩ := witnessed
    exact List.any_eq_true.mpr ⟨literal, inside, follows literal isTrue⟩

end Solver

end Loadout
