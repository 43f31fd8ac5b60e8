/-
**The order of free decisions makes the model found the first one.**

`Trail.Ordered` is the law that a search keeps on its trail: the assumptions are true from their
levels on, and a literal without a reason either is an assumption or is the preferred value of a
variable below which everything had been decided before. Propagation, going back with a learned
literal, and both kinds of decision keep it.

**`ordered_leads`**: an assignment that satisfies the constraints and the assumptions and differs
from the trail takes, at the first variable where it differs, the value that is not preferred. So
the trail comes first in the order that compares the variables one by one and prefers their phases
(`Leads`).
-/

import Loadout.Proofs.Search.Cores

namespace Loadout

/-! ### The order of assignments -/

/-- Two assignments agree on the variables from one up to a number. -/
def AgreeUpTo (count : Nat) (first second : Assignment) : Prop :=
  ∀ atom, 0 < atom → atom ≤ count → first atom = second atom

/-- **One assignment comes before another one**: at the first variable where they differ, it has the
preferred value. -/
def Leads (preferred : Assignment) (count : Nat) (first second : Assignment) : Prop :=
  ∃ atom, 0 < atom ∧ atom ≤ count ∧ AgreeUpTo (atom - 1) first second ∧
    first atom = preferred atom ∧ second atom ≠ preferred atom

/-- Two assignments agree, or there is a first variable where they differ. -/
theorem agree_or_differ (count : Nat) (first second : Assignment) :
    AgreeUpTo count first second ∨
      ∃ atom, 0 < atom ∧ atom ≤ count ∧ AgreeUpTo (atom - 1) first second ∧
        first atom ≠ second atom := by
  induction count with
  | zero => exact Or.inl fun atom positive within => by omega
  | succ count ih =>
    rcases ih with agree | ⟨atom, positive, within, before, differ⟩
    · by_cases same : first (count + 1) = second (count + 1)
      · refine Or.inl fun atom positive within => ?_
        rcases Nat.lt_or_eq_of_le within with below | last
        · exact agree atom positive (by omega)
        · rw [last]
          exact same
      · exact Or.inr ⟨count + 1, Nat.succ_pos _, Nat.le_refl _, agree, same⟩
    · exact Or.inr ⟨atom, positive, by omega, before, differ⟩

/-- No assignment comes before another one and behind it. -/
theorem Leads.asymm {preferred : Assignment} {count : Nat} {first second : Assignment}
    (leads : Leads preferred count first second) : ¬Leads preferred count second first := by
  obtain ⟨atom, positive, _, before, good, bad⟩ := leads
  rintro ⟨other, positive', _, before', good', bad'⟩
  rcases Nat.lt_trichotomy atom other with below | same | above
  · have equal := before' atom positive (by omega)
    rw [good] at equal
    exact bad equal
  · subst same
    exact bad good'
  · have equal := before other positive' (by omega)
    rw [good'] at equal
    exact bad' equal

/-! ### The law of decisions -/

namespace Trail

/-- **The law that the decisions of a search keep.** -/
structure Ordered (assumptions : Array Literal) (preferred : Assignment) (trail : Trail) :
    Prop where
  /-- An assumption is true at its own level at the latest. -/
  assumed : ∀ (place : Nat) (literal : Literal), assumptions[place]? = some literal →
    place < trail.level → ∃ entry, trail.Records literal entry ∧ entry.level ≤ place + 1
  /-- A free decision is an assumption, or prefers the lowest undecided variable. -/
  free : ∀ literal entry, trail.Records literal entry → entry.reason = none →
    literal ∈ assumptions ∨
      assumptions.size < entry.level ∧ literal.positive = preferred literal.atom ∧
        ∀ atom, 0 < atom → atom < literal.atom →
          ∃ lower, trail.record? atom = some lower ∧ lower.position < entry.position

variable {assumptions : Array Literal} {preferred : Assignment} {trail : Trail}

/-- A trail without open levels has no free decisions. -/
theorem Ordered.of_facts (closed : trail.level = 0)
    (forced : ∀ atom entry, trail.record? atom = some entry → entry.reason ≠ none) :
    trail.Ordered assumptions preferred where
  assumed place literal _ early := by omega
  free literal entry records free := absurd free (forced _ entry records.1)

/-- Going back keeps the law. -/
theorem Ordered.revertTo (coherent : trail.Coherent)
    (ordered : trail.Ordered assumptions preferred) (level : Nat) :
    (trail.revertTo level).Ordered assumptions preferred where
  assumed place literal given early := by
    rw [level_revertTo] at early
    obtain ⟨entry, records, low⟩ := ordered.assumed place literal given (by omega)
    exact ⟨entry, coherent.records_revertTo.mpr ⟨records, by omega⟩, low⟩
  free literal entry records free := by
    obtain ⟨old, low⟩ := coherent.records_revertTo.mp records
    refine (ordered.free literal entry old free).imp_right fun ⟨level', value, lower⟩ =>
      ⟨level', value, fun atom positive below => ?_⟩
    obtain ⟨record, found, before⟩ := lower atom positive below
    have kept : trail.Records ⟨atom, record.positive⟩ record := ⟨found, rfl⟩
    have level'' := coherent.level_mono found old.1 (by omega)
    exact ⟨record, (coherent.records_revertTo.mpr ⟨kept, by omega⟩).1, before⟩

/-- A forced literal keeps the law. -/
theorem Ordered.push_forced (ordered : trail.Ordered assumptions preferred) {literal : Literal}
    (undecided : trail.record? literal.atom = none) (id : ConstraintId) :
    (trail.push literal (some id)).Ordered assumptions preferred where
  assumed place other given early := by
    rw [level_push] at early
    obtain ⟨entry, records, low⟩ := ordered.assumed place other given early
    exact ⟨entry, records.push literal (some id), low⟩
  free other entry records free := by
    have found := records.1
    rw [record?_push _ undecided] at found
    split at found
    · cases found
      cases free
    · refine (ordered.free other entry ⟨found, records.2⟩ free).imp_right
        fun ⟨level, value, lower⟩ => ⟨level, value, fun atom positive below => ?_⟩
      obtain ⟨record, found', before⟩ := lower atom positive below
      have kept : trail.Records ⟨atom, record.positive⟩ record := ⟨found', rfl⟩
      exact ⟨record, (kept.push literal (some id)).1, before⟩

/-- The level of an assumption that is true already stays empty. -/
theorem Ordered.openLevel (coherent : trail.Coherent)
    (ordered : trail.Ordered assumptions preferred) {assumption : Literal}
    (given : assumptions[trail.level]? = some assumption)
    (isTrue : trail.isTrue assumption = true) :
    trail.openLevel.Ordered assumptions preferred where
  assumed place literal given' early := by
    rw [level_openLevel] at early
    by_cases here : place = trail.level
    · rw [here, given] at given'
      cases given'
      obtain ⟨entry, records⟩ := isTrue_iff.mp isTrue
      have within := (coherent.levelled _ entry records.1).1
      exact ⟨entry, records, by omega⟩
    · exact ordered.assumed place literal given' (by omega)
  free := ordered.free

/-- **A free decision keeps the law** when it is the assumption of its level, or the lowest
undecided variable once all assumptions have their levels. -/
theorem Ordered.decide (coherent : trail.Coherent)
    (ordered : trail.Ordered assumptions preferred) {literal : Literal}
    (undecided : trail.record? literal.atom = none)
    (here : ∀ assumption, assumptions[trail.level]? = some assumption → assumption = literal)
    (free : literal ∈ assumptions ∨
      assumptions.size ≤ trail.level ∧ literal.positive = preferred literal.atom ∧
        ∀ atom, 0 < atom → atom < literal.atom → trail.record? atom ≠ none) :
    (trail.openLevel.push literal none).Ordered assumptions preferred := by
  have undecided' : trail.openLevel.record? literal.atom = none := undecided
  have recorded : (trail.openLevel.push literal none).Records literal
      (trail.openLevel.nextEntry literal none) :=
    ⟨by rw [record?_push _ undecided', if_pos rfl], rfl⟩
  have kept : ∀ other entry, trail.Records other entry →
      (trail.openLevel.push literal none).Records other entry := by
    intro other entry records
    have opened : trail.openLevel.Records other entry := records
    exact opened.push literal none
  refine ⟨fun place other given early => ?_, fun other entry records free' => ?_⟩
  · rw [level_push, level_openLevel] at early
    by_cases last : place = trail.level
    · rw [last] at given
      rw [here other given, last]
      refine ⟨_, recorded, ?_⟩
      exact Nat.le_of_eq (level_openLevel trail)
    · obtain ⟨entry, records, low⟩ := ordered.assumed place other given (by omega)
      exact ⟨entry, kept other entry records, low⟩
  · have found := records.1
    rw [record?_push _ undecided'] at found
    by_cases same : other.atom = literal.atom
    · rw [if_pos same] at found
      have equal : other = literal := eq_of_records records recorded same
      cases found
      rw [equal]
      refine free.imp_right fun ⟨all, value, lower⟩ => ⟨?_, value, fun atom positive below => ?_⟩
      · show assumptions.size < trail.openLevel.level
        rw [level_openLevel]
        omega
      · obtain ⟨record, found'⟩ := Option.ne_none_iff_exists'.mp (lower atom positive below)
        exact ⟨record, (kept ⟨atom, record.positive⟩ record ⟨found', rfl⟩).1,
          coherent.position_lt found'⟩
    · rw [if_neg same] at found
      refine (ordered.free other entry ⟨found, records.2⟩ free').imp_right
        fun ⟨level, value, lower⟩ => ⟨level, value, fun atom positive below => ?_⟩
      obtain ⟨record, found', before⟩ := lower atom positive below
      exact ⟨record, (kept ⟨atom, record.positive⟩ record ⟨found', rfl⟩).1, before⟩

end Trail

namespace Solver

variable {solver : Solver} {assumptions : Array Literal} {preferred : Assignment}

/-- Propagation keeps the law. -/
theorem Advance.ordered {old new : Solver} (advance : Advance old new)
    (ordered : old.trail.Ordered assumptions preferred) :
    new.trail.Ordered assumptions preferred where
  assumed place literal given early := by
    rw [advance.level] at early
    obtain ⟨entry, records, low⟩ := ordered.assumed place literal given early
    exact ⟨entry, advance.records records, low⟩
  free literal entry records free := by
    rcases advance.added _ entry records.1 with found | ⟨_, forced⟩
    · refine (ordered.free literal entry ⟨found, records.2⟩ free).imp_right
        fun ⟨level, value, lower⟩ => ⟨level, value, fun atom positive below => ?_⟩
      obtain ⟨record, found', before⟩ := lower atom positive below
      exact ⟨record, advance.kept atom record found', before⟩
    · exact absurd free forced

/-- **A variable whose value is not preferred has it by force.** An assignment that satisfies the
constraints and the assumptions, and agrees with the trail on all lower variables, agrees on it. -/
theorem ordered_forces (grounded : solver.Grounded) (supported : solver.Supported)
    (ordered : solver.trail.Ordered assumptions preferred) {assignment : Assignment}
    (satisfied : solver.Satisfies assignment)
    (assumed : ∀ literal ∈ assumptions, literal.holds assignment = true)
    {literal : Literal} {entry : Entry} (records : solver.trail.Records literal entry)
    (agrees : ∀ lower record, solver.trail.Records lower record → lower.atom < literal.atom →
      lower.holds assignment = true)
    (unlike : literal.positive ≠ preferred literal.atom) : literal.holds assignment = true := by
  have coherent := grounded.coherent
  refine supported.implied grounded satisfied entry.level ?_ literal entry records (Nat.le_refl _)
  intro decision record recorded free low
  rcases ordered.free decision record recorded free with inside | ⟨_, value, lower⟩
  · exact assumed decision inside
  · rcases Nat.lt_trichotomy decision.atom literal.atom with below | same | above
    · exact agrees decision record recorded below
    · rw [Trail.eq_of_records recorded records same] at value
      exact absurd value unlike
    · -- The variable was decided before a decision at no higher level, which opened that level.
      have used := grounded.decided literal (Trail.isTrue_iff.mpr ⟨entry, records⟩)
      obtain ⟨witness, found, before⟩ := lower literal.atom (Nat.pos_of_ne_zero used.1) above
      rw [records.1] at found
      cases found
      obtain ⟨below, height, start⟩ := supported.free _ record recorded.1 free
      have early := (coherent.levelled _ entry records.1).2 below _ start
      omega

/-- **The trail comes first.** Once all variables are decided, an assignment that satisfies the
constraints and the assumptions agrees with the trail or comes behind it. -/
theorem ordered_leads (grounded : solver.Grounded) (supported : solver.Supported)
    (ordered : solver.trail.Ordered assumptions preferred)
    (complete : ∀ atom, 0 < atom → atom ≤ solver.atomCount → solver.trail.record? atom ≠ none)
    {model assignment : Assignment} (follows : Follows solver.trail model)
    (satisfied : solver.Satisfies assignment)
    (assumed : ∀ literal ∈ assumptions, literal.holds assignment = true) :
    AgreeUpTo solver.atomCount model assignment ∨
      Leads preferred solver.atomCount model assignment := by
  refine (agree_or_differ solver.atomCount model assignment).imp_right ?_
  rintro ⟨atom, positive, within, before, differ⟩
  obtain ⟨entry, found⟩ := Option.ne_none_iff_exists'.mp (complete atom positive within)
  have value : ∀ literal record, solver.trail.Records literal record →
      model literal.atom = literal.positive := fun literal record records => by
    have holds := follows literal (Trail.isTrue_iff.mpr ⟨record, records⟩)
    simpa [Literal.holds] using holds
  have records : solver.trail.Records ⟨atom, entry.positive⟩ entry := ⟨found, rfl⟩
  have here := value _ entry records
  dsimp only at here
  have unlike : model atom = preferred atom := by
    by_contra forced
    have holds := ordered_forces grounded supported ordered satisfied assumed records
      (fun lower record recorded below => ?_) (by rw [← here]; exact forced)
    · simp only [Literal.holds, beq_iff_eq] at holds
      rw [here, ← holds] at differ
      exact differ rfl
    · have used := grounded.decided lower (Trail.isTrue_iff.mpr ⟨record, recorded⟩)
      have same := before lower.atom (Nat.pos_of_ne_zero used.1) (by
        have : lower.atom < atom := below
        omega)
      rw [value lower record recorded] at same
      simp [Literal.holds, same]
  exact ⟨atom, positive, within, before, unlike, fun same => differ (unlike.trans same.symm)⟩

end Solver

end Loadout
