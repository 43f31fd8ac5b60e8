/-
**The assumptions behind a failure contradict the constraints.**

When an assumption turns out false, `Solver.analyzeFinal` walks back over the decided literals above
level zero and collects those without a reason. `Explained` is what the walk achieves from a place
of the queue on: wherever the constraints and the collected literals hold, so do all literals whose
variable was marked.

**`analyzeFinal_spec`**: the collected literals and the failed assumption cannot hold together.
-/

import Loadout.Proofs.Search.Storing

namespace Loadout

namespace Solver

variable {solver : Solver}

/-! ### Marking the literals of a reason -/

/-- A literal of a reason is marked when it was decided above level zero. -/
theorem markAbove_cons {marked : Solver} (remarked : Remarked solver marked) {literal : Literal}
    {entry : Entry} (records : solver.trail.Records (-literal) entry) (rest : List Literal) :
    marked.markAbove (literal :: rest) =
      (if 0 < entry.level then marked.mark literal.atom true else marked).markAbove rest := by
  have level : marked.trail.level? literal = some entry.level := by
    rw [remarked.trail]
    exact level?_of_isFalse records
  unfold markAbove
  rw [List.foldl_cons, level]
  match entry.level with
  | 0 => rfl
  | below + 1 => rw [if_pos (Nat.succ_pos below)]

/-- The marks that are set are those of the literals above level zero. -/
theorem markAbove_spec (grounded : solver.Grounded) (literals : List Literal) (marked : Solver)
    (remarked : Remarked solver marked)
    (isFalse : ∀ literal ∈ literals, solver.trail.isFalse literal = true) :
    Remarked solver (marked.markAbove literals) ∧
      ∀ atom, (marked.markAbove literals).isMarked atom = true ↔
        marked.isMarked atom = true ∨ ∃ literal ∈ literals, literal.atom = atom ∧
          ∃ entry, solver.trail.Records (-literal) entry ∧ 0 < entry.level := by
  induction literals generalizing marked with
  | nil =>
    refine ⟨remarked, fun atom => ⟨Or.inl, fun either => either.resolve_right ?_⟩⟩
    rintro ⟨literal, impossible, _⟩
    cases impossible
  | cons literal rest ih =>
    obtain ⟨entry, records⟩ := Trail.isFalse_iff.mp (isFalse literal List.mem_cons_self)
    have roomy : literal.atom < marked.marks.size := by
      rw [remarked.size]
      exact grounded.markable records.1
    rw [markAbove_cons remarked records]
    generalize next_def : (if 0 < entry.level then marked.mark literal.atom true else marked) = next
    have remarked' : Remarked solver next := by
      rw [← next_def]
      split
      · exact remarked.trans (Remarked.mark marked literal.atom true)
      · exact remarked
    have step : ∀ atom, next.isMarked atom = true ↔
        marked.isMarked atom = true ∨ literal.atom = atom ∧
          ∃ record, solver.trail.Records (-literal) record ∧ 0 < record.level := by
      intro atom
      rw [← next_def]
      by_cases above : 0 < entry.level
      · rw [if_pos above, isMarked_mark roomy]
        by_cases same : atom = literal.atom
        · rw [if_pos same]
          exact ⟨fun _ => .inr ⟨same.symm, entry, records, above⟩, fun _ => rfl⟩
        · rw [if_neg same]
          exact ⟨.inl, fun either => either.resolve_right fun new => same new.1.symm⟩
      · rw [if_neg above]
        refine ⟨.inl, fun either => either.resolve_right ?_⟩
        rintro ⟨_, record, recorded, above'⟩
        exact above (recorded.unique records ▸ above')
    obtain ⟨remarked'', marks⟩ := ih next remarked'
      fun other inside => isFalse other (List.mem_cons_of_mem _ inside)
    refine ⟨remarked'', fun atom => (marks atom).trans ?_⟩
    rw [step, or_assoc, List.exists_mem_cons_iff]

/-! ### The walk -/

/-- The decided literals between two places of the queue, latest first. -/
def between (trail : Trail) (start place : Nat) : List Literal :=
  ((trail.queue.toList.take place).drop start).reverse

theorem between_self (trail : Trail) (start : Nat) : between trail start start = [] := by
  unfold between
  rw [List.drop_eq_nil_of_le (List.length_take_le _ _), List.reverse_nil]

theorem between_succ {trail : Trail} {start place : Nat} {literal : Literal}
    (behind : start ≤ place) (queued : trail.queue[place]? = some literal) :
    between trail start (place + 1) = literal :: between trail start place := by
  unfold between
  have inside := (Array.getElem?_eq_some_iff.mp queued).1
  rw [List.take_add_one, Array.getElem?_toList, queued, Option.toList_some,
    List.drop_append_of_le_length, List.reverse_append, List.reverse_singleton,
    List.singleton_append]
  rw [List.length_take, Array.length_toList]
  omega

theorem between_length (trail : Trail) (start : Nat) :
    between trail start trail.length = (trail.queue.toList.drop start).reverse := by
  unfold between Trail.length
  rw [← Array.length_toList, List.take_length]

/-- All marked variables were decided above level zero, and before a place of the queue. -/
def MarkedBefore (solver : Solver) (place : Nat) (marked : Solver) : Prop :=
  ∀ atom, marked.isMarked atom = true → ∃ entry,
    solver.trail.record? atom = some entry ∧ 0 < entry.level ∧ entry.position < place

/-- A marked variable other than that of the last literal stands before it. -/
theorem MarkedBefore.earlier (coherent : solver.trail.Coherent) {place : Nat} {marked : Solver}
    (before : MarkedBefore solver (place + 1) marked) {literal : Literal} {entry : Entry}
    (records : solver.trail.Records literal entry) (here : entry.position = place) {atom : Nat}
    (isMarked : marked.isMarked atom = true) (different : atom ≠ literal.atom) :
    ∃ record, solver.trail.record? atom = some record ∧ 0 < record.level ∧
      record.position < place := by
  obtain ⟨record, found, above, early⟩ := before atom isMarked
  refine ⟨record, found, above, ?_⟩
  by_contra late
  exact different (coherent.atom_unique found records.1 (by omega)).1

/-- Without the mark of the last literal, all marks stand before it. -/
theorem MarkedBefore.clear (coherent : solver.trail.Coherent) {place : Nat} {marked : Solver}
    (before : MarkedBefore solver (place + 1) marked) {literal : Literal} {entry : Entry}
    (records : solver.trail.Records literal entry) (here : entry.position = place) :
    MarkedBefore solver place (marked.mark literal.atom false) := by
  intro atom still
  rw [isMarked_clear] at still
  split at still
  · cases still
  · next different => exact before.earlier coherent records here still different

/-- No variable above level zero was decided before level one began. -/
theorem MarkedBefore.unmarked (coherent : solver.trail.Coherent) {marked : Solver}
    (before : MarkedBefore solver (solver.trail.levelStart 1) marked) : marked.Unmarked := by
  intro atom
  rw [← Bool.not_eq_true]
  intro isMarked
  obtain ⟨entry, found, above, early⟩ := before atom isMarked
  have low := (coherent.position_lt_iff found 0).mp early
  omega

/-- **What the walk achieves**: no mark is left, what is collected has no reason, and together with
the constraints it implies the literals that were marked. -/
structure Explained (solver marked : Solver) (assumed : List Literal) (final : Solver) :
    Prop where
  remarked : Remarked solver final
  unmarked : final.Unmarked
  free : ∀ literal ∈ assumed, ∃ entry, solver.trail.Records literal entry ∧ entry.reason = none
  implied : ∀ assignment, solver.Satisfies assignment →
    (∀ literal ∈ assumed, literal.holds assignment = true) →
      ∀ literal entry, solver.trail.Records literal entry →
        marked.isMarked literal.atom = true → literal.holds assignment = true

namespace Explained

variable {marked wider final : Solver} {assumed : List Literal} {literal : Literal} {entry : Entry}

/-- A literal without a reason is collected. -/
theorem collect (explained : Explained solver (marked.mark literal.atom false) assumed final)
    (records : solver.trail.Records literal entry) (given : entry.reason = none) :
    Explained solver marked (literal :: assumed) final where
  remarked := explained.remarked
  unmarked := explained.unmarked
  free := List.forall_mem_cons.mpr ⟨⟨entry, records, given⟩, explained.free⟩
  implied assignment satisfied holds other record recorded isMarked := by
    obtain ⟨first, rest⟩ := List.forall_mem_cons.mp holds
    by_cases same : other.atom = literal.atom
    · rw [Trail.eq_of_records recorded records same]
      exact first
    · refine explained.implied assignment satisfied rest other record recorded ?_
      rw [isMarked_clear, if_neg same]
      exact isMarked

/-- A literal with a reason holds where those do that forced it. -/
theorem resolve (grounded : solver.Grounded) (supported : solver.Supported)
    (explained : Explained solver (wider.mark literal.atom false) assumed final)
    (records : solver.trail.Records literal entry) {reason : List Literal}
    (isFalse : ∀ other ∈ reason, ∃ record, solver.trail.Records (-other) record ∧
      record.position < entry.position)
    (explains : ∀ assignment, solver.Satisfies assignment → literal.holds assignment = false →
      ∃ other ∈ reason, other.holds assignment = true)
    (marks : ∀ atom, wider.isMarked atom = true ↔ marked.isMarked atom = true ∨
      ∃ other ∈ reason, other.atom = atom ∧
        ∃ record, solver.trail.Records (-other) record ∧ 0 < record.level) :
    Explained solver marked assumed final where
  remarked := explained.remarked
  unmarked := explained.unmarked
  free := explained.free
  implied assignment satisfied holds other record recorded isMarked := by
    have others := explained.implied assignment satisfied holds
    by_cases same : other.atom = literal.atom
    · rw [Trail.eq_of_records recorded records same]
      by_contra fails
      obtain ⟨side, inside, true'⟩ := explains assignment satisfied (by simpa using fails)
      obtain ⟨record', recorded', early⟩ := isFalse side inside
      have opposite : (-side).holds assignment = true := by
        rcases Nat.eq_zero_or_pos record'.level with bottom | above
        · exact supported.fact grounded satisfied recorded' bottom
        · have apart : side.atom ≠ literal.atom := by
            intro equal
            have found := recorded'.1
            rw [Literal.neg_atom, equal, records.1] at found
            cases found
            omega
          refine others (-side) record' recorded' ?_
          rw [Literal.neg_atom, isMarked_clear, if_neg apart, marks]
          exact Or.inr ⟨side, inside, rfl, record', recorded', above⟩
      rw [Literal.holds_neg, true'] at opposite
      cases opposite
    · refine others other record recorded ?_
      rw [isMarked_clear, if_neg same, marks]
      exact Or.inl isMarked

end Explained

/-- **The walk explains every marked literal above level zero that stands before its start.** -/
theorem collectAssumed_spec (grounded : solver.Grounded) (supported : solver.Supported)
    (steps : Nat) (marked : Solver) (remarked : Remarked solver marked)
    (within : solver.trail.levelStart 1 + steps ≤ solver.trail.length)
    (before : MarkedBefore solver (solver.trail.levelStart 1 + steps) marked) :
    Explained solver marked
      (collectAssumed (between solver.trail (solver.trail.levelStart 1)
        (solver.trail.levelStart 1 + steps)) marked).1
      (collectAssumed (between solver.trail (solver.trail.levelStart 1)
        (solver.trail.levelStart 1 + steps)) marked).2 := by
  have coherent := grounded.coherent
  induction steps generalizing marked with
  | zero =>
    rw [Nat.add_zero] at before
    rw [Nat.add_zero, between_self]
    have unmarked := before.unmarked coherent
    refine ⟨remarked, unmarked, fun _ inside => absurd inside List.not_mem_nil, ?_⟩
    intro assignment _ _ literal entry _ isMarked
    rw [unmarked] at isMarked
    cases isMarked
  | succ steps ih =>
    rw [← Nat.add_assoc] at within before ⊢
    generalize place_def : solver.trail.levelStart 1 + steps = place at within before ih ⊢
    have queued := Array.getElem?_eq_getElem (show place < solver.trail.queue.size from within)
    generalize solver.trail.queue[place] = literal at queued
    obtain ⟨entry, records, here⟩ := coherent.recorded place literal queued
    rw [between_succ (by omega) queued]
    unfold collectAssumed
    by_cases isMarked : marked.isMarked literal.atom = true
    · rw [if_pos isMarked]
      have reason : marked.trail.reason? literal = entry.reason := by
        unfold Trail.reason?
        rw [remarked.trail, records.1]
        rfl
      rw [reason]
      cases given : entry.reason with
      | none =>
        have explained := ih (marked.mark literal.atom false)
          (remarked.trans (Remarked.mark marked literal.atom false)) (by omega)
          (before.clear coherent records here)
        exact explained.collect records given
      | some id =>
        obtain ⟨stored, found, forces⟩ := supported.forced _ entry id records.1 given
        rw [records.2] at forces
        obtain ⟨isFalse, explains⟩ := reasonLiterals_spec found records forces
        obtain ⟨remarked', marks⟩ := markAbove_spec grounded (solver.reasonLiterals id literal)
          marked remarked fun other inside => by
            obtain ⟨record, recorded, _⟩ := isFalse other inside
            exact Trail.isFalse_iff.mpr ⟨record, recorded⟩
        dsimp only
        rw [remarked.reasonLiterals]
        generalize marked.markAbove (solver.reasonLiterals id literal) = wider at remarked' marks
        have before' : MarkedBefore solver (place + 1) wider := by
          intro atom isMarked'
          rcases (marks atom).mp isMarked' with old | ⟨other, inside, rfl, record, recorded, above⟩
          · exact before atom old
          · obtain ⟨record', recorded', early⟩ := isFalse other inside
            rw [recorded'.unique recorded] at early
            exact ⟨record, recorded.1, above, by omega⟩
        have explained := ih (wider.mark literal.atom false)
          (remarked'.trans (Remarked.mark wider literal.atom false)) (by omega)
          (before'.clear coherent records here)
        exact explained.resolve grounded supported records isFalse explains marks
    · rw [if_neg isMarked]
      exact ih marked remarked (by omega) fun atom still =>
        before.earlier coherent records here still fun same => isMarked (same ▸ still)

/-! ### The failed assumption -/

/-- **The collected assumptions and the failed one cannot hold together.** -/
theorem analyzeFinal_spec (grounded : solver.Grounded) (supported : solver.Supported)
    (unmarked : solver.Unmarked) {failed : Literal}
    (isFalse : solver.trail.isFalse failed = true) :
    Remarked solver (solver.analyzeFinal failed).2 ∧ (solver.analyzeFinal failed).2.Unmarked ∧
      (∀ literal ∈ (solver.analyzeFinal failed).1, literal = failed ∨
        ∃ entry, solver.trail.Records literal entry ∧ entry.reason = none) ∧
      ∀ assignment, solver.Satisfies assignment →
        ∃ literal ∈ (solver.analyzeFinal failed).1, literal.holds assignment = false := by
  have coherent := grounded.coherent
  obtain ⟨entry, records⟩ := Trail.isFalse_iff.mp isFalse
  have fails : ∀ assignment, (-failed).holds assignment = true →
      failed.holds assignment = false := by
    intro assignment holds
    rw [Literal.holds_neg] at holds
    simpa using holds
  unfold analyzeFinal
  rw [level?_of_isFalse records]
  by_cases bottom : entry.level = 0
  · rw [if_pos (by rw [bottom])]
    refine ⟨Remarked.refl solver, unmarked,
      fun literal inside => Or.inl (List.mem_singleton.mp inside), fun assignment satisfied => ?_⟩
    exact ⟨failed, List.mem_singleton_self _,
      fails assignment (supported.fact grounded satisfied records bottom)⟩
  · rw [if_neg fun same => bottom (Option.some.inj same)]
    have within := coherent.levelStart_le 1
    have roomy : failed.atom < solver.marks.size := grounded.markable records.1
    have walked := collectAssumed_spec grounded supported
      (solver.trail.length - solver.trail.levelStart 1) (solver.mark failed.atom true)
      (Remarked.mark solver failed.atom true) (by omega) (by
        intro atom marked
        rw [isMarked_mark roomy] at marked
        split at marked
        · next same =>
          rw [same]
          exact ⟨entry, records.1, by omega, by
            have := coherent.position_lt records.1
            omega⟩
        · rw [unmarked] at marked
          cases marked)
    rw [Nat.add_sub_cancel' within, between_length] at walked
    dsimp only
    refine ⟨walked.remarked, walked.unmarked, fun literal inside => ?_,
      fun assignment satisfied => ?_⟩
    · rcases List.mem_cons.mp inside with same | inside
      · exact Or.inl same
      · exact Or.inr (walked.free literal inside)
    · by_contra none'
      have all : ∀ literal ∈ failed :: (collectAssumed (solver.trail.queue.toList.drop
          (solver.trail.levelStart 1)).reverse (solver.mark failed.atom true)).1,
            literal.holds assignment = true := by
        intro literal inside
        by_contra untrue
        exact none' ⟨literal, inside, by simpa using untrue⟩
      have opposite := walked.implied assignment satisfied
        (fun literal inside => all literal (List.mem_cons_of_mem _ inside)) (-failed) entry
        records (by rw [Literal.neg_atom, isMarked_mark roomy, if_pos rfl])
      rw [Literal.holds_neg, all failed List.mem_cons_self] at opposite
      cases opposite

end Solver

end Loadout
