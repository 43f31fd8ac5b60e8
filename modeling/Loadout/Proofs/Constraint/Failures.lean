/-
**How the reading of a constraint fails.**

A text is refused by an error that names it, or the reading stops at a range whose component is the
greatest number of 64 bits. Terms and alternatives are read in their order, so the first one that is
not read decides.

* `readTerm_cases`: a term is read, or refused by an error that names the whole text, or it is a range
  term whose component cannot be raised;
* `Overflows`: of the terms of a text, the first that is not read is such a range term;
* **`parse_refused`**, **`parse_overflow_iff`**: what is refused is refused by an error that names the
  text, and the reading stops just at the texts that overflow.
-/

import Loadout.Proofs.Constraint.Ranges

namespace Loadout

namespace Constraint

/-! ### Terms -/

/-- **A range term whose component cannot be raised in 64 bits.** -/
def TermOverflows (term : List Char) : Prop :=
  ∃ base place, RangeTerm term base place ∧ base.component place + 1 = wordLimit

/-- **What may come of a term.** -/
theorem readTerm_cases (whole : String) (term : List Char) :
    (∃ comparators, readTerm whole term = .ok comparators) ∨
      (∃ fault, readTerm whole term = .error (.refused (.invalidConstraint whole fault))) ∨
      TermOverflows term ∧ readTerm whole term = .error .overflow := by
  by_cases ranges : IsRange term
  · rcases exists_rangeTerm whole ranges with ⟨base, place, range⟩ | refused
    · rw [range.readTerm_eq, rangeFrom]
      split
      · exact .inl ⟨_, rfl⟩
      · next great =>
        have last := Nat.le_antisymm range.word (Nat.le_of_not_lt great)
        exact .inr (.inr ⟨⟨base, place, range, last⟩, rfl⟩)
    · exact .inr (.inl refused)
  · exact (readTerm_of_not_isRange whole ranges).imp_right .inl

theorem readTerm_refused {whole : String} {term : List Char} {error : VersionError}
    (failed : readTerm whole term = .error (.refused error)) :
    ∃ fault, error = .invalidConstraint whole fault := by
  rcases readTerm_cases whole term with ⟨comparators, read⟩ | ⟨fault, refused⟩ | ⟨_, stopped⟩
  · cases read.symm.trans failed
  · cases refused.symm.trans failed
    exact ⟨fault, rfl⟩
  · cases stopped.symm.trans failed

theorem readTerm_overflow_iff {whole : String} {term : List Char} :
    readTerm whole term = .error .overflow ↔ TermOverflows term := by
  constructor
  · intro failed
    rcases readTerm_cases whole term with ⟨comparators, read⟩ | ⟨fault, refused⟩ | ⟨overflows, _⟩
    · cases read.symm.trans failed
    · cases refused.symm.trans failed
    · exact overflows
  · rintro ⟨base, place, range, last⟩
    rw [range.readTerm_eq, rangeFrom, if_neg (Nat.not_lt_of_le last.ge)]

/-! ### Alternatives -/

/-- Of the terms of an alternative, the first that is not read overflows. -/
def AlternativeOverflows (whole : String) (alternative : List Char) : Prop :=
  ∃ before term after, termsOf (trimBlank alternative) = before ++ term :: after ∧
    (∀ earlier ∈ before, ∃ comparators, readTerm whole earlier = .ok comparators) ∧
      TermOverflows term

theorem readAlternative_refused {whole : String} {alternative : List Char} {error : VersionError}
    (failed : readAlternative whole alternative = .error (.refused error)) :
    ∃ fault, error = .invalidConstraint whole fault := by
  rw [readAlternative_eq] at failed
  split at failed
  · cases failed
    exact ⟨_, rfl⟩
  · obtain ⟨_, term, _, _, _, failed⟩ := mapM_eq_error_iff.mp (map_eq_error_iff.mp failed)
    exact readTerm_refused failed

theorem readAlternative_overflow_iff {whole : String} {alternative : List Char} :
    readAlternative whole alternative = .error .overflow ↔
      AlternativeOverflows whole alternative := by
  rw [readAlternative_eq, AlternativeOverflows]
  split
  · next empty =>
    rw [empty]
    refine ⟨nofun, fun ⟨before, term, after, whole, _⟩ => ?_⟩
    exact absurd whole.symm (List.append_ne_nil_of_right_ne_nil _ (List.cons_ne_nil _ _))
  · rw [map_eq_error_iff, mapM_eq_error_iff]
    simp only [readTerm_overflow_iff]

/-! ### Texts -/

/-- **Of the alternatives of a text, the first that is not read overflows.** -/
def Overflows (text : String) : Prop :=
  ∃ before alternative after, piecesAtBars (trimBlank text.toList) = before ++ alternative :: after ∧
    (∀ earlier ∈ before, ∃ comparators, readAlternative text earlier = .ok comparators) ∧
      AlternativeOverflows text alternative

/-- **What is refused is refused by an error that names the text.** -/
theorem parse_refused {text : String} {error : VersionError}
    (failed : parse text = .error (.refused error)) :
    ∃ fault, error = .invalidConstraint text fault := by
  rw [parse_eq] at failed
  split at failed
  · cases failed
  · obtain ⟨_, alternative, _, _, _, failed⟩ := mapM_eq_error_iff.mp (map_eq_error_iff.mp failed)
    exact readAlternative_refused failed

/-- **The reading stops just at the texts that overflow.** -/
theorem parse_overflow_iff {text : String} : parse text = .error .overflow ↔ Overflows text := by
  rw [parse_eq, Overflows]
  split
  · next blank =>
    -- the one alternative of a blank text has no terms
    rw [blank]
    refine ⟨nofun, fun ⟨before, alternative, after, whole, _, overflows⟩ => ?_⟩
    have member : alternative ∈ piecesAtBars [] := whole ▸ List.mem_append_cons_self
    cases List.mem_singleton.mp member
    cases readAlternative_overflow_iff.mpr overflows
  · rw [map_eq_error_iff, mapM_eq_error_iff]
    simp only [readAlternative_overflow_iff]

/-- Every other text is read or refused. -/
theorem read_or_refused_iff {text : String} : (∃ constraint, parse text = .ok constraint) ∨
    (∃ error, parse text = .error (.refused error)) ↔ ¬Overflows text := by
  rw [← parse_overflow_iff]
  rcases parse text with (error | _) | constraint <;> simp

end Constraint

end Loadout
