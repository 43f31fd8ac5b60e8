/-
**Versions and constraints are read again from their texts.**

The text of a version or constraint that was read is the trimmed text that it was read from. To trim
it again changes nothing (`trimBlank_trimBlank`), and what an error would say of the text has no part
in what is read (`readTerm_any`), so:

* **`Version.parse_text`**, **`Constraint.parse_text`**: reading the text gives the same version or
  constraint again.
-/

import Loadout.Proofs.Constraint.Terms

namespace Loadout

/-! ### Versions -/

namespace Version

/-- A version was read from some text. -/
def Parsed (version : Version) : Prop :=
  ∃ text, parse text = .ok version

theorem text_ofTrimmed (text : List Char) : (ofTrimmed text).text = String.ofList text := by
  unfold ofTrimmed
  split <;> rfl

/-- **The text of a version that was read gives it again.** -/
theorem Parsed.parse_text {version : Version} (parsed : version.Parsed) :
    parse version.text = .ok version := by
  obtain ⟨text, read⟩ := parsed
  rw [parse_eq] at read
  split at read
  · cases read
  · next given =>
    cases read
    rw [parse_eq, text_ofTrimmed, String.toList_ofList, trimBlank_trimBlank, if_neg given]

end Version

/-! ### Constraints -/

namespace Constraint

/-- A constraint was read from some text. -/
def Parsed (constraint : Constraint) : Prop :=
  ∃ text, parse text = .ok constraint

/-- What an error would say has no part in what a caret or tilde gives. -/
theorem signedRange_any {whole other : String} {version : Version} {place : List Nat → Nat}
    {comparators : List Comparator} (read : signedRange whole version place = .ok comparators) :
    signedRange other version place = .ok comparators := by
  rw [signedRange] at read ⊢
  split at read
  · next numeric => rwa [if_pos numeric]
  · cases read

/-- What an error would say has no part in what a term gives. -/
theorem readTerm_any {whole other : String} {term : List Char} {comparators : List Comparator}
    (read : readTerm whole term = .ok comparators) : readTerm other term = .ok comparators := by
  by_cases star : term = ['*'] ∨ term = ['x'] ∨ term = ['X']
  · rw [readTerm, if_pos star] at read ⊢
    exact read
  · cases wild : wildcard? term with
    | some components =>
      rw [readTerm_of_wildcard _ wild] at read ⊢
      cases words : components.mapM readWord with
      | some numbers => rwa [words] at read
      | none =>
        rw [words] at read
        cases read
    | none =>
      obtain ⟨range, operand, cut⟩ : ∃ range operand, splitRange term = (range, operand) :=
        ⟨_, _, rfl⟩
      rw [readTerm_of_operand _ star wild cut] at read ⊢
      split at read
      · cases read
      · next filled =>
        rw [if_neg filled]
        -- only a caret or tilde may refuse the version behind it
        cases range with
        | compare operator => exact read
        | caret | tilde => exact signedRange_any read

/-- What an error would say has no part in what an alternative gives. -/
theorem readAlternative_any {whole other : String} {alternative : List Char}
    {comparators : List Comparator} (read : readAlternative whole alternative = .ok comparators) :
    readAlternative other alternative = .ok comparators := by
  obtain ⟨filled, lists, each, same⟩ := readAlternative_eq_ok_iff.mp read
  exact readAlternative_eq_ok_iff.mpr ⟨filled, lists, mapM_ok_of (fun _ _ => readTerm_any) each, same⟩

/-- **The text of a constraint that was read gives it again.** A blank text is read as the
constraint that accepts every version. -/
theorem Parsed.parse_text {constraint : Constraint} (parsed : constraint.Parsed) :
    parse constraint.text = .ok constraint := by
  obtain ⟨text, read⟩ := parsed
  rcases parse_eq_ok_iff.mp read with ⟨_, rfl⟩ | ⟨filled, alternatives, each, rfl⟩
  · rfl
  · rw [parse_eq, String.toList_ofList, trimBlank_trimBlank, if_neg filled,
      mapM_ok_of (fun _ _ => readAlternative_any) each]
    rfl

end Constraint

end Loadout
