/-
**How far ranges reach.**

The ranges of a version `base` are written with a caret or a tilde in front of it, or as a wildcard of
its components. Each raises one component of `base` by one:

* **`ranges_keep_components`**: among the releases, a range accepts those that agree with `base` on the
  components that it is meant to keep, from `base` on;
* **`ranges_reach_previews`**: among all versions, it accepts the pre-releases of the raised version as
  well, so it does not keep the component that it raises (`not_kept_of_preview`);
* **`ranges_hold_bases`**: every range of a text that is read reaches from its base up to a version
  above it and accepts the base; but the greatest number of 64 bits cannot be raised, and the reading
  stops at a range that would have to (`not_raised_of_greatest`).
-/

import Loadout.Proofs.Constraint.Failures

namespace Loadout

namespace Version

/-- A numeric version without a pre-release tag. -/
structure IsRelease (version : Version) : Prop where
  isNumeric : version.isNumeric = true
  untagged : version.isPreRelease = false

/-- A release does not come before a version whose components it starts with. -/
theorem IsRelease.order_ne_lt {version base : Version} (release : version.IsRelease)
    (numeric : base.isNumeric = true)
    (agrees : ∀ place < base.numbers.length, version.component place = base.component place) :
    version.order base ≠ .lt := by
  intro before
  rcases (order_eq_lt_iff release.isNumeric numeric).mp before with numbers | ⟨-, tags⟩
  · obtain ⟨place, -, less⟩ := compareNumbers_eq_lt_iff.mp numbers
    rcases Nat.lt_or_ge place base.numbers.length with inside | beyond
    · exact absurd (agrees place inside) (Nat.ne_of_lt less)
    · rw [List.getElem?_eq_none beyond] at less
      exact absurd less (Nat.not_lt_zero _)
  · exact absurd (isPreRelease_of_lt tags) (Bool.eq_false_iff.mp release.untagged)

end Version

namespace Constraint

open Version

/-! ### Ranges of versions -/

/-- What a range accepts among the releases. -/
theorem RangeTerm.accepts_release_iff {term : List Char} {base : Version} {place : Nat}
    (range : RangeTerm term base place) (small : base.component place < wordLimit - 1) :
    ∃ constraint, parse (String.ofList term) = .ok constraint ∧
      ∀ version : Version, version.IsRelease → (constraint.accepts version = true ↔
        version.order base ≠ .lt ∧ version.AgreesThrough base place) := by
  obtain ⟨constraint, read, accepts⟩ := range.accepts_iff (Nat.add_lt_of_lt_sub small)
  refine ⟨constraint, read, fun version release => ?_⟩
  have unlike : ¬version.Previews base place := fun preview =>
    absurd preview.isPreRelease (Bool.eq_false_iff.mp release.untagged)
  rw [accepts version, or_iff_left unlike, and_iff_right release.isNumeric]

section Base

variable {base : Version}

/-- A sign in front of the text of a numeric version makes a range term. -/
theorem Raises.exists_rangeTerm {sign : Char} {place : List Nat → Nat} (raises : Raises sign place)
    (built : base.Built) (numeric : base.isNumeric = true) :
    ∃ term, String.ofList term = String.singleton sign ++ base.text ∧
      RangeTerm term base (place base.numbers) := by
  obtain ⟨form, rfl⟩ := built.exists_form numeric
  exact ⟨sign :: form.chars, String.ofList_cons, .signed raises form⟩

/-- A wildcard of the components of a version makes a range term. -/
theorem rangeTerm_of_wildcard {form : Form} {star : Char}
    (same : form.numbers = base.numbers) (starred : IsStar star) :
    RangeTerm (wildcardChars form star) (.ofNumbers base.numbers) (base.numbers.length - 1) :=
  same ▸ .wildcard form starred

theorem agreesThrough_tildePlace_iff {version : Version} :
    version.AgreesThrough base (tildePlace base.numbers) ↔
      version.component 0 = base.component 0 ∧
        (3 ≤ base.numbers.length → version.component 1 = base.component 1) := by
  rw [tildePlace_eq]
  split
  · next long => rw [agreesThrough_one_iff, forall_prop_of_true long]
  · next short => rw [agreesThrough_zero_iff, forall_prop_of_false short, and_true]

/-- **What ranges accept among the releases**, where the raised component stays in 64 bits. A caret
accepts the releases from its version on that agree with it through its first component that is not
zero, or through the last one if all are zero; a tilde those that agree on the first component, and
on the second of three or more; a wildcard all those that agree on its components. -/
theorem ranges_keep_components (built : base.Built) (numeric : base.isNumeric = true) :
    (∃ place, base.Leads place ∧ (base.component place < wordLimit - 1 →
      ∃ constraint, parse ("^" ++ base.text) = .ok constraint ∧
        ∀ version : Version, version.IsRelease → (constraint.accepts version = true ↔
          version.order base ≠ .lt ∧ version.AgreesThrough base place))) ∧
    (base.component (if 3 ≤ base.numbers.length then 1 else 0) < wordLimit - 1 →
      ∃ constraint, parse ("~" ++ base.text) = .ok constraint ∧
        ∀ version : Version, version.IsRelease → (constraint.accepts version = true ↔
          version.order base ≠ .lt ∧ version.component 0 = base.component 0 ∧
            (3 ≤ base.numbers.length → version.component 1 = base.component 1))) ∧
    ∀ (form : Form) (star : Char), form.numbers = base.numbers → IsStar star →
      base.component (base.numbers.length - 1) < wordLimit - 1 →
        ∃ constraint, parse (String.ofList (wildcardChars form star)) = .ok constraint ∧
          ∀ version : Version, version.IsRelease → (constraint.accepts version = true ↔
            ∀ place < base.numbers.length, version.component place = base.component place) := by
  refine ⟨?_, fun small => ?_, fun form star same starred small => ?_⟩
  · obtain ⟨term, text, range⟩ := Raises.caret.exists_rangeTerm built numeric
    refine ⟨_, caretPlace_leads numeric, fun small => ?_⟩
    obtain ⟨constraint, read, accepts⟩ := range.accepts_release_iff small
    exact ⟨constraint, text ▸ read, accepts⟩
  · obtain ⟨term, text, range⟩ := Raises.tilde.exists_rangeTerm built numeric
    rw [← tildePlace_eq] at small
    obtain ⟨constraint, read, accepts⟩ := range.accepts_release_iff small
    refine ⟨constraint, text ▸ read, fun version release => ?_⟩
    rw [accepts version release, agreesThrough_tildePlace_iff]
  · obtain ⟨constraint, read, accepts⟩ :=
      (rangeTerm_of_wildcard same starred).accepts_release_iff small
    refine ⟨constraint, read, fun version release => ?_⟩
    have kept : version.AgreesThrough (.ofNumbers base.numbers) (base.numbers.length - 1) ↔ _ :=
      agreesThrough_last_iff numeric
    rw [accepts version release, kept]
    exact ⟨And.right, fun agrees => ⟨release.order_ne_lt numeric agrees, agrees⟩⟩

/-- Zeros in front are kept, and so is the pre-release that a range starts from. -/
theorem ranges_keep_components_of_leading_zero :
    ∃ caret tilde wildcard, parse "^0.3.1-rc" = .ok caret ∧
      caret.accepts (.ofNumbers [0, 3, 1]) = true ∧ caret.accepts (.ofNumbers [0, 4]) = false ∧
      parse "~0.3.1-rc" = .ok tilde ∧
      tilde.accepts (.ofNumbers [0, 3, 9]) = true ∧ tilde.accepts (.ofNumbers [0, 3]) = false ∧
      parse "0.3.1.x" = .ok wildcard ∧
      wildcard.accepts (.ofNumbers [0, 3, 1, 7]) = true ∧
      wildcard.accepts (.ofNumbers [0, 3, 2]) = false := by
  let base : Version := ⟨"0.3.1-rc", [0, 3, 1], [.name "rc"]⟩
  have built : base.Built := .parsed (show Version.parse "0.3.1-rc" = .ok base from rfl)
  have release {numbers : List Nat} (filled : numbers ≠ []) : (ofNumbers numbers).IsRelease :=
    ⟨isNumeric_iff.mpr filled, rfl⟩
  obtain ⟨⟨place, leads, carets⟩, tildes, wild⟩ := ranges_keep_components built rfl
  have second : place = 1 := leads.unique ⟨by decide, by decide, by decide⟩
  subst second
  let form := Form.ofNumbers [0, 3, 1] (by decide) (by decide)
  obtain ⟨caret, readCaret, reach⟩ := carets (by decide)
  obtain ⟨tilde, readTilde, reach'⟩ := tildes (by decide)
  obtain ⟨wildcard, readWildcard, reach''⟩ := wild form 'x' rfl (.inl rfl) (by decide)
  refine ⟨caret, tilde, wildcard, readCaret, ?_, ?_, readTilde, ?_, ?_, readWildcard, ?_, ?_⟩
  · exact (reach _ (release (by decide))).mpr (by decide)
  · exact Bool.eq_false_iff.mpr fun accepted =>
      absurd ((reach _ (release (by decide))).mp accepted) (by decide)
  · exact (reach' _ (release (by decide))).mpr (by decide)
  · exact Bool.eq_false_iff.mpr fun accepted =>
      absurd ((reach' _ (release (by decide))).mp accepted) (by decide)
  · exact (reach'' _ (release (by decide))).mpr (by decide)
  · exact Bool.eq_false_iff.mpr fun accepted =>
      absurd ((reach'' _ (release (by decide))).mp accepted) (by decide)

/-- **What ranges accept among all versions.** Beside what agrees with its version as far as it keeps
the components, a caret or a wildcard accepts the pre-releases of the raised version; the reading
stops if the component cannot be raised in 64 bits. -/
theorem ranges_reach_previews (built : base.Built) (numeric : base.isNumeric = true) :
    (∃ place, base.Leads place ∧
      (base.component place + 1 < wordLimit →
        ∃ constraint, parse ("^" ++ base.text) = .ok constraint ∧
          ∀ version : Version, constraint.accepts version = true ↔
            version.isNumeric = true ∧ version.order base ≠ .lt ∧
              (version.AgreesThrough base place ∨ version.Previews base place)) ∧
      (¬base.component place + 1 < wordLimit →
        parse ("^" ++ base.text) = .error .overflow)) ∧
    ∀ (form : Form) (star : Char), form.numbers = base.numbers → IsStar star →
      (base.component (base.numbers.length - 1) + 1 < wordLimit →
        ∃ constraint, parse (String.ofList (wildcardChars form star)) = .ok constraint ∧
          ∀ version : Version, constraint.accepts version = true ↔
            version.isNumeric = true ∧ version.order (.ofNumbers base.numbers) ≠ .lt ∧
              ((∀ place < base.numbers.length,
                  version.component place = base.component place) ∨
                version.Previews (.ofNumbers base.numbers) (base.numbers.length - 1))) ∧
      (¬base.component (base.numbers.length - 1) + 1 < wordLimit →
        parse (String.ofList (wildcardChars form star)) = .error .overflow) := by
  refine ⟨?_, fun form star same starred => ?_⟩
  · obtain ⟨term, text, range⟩ := Raises.caret.exists_rangeTerm built numeric
    refine ⟨_, caretPlace_leads numeric, fun small => ?_, fun great => ?_⟩
    · obtain ⟨constraint, read, accepts⟩ := range.accepts_iff small
      exact ⟨constraint, text ▸ read, accepts⟩
    · exact text ▸ range.parse_overflow great
  · have range := rangeTerm_of_wildcard same starred
    refine ⟨fun small => ?_, range.parse_overflow⟩
    obtain ⟨constraint, read, accepts⟩ := range.accepts_iff small
    refine ⟨constraint, read, fun version => ?_⟩
    have kept : version.AgreesThrough (.ofNumbers base.numbers) (base.numbers.length - 1) ↔ _ :=
      agreesThrough_last_iff numeric
    rw [accepts version, kept]
    rfl

/-- A caret in front of `1.2.3` accepts the later versions of `1` and the pre-releases of `2`. -/
theorem ranges_reach_previews_of_patch :
    ∃ caret, parse "^1.2.3" = .ok caret ∧ ∀ version : Version, caret.accepts version = true ↔
      version.isNumeric = true ∧ version.order ⟨"1.2.3", [1, 2, 3], []⟩ ≠ .lt ∧
        (version.component 0 = 1 ∨ version.Previews ⟨"1.2.3", [1, 2, 3], []⟩ 0) := by
  let base : Version := ⟨"1.2.3", [1, 2, 3], []⟩
  have built : base.Built := .parsed (show Version.parse "1.2.3" = .ok base from rfl)
  obtain ⟨⟨place, leads, reach, -⟩, -⟩ := ranges_reach_previews built rfl
  have first : place = 0 := leads.unique ⟨by decide, by decide, by decide⟩
  subst first
  obtain ⟨caret, read, accepts⟩ := reach (by decide)
  refine ⟨caret, read, fun version => ?_⟩
  rw [accepts version, agreesThrough_zero_iff]
  rfl

/-- **The first component is not kept.** A caret accepts pre-releases of the next major version. -/
theorem not_kept_of_preview :
    ∃ base preview constraint, Version.parse "1.2.3" = .ok base ∧ base.Leads 0 ∧
      Version.parse "2.0.0-alpha" = .ok preview ∧ parse "^1.2.3" = .ok constraint ∧
      constraint.accepts preview = true ∧ ¬preview.AgreesThrough base 0 := by
  refine ⟨_, _, _, rfl, ⟨by decide, nofun, nofun⟩, rfl, rfl, by decide +kernel, fun agrees => ?_⟩
  exact absurd (agrees 0 (Nat.le_refl 0)) (by decide)

end Base

/-! ### Range terms of texts -/

/-- **What the range terms of a text come to.** A text is read or refused just if it does not
overflow. If it is read, each caret, tilde and wildcard of it gives a range from its base to the
raised version: the raised component stays in 64 bits, the raised version lies above the base, and
the range accepts the base. -/
theorem ranges_hold_bases (text : String) :
    ((∃ constraint, parse text = .ok constraint) ∨
        (∃ error, parse text = .error (.refused error)) ↔ ¬Overflows text) ∧
    ∀ constraint, parse text = .ok constraint →
      ∀ alternative ∈ piecesAtBars (trimBlank text.toList),
        ∀ term ∈ termsOf (trimBlank alternative), IsRange term →
          ∃ base place, RangeTerm term base place ∧ place < base.numbers.length ∧
            base.component place + 1 < wordLimit ∧
            (∃ comparators ∈ constraint.alternatives,
              between base (raise base.numbers place) <:+: comparators) ∧
            base.order (raise base.numbers place) = .lt ∧
            (between base (raise base.numbers place)).all (Comparator.accepts · base) = true := by
  refine ⟨read_or_refused_iff, fun constraint read alternative among term part ranges => ?_⟩
  obtain ⟨comparators, listed, own, readOwn, inside⟩ := terms_of_parse read among part
  rcases exists_rangeTerm text ranges with ⟨base, place, range⟩ | ⟨fault, refused⟩
  · rw [range.readTerm_eq] at readOwn
    obtain ⟨small, rfl⟩ := rangeFrom_eq_ok_iff.mp readOwn
    obtain ⟨accepts, above⟩ := accepts_base range.numeric range.inside
    exact ⟨base, place, range, range.inside, small, ⟨comparators, listed, inside⟩, above, accepts⟩
  · cases refused.symm.trans readOwn

/-- The caret of the second alternative reaches from `0.3.1` to `0.4`. -/
theorem ranges_hold_bases_of_second :
    ∃ constraint, parse "1.0 || ^0.3.1 <2" = .ok constraint ∧
      (∃ comparators ∈ constraint.alternatives,
        between ⟨"0.3.1", [0, 3, 1], []⟩ (.ofNumbers [0, 4]) <:+: comparators) ∧
      order ⟨"0.3.1", [0, 3, 1], []⟩ (.ofNumbers [0, 4]) = .lt ∧
      (between ⟨"0.3.1", [0, 3, 1], []⟩ (.ofNumbers [0, 4])).all
        (Comparator.accepts · ⟨"0.3.1", [0, 3, 1], []⟩) = true := by
  obtain ⟨constraint, read⟩ : ∃ constraint, parse "1.0 || ^0.3.1 <2" = .ok constraint := ⟨_, rfl⟩
  have part : "^0.3.1".toList ∈ termsOf (trimBlank " ^0.3.1 <2".toList) := .head _
  obtain ⟨base, place, range, -, small, listed, above, accepts⟩ :=
    (ranges_hold_bases _).2 constraint read _ (.tail _ (.head _)) _ part (.inl rfl)
  have made : rangeFrom base place =
      .ok (between ⟨"0.3.1", [0, 3, 1], []⟩ (.ofNumbers [0, 4])) :=
    (range.readTerm_eq "").symm.trans rfl
  have same := (rangeFrom_eq_ok_iff.mp made).2
  obtain ⟨lowest, highest⟩ : base = ⟨"0.3.1", [0, 3, 1], []⟩ ∧
      raise base.numbers place = .ofNumbers [0, 4] := by
    simpa only [between, List.cons.injEq, Comparator.mk.injEq, true_and, and_true] using same
  rw [highest, lowest] at listed above accepts
  exact ⟨constraint, read, listed, above, accepts⟩

/-- **The greatest number is not raised.** A caret in front of it is neither read nor refused. -/
theorem not_raised_of_greatest :
    parse "^18446744073709551615" = .error .overflow ∧
      ¬∀ text, (∃ constraint, parse text = .ok constraint) ∨
        ∃ error, parse text = .error (.refused error) := by
  have stopped : parse "^18446744073709551615" = .error .overflow := rfl
  refine ⟨stopped, fun all => ?_⟩
  obtain ⟨constraint, read⟩ | ⟨error, refused⟩ := all "^18446744073709551615"
  · cases stopped.symm.trans read
  · cases stopped.symm.trans refused

end Constraint

end Loadout
