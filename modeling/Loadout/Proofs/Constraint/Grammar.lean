/-
**The grammar of constraints.**

A constraint is written as alternatives between double bars (`Bars`), each of them as phrases that
have a meaning (`ReadsAlternative`), or as a blank text. What phrases are made of is left open
(`Reads`): they may be put together as they are read (`Glued`) or as they are meant (`Composed`).

* `bars_iff`: the alternatives are the pieces up to each double bar, read from the left;
* `parse_iff`: what is read is what phrases mean as they are read;
* **`grammar_exact`**: the texts that are written as they are meant are read so, and of the texts that
  are read they are just those without faults;
* `not_composed_of_dropped`: a text with a fault may be read all the same.
-/

import Loadout.Proofs.Constraint.Failures
import Loadout.Proofs.Constraint.Phrases
import Mathlib.Data.List.Forall2

namespace Loadout

/-! ### Alternatives -/

/-- **The pieces of a text between its double bars**, each of which ends where the first one is. -/
inductive Bars : List Char → List (List Char) → Prop
  | last {text : List Char} : ¬['|', '|'] <:+: text → Bars text [text]
  | cut {piece rest : List Char} {pieces : List (List Char)} : ¬['|', '|'] <:+: piece ++ ['|'] →
    Bars rest pieces → Bars (piece ++ '|' :: '|' :: rest) (piece :: pieces)

theorem piecesAtBars_cut {piece : List Char} (unbarred : ¬['|', '|'] <:+: piece ++ ['|'])
    (rest : List Char) :
    piecesAtBars (piece ++ '|' :: '|' :: rest) = piece :: piecesAtBars rest := by
  induction piece with
  | nil => rfl
  | cons character others ih =>
    have later : ¬['|', '|'] <:+: others ++ ['|'] := fun barred =>
      unbarred (List.infix_cons barred)
    rw [List.cons_append, piecesAtBars.eq_3, ih later]
    -- otherwise the double bar would start before the end of the piece
    rintro next rfl start
    cases others with
    | nil => exact unbarred ⟨[], [], rfl⟩
    | cons second others =>
      cases start
      exact unbarred ⟨[], others ++ ['|'], rfl⟩

/-- A character that does not begin a double bar belongs to the first piece. -/
theorem Bars.cons {character : Char} {rest piece : List Char} {pieces : List (List Char)}
    (apart : ∀ others, character = '|' → rest = '|' :: others → False)
    (bars : Bars rest (piece :: pieces)) :
    Bars (character :: rest) ((character :: piece) :: pieces) := by
  cases bars with
  | last unbarred =>
    refine .last fun barred => ?_
    rcases List.infix_cons_iff.mp barred with ⟨others, start⟩ | later
    · cases start
      exact apart others rfl rfl
    · exact unbarred later
  | @cut _ others _ unbarred bars =>
    refine @cut (character :: piece) others _ (fun barred => ?_) bars
    rcases List.infix_cons_iff.mp barred with ⟨more, start⟩ | later
    · obtain ⟨rfl, tail⟩ := List.cons.inj start
      have first : piece ++ ['|'] = '|' :: more := tail.symm
      refine apart (more ++ '|' :: others) rfl ?_
      calc piece ++ '|' :: '|' :: others = (piece ++ ['|']) ++ '|' :: others := by simp
        _ = '|' :: (more ++ '|' :: others) := by rw [first]; rfl
    · exact unbarred later

theorem bars_piecesAtBars (text : List Char) : Bars text (piecesAtBars text) := by
  induction text using piecesAtBars.induct with
  | case1 => exact .last (by decide)
  | case2 rest ih => exact @Bars.cut [] rest _ (by decide) ih
  | case3 character rest apart none ih =>
    rw [none] at ih
    cases ih
  | case4 character rest apart piece pieces found ih =>
    rw [piecesAtBars.eq_3 _ _ apart, found]
    rw [found] at ih
    exact ih.cons apart

/-- **Double bars are read from the left.** -/
theorem bars_iff {text : List Char} {pieces : List (List Char)} :
    Bars text pieces ↔ piecesAtBars text = pieces := by
  constructor
  · intro bars
    induction bars with
    | last unbarred => exact piecesAtBars_of_unbarred unbarred
    | cut unbarred _ ih => rw [piecesAtBars_cut unbarred, ih]
  · rintro rfl
    exact bars_piecesAtBars text

/-- There is no double bar in a piece. -/
theorem Bars.unbarred {text : List Char} {pieces : List (List Char)} (bars : Bars text pieces) :
    ∀ piece ∈ pieces, ¬['|', '|'] <:+: piece := by
  induction bars with
  | last unbarred => exact List.forall_mem_singleton.mpr unbarred
  | cut unbarred _ ih =>
    exact List.forall_mem_cons.mpr ⟨fun barred => unbarred (barred.trans List.infix_append_left), ih⟩

namespace Constraint

/-- An alternative that is not blank is made of phrases, and means what they mean together. -/
def ReadsAlternative (makes : List (List Char) → List Phrase → Prop) (alternative : List Char)
    (comparators : List Comparator) : Prop :=
  trimBlank alternative ≠ [] ∧ ∃ phrases lists, makes (tokensOf (trimBlank alternative)) phrases ∧
    List.Forall₂ Means phrases lists ∧ lists.flatten = comparators

/-- **What a text says**: if it is blank, to accept every version, and otherwise what its alternatives
say. -/
inductive Reads (makes : List (List Char) → List Phrase → Prop) (text : String) : Constraint → Prop
  | blank : trimBlank text.toList = [] → Reads makes text any
  | alternatives {pieces : List (List Char)} {lists : List (List Comparator)} :
    trimBlank text.toList ≠ [] → Bars (trimBlank text.toList) pieces →
    List.Forall₂ (ReadsAlternative makes) pieces lists →
    Reads makes text ⟨lists, String.ofList (trimBlank text.toList)⟩

theorem readTerms_iff (whole : String) {terms : List (List Char)}
    {lists : List (List Comparator)} : terms.mapM (readTerm whole) = .ok lists ↔
      ∃ phrases, List.Forall₂ Splits terms phrases ∧ List.Forall₂ Means phrases lists := by
  rw [mapM_eq_ok_iff]
  constructor
  · intro each
    induction each with
    | nil => exact ⟨[], .nil, .nil⟩
    | @cons term _ _ _ read _ ih =>
      obtain ⟨phrases, splits, means⟩ := ih
      obtain ⟨phrase, _, split, _, _⟩ := exists_splits term
      exact ⟨phrase :: phrases, .cons split splits, .cons ((readTerm_iff split).mp read) means⟩
  · rintro ⟨phrases, splits, means⟩
    induction splits generalizing lists with
    | nil =>
      cases means
      exact .nil
    | cons split _ ih =>
      cases means with
      | cons meaning others => exact .cons ((readTerm_iff split).mpr meaning) (ih others)

theorem readAlternative_iff {whole : String} {alternative : List Char}
    {comparators : List Comparator} : readAlternative whole alternative = .ok comparators ↔
      ReadsAlternative Glued alternative comparators := by
  have filled := fun token => @ne_nil_of_mem_tokensOf (trimBlank alternative) token
  rw [readAlternative_eq_ok_iff, ReadsAlternative, termsOf_eq_glue]
  refine and_congr_right fun _ => ?_
  constructor
  · rintro ⟨lists, each, rfl⟩
    obtain ⟨phrases, splits, means⟩ := (readTerms_iff whole).mp each
    exact ⟨phrases, lists, (glued_iff filled).mpr splits, means, rfl⟩
  · rintro ⟨phrases, lists, glued, means, rfl⟩
    exact ⟨lists, (readTerms_iff whole).mpr ⟨phrases, (glued_iff filled).mp glued, means⟩, rfl⟩

/-- **What is read of a text is what its phrases mean as they are read.** -/
theorem parse_iff {text : String} {constraint : Constraint} :
    parse text = .ok constraint ↔ Reads Glued text constraint := by
  rw [parse_eq_ok_iff]
  constructor
  · rintro (⟨blank, rfl⟩ | ⟨filled, lists, each, rfl⟩)
    · exact .blank blank
    · refine .alternatives filled (bars_piecesAtBars _) ?_
      exact (mapM_eq_ok_iff.mp each).imp fun _ _ => readAlternative_iff.mp
  · rintro (blank | ⟨filled, bars, each⟩)
    · exact .inl ⟨blank, rfl⟩
    · refine .inr ⟨filled, _, ?_, rfl⟩
      rw [bars_iff.mp bars]
      exact mapM_eq_ok_iff.mpr (each.imp fun _ _ => (@readAlternative_iff text _ _).mpr)

/-! ### Texts as they are meant -/

/-- Tokens make some phrases as they are meant. -/
def MakesSome (tokens : List (List Char)) (phrases : List Phrase) : Prop :=
  phrases ≠ [] ∧ Composed tokens phrases

/-- An alternative has no faults if it has tokens and these have none. -/
def SoundAlternative (alternative : List Char) : Prop :=
  tokensOf (trimBlank alternative) ≠ [] ∧ Faultless (tokensOf (trimBlank alternative))

/-- **A text has no faults** if it is blank or none of its alternatives has any. -/
def Sound (text : String) : Prop :=
  trimBlank text.toList = [] ∨
    ∀ alternative ∈ piecesAtBars (trimBlank text.toList), SoundAlternative alternative

theorem makesSome_iff {alternative : List Char} {phrases : List Phrase} :
    MakesSome (tokensOf alternative) phrases ↔ Glued (tokensOf alternative) phrases ∧
      tokensOf alternative ≠ [] ∧ Faultless (tokensOf alternative) := by
  rw [MakesSome, composed_iff fun token => ne_nil_of_mem_tokensOf]
  constructor
  · rintro ⟨some, glued, faultless⟩
    exact ⟨glued, mt glued.eq_nil_iff.mpr some, faultless⟩
  · rintro ⟨glued, some, faultless⟩
    exact ⟨mt glued.eq_nil_iff.mp some, glued, faultless⟩

/-- An alternative is written as it is meant just when it has no faults and is read so. -/
theorem readsAlternative_iff {alternative : List Char} {comparators : List Comparator} :
    ReadsAlternative MakesSome alternative comparators ↔
      SoundAlternative alternative ∧ ReadsAlternative Glued alternative comparators := by
  simp only [ReadsAlternative, makesSome_iff]
  constructor
  · rintro ⟨filled, phrases, lists, ⟨glued, sound⟩, means⟩
    exact ⟨sound, filled, phrases, lists, glued, means⟩
  · rintro ⟨sound, filled, phrases, lists, glued, means⟩
    exact ⟨filled, phrases, lists, ⟨glued, sound⟩, means⟩

/-- **The texts that are written as they are meant are those that are read and have no faults.** -/
theorem reads_makesSome_iff {text : String} {constraint : Constraint} :
    Reads MakesSome text constraint ↔ parse text = .ok constraint ∧ Sound text := by
  rw [parse_iff]
  constructor
  · rintro (blank | ⟨filled, bars, each⟩)
    · exact ⟨.blank blank, .inl blank⟩
    · obtain ⟨sound, reads⟩ := (List.forall₂_and_left _ _).mp
        (each.imp fun _ _ => readsAlternative_iff.mp)
      rw [← bars_iff.mp bars] at sound
      exact ⟨.alternatives filled bars reads, .inr sound⟩
  · rintro ⟨blank | ⟨filled, bars, reads⟩, sound⟩
    · exact .blank blank
    · have sound := sound.resolve_left filled
      rw [bars_iff.mp bars] at sound
      refine .alternatives filled bars ?_
      exact ((List.forall₂_and_left _ _).mpr ⟨sound, reads⟩).imp fun _ _ => readsAlternative_iff.mpr

/-- **Reading a constraint, exactly.** What is read of a text is what its phrases mean as they are
read; of the texts that are read, just those without faults are written as they are meant, and they
are read so; what is refused is refused by an error that names the text, and the reading stops just
at the texts that overflow. -/
theorem grammar_exact (text : String) :
    (∀ constraint, parse text = .ok constraint ↔ Reads Glued text constraint) ∧
      (∀ constraint, Reads MakesSome text constraint ↔
        parse text = .ok constraint ∧ Sound text) ∧
      (∀ error, parse text = .error (.refused error) →
        ∃ fault, error = .invalidConstraint text fault) ∧
      (parse text = .error .overflow ↔ Overflows text) :=
  ⟨fun _ => parse_iff, fun _ => reads_makesSome_iff, fun _ => parse_refused, parse_overflow_iff⟩

/-- A sign goes with the version behind it, also across a blank; at the end it is refused. -/
theorem grammar_exact_of_detached : (∃ constraint, Reads MakesSome ">= 1, <2" constraint) ∧
    ∃ fault, parse "1 >=" = .error (.refused (.invalidConstraint "1 >=" fault)) := by
  obtain ⟨constraint, read⟩ : ∃ constraint, parse ">= 1, <2" = .ok constraint := ⟨_, rfl⟩
  obtain ⟨error, failed⟩ : ∃ error, parse "1 >=" = .error (.refused error) := ⟨_, rfl⟩
  have tokens : tokensOf (trimBlank ">= 1, <2".toList) = [['>', '='], ['1'], ['<', '2']] := by
    decide +kernel
  have signs : IsSign ['>', '='] ∧ IsSign ['<'] :=
    ⟨⟨.compare .greaterOrEqual, by decide⟩, ⟨.compare .less, by decide⟩⟩
  have faultless : Faultless [['>', '='], ['1'], ['<', '2']] :=
    ⟨.inr signs.1, fun _ => ⟨_, rfl, rfl⟩, .inl rfl, nofun, .inr signs.2, nofun, trivial⟩
  have sound : Sound ">= 1, <2" := by
    have alone : piecesAtBars (trimBlank ">= 1, <2".toList) = [">= 1, <2".toList] := by
      decide +kernel
    rw [Sound, alone, List.forall_mem_singleton, SoundAlternative, tokens]
    exact .inr ⟨nofun, faultless⟩
  refine ⟨⟨constraint, ((grammar_exact _).2.1 constraint).mpr ⟨read, sound⟩⟩, ?_⟩
  obtain ⟨fault, rfl⟩ := (grammar_exact _).2.2.1 error failed
  exact ⟨fault, failed⟩

/-- **A text with a fault may be read all the same**: the first of two signs on their own is
dropped. -/
theorem not_composed_of_dropped :
    ¬∀ text constraint, parse text = .ok constraint → Reads MakesSome text constraint := by
  intro composed
  obtain ⟨constraint, read⟩ : ∃ constraint, parse ">= < 2" = .ok constraint := ⟨_, rfl⟩
  obtain blank | sound := (reads_makesSome_iff.mp (composed _ _ read)).2
  · exact absurd blank (by decide)
  · obtain ⟨_, _, behind, _⟩ := sound ">= < 2".toList (by decide)
    obtain ⟨next, first, plain⟩ := behind rfl
    cases first
    exact absurd plain (by decide)

end Constraint

end Loadout
