/-
**The terms of constraints and how they are read.**

A text is cut into alternatives and these into terms, and each term is read by itself.

* `readAlternative_eq_ok_iff`, `parse_eq_ok_iff`: what it takes for a text to be read;
* `parse_of_term`: a text without separators is one term;
* **`terms_of_parse`**: the terms of a text that is read are read one by one;
* `wildcard?_eq_some_iff`: what a wildcard is, and `exists_wildcardChars`: those whose components are
  numbers below `2 ^ 64` are written with the components of a version;
* `readTerm_of_wildcard`, `readTerm_of_operand`, `readTerm_of_sign`: what is read of a wildcard, of a
  term with an operator and of one with a caret or tilde.
-/

import Loadout.Constraint.Parser
import Loadout.Proofs.Computations
import Loadout.Proofs.Version.Grammar

namespace Loadout

/-! ### Texts of one term -/

/-- A text without a double bar is one alternative. -/
theorem piecesAtBars_of_unbarred {text : List Char} (unbarred : ¬['|', '|'] <:+: text) :
    piecesAtBars text = [text] := by
  induction text with
  | nil => rfl
  | cons character rest ih =>
    have later : ¬['|', '|'] <:+: rest := fun barred =>
      unbarred (List.infix_cons barred)
    rw [piecesAtBars.eq_3, ih later]
    rintro others rfl rfl
    exact unbarred ⟨[], others, rfl⟩

namespace Constraint

open Version

/-- Whether a character stands between the terms of an alternative. -/
def isSeparator (character : Char) : Bool :=
  isBlank character || character == ','

/-- What a test says of all operator characters. -/
theorem of_isOperatorCharacter {character : Char} (operator : isOperatorCharacter character = true)
    (test : Char → Bool) (all : "<>=!^~".toList.all test = true) : test character = true :=
  List.all_eq_true.mp all character (List.contains_iff_mem.mp operator)

theorem termsOf_eq (alternative : List Char) : termsOf alternative =
    glue [] ((piecesBy isSeparator alternative).filter fun token => !token.isEmpty) := rfl

theorem termsOf_of_clean {term : List Char}
    (clean : ∀ character ∈ term, isSeparator character = false)
    (operand : ∃ character ∈ term, isOperatorCharacter character = false) :
    termsOf term = [term] := by
  obtain ⟨character, member, other⟩ := operand
  have filled : term ≠ [] := List.ne_nil_of_mem member
  have kept : [term].filter (fun token => !token.isEmpty) = [term] := by simp [filled]
  have operand : ¬term.all isOperatorCharacter = true := fun all =>
    absurd (List.all_eq_true.mp all character member) (Bool.eq_false_iff.mp other)
  rw [termsOf_eq, piecesBy_eq, List.splitOnP_eq_singleton clean, kept, glue, if_neg operand]
  rfl

/-- A character that neither separates terms nor alternatives. -/
def IsTermCharacter (character : Char) : Prop :=
  isSeparator character = false ∧ character ≠ '|'

/-! ### Alternatives and terms -/

theorem readAlternative_eq (whole : String) (alternative : List Char) :
    readAlternative whole alternative =
      if trimBlank alternative = [] then .error (.refused (.invalidConstraint whole .emptyAlternative))
      else ((termsOf (trimBlank alternative)).mapM (readTerm whole)).map List.flatten := by
  rw [readAlternative]
  dsimp only
  simp only [List.isEmpty_iff]
  rfl

theorem parse_eq (text : String) : parse text =
    if trimBlank text.toList = [] then .ok any
    else ((piecesAtBars (trimBlank text.toList)).mapM (readAlternative text)).map
      fun alternatives => ⟨alternatives, String.ofList (trimBlank text.toList)⟩ := by
  rw [parse]
  simp only [List.isEmpty_iff]
  rfl

/-- An alternative that is read is not blank, and its terms are read one by one. -/
theorem readAlternative_eq_ok_iff {whole : String} {alternative : List Char}
    {comparators : List Comparator} : readAlternative whole alternative = .ok comparators ↔
      trimBlank alternative ≠ [] ∧ ∃ lists,
        (termsOf (trimBlank alternative)).mapM (readTerm whole) = .ok lists ∧
          lists.flatten = comparators := by
  rw [readAlternative_eq]
  split
  · next empty => exact ⟨nofun, fun ⟨filled, _⟩ => absurd empty filled⟩
  · next filled => rw [map_eq_ok_iff, and_iff_right filled]

/-- A text that is read is blank, or its alternatives are read one by one. -/
theorem parse_eq_ok_iff {text : String} {constraint : Constraint} :
    parse text = .ok constraint ↔ trimBlank text.toList = [] ∧ any = constraint ∨
      trimBlank text.toList ≠ [] ∧ ∃ alternatives,
        (piecesAtBars (trimBlank text.toList)).mapM (readAlternative text) = .ok alternatives ∧
          ⟨alternatives, String.ofList (trimBlank text.toList)⟩ = constraint := by
  rw [parse_eq]
  split
  · next empty => simp [empty]
  · next filled => simp [filled, map_eq_ok_iff]

/-- **A text without separators is one term.** -/
theorem parse_of_term {term : List Char} (clean : ∀ character ∈ term, IsTermCharacter character)
    (operand : ∃ character ∈ term, isOperatorCharacter character = false) :
    parse (String.ofList term) = (readTerm (String.ofList term) term).map
      fun comparators => ⟨[comparators], String.ofList term⟩ := by
  have trimmed : trimBlank term = term := trimBlank_of_clean fun character member =>
    (Bool.or_eq_false_iff.mp (clean character member).1).1
  have filled : term ≠ [] := by
    obtain ⟨character, member, _⟩ := operand
    exact List.ne_nil_of_mem member
  have unbarred : ¬['|', '|'] <:+: term := fun barred =>
    (clean '|' (barred.subset List.mem_cons_self)).2 rfl
  have single : termsOf term = [term] :=
    termsOf_of_clean (fun character member => (clean character member).1) operand
  rw [parse_eq, String.toList_ofList, trimmed, if_neg filled, piecesAtBars_of_unbarred unbarred,
    mapM_singleton, readAlternative_eq, trimmed, if_neg filled, single, mapM_singleton]
  cases readTerm (String.ofList term) term with
  | error failure => rfl
  | ok comparators =>
    show Except.ok (Constraint.mk [[comparators].flatten] _) = _
    rw [List.flatten_singleton]
    rfl

/-- **The terms of a text that is read are read one by one**, and each gives its part of the
comparators of an alternative. -/
theorem terms_of_parse {text : String} {constraint : Constraint}
    (read : parse text = .ok constraint) {alternative : List Char}
    (among : alternative ∈ piecesAtBars (trimBlank text.toList)) {term : List Char}
    (part : term ∈ termsOf (trimBlank alternative)) :
    ∃ comparators ∈ constraint.alternatives, ∃ own,
      readTerm text term = .ok own ∧ own <:+: comparators := by
  rcases parse_eq_ok_iff.mp read with ⟨blank, _⟩ | ⟨_, alternatives, each, rfl⟩
  · -- a blank text has no terms
    rw [blank] at among
    cases List.mem_singleton.mp among
    cases part
  · obtain ⟨comparators, here⟩ := mapM_ok_iff.mp ⟨alternatives, each⟩ alternative among
    refine (exists_mem_of_mapM each).mpr ⟨alternative, among, comparators, here, ?_⟩
    obtain ⟨_, lists, each', rfl⟩ := readAlternative_eq_ok_iff.mp here
    obtain ⟨own, here'⟩ := mapM_ok_iff.mp ⟨lists, each'⟩ term part
    obtain ⟨_, member, rfl⟩ := (exists_mem_of_mapM each').mpr ⟨term, part, own, here', rfl⟩
    exact ⟨own, here', List.infix_of_mem_flatten member⟩

/-! ### Wildcards -/

/-- A character that stands for any component. -/
def IsStar (character : Char) : Prop :=
  character = 'x' ∨ character = 'X' ∨ character = '*'

theorem dot_ne_of_isStar {star : Char} (starred : IsStar star) : star ≠ '.' := by
  rcases starred with rfl | rfl | rfl <;> decide

theorem isStar_iff {character : Char} :
    (character == 'x' || character == 'X' || character == '*') = true ↔ IsStar character := by
  simp only [Bool.or_eq_true, beq_iff_eq, or_assoc, IsStar]

/-- **What a wildcard is**: some runs of digits and a star, with dots between them. -/
theorem wildcard?_eq_some_iff {term : List Char} {components : List (List Char)} :
    wildcard? term = some components ↔ components ≠ [] ∧
      (∀ component ∈ components, component ≠ [] ∧
        ∀ character ∈ component, isDecimalDigit character = true) ∧
      ∃ star, IsStar star ∧ dropMark term = dotted (components ++ [[star]]) := by
  have digits : components.all (fun component =>
      !component.isEmpty && component.all isDecimalDigit) = true ↔
      ∀ component ∈ components, component ≠ [] ∧
        ∀ character ∈ component, isDecimalDigit character = true := by
    simp only [List.all_eq_true, Bool.and_eq_true, Bool.not_eq_true', List.isEmpty_eq_false_iff]
  constructor
  · intro found
    unfold wildcard? at found
    split at found
    · next last first rest reversed =>
      dsimp only at found
      split at found
      · next wild =>
        cases found
        rw [Bool.and_eq_true, isStar_iff, digits] at wild
        refine ⟨by simp, wild.2, last, wild.1, ?_⟩
        rw [← List.reverse_cons, ← reversed, List.reverse_reverse, dotted_piecesBy]
      · cases found
    · cases found
  · rintro ⟨filled, runs, star, starred, same⟩
    have undotted : ∀ piece ∈ components ++ [[star]], '.' ∉ piece := by
      intro piece member dot
      rcases List.mem_append.mp member with component | last
      · exact absurd ((runs piece component).2 '.' dot) (by decide)
      · rw [List.mem_singleton.mp last, List.mem_singleton] at dot
        exact dot_ne_of_isStar starred dot.symm
    obtain ⟨first, rest, reversed⟩ := List.exists_cons_of_ne_nil (List.reverse_ne_nil_iff.mpr filled)
    rw [wildcard?, same, piecesBy_dotted (List.append_ne_nil_of_left_ne_nil filled _) undotted,
      List.reverse_concat, reversed]
    dsimp only
    rw [← reversed, List.reverse_reverse, isStar_iff.mpr starred, digits.mpr runs]
    rfl

/-- A term that starts with an operator character is no wildcard. -/
theorem wildcard?_of_operator {first : Char} (operator : isOperatorCharacter first = true)
    (rest : List Char) : wildcard? (first :: rest) = none := by
  have digit := of_isOperatorCharacter operator (!isDecimalDigit ·) (by decide)
  have mark := of_isOperatorCharacter operator (fun first => first != 'v' && first != 'V') (by decide)
  rw [Bool.and_eq_true, bne_iff_ne, bne_iff_ne] at mark
  have unmarked : dropMark (first :: rest) = first :: rest := by
    unfold dropMark
    split
    · next same => exact absurd (List.cons.inj same).1 mark.1
    · next same => exact absurd (List.cons.inj same).1 mark.2
    · rfl
  refine Option.eq_none_iff_forall_ne_some.mpr fun components wild => ?_
  obtain ⟨filled, runs, star, -, same⟩ := wildcard?_eq_some_iff.mp wild
  obtain ⟨component, later, rfl⟩ := List.exists_cons_of_ne_nil filled
  obtain ⟨filled', digits⟩ := runs component List.mem_cons_self
  obtain ⟨head, tail, rfl⟩ := List.exists_cons_of_ne_nil filled'
  obtain ⟨others, start⟩ := exists_dotted head tail (later ++ [[star]])
  rw [unmarked, List.cons_append, start] at same
  cases same
  rw [digits first List.mem_cons_self] at digit
  cases digit

/-- The text of the number components of a form with a star behind them. -/
def wildcardChars (form : Form) (star : Char) : List Char :=
  form.mark.toList ++ dotted (form.runs ++ [[star]])

theorem isDecimalDigit_of_isDigit {character : Char} (digit : character.isDigit = true) :
    isDecimalDigit character = true := by
  simp only [Char.isDigit, Bool.and_eq_true, decide_eq_true_eq, ge_iff_le,
    UInt32.le_iff_toNat_le] at digit
  refine List.any_eq_true.mpr ⟨0x30, List.mem_cons_self, ?_⟩
  rw [Bool.and_eq_true, decide_eq_true_eq, decide_eq_true_eq]
  exact digit

theorem wildcard?_wildcardChars (form : Form) {star : Char} (starred : IsStar star) :
    wildcard? (wildcardChars form star) = some form.runs := by
  obtain ⟨first, rest, start, digit⟩ := form.exists_head [[star]]
  refine wildcard?_eq_some_iff.mpr ⟨form.runs_some, fun run among => ?_, star, starred, ?_⟩
  · obtain ⟨filled, digits, -⟩ := form.runs_words run among
    exact ⟨filled, fun character member => isDecimalDigit_of_isDigit (digits character member)⟩
  · rw [wildcardChars, start]
    exact dropMark_append form.mark_letter digit rest

/-- A wildcard whose components are numbers below `2 ^ 64` is written with those of a form. -/
theorem exists_wildcardChars {term : List Char} {components : List (List Char)} {numbers : List Nat}
    (wild : wildcard? term = some components) (words : components.mapM readWord = some numbers) :
    ∃ (form : Form) (star : Char), IsStar star ∧ wildcardChars form star = term ∧
      form.numbers = numbers := by
  obtain ⟨filled, -, star, starred, same⟩ := wildcard?_eq_some_iff.mp wild
  obtain ⟨mark, letter, marked⟩ := exists_mark term
  obtain ⟨words, counted⟩ := mapM_readWord.mp words
  have untagged (text : List Char) (member : text ∈ none) : IsTag text :=
    absurd member (Option.not_mem_none text)
  refine ⟨⟨mark, components, none, none, letter, filled, words, untagged, untagged⟩, star, starred,
    ?_, counted⟩
  rw [wildcardChars, ← same, ← marked]

/-! ### Reading terms -/

theorem readTerm_of_wildcard (whole : String) {term : List Char} {components : List (List Char)}
    (wild : wildcard? term = some components) : readTerm whole term =
      match components.mapM readWord with
      | some numbers => rangeFrom (.ofNumbers numbers) (numbers.length - 1)
      | none => .error (.refused (.invalidConstraint whole .componentOutOfRange)) := by
  have long : ¬(term = ['*'] ∨ term = ['x'] ∨ term = ['X']) := by
    rintro (rfl | rfl | rfl) <;> cases wild
  cases read : components.mapM readWord <;> simp only [readTerm, if_neg long, wild, read]

/-- A term that is neither a star nor a wildcard is read by what stands in front. -/
theorem readTerm_of_operand (whole : String) {term operand : List Char} {range : Range}
    (long : ¬(term = ['*'] ∨ term = ['x'] ∨ term = ['X'])) (tame : wildcard? term = none)
    (cut : splitRange term = (range, operand)) : readTerm whole term =
      if operand = [] then .error (.refused (.invalidConstraint whole .operatorWithoutVersion))
      else applyRange whole (ofTrimmed operand) range := by
  rw [readTerm, if_neg long, tame, cut]
  simp only [List.isEmpty_iff]

/-- A sign in front of a version, and the place of the component that it raises. -/
inductive Raises : Char → (List Nat → Nat) → Prop
  | caret : Raises '^' caretPlace
  | tilde : Raises '~' tildePlace

theorem readTerm_of_sign (whole : String) {sign : Char} {place : List Nat → Nat}
    (raises : Raises sign place) (operand : List Char) : readTerm whole (sign :: operand) =
      if operand = [] then .error (.refused (.invalidConstraint whole .operatorWithoutVersion))
      else signedRange whole (ofTrimmed operand) place := by
  have long : ¬(sign :: operand = ['*'] ∨ sign :: operand = ['x'] ∨ sign :: operand = ['X']) := by
    cases raises <;> simp
  have operator : isOperatorCharacter sign = true := by cases raises <;> rfl
  have tame := wildcard?_of_operator operator operand
  cases raises <;> exact readTerm_of_operand whole long tame rfl

end Constraint

end Loadout
