/-
**Ranges of versions.**

A caret or a tilde in front of a numeric version, and a wildcard, are *range terms*: each has a base
version and a place at which the base is raised (`RangeTerm`).

* `caretPlace_leads`, `Leads.unique`: a caret raises the first component that is not zero;
* **`RangeTerm.readTerm_eq`**, `exists_rangeTerm`: a range term is read as the range from its base to
  the raised version, and nothing else is read as a caret, a tilde or a wildcard;
* `RangeTerm.accepts_iff`, `RangeTerm.parse_overflow`: what a text of one range term accepts, and that
  its reading stops if the component cannot be raised.
-/

import Loadout.Proofs.Constraint.Bounds
import Loadout.Proofs.Constraint.Terms

namespace Loadout

namespace Version

/-- The place of the first component that is not zero, or of the last one if all are zero. -/
structure Leads (version : Version) (place : Nat) : Prop where
  inside : place < version.numbers.length
  before : ∀ earlier < place, version.component earlier = 0
  only_zeros : version.component place = 0 → place + 1 = version.numbers.length

/-- There is one such place. -/
theorem Leads.unique {version : Version} {place other : Nat} (leads : version.Leads place)
    (leads' : version.Leads other) : place = other := by
  -- no component before the one is zero, nor is the one unless it is the last
  have least {place other : Nat} (leads : version.Leads place) (leads' : version.Leads other) :
      ¬place < other := fun first => by
    have last := leads.only_zeros (leads'.before place first)
    have inside := leads'.inside
    omega
  exact Nat.le_antisymm (Nat.le_of_not_lt (least leads' leads)) (Nat.le_of_not_lt (least leads leads'))

end Version

namespace Constraint

open Version

/-- **A caret raises the first component that is not zero**, or the last one if all are zero. -/
theorem caretPlace_leads {version : Version} (numeric : version.isNumeric = true) :
    version.Leads (caretPlace version.numbers) := by
  unfold caretPlace
  cases found : version.numbers.findIdx? (· != 0) with
  | some place =>
    obtain ⟨inside, other, zeros⟩ := List.findIdx?_eq_some_iff_getElem.mp found
    refine ⟨inside, fun earlier first => ?_, fun zero => ?_⟩
    · have zero := zeros earlier first
      rw [bne_iff_ne, ne_eq, not_not] at zero
      rw [component, List.getElem?_eq_getElem (Nat.lt_trans first inside)]
      exact zero
    · rw [component, Option.getD_some, List.getElem?_eq_getElem inside] at zero
      exact absurd zero (bne_iff_ne.mp other)
  | none =>
    have zeros := List.findIdx?_eq_none_iff.mp found
    have last : version.numbers.length - 1 + 1 = version.numbers.length :=
      Nat.sub_add_cancel (List.length_pos_iff.mpr (isNumeric_iff.mp numeric))
    refine ⟨by rw [Option.getD_none]; omega, fun earlier first => ?_, fun _ => last⟩
    have inside : earlier < version.numbers.length := by
      rw [Option.getD_none] at first
      omega
    rw [component, List.getElem?_eq_getElem inside]
    exact (bne_eq_false_iff_eq.mp (zeros _ (List.getElem_mem inside)))

theorem tildePlace_eq (numbers : List Nat) :
    tildePlace numbers = if 3 ≤ numbers.length then 1 else 0 := by
  unfold tildePlace
  split <;> omega

theorem Raises.inside {sign : Char} {place : List Nat → Nat} (raises : Raises sign place)
    {version : Version} (numeric : version.isNumeric = true) :
    place version.numbers < version.numbers.length := by
  cases raises with
  | caret => exact (caretPlace_leads numeric).inside
  | tilde =>
    rw [isNumeric_iff, ← List.length_pos_iff] at numeric
    rw [tildePlace_eq]
    split <;> omega

/-! ### Range terms -/

/-- A term that ranges from a base to the version in which the component at a place is raised. -/
inductive RangeTerm : List Char → Version → Nat → Prop
  | signed {sign : Char} {place : List Nat → Nat} (raises : Raises sign place) (form : Form) :
    RangeTerm (sign :: form.chars) form.version (place form.numbers)
  | wildcard (form : Form) {star : Char} (starred : IsStar star) :
    RangeTerm (wildcardChars form star) (.ofNumbers form.numbers) (form.numbers.length - 1)

theorem numbers_lt (form : Form) : ∀ number ∈ form.numbers, number < wordLimit := by
  intro number member
  obtain ⟨run, among, rfl⟩ := List.mem_map.mp member
  exact (form.runs_words run among).2.2

section Reading

variable {term : List Char} {base : Version} {place : Nat}

theorem RangeTerm.numeric (range : RangeTerm term base place) : base.isNumeric = true := by
  cases range with
  | signed raises form => exact form.isNumeric_version
  | wildcard form starred => exact form.isNumeric_version

theorem RangeTerm.inside (range : RangeTerm term base place) : place < base.numbers.length := by
  cases range with
  | signed raises form => exact raises.inside form.isNumeric_version
  | wildcard form starred =>
    have filled := List.length_pos_iff.mpr (isNumeric_iff.mp form.isNumeric_version)
    exact Nat.sub_one_lt_of_lt filled

/-- The components of a base are numbers of 64 bits. -/
theorem RangeTerm.word (range : RangeTerm term base place) : base.component place < wordLimit := by
  have words : ∀ number ∈ base.numbers, number < wordLimit := by
    cases range with
    | signed raises form => exact numbers_lt form
    | wildcard form starred => exact numbers_lt form
  rw [component, List.getElem?_eq_getElem range.inside]
  exact words _ (List.getElem_mem range.inside)

/-- **A range term is read as the range from its base to the raised version.** -/
theorem RangeTerm.readTerm_eq (range : RangeTerm term base place) (whole : String) :
    readTerm whole term = rangeFrom base place := by
  cases range with
  | signed raises form =>
    rw [readTerm_of_sign whole raises, if_neg form.chars_ne_nil, ofTrimmed_chars, signedRange,
      if_pos form.isNumeric_version]
    rfl
  | wildcard form starred =>
    rw [readTerm_of_wildcard whole (wildcard?_wildcardChars form starred),
      mapM_readWord.mpr ⟨form.runs_words, rfl⟩]
    rfl

/-- A range is made just if the component can be raised in 64 bits. -/
theorem rangeFrom_eq_ok_iff {comparators : List Comparator} :
    rangeFrom base place = .ok comparators ↔ base.component place + 1 < wordLimit ∧
      between base (raise base.numbers place) = comparators := by
  rw [rangeFrom]
  split
  · next small => rw [Except.ok.injEq, and_iff_right small]
  · next great => exact ⟨nofun, fun ⟨small, _⟩ => absurd small great⟩

/-! ### Texts of one range term -/

theorem isTermCharacter_of_isVersionCharacter {character : Char}
    (may : isVersionCharacter character = true) : IsTermCharacter character := by
  have apart : character ≠ ',' ∧ character ≠ '|' := by
    constructor <;> exact fun same => absurd may (same ▸ by decide)
  refine ⟨?_, apart.2⟩
  rw [isSeparator, isBlank_of_isVersionCharacter may, Bool.false_or, beq_eq_false_iff_ne]
  exact apart.1

theorem isOperatorCharacter_of_isVersionCharacter {character : Char}
    (may : isVersionCharacter character = true) : isOperatorCharacter character = false := by
  refine Bool.eq_false_iff.mpr fun operator => ?_
  have other := of_isOperatorCharacter operator (!isVersionCharacter ·) (by decide)
  rw [may] at other
  cases other

theorem mem_wildcardChars {form : Form} {star character : Char}
    (member : character ∈ wildcardChars form star) :
    isVersionCharacter character = true ∨ character = star := by
  rcases List.mem_append.mp member with marked | behind
  · exact .inl (Form.isVersionCharacter_of_mark marked)
  · rcases mem_dotted behind with rfl | ⟨run, among, inside⟩
    · exact .inl (by decide)
    · rcases List.mem_append.mp among with number | last
      · exact .inl (Form.isVersionCharacter_of_run number inside)
      · rw [List.mem_singleton.mp last, List.mem_singleton] at inside
        exact .inr inside

theorem RangeTerm.isTermCharacter_of_mem (range : RangeTerm term base place) :
    ∀ character ∈ term, IsTermCharacter character := by
  intro character member
  cases range with
  | signed raises form =>
    rcases List.mem_cons.mp member with rfl | inside
    · cases raises <;> exact ⟨by decide, by decide⟩
    · exact isTermCharacter_of_isVersionCharacter (Form.isVersionCharacter_of_mem inside)
  | wildcard form starred =>
    rcases mem_wildcardChars member with may | rfl
    · exact isTermCharacter_of_isVersionCharacter may
    · rcases starred with rfl | rfl | rfl <;> exact ⟨by decide, by decide⟩

theorem RangeTerm.exists_operand (range : RangeTerm term base place) :
    ∃ character ∈ term, isOperatorCharacter character = false := by
  cases range with
  | signed raises form =>
    obtain ⟨first, rest, start⟩ := List.exists_cons_of_ne_nil form.chars_ne_nil
    have member : first ∈ form.chars := start ▸ List.mem_cons_self
    exact ⟨first, List.mem_cons_of_mem _ member,
      isOperatorCharacter_of_isVersionCharacter (Form.isVersionCharacter_of_mem member)⟩
  | @wildcard form star starred =>
    obtain ⟨first, rest, start, digit⟩ := form.exists_head [[star]]
    refine ⟨first, List.mem_append_right _ (start ▸ List.mem_cons_self), ?_⟩
    exact isOperatorCharacter_of_isVersionCharacter (isVersionCharacter_of_isDigit digit)

theorem RangeTerm.parse_eq (range : RangeTerm term base place) :
    parse (String.ofList term) =
      (rangeFrom base place).map fun comparators => ⟨[comparators], String.ofList term⟩ := by
  rw [parse_of_term range.isTermCharacter_of_mem range.exists_operand, range.readTerm_eq]

/-- **What a text of one range term accepts**, if the component can be raised in 64 bits. -/
theorem RangeTerm.accepts_iff (range : RangeTerm term base place)
    (small : base.component place + 1 < wordLimit) :
    ∃ constraint, parse (String.ofList term) = .ok constraint ∧
      ∀ version, constraint.accepts version = true ↔
        version.isNumeric = true ∧ version.order base ≠ .lt ∧
          (version.AgreesThrough base place ∨ version.Previews base place) := by
  refine ⟨⟨[between base (raise base.numbers place)], String.ofList term⟩, ?_, fun version => ?_⟩
  · rw [range.parse_eq, rangeFrom, if_pos small]
    rfl
  · rw [← accepts_between_iff range.numeric range.inside]
    exact (Bool.or_false _).congr_left

/-- **The reading of a text of one range term stops** if the component cannot be raised. -/
theorem RangeTerm.parse_overflow (range : RangeTerm term base place)
    (great : ¬base.component place + 1 < wordLimit) :
    parse (String.ofList term) = .error .overflow := by
  rw [range.parse_eq, rangeFrom, if_neg great]
  rfl

/-! ### Terms that are read as ranges -/

/-- A term that has a caret or tilde in front, or is a wildcard. -/
def IsRange (term : List Char) : Prop :=
  term.head? = some '^' ∨ term.head? = some '~' ∨ (wildcard? term).isSome = true

/-- **A caret, a tilde or a wildcard is a range term or refused.** -/
theorem exists_rangeTerm (whole : String) (ranges : IsRange term) :
    (∃ base place, RangeTerm term base place) ∨
      ∃ fault, readTerm whole term = .error (.refused (.invalidConstraint whole fault)) := by
  have signed {sign : Char} {place : List Nat → Nat} (raises : Raises sign place)
      (head : term.head? = some sign) : (∃ base place, RangeTerm term base place) ∨
        ∃ fault, readTerm whole term = .error (.refused (.invalidConstraint whole fault)) := by
    obtain ⟨operand, rfl⟩ := List.head?_eq_some_iff.mp head
    rw [readTerm_of_sign whole raises]
    split
    · exact .inr ⟨_, rfl⟩
    · rw [signedRange]
      split
      · next numeric =>
        obtain ⟨form, rfl⟩ := isNumeric_ofTrimmed_iff.mp numeric
        exact .inl ⟨_, _, .signed raises form⟩
      · exact .inr ⟨_, rfl⟩
  rcases ranges with caret | tilde | wild
  · exact signed .caret caret
  · exact signed .tilde tilde
  · obtain ⟨components, wild⟩ := Option.isSome_iff_exists.mp wild
    rw [readTerm_of_wildcard whole wild]
    cases words : components.mapM readWord with
    | none => exact .inr ⟨_, rfl⟩
    | some numbers =>
      obtain ⟨form, star, starred, rfl, -⟩ := exists_wildcardChars wild words
      exact .inl ⟨_, _, .wildcard form starred⟩

/-- A term that is cut behind a caret or a tilde has it in front. -/
theorem isRange_of_splitRange
    (signed : (splitRange term).1 = .caret ∨ (splitRange term).1 = .tilde) : IsRange term := by
  unfold splitRange at signed
  split at signed
  case h_1 => exact .inl rfl
  case h_2 => exact .inr (.inl rfl)
  all_goals rcases signed with signed | signed <;> cases signed

/-- Of a term that is no range, only an operator without a version is refused. -/
theorem readTerm_of_not_isRange (whole : String) (plain : ¬IsRange term) :
    (∃ comparators, readTerm whole term = .ok comparators) ∨
      ∃ fault, readTerm whole term = .error (.refused (.invalidConstraint whole fault)) := by
  by_cases star : term = ['*'] ∨ term = ['x'] ∨ term = ['X']
  · rw [readTerm, if_pos star]
    exact .inl ⟨_, rfl⟩
  · have tame : wildcard? term = none :=
      Option.not_isSome_iff_eq_none.mp fun wild => plain (.inr (.inr wild))
    obtain ⟨range, operand, cut⟩ : ∃ range operand, splitRange term = (range, operand) :=
      ⟨_, _, rfl⟩
    rw [readTerm_of_operand whole star tame cut]
    split
    · exact .inr ⟨_, rfl⟩
    · cases range with
      | compare operator => exact .inl ⟨_, rfl⟩
      | caret => exact absurd (isRange_of_splitRange (.inl (congrArg Prod.fst cut))) plain
      | tilde => exact absurd (isRange_of_splitRange (.inr (congrArg Prod.fst cut))) plain

end Reading

end Constraint

end Loadout
