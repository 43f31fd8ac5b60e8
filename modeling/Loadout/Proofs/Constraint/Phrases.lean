/-
**The phrases of an alternative.**

A *phrase* is a sign, perhaps none, and what stands behind it. A term is cut into a phrase behind the
longest sign that it starts with (`Splits`), and the phrase has a meaning or none (`Means`). Tokens are
put together to phrases in two ways:

* `Glued`, `glued_iff`: as they are read: of tokens of operator characters alone the last one is glued
  to the token behind, and those before it are dropped;
* `Composed`: as they are meant: each sign stands in front of a version of its own, which does not
  start with an operator character;
* **`readTerm_iff`**: a term is read as what its phrase means;
* **`composed_iff`**: the two ways come to the same just for tokens without faults (`Faultless`).
-/

import Loadout.Proofs.Constraint.Ranges

namespace Loadout

namespace Constraint

open Version

/-! ### Signs -/

/-- The signs that may stand in front of a version. -/
def signs : List (List Char × Range) :=
  [(['^'], .caret), (['~'], .tilde), (['>', '='], .compare .greaterOrEqual),
    (['<', '='], .compare .lessOrEqual), (['=', '='], .compare .equal),
    (['!', '='], .compare .notEqual), (['<', '>'], .compare .notEqual), (['>'], .compare .greater),
    (['<'], .compare .less), (['='], .compare .equal)]

/-- A text is one of the signs. -/
def IsSign (sign : List Char) : Prop :=
  ∃ range, (sign, range) ∈ signs

/-- What stands in front of a version, and what it says: nothing says that versions are equal. -/
def Stands (sign : List Char) (range : Range) : Prop :=
  (sign, range) ∈ signs ∨ sign = [] ∧ range = .compare .equal

/-- A sign has one meaning. -/
theorem Stands.unique {sign : List Char} {range range' : Range} (stands : Stands sign range)
    (stands' : Stands sign range') : range = range' := by
  have keys : ∀ entry ∈ signs, entry.1 ≠ [] ∧
      ∀ other ∈ signs, entry.1 = other.1 → entry.2 = other.2 := by decide
  rcases stands with member | ⟨empty, rfl⟩
  · rcases stands' with member' | ⟨empty, _⟩
    · exact (keys _ member).2 _ member' rfl
    · exact absurd empty (keys _ member).1
  · rcases stands' with member' | ⟨_, rfl⟩
    · exact absurd empty (keys _ member').1
    · rfl

/-- Signs are made of operator characters. -/
theorem IsSign.operators {sign : List Char} (isSign : IsSign sign) :
    ∀ character ∈ sign, isOperatorCharacter character = true := by
  obtain ⟨range, member⟩ := isSign
  have all : ∀ entry ∈ signs, entry.1.all isOperatorCharacter = true := by decide
  exact List.all_eq_true.mp (all _ member)

theorem IsSign.ne_nil {sign : List Char} (isSign : IsSign sign) : sign ≠ [] := by
  obtain ⟨range, member⟩ := isSign
  have all : ∀ entry ∈ signs, entry.1 ≠ [] := by decide
  exact all _ member

/-! ### Phrases -/

/-- A sign and what stands behind it. -/
structure Phrase where
  sign : List Char
  operand : List Char

/-- **A text is cut behind the longest sign that it starts with.** -/
structure Splits (text : List Char) (phrase : Phrase) : Prop where
  whole : text = phrase.sign ++ phrase.operand
  sign : phrase.sign = [] ∨ IsSign phrase.sign
  longest : ∀ other, IsSign other → other <+: text → other.length ≤ phrase.sign.length

/-- A text is cut in one way. -/
theorem Splits.unique {text : List Char} {phrase phrase' : Phrase} (splits : Splits text phrase)
    (splits' : Splits text phrase') : phrase = phrase' := by
  have within {phrase phrase' : Phrase} (splits : Splits text phrase)
      (splits' : Splits text phrase') : phrase.sign.length ≤ phrase'.sign.length := by
    rcases splits.sign with none | isSign
    · rw [none]
      exact Nat.zero_le _
    · exact splits'.longest _ isSign ⟨phrase.operand, splits.whole.symm⟩
  obtain ⟨sign, operand⟩ := List.append_inj (splits.whole.symm.trans splits'.whole)
    (Nat.le_antisymm (within splits splits') (within splits' splits))
  cases phrase
  cases phrase'
  exact congrArg₂ Phrase.mk sign operand

/-- A text starts with a sign of two characters. -/
def StartsWithPair (text : List Char) : Prop :=
  ∃ rest, text = '>' :: '=' :: rest ∨ text = '<' :: '=' :: rest ∨ text = '=' :: '=' :: rest ∨
    text = '!' :: '=' :: rest ∨ text = '<' :: '>' :: rest

/-- What a text with a sign in front looks like. -/
theorem exists_of_prefix {sign text : List Char} (isSign : IsSign sign) (start : sign <+: text) :
    sign.length = 1 ∧ (∃ rest, text = '^' :: rest ∨ text = '~' :: rest ∨ text = '>' :: rest ∨
        text = '<' :: rest ∨ text = '=' :: rest) ∨
      sign.length = 2 ∧ StartsWithPair text := by
  obtain ⟨range, member⟩ := isSign
  obtain ⟨rest, rfl⟩ := start
  simp only [signs, List.mem_cons, Prod.mk.injEq, List.not_mem_nil, or_false] at member
  rcases member with ⟨rfl, -⟩ | ⟨rfl, -⟩ | ⟨rfl, -⟩ | ⟨rfl, -⟩ | ⟨rfl, -⟩ | ⟨rfl, -⟩ | ⟨rfl, -⟩ |
    ⟨rfl, -⟩ | ⟨rfl, -⟩ | ⟨rfl, -⟩ <;> simp [StartsWithPair]

/-- **Every text is cut so**, and what its sign says is read of it. -/
theorem exists_splits (text : List Char) : ∃ phrase range, Splits text phrase ∧
    Stands phrase.sign range ∧ splitRange text = (range, phrase.operand) := by
  have cut (sign : List Char) {rest : List Char} {range : Range} (member : (sign, range) ∈ signs)
      (pairs : StartsWithPair (sign ++ rest) → 2 ≤ sign.length) :
      ∃ phrase range', Splits (sign ++ rest) phrase ∧ Stands phrase.sign range' ∧
        (range, rest) = (range', phrase.operand) := by
    have isSign : IsSign sign := ⟨range, member⟩
    refine ⟨⟨sign, rest⟩, range, ⟨rfl, .inr isSign, fun other isSign' start => ?_⟩,
      .inl member, rfl⟩
    rcases exists_of_prefix isSign' start with ⟨one, -⟩ | ⟨two, pair⟩
    · exact one ▸ List.length_pos_iff.mpr isSign.ne_nil
    · exact two ▸ pairs pair
  have lone {sign : Char} {rest : List Char} (other : ¬StartsWithPair (sign :: rest)) :
      StartsWithPair ([sign] ++ rest) → 2 ≤ [sign].length := fun pair => absurd pair other
  unfold splitRange
  split
  case h_1 => exact cut ['^'] (by decide) (lone (by simp [StartsWithPair]))
  case h_2 => exact cut ['~'] (by decide) (lone (by simp [StartsWithPair]))
  case h_3 => exact cut ['>', '='] (by decide) fun _ => Nat.le_refl _
  case h_4 => exact cut ['<', '='] (by decide) fun _ => Nat.le_refl _
  case h_5 => exact cut ['=', '='] (by decide) fun _ => Nat.le_refl _
  case h_6 => exact cut ['!', '='] (by decide) fun _ => Nat.le_refl _
  case h_7 => exact cut ['<', '>'] (by decide) fun _ => Nat.le_refl _
  case h_8 => exact cut ['>'] (by decide) (lone (by grind [StartsWithPair]))
  case h_9 => exact cut ['<'] (by decide) (lone (by grind [StartsWithPair]))
  case h_10 => exact cut ['='] (by decide) (lone (by grind [StartsWithPair]))
  case h_11 =>
    refine ⟨⟨[], text⟩, _, ⟨rfl, .inl rfl, fun other isSign start => ?_⟩, .inr ⟨rfl, rfl⟩, rfl⟩
    rcases exists_of_prefix isSign start with ⟨_, rest, shape⟩ | ⟨_, rest, shape⟩ <;> grind

/-- A text that may stand behind a sign: it does not start with an operator character. -/
def IsOperand (operand : List Char) : Prop :=
  ∃ first ∈ operand.head?, isOperatorCharacter first = false

/-- **A sign in front of what does not start with an operator character is cut off.** -/
theorem splits_of_operand {sign operand : List Char} (proper : sign = [] ∨ IsSign sign)
    (behind : IsOperand operand) : Splits (sign ++ operand) ⟨sign, operand⟩ := by
  refine ⟨rfl, proper, fun other isSign ⟨rest, same⟩ => ?_⟩
  rcases List.append_eq_append_iff.mp same with ⟨more, rfl, _⟩ | ⟨more, rfl, rfl⟩
  · exact List.length_append ▸ Nat.le_add_right _ _
  · -- a longer sign would have the first character of the operand
    cases more with
    | nil => rw [List.append_nil]
    | cons first others =>
      obtain ⟨_, ⟨⟩, plain⟩ := behind
      have operator := isSign.operators first (List.mem_append_right _ List.mem_cons_self)
      rw [operator] at plain
      cases plain

/-! ### The meaning of a phrase -/

/-- A term that stands for versions with any last component, or for all versions. -/
def IsPattern (term : List Char) : Prop :=
  (∃ star, IsStar star ∧ term = [star]) ∨ (wildcard? term).isSome = true

/-- **What a phrase means**: a star accepts every version; a wildcard, and a caret or tilde in front
of a numeric version, range from a base to the raised version, if the component can be raised in 64
bits; any other sign compares with the version behind it. -/
inductive Means : Phrase → List Comparator → Prop
  | star {star : Char} : IsStar star → Means ⟨[], [star]⟩ []
  | range {sign operand : List Char} {base : Version} {place : Nat} :
    RangeTerm (sign ++ operand) base place → base.component place + 1 < wordLimit →
    Means ⟨sign, operand⟩ (between base (raise base.numbers place))
  | compare {sign operand : List Char} {operator : Operator} : Stands sign (.compare operator) →
    operand ≠ [] → (sign = [] → ¬IsPattern operand) →
    Means ⟨sign, operand⟩ [⟨operator, ofTrimmed operand⟩]

/-- A term that starts with an operator character is neither a star nor a wildcard. -/
theorem not_isPattern {first : Char} (operator : isOperatorCharacter first = true)
    (rest : List Char) : ¬IsPattern (first :: rest) := by
  rintro (⟨star, starred, same⟩ | wild)
  · have other := of_isOperatorCharacter operator
      (fun first => first != 'x' && first != 'X' && first != '*') (by decide)
    cases same
    rcases starred with rfl | rfl | rfl <;> cases other
  · rw [wildcard?_of_operator operator] at wild
    cases wild

/-- A term with a sign in front is neither a star nor a wildcard. -/
theorem IsSign.not_isPattern {sign : List Char} (isSign : IsSign sign) (operand : List Char) :
    ¬IsPattern (sign ++ operand) := by
  obtain ⟨first, rest, rfl⟩ := List.exists_cons_of_ne_nil isSign.ne_nil
  exact Constraint.not_isPattern (isSign.operators first List.mem_cons_self) _

theorem long_of_not_isPattern {term : List Char} (long : ¬IsPattern term) :
    ¬(term = ['*'] ∨ term = ['x'] ∨ term = ['X']) ∧ wildcard? term = none := by
  refine ⟨fun star => long (.inl ?_), Option.not_isSome_iff_eq_none.mp fun wild => long (.inr wild)⟩
  rcases star with rfl | rfl | rfl
  · exact ⟨'*', .inr (.inr rfl), rfl⟩
  · exact ⟨'x', .inl rfl, rfl⟩
  · exact ⟨'X', .inr (.inl rfl), rfl⟩

/-- Only without a sign in front is a term a star or a wildcard. -/
theorem sign_eq_nil {sign operand : List Char} (proper : sign = [] ∨ IsSign sign)
    (pattern : IsPattern (sign ++ operand)) : sign = [] :=
  proper.resolve_right fun isSign => isSign.not_isPattern operand pattern

/-- What is read of a term is what its phrase means. -/
theorem means_of_readTerm {whole : String} {term : List Char} {phrase : Phrase}
    (splits : Splits term phrase) {comparators : List Comparator}
    (read : readTerm whole term = .ok comparators) : Means phrase comparators := by
  obtain ⟨phrase', range, splits', stands, cut⟩ := exists_splits term
  cases splits.unique splits'
  obtain ⟨sign, operand⟩ := phrase
  obtain ⟨rfl, proper, _⟩ := splits
  dsimp only at proper stands cut read
  by_cases ranges : IsRange (sign ++ operand)
  · rcases exists_rangeTerm whole ranges with ⟨base, place, range⟩ | ⟨fault, refused⟩
    · obtain ⟨small, rfl⟩ := rangeFrom_eq_ok_iff.mp ((range.readTerm_eq whole).symm.trans read)
      exact .range range small
    · cases refused.symm.trans read
  · by_cases pattern : IsPattern (sign ++ operand)
    · cases sign_eq_nil proper pattern
      obtain ⟨star, starred, rfl⟩ | wild := pattern
      · have long : [star] = ['*'] ∨ [star] = ['x'] ∨ [star] = ['X'] := by
          rcases starred with rfl | rfl | rfl <;> simp
        rw [readTerm, List.nil_append, if_pos long] at read
        cases read
        exact .star starred
      · exact absurd (.inr (.inr wild)) ranges
    · obtain ⟨long, tame⟩ := long_of_not_isPattern pattern
      rw [readTerm_of_operand whole long tame cut] at read
      split at read
      · cases read
      · next filled =>
        cases range with
        | compare operator =>
          cases read
          refine .compare stands filled fun none => ?_
          rwa [none, List.nil_append] at pattern
        | caret => exact absurd (isRange_of_splitRange (.inl (congrArg Prod.fst cut))) ranges
        | tilde => exact absurd (isRange_of_splitRange (.inr (congrArg Prod.fst cut))) ranges

/-- What a phrase means is read of its term. -/
theorem Means.readTerm_eq {term : List Char} {phrase : Phrase} {comparators : List Comparator}
    (means : Means phrase comparators) (splits : Splits term phrase) (whole : String) :
    readTerm whole term = .ok comparators := by
  obtain ⟨phrase', range, splits', stands, cut⟩ := exists_splits term
  cases splits.unique splits'
  obtain ⟨sign, operand⟩ := phrase
  obtain ⟨rfl, proper, _⟩ := splits
  dsimp only at proper stands cut ⊢
  cases means with
  | star starred =>
    rw [readTerm, List.nil_append, if_pos]
    rcases starred with rfl | rfl | rfl <;> simp
  | range range small => exact (range.readTerm_eq whole).trans (rangeFrom_eq_ok_iff.mpr ⟨small, rfl⟩)
  | compare stands' filled plain =>
    cases stands.unique stands'
    have pattern : ¬IsPattern (sign ++ operand) := fun pattern => by
      have none := sign_eq_nil proper pattern
      rw [none, List.nil_append] at pattern
      exact plain none pattern
    obtain ⟨long, tame⟩ := long_of_not_isPattern pattern
    rw [readTerm_of_operand whole long tame cut, if_neg filled]
    rfl

/-- **A term is read as what its phrase means**, and refused if it means nothing. -/
theorem readTerm_iff {whole : String} {term : List Char} {phrase : Phrase}
    (splits : Splits term phrase) {comparators : List Comparator} :
    readTerm whole term = .ok comparators ↔ Means phrase comparators :=
  ⟨means_of_readTerm splits, fun means => means.readTerm_eq splits whole⟩

/-! ### Tokens -/

/-- The pieces of an alternative between its separators, without the empty ones. -/
def tokensOf (alternative : List Char) : List (List Char) :=
  (alternative.splitOnP isSeparator).filter (· ≠ [])

theorem ne_nil_of_mem_tokensOf {alternative token : List Char}
    (member : token ∈ tokensOf alternative) : token ≠ [] :=
  of_decide_eq_true (List.mem_filter.mp member).2

theorem termsOf_eq_glue (alternative : List Char) :
    termsOf alternative = glue [] (tokensOf alternative) := by
  rw [termsOf_eq, piecesBy_eq, tokensOf]
  congr 2
  funext token
  cases token <;> rfl

/-- A token is made of operator characters alone. -/
def IsOperators (token : List Char) : Prop :=
  token.all isOperatorCharacter = true

/-- The operator characters at the start of a token. -/
def operatorsOf (token : List Char) : List Char :=
  token.takeWhile isOperatorCharacter

/-- **How tokens are put together to phrases when they are read.** -/
inductive Glued : List (List Char) → List Phrase → Prop
  | done : Glued [] []
  /-- A token that has other characters is a term. -/
  | term {token : List Char} {rest : List (List Char)} {phrase : Phrase} {phrases : List Phrase} :
    ¬IsOperators token → Splits token phrase → Glued rest phrases →
    Glued (token :: rest) (phrase :: phrases)
  /-- A token of operator characters is glued to such a token. -/
  | glued {operators token : List Char} {rest : List (List Char)} {phrase : Phrase}
    {phrases : List Phrase} :
    IsOperators operators → ¬IsOperators token → Splits (operators ++ token) phrase →
    Glued rest phrases → Glued (operators :: token :: rest) (phrase :: phrases)
  /-- A token of operator characters before another one is dropped. -/
  | dropped {operators others : List Char} {rest : List (List Char)} {phrases : List Phrase} :
    IsOperators operators → IsOperators others → Glued (others :: rest) phrases →
    Glued (operators :: others :: rest) phrases
  /-- A token of operator characters at the end is a term. -/
  | alone {operators : List Char} {phrase : Phrase} : IsOperators operators →
    Splits operators phrase → Glued [operators] [phrase]

/-- **How tokens are put together to phrases as they are meant**: a sign stands in front of a version
of its own, at it or before it. -/
inductive Composed : List (List Char) → List Phrase → Prop
  | done : Composed [] []
  | attached {sign operand : List Char} {rest : List (List Char)} {phrases : List Phrase} :
    sign = [] ∨ IsSign sign → IsOperand operand → Composed rest phrases →
    Composed ((sign ++ operand) :: rest) (⟨sign, operand⟩ :: phrases)
  | detached {sign operand : List Char} {rest : List (List Char)} {phrases : List Phrase} :
    IsSign sign → IsOperand operand → Composed rest phrases →
    Composed (sign :: operand :: rest) (⟨sign, operand⟩ :: phrases)

/-- **Tokens without faults**: the operator characters at the start of a token are one of the signs,
and behind a sign on its own there is a token without operator characters in front. -/
def Faultless : List (List Char) → Prop
  | [] => True
  | token :: rest => (operatorsOf token = [] ∨ IsSign (operatorsOf token)) ∧
    (IsOperators token → ∃ next ∈ rest.head?, operatorsOf next = []) ∧ Faultless rest

/-- Only no tokens make no phrases. -/
theorem Glued.eq_nil_iff {tokens : List (List Char)} {phrases : List Phrase}
    (glued : Glued tokens phrases) : phrases = [] ↔ tokens = [] := by
  induction glued with
  | done => exact iff_of_true rfl rfl
  | term | glued | alone => exact iff_of_false (List.cons_ne_nil _ _) (List.cons_ne_nil _ _)
  | dropped _ _ _ ih =>
    exact iff_of_false (fun none => List.cons_ne_nil _ _ (ih.mp none)) (List.cons_ne_nil _ _)

theorem glue_operators {operators : List Char} (all : IsOperators operators)
    (pending : List Char) (rest : List (List Char)) :
    glue pending (operators :: rest) = glue operators rest := by
  rw [glue]
  exact if_pos all

theorem glue_plain {token : List Char} (plain : ¬IsOperators token) (pending : List Char)
    (rest : List (List Char)) :
    glue pending (token :: rest) = (pending ++ token) :: glue [] rest := by
  rw [glue]
  exact if_neg plain

theorem glue_nil {operators : List Char} (filled : operators ≠ []) :
    glue operators [] = [operators] := by
  rw [glue, if_neg (mt List.isEmpty_iff.mp filled)]

/-- What is glued together is cut into phrases, with a token that waits to be glued or without. -/
theorem glued_of_glue (tokens : List (List Char)) :
    (∀ phrases, (∀ token ∈ tokens, token ≠ []) →
      List.Forall₂ Splits (glue [] tokens) phrases → Glued tokens phrases) ∧
    ∀ operators phrases, (∀ token ∈ operators :: tokens, token ≠ []) → IsOperators operators →
      List.Forall₂ Splits (glue operators tokens) phrases → Glued (operators :: tokens) phrases := by
  induction tokens with
  | nil =>
    refine ⟨fun phrases _ each => ?_, fun operators phrases filled all each => ?_⟩
    · cases each
      exact .done
    · rw [glue_nil (filled operators List.mem_cons_self)] at each
      obtain ⟨phrase, _, splits, none, rfl⟩ := List.forall₂_cons_left_iff.mp each
      cases none
      exact .alone all splits
  | cons token rest ih =>
    obtain ⟨ih, ih'⟩ := ih
    by_cases all : IsOperators token
    · refine ⟨fun phrases filled each => ?_, fun operators phrases filled all' each => ?_⟩
      · rw [glue_operators all] at each
        exact ih' token phrases filled all each
      · rw [glue_operators all] at each
        exact .dropped all' all (ih' token phrases (List.forall_mem_cons.mp filled).2 all each)
    · refine ⟨fun phrases filled each => ?_, fun operators phrases filled all' each => ?_⟩
      all_goals
        rw [glue_plain all] at each
        obtain ⟨phrase, phrases, splits, others, rfl⟩ := List.forall₂_cons_left_iff.mp each
      · exact .term all splits (ih phrases (List.forall_mem_cons.mp filled).2 others)
      · exact .glued all' all splits
          (ih phrases (List.forall_mem_cons.mp (List.forall_mem_cons.mp filled).2).2 others)

/-- **Terms are glued so, and cut into phrases.** -/
theorem glued_iff {tokens : List (List Char)} (filled : ∀ token ∈ tokens, token ≠ [])
    {phrases : List Phrase} :
    Glued tokens phrases ↔ List.Forall₂ Splits (glue [] tokens) phrases := by
  refine ⟨fun glued => ?_, (glued_of_glue tokens).1 phrases filled⟩
  induction glued with
  | done => exact .nil
  | term plain splits _ ih =>
    rw [glue_plain plain]
    exact .cons splits (ih (List.forall_mem_cons.mp filled).2)
  | glued all plain splits _ ih =>
    rw [glue_operators all, glue_plain plain]
    exact .cons splits (ih (List.forall_mem_cons.mp (List.forall_mem_cons.mp filled).2).2)
  | dropped all all' _ ih =>
    have same := ih (List.forall_mem_cons.mp filled).2
    rw [glue_operators all'] at same
    rw [glue_operators all, glue_operators all']
    exact same
  | alone all splits =>
    rw [glue_operators all, glue_nil (filled _ List.mem_cons_self)]
    exact .cons splits .nil

/-! ### Tokens without faults -/

theorem IsOperand.not_isOperators {operand : List Char} (behind : IsOperand operand)
    (sign : List Char) : ¬IsOperators (sign ++ operand) := by
  intro all
  obtain ⟨first, head, plain⟩ := behind
  have operator := List.all_eq_true.mp all first
    (List.mem_append_right sign (List.mem_of_mem_head? head))
  rw [operator] at plain
  cases plain

theorem operatorsOf_append {sign operand : List Char} (proper : sign = [] ∨ IsSign sign)
    (behind : IsOperand operand) : operatorsOf (sign ++ operand) = sign := by
  have operators : ∀ character ∈ sign, isOperatorCharacter character = true := by
    rcases proper with rfl | isSign
    · exact fun _ member => absurd member List.not_mem_nil
    · exact isSign.operators
  refine (span_append operators fun character head => ?_).1
  obtain ⟨first, head', plain⟩ := behind
  rwa [Option.mem_unique head head']

theorem operatorsOf_of_isOperators {token : List Char} (all : IsOperators token) :
    operatorsOf token = token :=
  List.takeWhile_eq_self_iff.mpr (List.all_eq_true.mp all)

/-- What stands behind the operator characters of a token that has others. -/
theorem exists_operand {token : List Char} (plain : ¬IsOperators token) :
    ∃ operand, token = operatorsOf token ++ operand ∧ IsOperand operand := by
  refine ⟨token.dropWhile isOperatorCharacter, List.takeWhile_append_dropWhile.symm, ?_⟩
  cases left : token.dropWhile isOperatorCharacter with
  | nil => exact absurd (List.all_eq_true.mpr (List.dropWhile_eq_nil_iff.mp left)) plain
  | cons first rest =>
    have stops := List.head?_dropWhile_not isOperatorCharacter token
    rw [left] at stops
    exact ⟨first, rfl, stops⟩

/-- Tokens that are composed as they are meant have no faults, and are read so. -/
theorem Composed.glued {tokens : List (List Char)} {phrases : List Phrase}
    (composed : Composed tokens phrases) : Glued tokens phrases ∧ Faultless tokens := by
  induction composed with
  | done => exact ⟨.done, trivial⟩
  | @attached sign _ _ _ proper behind _ ih =>
    have plain := behind.not_isOperators sign
    refine ⟨.term plain (splits_of_operand proper behind) ih.1, ?_, fun all => absurd all plain,
      ih.2⟩
    rw [operatorsOf_append proper behind]
    exact proper
  | @detached sign operand _ _ isSign behind _ ih =>
    have all : IsOperators sign := List.all_eq_true.mpr isSign.operators
    have plain : ¬IsOperators operand := behind.not_isOperators []
    have bare : operatorsOf operand = [] := operatorsOf_append (.inl rfl) behind
    refine ⟨.glued all plain (splits_of_operand (.inr isSign) behind) ih.1, .inr ?_,
      fun _ => ⟨operand, rfl, bare⟩, .inl bare, fun all => absurd all plain, ih.2⟩
    rwa [operatorsOf_of_isOperators all]

/-- Tokens without faults are read as they are meant. -/
theorem Glued.composed {tokens : List (List Char)} {phrases : List Phrase}
    (glued : Glued tokens phrases) (filled : ∀ token ∈ tokens, token ≠ [])
    (faultless : Faultless tokens) : Composed tokens phrases := by
  induction glued with
  | done => exact .done
  | @term token _ phrase _ plain splits _ ih =>
    obtain ⟨proper, _, later⟩ := faultless
    obtain ⟨operand, whole, behind⟩ := exists_operand plain
    have rest := ih (List.forall_mem_cons.mp filled).2 later
    generalize operatorsOf token = sign at proper whole
    subst whole
    cases splits.unique (splits_of_operand proper behind)
    exact .attached proper behind rest
  | @glued operators token _ phrase _ all plain splits _ ih =>
    obtain ⟨proper, next, _, _, later⟩ := faultless
    obtain ⟨_, ⟨⟩, bare⟩ := next all
    obtain ⟨operand, whole, behind⟩ := exists_operand plain
    rw [bare, List.nil_append] at whole
    subst whole
    rw [operatorsOf_of_isOperators all] at proper
    have isSign := proper.resolve_left (filled operators List.mem_cons_self)
    cases splits.unique (splits_of_operand proper behind)
    have others := (List.forall_mem_cons.mp (List.forall_mem_cons.mp filled).2).2
    exact .detached isSign behind (ih others later)
  | @dropped operators others _ _ all all' _ _ =>
    obtain ⟨_, ⟨⟩, bare⟩ := faultless.2.1 all
    rw [operatorsOf_of_isOperators all'] at bare
    exact absurd bare (filled others (List.mem_cons_of_mem _ List.mem_cons_self))
  | alone all _ =>
    obtain ⟨_, none, _⟩ := faultless.2.1 all
    cases none

/-- **Tokens are composed as they are meant just when they are read so and have no faults.** -/
theorem composed_iff {tokens : List (List Char)} (filled : ∀ token ∈ tokens, token ≠ [])
    {phrases : List Phrase} : Composed tokens phrases ↔ Glued tokens phrases ∧ Faultless tokens :=
  ⟨Composed.glued, fun ⟨glued, faultless⟩ => glued.composed filled faultless⟩

end Constraint

end Loadout
