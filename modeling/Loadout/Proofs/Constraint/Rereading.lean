/-
**Which texts are read back.**

A version or constraint is written as its text alone. What was read from a text is read back from the
text that it keeps; a version that a program makes out of a text, and a constraint that it makes out
of a version, need not be.

* `readsBack_raw_iff`, `readsBack_ofNumbers_iff`: which made versions are read back;
* `parse_of_unbroken`: a text that is neither cut into alternatives nor into terms is one phrase;
* `unbroken_of_parse`: there are no other texts in the comparators of a constraint that was read, so
  it cannot tell some versions apart (`accepts_append`);
* **`readsBack_exact_iff`**: the constraint for one version is read back just when the version is and
  its text is not cut;
* **`texts_read_back`**: what is read back, for all versions and constraints that a program may have;
* `not_readsBack_of_numeric`: a raw version with the text of a numeric one is not read back.
-/

import Loadout.Proofs.Constraint.Grammar
import Loadout.Proofs.Version.Reparsing

namespace Loadout

open Std

/-! ### Versions -/

namespace Version

/-- The text of the version is read as a version that is equal to it. -/
def ReadsBack (version : Version) : Prop :=
  ∃ again, parse version.text = .ok again ∧ again.equals version = true

theorem equals_self (version : Version) : version.equals version = true :=
  beq_iff_eq.mpr ReflCmp.compare_self

theorem readsBack_of_parse {version : Version} (same : parse version.text = .ok version) :
    version.ReadsBack :=
  ⟨version, same, version.equals_self⟩

/-- A raw version that a program may have is made out of its text. -/
theorem Built.eq_raw {version : Version} (built : version.Built)
    (partless : version.isNumeric = false) : version = .raw version.text := by
  cases built with
  | parsed read =>
    rw [parse_eq] at read
    split at read
    · cases read
    · cases read
      rw [ofTrimmed_eq_raw fun formed => ?_]
      · rfl
      · rw [isNumeric_ofTrimmed_iff.mpr formed] at partless
        cases partless
  | raw text => rfl
  | @ofNumbers numbers _ =>
    cases numbers with
    | nil => rfl
    | cons number rest => cases partless

/-- **A raw version is read back** just when its text is not empty, has no blanks at its ends and is
not that of a numeric version. -/
theorem readsBack_raw_iff {text : String} : (raw text).ReadsBack ↔
    text ≠ "" ∧ trimBlank text.toList = text.toList ∧ ¬∃ form : Form, form.chars = text.toList := by
  constructor
  · rintro ⟨again, read, same⟩
    change parse text = .ok again at read
    rw [parse_eq] at read
    split at read
    · cases read
    · next given =>
      cases read
      obtain ⟨_, numeric, _⟩ | ⟨partless, _, same⟩ := equals_iff.mp same
      · cases numeric
      · have trimmed : trimBlank text.toList = text.toList := by
          have texts := congrArg String.toList same
          rwa [text_ofTrimmed, String.toList_ofList] at texts
        refine ⟨?_, trimmed, fun formed => ?_⟩
        · rintro rfl
          exact given rfl
        · rw [← trimmed, ← isNumeric_ofTrimmed_iff, partless] at formed
          cases formed
  · rintro ⟨filled, trimmed, formless⟩
    refine readsBack_of_parse (show parse text = .ok (raw text) from ?_)
    rw [parse_eq, trimmed, if_neg (mt String.toList_eq_nil_iff.mp filled), ofTrimmed_eq_raw formless,
      String.ofList_toList]

/-- A numeric version that a program may have is read back as it is. -/
theorem Built.readsBack {version : Version} (built : version.Built)
    (numeric : version.isNumeric = true) : version.ReadsBack := by
  obtain ⟨form, rfl⟩ := built.exists_form numeric
  exact readsBack_of_parse (parse_chars form)

/-- **A version that is made out of numbers is read back** just when there are any. -/
theorem readsBack_ofNumbers_iff {numbers : List Nat} (words : ∀ number ∈ numbers, number < wordLimit) :
    (ofNumbers numbers).ReadsBack ↔ numbers ≠ [] := by
  constructor
  · rintro ⟨again, read, _⟩ rfl
    cases read
  · exact fun filled => (Built.ofNumbers words).readsBack (isNumeric_iff.mpr filled)

/-! ### Raw versions that stand alike -/

/-- What is added to a list counts for nothing against a list that does not start with it. -/
theorem compareLex_append {text other : List Char} (apart : ¬text <+: other) (more : List Char) :
    List.compareLex compare ((text ++ more).map Char.toNat) (other.map Char.toNat) =
      List.compareLex compare (text.map Char.toNat) (other.map Char.toNat) := by
  induction text generalizing other with
  | nil => exact absurd List.nil_prefix apart
  | cons first rest ih =>
    cases other with
    | nil => rfl
    | cons second others =>
      show List.compareLex compare (first.toNat :: (rest ++ more).map Char.toNat)
          (second.toNat :: others.map Char.toNat) = _
      rw [List.map_cons, List.map_cons, List.compareLex_cons_cons, List.compareLex_cons_cons]
      cases level : compare first.toNat second.toNat with
      | lt => rfl
      | gt => rfl
      | eq =>
        have same : first = second := Char.toNat_inj.mp (LawfulEqCmp.eq_of_compare level)
        exact ih fun start => apart (same ▸ List.cons_prefix_cons.mpr ⟨rfl, start⟩)

/-- What is added to the text of a raw version counts for nothing against a version whose text does
not start with it, or that is numeric. -/
theorem order_raw_append {text : String} {version : Version}
    (apart : version.isNumeric = true ∨ ¬text.toList <+: version.text.toList) (more : String) :
    (raw (text ++ more)).order version = (raw text).order version := by
  have partless (text : String) : (raw text).isNumeric = false := rfl
  unfold order
  rw [partless, partless]
  cases numeric : version.isNumeric with
  | true => rfl
  | false =>
    rw [numeric] at apart
    show compareTexts (text ++ more) version.text = compareTexts text version.text
    rw [compareTexts, String.toList_append]
    exact compareLex_append (apart.resolve_left nofun) more.toList

end Version

namespace Constraint

open Version

/-- So no constraint over such versions tells the two raw versions apart. -/
theorem accepts_append {constraint : Constraint} {text : String}
    (apart : ∀ comparators ∈ constraint.alternatives, ∀ comparator ∈ comparators,
      comparator.version.isNumeric = true ∨ ¬text.toList <+: comparator.version.text.toList)
    (more : String) : constraint.accepts (raw (text ++ more)) = constraint.accepts (raw text) := by
  rw [Bool.eq_iff_iff, accepts, accepts, List.any_eq_true, List.any_eq_true]
  refine exists_congr fun comparators => and_congr_right fun among => ?_
  rw [List.all_eq_true, List.all_eq_true]
  refine forall₂_congr fun comparator inside => ?_
  rw [Comparator.accepts, Comparator.accepts,
    order_raw_append (apart comparators among comparator inside)]

/-! ### Texts that are not cut -/

/-- A text that is neither cut into alternatives nor into terms. -/
def Unbroken (text : List Char) : Prop :=
  (∀ character ∈ text, isSeparator character = false) ∧ ¬['|', '|'] <:+: text

theorem Unbroken.part {text part : List Char} (unbroken : Unbroken text) (inside : part <:+: text) :
    Unbroken part :=
  ⟨fun character member => unbroken.1 character (inside.subset member),
    fun barred => unbroken.2 (barred.trans inside)⟩

theorem isTermCharacter_of_isOperatorCharacter {character : Char}
    (operator : isOperatorCharacter character = true) : IsTermCharacter character := by
  have apart := of_isOperatorCharacter operator
    (fun character => !isSeparator character && character != '|') (by decide)
  rwa [Bool.and_eq_true, Bool.not_eq_true', bne_iff_ne] at apart

/-- A text is not cut because of operator characters in front of it. -/
theorem Unbroken.append {operators text : List Char} (all : IsOperators operators)
    (unbroken : Unbroken text) : Unbroken (operators ++ text) := by
  induction operators with
  | nil => exact unbroken
  | cons first rest ih =>
    rw [IsOperators, List.all_cons, Bool.and_eq_true] at all
    obtain ⟨inside, unbarred⟩ := isTermCharacter_of_isOperatorCharacter all.1
    obtain ⟨clean, apart⟩ := ih all.2
    refine ⟨List.forall_mem_cons.mpr ⟨inside, clean⟩, fun barred => ?_⟩
    rcases List.infix_cons_iff.mp barred with ⟨others, start⟩ | later
    · exact unbarred (List.cons.inj start).1.symm
    · exact apart later

theorem Form.unbroken (form : Form) : Unbroken form.chars := by
  have term : ∀ character ∈ form.chars, IsTermCharacter character := fun _ member =>
    isTermCharacter_of_isVersionCharacter (Form.isVersionCharacter_of_mem member)
  refine ⟨fun character member => (term character member).1, fun barred => ?_⟩
  exact (term '|' (barred.subset List.mem_cons_self)).2 rfl

theorem Unbroken.trimBlank_eq {text : List Char} (unbroken : Unbroken text) :
    trimBlank text = text :=
  trimBlank_of_clean fun character member =>
    (Bool.or_eq_false_iff.mp (unbroken.1 character member)).1

/-- **A text that is not cut is one phrase.** -/
theorem parse_of_unbroken {text : String} (unbroken : Unbroken text.toList) (filled : text ≠ "")
    {phrase : Phrase} (splits : Splits text.toList phrase) {comparators : List Comparator}
    (means : Means phrase comparators) : parse text = .ok ⟨[comparators], text⟩ := by
  have given : text.toList ≠ [] := mt String.toList_eq_nil_iff.mp filled
  have trimmed := unbroken.trimBlank_eq
  have token : tokensOf text.toList = [text.toList] := by
    rw [tokensOf, List.splitOnP_eq_singleton unbroken.1]
    exact List.filter_eq_self.mpr (List.forall_mem_singleton.mpr (decide_eq_true given))
  have glued : Glued [text.toList] [phrase] := by
    by_cases all : IsOperators text.toList
    · exact .alone all splits
    · exact .term all splits .done
  have reads : ReadsAlternative Glued text.toList comparators := by
    refine ⟨trimmed.symm ▸ given, [phrase], [comparators], ?_, .cons means .nil, ?_⟩
    · rw [trimmed, token]
      exact glued
    · exact List.flatten_singleton
  have bars : Bars (trimBlank text.toList) [text.toList] := trimmed.symm ▸ .last unbroken.2
  have read := Reads.alternatives (trimmed.symm ▸ given) bars (.cons reads .nil)
  rw [trimmed, String.ofList_toList] at read
  exact parse_iff.mpr read

/-! ### Texts in constraints that were read -/

theorem unbroken_of_mem_tokensOf {alternative token : List Char}
    (unbarred : ¬['|', '|'] <:+: alternative) (member : token ∈ tokensOf alternative) :
    Unbroken token := by
  obtain ⟨part, clean⟩ := of_mem_splitOnP (List.mem_filter.mp member).1
  exact ⟨clean, fun barred => unbarred (barred.trans part)⟩

/-- What is glued together of tokens that are not cut is not cut either. -/
theorem unbroken_of_mem_glue {tokens : List (List Char)}
    (unbroken : ∀ token ∈ tokens, Unbroken token) {pending : List Char}
    (all : IsOperators pending) : ∀ term ∈ glue pending tokens, Unbroken term := by
  have empty : Unbroken [] := ⟨nofun, by decide⟩
  induction tokens generalizing pending with
  | nil =>
    intro term member
    rw [glue] at member
    split at member
    · cases member
    · rw [List.mem_singleton.mp member, ← List.append_nil pending]
      exact empty.append all
  | cons token rest ih =>
    obtain ⟨here, later⟩ := List.forall_mem_cons.mp unbroken
    by_cases operators : IsOperators token
    · rw [glue_operators operators]
      exact ih later operators
    · rw [glue_plain operators]
      exact List.forall_mem_cons.mpr ⟨here.append all, ih later (show IsOperators [] from rfl)⟩

theorem Means.unbroken {phrase : Phrase} {comparators : List Comparator}
    (means : Means phrase comparators) (unbroken : Unbroken phrase.operand) :
    ∀ comparator ∈ comparators, comparator.version.isNumeric = true ∨
      Unbroken comparator.version.text.toList := by
  cases means with
  | star => exact nofun
  | range range _ =>
    refine List.forall_mem_cons.mpr ⟨.inl range.numeric, List.forall_mem_singleton.mpr (.inl ?_)⟩
    exact isNumeric_raise
  | compare =>
    refine List.forall_mem_singleton.mpr (.inr ?_)
    rw [text_ofTrimmed, String.toList_ofList]
    exact unbroken

/-- **The raw versions in a constraint that was read have texts that are not cut.** -/
theorem unbroken_of_parse {text : String} {constraint : Constraint}
    (read : parse text = .ok constraint) : ∀ comparators ∈ constraint.alternatives,
      ∀ comparator ∈ comparators, comparator.version.isNumeric = true ∨
        Unbroken comparator.version.text.toList := by
  intro comparators among comparator member
  obtain _ | ⟨_, bars, each⟩ := parse_iff.mp read
  · cases List.mem_singleton.mp among
    cases member
  · obtain ⟨alternative, place, _, phrases, lists, glued, means, rfl⟩ :=
      exists_mem_of_forall₂ each among
    obtain ⟨own, inside, member⟩ := List.mem_flatten.mp member
    obtain ⟨phrase, made, meaning⟩ := exists_mem_of_forall₂ means inside
    obtain ⟨term, part, splits⟩ :=
      exists_mem_of_forall₂ ((glued_iff fun token => ne_nil_of_mem_tokensOf).mp glued) made
    have unbarred : ¬['|', '|'] <:+: trimBlank alternative := fun barred =>
      bars.unbarred alternative place (barred.trans (trimBlank_isInfix alternative))
    have clean : ∀ token ∈ tokensOf (trimBlank alternative), Unbroken token := fun _ =>
      unbroken_of_mem_tokensOf unbarred
    have unbroken := unbroken_of_mem_glue clean (show IsOperators [] from rfl) term part
    rw [splits.whole] at unbroken
    exact meaning.unbroken (unbroken.part List.infix_append_right) comparator member

/-! ### Constraints -/

/-- The text of the constraint is read as one that accepts the same versions, of all that a program
may have. -/
def ReadsBack (constraint : Constraint) : Prop :=
  ∃ again, parse constraint.text = .ok again ∧
    ∀ version : Version, version.Built → again.accepts version = constraint.accepts version

theorem accepts_equal (version other : Version) (text : String) :
    Constraint.accepts ⟨[[⟨.equal, version⟩]], text⟩ other = other.equals version := by
  simp [accepts, Comparator.accepts, Operator.accepts, equals]

theorem accepts_exact (version other : Version) :
    (exact version).accepts other = other.equals version :=
  accepts_equal version other _

theorem toList_text_exact (version : Version) :
    (exact version).text.toList = ['='] ++ version.text.toList :=
  String.toList_append

/-- A single equals sign is cut off in front of a text that does not start with another. -/
theorem splits_equals {operand : List Char} (other : operand.head? ≠ some '=') :
    Splits (['='] ++ operand) ⟨['='], operand⟩ := by
  have isSign : IsSign ['='] := ⟨.compare .equal, by decide⟩
  refine ⟨rfl, .inr isSign, fun sign isSign start => ?_⟩
  rcases exists_of_prefix isSign start with ⟨one, _⟩ | ⟨_, rest, pair⟩
  · exact one.le
  · rcases pair with pair | pair | pair | pair | pair <;> cases pair
    exact absurd rfl other

/-- **The constraint for one version is read as such**, if its text is not cut. -/
theorem parse_text_exact {version : Version} (filled : version.text ≠ "")
    (unbroken : Unbroken version.text.toList) (other : version.text.toList.head? ≠ some '=') :
    parse (exact version).text =
      .ok ⟨[[⟨.equal, ofTrimmed version.text.toList⟩]], (exact version).text⟩ := by
  have splits := splits_equals other
  have stands : Stands ['='] (.compare .equal) := .inl (by decide)
  have means := Means.compare stands (mt String.toList_eq_nil_iff.mp filled) nofun
  rw [← toList_text_exact] at splits
  refine parse_of_unbroken ?_ ?_ splits means
  · rw [toList_text_exact]
    exact unbroken.append rfl
  · rw [Ne, ← String.toList_eq_nil_iff, toList_text_exact]
    exact List.cons_ne_nil _ _

/-- **A constraint for one version that is read back has a text that is not cut.** -/
theorem unbroken_of_readsBack {version : Version} (built : version.Built)
    (back : (exact version).ReadsBack) : Unbroken version.text.toList := by
  obtain ⟨again, read, same⟩ := back
  by_contra broken
  -- a numeric version has a text that is not cut
  have partless : version.isNumeric = false := Bool.eq_false_iff.mpr fun numeric => by
    obtain ⟨form, rfl⟩ := built.exists_form numeric
    exact broken (String.toList_ofList ▸ Form.unbroken form)
  have whole := built.eq_raw partless
  -- what was read cannot tell the version from one with a longer text
  have apart : ∀ comparators ∈ again.alternatives, ∀ comparator ∈ comparators,
      comparator.version.isNumeric = true ∨
        ¬version.text.toList <+: comparator.version.text.toList := fun comparators among comparator
      member => (unbroken_of_parse read comparators among comparator member).imp_right
        fun unbroken start => broken (unbroken.part start.isInfix)
  have longer := accepts_append apart "!"
  rw [same _ (.raw _), same _ (.raw _), accepts_exact, accepts_exact, ← whole,
    version.equals_self, equals_iff] at longer
  obtain ⟨numeric, _⟩ | ⟨_, _, texts⟩ := longer
  · cases numeric
  · have lengths := congrArg String.length texts
    simp [raw] at lengths

/-- **The constraint for one version is read back** just when the version is and its text is not cut,
if that does not start with an equals sign. -/
theorem readsBack_exact_iff {version : Version} (built : version.Built)
    (other : version.text.toList.head? ≠ some '=') :
    (exact version).ReadsBack ↔ version.ReadsBack ∧ Unbroken version.text.toList := by
  constructor
  · intro back
    have unbroken := unbroken_of_readsBack built back
    obtain ⟨again, read, same⟩ := back
    have filled : version.text ≠ "" := by
      intro empty
      have failed : parse ("=" ++ "") =
          .error (.refused (.invalidConstraint "=" .operatorWithoutVersion)) := rfl
      change parse ("=" ++ version.text) = _ at read
      rw [empty, failed] at read
      cases read
    refine ⟨⟨ofTrimmed version.text.toList, ?_, ?_⟩, unbroken⟩
    · rw [Version.parse_eq, unbroken.trimBlank_eq, if_neg (mt String.toList_eq_nil_iff.mp filled)]
    · rw [parse_text_exact filled unbroken other] at read
      cases read
      have accepted := same version built
      rw [accepts_equal, accepts_exact, version.equals_self] at accepted
      exact beq_iff_eq.mpr (OrientedCmp.eq_symm (beq_iff_eq.mp accepted))
  · rintro ⟨⟨again, read, equal⟩, unbroken⟩
    rw [Version.parse_eq, unbroken.trimBlank_eq] at read
    split at read
    · cases read
    · next filled =>
      cases read
      refine ⟨_, parse_text_exact (mt String.toList_eq_nil_iff.mpr filled) unbroken other,
        fun third _ => ?_⟩
      rw [accepts_equal, accepts_exact, equals, equals, TransCmp.congr_right (beq_iff_eq.mp equal)]

/-- **What is read back.** Every version that was read; a raw version just when its text is not empty,
has no blanks at its ends and is not that of a numeric version; and a version that is made out of
numbers just when there are any. Every constraint that was read, and the one that accepts every
version; and the constraint for one version, if the text of that does not start with an equals sign,
just when the version is read back and its text is not cut. -/
theorem texts_read_back :
    (∀ text version, Version.parse text = .ok version → version.ReadsBack) ∧
      (∀ text, (Version.raw text).ReadsBack ↔ text ≠ "" ∧ trimBlank text.toList = text.toList ∧
        ¬∃ form : Form, form.chars = text.toList) ∧
      (∀ numbers : List Nat, (∀ number ∈ numbers, number < wordLimit) →
        ((Version.ofNumbers numbers).ReadsBack ↔ numbers ≠ [])) ∧
      (∀ text constraint, parse text = .ok constraint → constraint.ReadsBack) ∧ any.ReadsBack ∧
      ∀ version : Version, version.Built → version.text.toList.head? ≠ some '=' →
        ((exact version).ReadsBack ↔ version.ReadsBack ∧ Unbroken version.text.toList) := by
  have same {constraint : Constraint} (read : parse constraint.text = .ok constraint) :
      constraint.ReadsBack := ⟨constraint, read, fun _ _ => rfl⟩
  refine ⟨fun text version read => ?_, fun _ => readsBack_raw_iff, fun _ => readsBack_ofNumbers_iff,
    fun text constraint read => ?_, same rfl, fun _ => readsBack_exact_iff⟩
  · exact readsBack_of_parse (Version.Parsed.parse_text ⟨text, read⟩)
  · exact same (Parsed.parse_text ⟨text, read⟩)

/-- Neither version is numeric, but only one of them has a text of one term. -/
theorem texts_read_back_of_raw : (exact (.raw "nightly")).ReadsBack ∧
    Version.parse "build 7" = .ok (.raw "build 7") ∧ ¬(exact (.raw "build 7")).ReadsBack := by
  obtain ⟨_, raws, _, _, _, exacts⟩ := texts_read_back
  have formless : ¬∃ form : Form, form.chars = "nightly".toList :=
    mt isNumeric_ofTrimmed_iff.mpr (by decide +kernel)
  have back := (raws "nightly").mpr ⟨by decide, by decide +kernel, formless⟩
  refine ⟨?_, rfl, fun back => ?_⟩
  · have clean : "nightly".toList.all (!isSeparator ·) = true := by decide
    have unbroken : Unbroken "nightly".toList := by
      refine ⟨fun character member => ?_, by decide +kernel⟩
      exact (Bool.not_eq_true' _).mp (List.all_eq_true.mp clean character member)
    exact (exacts (.raw "nightly") (.raw _) (by decide)).mpr ⟨back, unbroken⟩
  · obtain ⟨_, clean, _⟩ := (exacts (.raw "build 7") (.raw _) (by decide)).mp back
    exact absurd (clean ' ' (by decide)) (by decide)

/-- **A raw version with the text of a numeric one is not read back**: what is read comes after it. -/
theorem not_readsBack_of_numeric : ¬∀ version : Version, version.Built → version.ReadsBack := by
  intro back
  obtain ⟨_, _, formless⟩ := readsBack_raw_iff.mp (back (.raw "1.0") (.raw _))
  exact formless (isNumeric_ofTrimmed_iff.mp rfl)

end Constraint

end Loadout
