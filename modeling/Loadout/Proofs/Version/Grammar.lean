/-
**The grammar of versions.**

A numeric version is written as an optional `v` or `V`, dotted runs of digits, an optional tag behind
a hyphen and optional metadata behind a plus sign (`Form`). A form is its text (`Form.chars`) and
gives the parts of a version (`Form.version`).

* `readTail_eq_some_iff`: what may follow the number components;
* `ofTrimmed_chars`, `exists_form`: the text of a form is read as its parts, and only the text of
  a form is read as a numeric version;
* `Form.isVersionCharacter_of_mem`: what a form is written with;
* `Built.exists_form`: a numeric version that a program may have is the version of a form;
* **`parse_exact`**: blank texts are refused, the texts of forms give numeric versions with the parts
  of the form, and all other texts raw ones.
-/

import Loadout.Proofs.Text.Words
import Loadout.Proofs.Version.Order
import Loadout.Version.Parser

namespace Loadout

/-- What a piece of a tag stands for: a number, if it writes one below `2 ^ 64`, and otherwise a
name. -/
def Identifier.ofPiece (piece : List Char) : Identifier :=
  if WritesWord piece then .number (decimal piece) else .name (String.ofList piece)

theorem Identifier.ofChars_eq (piece : List Char) : ofChars piece = ofPiece piece := by
  unfold ofChars ofPiece
  cases read : readWord piece with
  | none => rw [if_neg (readWord_eq_none_iff.mp read)]
  | some number =>
    obtain ⟨word, rfl⟩ := readWord_eq_some_iff.mp read
    rw [if_pos word]

namespace Version

/-! ### Forms -/

/-- A text that may be a tag or metadata: some letters, digits, dots and hyphens. -/
def IsTag (text : List Char) : Prop :=
  text ≠ [] ∧ ∀ character ∈ text, isTagCharacter character = true

/-- The parts that a numeric version is written with. -/
structure Form where
  /-- The letter in front of the numbers. -/
  mark : Option Char
  /-- The digits of the number components. -/
  runs : List (List Char)
  tag : Option (List Char)
  metadata : Option (List Char)
  mark_letter : ∀ letter ∈ mark, letter = 'v' ∨ letter = 'V'
  runs_some : runs ≠ []
  runs_words : ∀ run ∈ runs, WritesWord run
  tag_proper : ∀ text ∈ tag, IsTag text
  metadata_proper : ∀ text ∈ metadata, IsTag text

/-- What stands behind the number components. -/
def tailChars (tag metadata : Option (List Char)) : List Char :=
  tag.elim [] ('-' :: ·) ++ metadata.elim [] ('+' :: ·)

/-- The identifiers of a tag are what its pieces between dots stand for. -/
def identifiersOf (tag : Option (List Char)) : List Identifier :=
  tag.elim [] fun text => (piecesBy (· == '.') text).map .ofPiece

namespace Form

/-- The text of the form. -/
def chars (form : Form) : List Char :=
  form.mark.toList ++ dotted form.runs ++ tailChars form.tag form.metadata

/-- The number components. -/
def numbers (form : Form) : List Nat :=
  form.runs.map decimal

/-- The identifiers of the pre-release tag. -/
def identifiers (form : Form) : List Identifier :=
  identifiersOf form.tag

/-- The version that the form writes. -/
def version (form : Form) : Version :=
  ⟨String.ofList form.chars, form.numbers, form.identifiers⟩

/-- The form without its metadata. -/
def plain (form : Form) : Form :=
  { form with metadata := none, metadata_proper := nofun }

theorem isNumeric_version (form : Form) : form.version.isNumeric = true :=
  isNumeric_iff.mpr (mt List.map_eq_nil_iff.mp form.runs_some)

end Form

/-! ### The tail -/

theorem isTagCharacter_plus : isTagCharacter '+' = false := by decide

theorem isMetadata_iff {text : List Char} : isMetadata text = true ↔
    ∃ metadata : Option (List Char), (∀ chars ∈ metadata, IsTag chars) ∧
      text = metadata.elim [] ('+' :: ·) := by
  constructor
  · intro accepted
    unfold isMetadata at accepted
    split at accepted
    · exact ⟨none, nofun, rfl⟩
    · next chars =>
      rw [Bool.and_eq_true, Bool.not_eq_true', List.isEmpty_eq_false_iff,
        List.all_eq_true] at accepted
      exact ⟨some chars, fun _ member => Option.mem_some.mp member ▸ accepted, rfl⟩
    · cases accepted
  · rintro ⟨metadata, proper, rfl⟩
    cases metadata with
    | none => rfl
    | some chars =>
      obtain ⟨filled, tags⟩ := proper chars rfl
      show (!chars.isEmpty && chars.all isTagCharacter) = true
      rw [Bool.and_eq_true, Bool.not_eq_true', List.isEmpty_eq_false_iff, List.all_eq_true]
      exact ⟨filled, tags⟩

/-- Metadata starts with a character that no tag has. -/
theorem head_metadata (metadata : Option (List Char)) :
    ∀ character ∈ (metadata.elim [] ('+' :: ·)).head?, isTagCharacter character = false := by
  cases metadata with
  | none => exact nofun
  | some chars =>
    rintro character ⟨⟩
    exact isTagCharacter_plus

/-- **What may follow the number components**, and the identifiers that it gives. -/
theorem readTail_eq_some_iff {text : List Char} {identifiers : List Identifier} :
    readTail text = some identifiers ↔ ∃ tag metadata : Option (List Char),
      (∀ chars ∈ tag, IsTag chars) ∧ (∀ chars ∈ metadata, IsTag chars) ∧
        text = tailChars tag metadata ∧ identifiersOf tag = identifiers := by
  have pieces (tag : List Char) : (piecesBy (· == '.') tag).map Identifier.ofChars =
      identifiersOf (some tag) :=
    List.map_congr_left fun piece _ => Identifier.ofChars_eq piece
  constructor
  · intro read
    unfold readTail at read
    split at read
    · next rest =>
      dsimp only at read
      split at read
      · cases read
      · next accepted =>
        rw [Bool.or_eq_true, not_or, List.isEmpty_iff, Bool.not_eq_true', Bool.not_eq_false,
          isMetadata_iff] at accepted
        obtain ⟨filled, metadata, proper, split⟩ := accepted
        refine ⟨some (rest.takeWhile isTagCharacter), metadata, ?_, proper, ?_, ?_⟩
        · rintro _ ⟨⟩
          exact ⟨filled, fun character => List.mem_takeWhile_imp⟩
        · show '-' :: rest = '-' :: _ ++ _
          rw [← split, List.cons_append, List.takeWhile_append_dropWhile]
        · rw [← pieces]
          exact Option.some.inj read
    · split at read
      · next accepted =>
        obtain ⟨metadata, proper, rfl⟩ := isMetadata_iff.mp accepted
        exact ⟨none, metadata, nofun, proper, rfl, Option.some.inj read⟩
      · cases read
  · rintro ⟨tag, metadata, tagged, proper, rfl, rfl⟩
    have accepted : isMetadata (metadata.elim [] ('+' :: ·)) = true :=
      isMetadata_iff.mpr ⟨metadata, proper, rfl⟩
    cases tag with
    | none =>
      show readTail (metadata.elim [] ('+' :: ·)) = some []
      -- metadata does not start with a hyphen
      cases metadata with
      | none => rfl
      | some chars => exact if_pos accepted
    | some tag =>
      obtain ⟨filled, tags⟩ := tagged tag rfl
      obtain ⟨taken, dropped⟩ := span_append tags (head_metadata metadata)
      show readTail ('-' :: (tag ++ metadata.elim [] ('+' :: ·))) = _
      rw [readTail, taken, dropped, accepted, pieces, if_neg]
      rw [Bool.or_eq_true, not_or, List.isEmpty_iff]
      exact ⟨filled, nofun⟩

/-- A tail starts with a character that no number component has. -/
theorem head_tailChars (tag metadata : Option (List Char)) :
    ∀ character ∈ (tailChars tag metadata).head?, isComponentCharacter character = false := by
  cases tag with
  | some chars =>
    rintro character ⟨⟩
    decide
  | none =>
    cases metadata with
    | some chars =>
      rintro character ⟨⟩
      decide
    | none => exact nofun

/-! ### Reading forms -/

theorem exists_mark (text : List Char) : ∃ mark : Option Char,
    (∀ letter ∈ mark, letter = 'v' ∨ letter = 'V') ∧ text = mark.toList ++ dropMark text := by
  unfold dropMark
  split
  · exact ⟨some 'v', fun _ member => .inl (Option.mem_some.mp member).symm, rfl⟩
  · exact ⟨some 'V', fun _ member => .inr (Option.mem_some.mp member).symm, rfl⟩
  · exact ⟨none, nofun, rfl⟩

/-- A mark is dropped from what starts with a digit. -/
theorem dropMark_append {mark : Option Char} (letter : ∀ letter ∈ mark, letter = 'v' ∨ letter = 'V')
    {first : Char} (digit : first.isDigit = true) (rest : List Char) :
    dropMark (mark.toList ++ first :: rest) = first :: rest := by
  cases mark with
  | some character => rcases letter character rfl with rfl | rfl <;> rfl
  | none =>
    show dropMark (first :: rest) = first :: rest
    unfold dropMark
    split
    · next same =>
      cases same
      exact absurd digit (by decide)
    · next same =>
      cases same
      exact absurd digit (by decide)
    · rfl

theorem dot_notMem_of_word {run : List Char} (word : WritesWord run) : '.' ∉ run :=
  fun member => absurd (word.2.1 '.' member) (by decide)

/-- The number components start with a digit. -/
theorem Form.exists_head (form : Form) (others : List (List Char)) :
    ∃ first rest, dotted (form.runs ++ others) = first :: rest ∧ first.isDigit = true := by
  obtain ⟨run, runs, same⟩ := List.exists_cons_of_ne_nil form.runs_some
  obtain ⟨filled, digits, _⟩ := form.runs_words run (same ▸ List.mem_cons_self)
  obtain ⟨first, rest, rfl⟩ := List.exists_cons_of_ne_nil filled
  obtain ⟨tail, start⟩ := exists_dotted first rest (runs ++ others)
  exact ⟨first, tail, same ▸ start, digits first List.mem_cons_self⟩

theorem readParts_chars (form : Form) :
    readParts form.chars = some (form.numbers, form.identifiers) := by
  obtain ⟨first, rest, start, digit⟩ := form.exists_head []
  rw [List.append_nil] at start
  have unmarked : dropMark form.chars = dotted form.runs ++ tailChars form.tag form.metadata := by
    rw [Form.chars, List.append_assoc, start]
    exact dropMark_append form.mark_letter digit _
  have components : ∀ character ∈ dotted form.runs, isComponentCharacter character = true := by
    intro character member
    rcases mem_dotted member with rfl | ⟨run, among, inside⟩
    · rfl
    · rw [isComponentCharacter, (form.runs_words run among).2.1 character inside]
      rfl
  obtain ⟨taken, dropped⟩ := span_append components (head_tailChars form.tag form.metadata)
  have numbers : readNumbers (dotted form.runs) = some form.numbers := by
    rw [readNumbers, piecesBy_dotted form.runs_some fun run among =>
      dot_notMem_of_word (form.runs_words run among)]
    exact mapM_readWord.mpr ⟨form.runs_words, rfl⟩
  have tail : readTail (tailChars form.tag form.metadata) = some form.identifiers :=
    readTail_eq_some_iff.mpr
      ⟨form.tag, form.metadata, form.tag_proper, form.metadata_proper, rfl, rfl⟩
  rw [readParts, unmarked, taken, dropped, numbers, tail]
  rfl

/-- **The text of a form is read as the version that it writes.** -/
theorem ofTrimmed_chars (form : Form) : ofTrimmed form.chars = form.version := by
  rw [ofTrimmed, readParts_chars]
  rfl

/-- **Only the text of a form has the parts of a numeric version.** -/
theorem exists_form {text : List Char} {parts : List Nat × List Identifier}
    (read : readParts text = some parts) : ∃ form : Form, form.chars = text := by
  obtain ⟨mark, letter, marked⟩ := exists_mark text
  rw [readParts] at read
  generalize dropMark text = rest at read marked
  cases counted : readNumbers (rest.takeWhile isComponentCharacter) with
  | none =>
    rw [counted] at read
    cases read
  | some numbers =>
    cases tailed : readTail (rest.dropWhile isComponentCharacter) with
    | none =>
      rw [counted, tailed] at read
      cases read
    | some identifiers =>
      obtain ⟨tag, metadata, tagged, proper, tail, -⟩ := readTail_eq_some_iff.mp tailed
      refine ⟨⟨mark, piecesBy (· == '.') (rest.takeWhile isComponentCharacter), tag, metadata,
        letter, piecesBy_ne_nil _ _, (mapM_readWord.mp counted).1, tagged, proper⟩, ?_⟩
      rw [Form.chars, dotted_piecesBy, ← tail, List.append_assoc,
        List.takeWhile_append_dropWhile, ← marked]

/-- Any other text is that of a raw version. -/
theorem ofTrimmed_eq_raw {text : List Char} (formless : ¬∃ form : Form, form.chars = text) :
    ofTrimmed text = raw (String.ofList text) := by
  cases read : readParts text with
  | none => rw [ofTrimmed, read]
  | some parts => exact absurd (exists_form read) formless

theorem isNumeric_ofTrimmed_iff {text : List Char} :
    (ofTrimmed text).isNumeric = true ↔ ∃ form : Form, form.chars = text := by
  constructor
  · intro numeric
    by_contra formless
    rw [ofTrimmed_eq_raw formless] at numeric
    cases numeric
  · rintro ⟨form, rfl⟩
    rw [ofTrimmed_chars]
    exact form.isNumeric_version

/-! ### Characters -/

/-- Whether a character may stand in the text of a numeric version. -/
def isVersionCharacter (character : Char) : Bool :=
  isTagCharacter character || character == '+'

/-- The characters of numeric versions are visible ones of ASCII. -/
theorem toNat_of_isVersionCharacter {character : Char}
    (may : isVersionCharacter character = true) :
    0x20 < character.toNat ∧ character.toNat < 0x7F := by
  unfold isVersionCharacter isTagCharacter Char.isAlphanum Char.isAlpha Char.isUpper Char.isLower
    Char.isDigit at may
  simp only [Bool.or_eq_true, Bool.and_eq_true, decide_eq_true_eq, beq_iff_eq, ge_iff_le,
    UInt32.le_iff_toNat_le] at may
  unfold Char.toNat
  rcases may with ((((upper | lower) | digit) | rfl) | rfl) | rfl
  · exact ⟨Nat.lt_of_lt_of_le (by decide) upper.1, Nat.lt_of_le_of_lt upper.2 (by decide)⟩
  · exact ⟨Nat.lt_of_lt_of_le (by decide) lower.1, Nat.lt_of_le_of_lt lower.2 (by decide)⟩
  · exact ⟨Nat.lt_of_lt_of_le (by decide) digit.1, Nat.lt_of_le_of_lt digit.2 (by decide)⟩
  all_goals decide

theorem isBlank_of_isVersionCharacter {character : Char}
    (may : isVersionCharacter character = true) : isBlank character = false := by
  obtain ⟨above, below⟩ := toNat_of_isVersionCharacter may
  have apart : ∀ range ∈ blankRanges, range.2 ≤ 0x20 ∨ 0x7F ≤ range.1 := by decide
  rw [isBlank, List.any_eq_false]
  intro range member
  rw [Bool.and_eq_true, decide_eq_true_eq, decide_eq_true_eq]
  have := apart range member
  omega

theorem isVersionCharacter_of_isDigit {character : Char} (digit : character.isDigit = true) :
    isVersionCharacter character = true := by
  rw [isVersionCharacter, isTagCharacter, Char.isAlphanum, digit, Bool.or_true]
  rfl

theorem Form.isVersionCharacter_of_mark {form : Form} {letter : Char}
    (marked : letter ∈ form.mark.toList) : isVersionCharacter letter = true := by
  rcases form.mark_letter letter (Option.mem_toList.mp marked) with rfl | rfl <;> decide

theorem Form.isVersionCharacter_of_run {form : Form} {run : List Char} (among : run ∈ form.runs)
    {character : Char} (inside : character ∈ run) : isVersionCharacter character = true :=
  isVersionCharacter_of_isDigit ((form.runs_words run among).2.1 character inside)

/-- **What a form is written with.** -/
theorem Form.isVersionCharacter_of_mem {form : Form} {character : Char}
    (member : character ∈ form.chars) : isVersionCharacter character = true := by
  have ofTag {chars : List Char} (tag : IsTag chars) (inside : character ∈ chars) :
      isVersionCharacter character = true := by
    rw [isVersionCharacter, tag.2 character inside]
    rfl
  rw [Form.chars, tailChars, List.mem_append, List.mem_append, List.mem_append] at member
  rcases member with (marked | number) | tagged | described
  · exact isVersionCharacter_of_mark marked
  · rcases mem_dotted number with rfl | ⟨run, among, inside⟩
    · decide
    · exact isVersionCharacter_of_run among inside
  · cases tag : form.tag with
    | none => simp [tag] at tagged
    | some chars =>
      rw [tag] at tagged
      rcases List.mem_cons.mp tagged with rfl | inside
      · decide
      · exact ofTag (form.tag_proper chars tag) inside
  · cases metadata : form.metadata with
    | none => simp [metadata] at described
    | some chars =>
      rw [metadata] at described
      rcases List.mem_cons.mp described with rfl | inside
      · decide
      · exact ofTag (form.metadata_proper chars metadata) inside

theorem Form.chars_ne_nil (form : Form) : form.chars ≠ [] := by
  obtain ⟨first, rest, start, -⟩ := form.exists_head []
  rw [List.append_nil] at start
  rw [Form.chars, start]
  simp

theorem Form.trimBlank_chars (form : Form) : trimBlank form.chars = form.chars :=
  trimBlank_of_clean fun _ member =>
    isBlank_of_isVersionCharacter (isVersionCharacter_of_mem member)

/-! ### Reading texts -/

theorem parse_eq (text : String) : parse text =
    if trimBlank text.toList = [] then .error (.invalidVersion text)
    else .ok (ofTrimmed (trimBlank text.toList)) := by
  simp only [parse, List.isEmpty_iff]

theorem parse_chars (form : Form) : parse (String.ofList form.chars) = .ok form.version := by
  rw [parse_eq, String.toList_ofList, form.trimBlank_chars, if_neg form.chars_ne_nil,
    ofTrimmed_chars]

/-! ### Built versions -/

/-- How a program comes by a version: it reads a text, takes it as it is or writes down numbers of
64 bits. -/
inductive Built : Version → Prop
  | parsed {text : String} {version : Version} (read : parse text = .ok version) : Built version
  | raw (text : String) : Built (raw text)
  | ofNumbers {numbers : List Nat} (words : ∀ number ∈ numbers, number < wordLimit) :
    Built (ofNumbers numbers)

/-- The form of some numbers, without anything in front or behind. -/
def Form.ofNumbers (numbers : List Nat) (filled : numbers ≠ [])
    (words : ∀ number ∈ numbers, number < wordLimit) : Form where
  mark := none
  runs := numbers.map (Nat.toDigits 10)
  tag := none
  metadata := none
  mark_letter := nofun
  runs_some := mt List.map_eq_nil_iff.mp filled
  runs_words := by
    intro run member
    obtain ⟨number, among, rfl⟩ := List.mem_map.mp member
    refine ⟨Nat.toDigits_ne_nil, fun character =>
      Nat.isDigit_of_mem_toDigits (by decide) (by decide), ?_⟩
    rw [decimal, Nat.ofDigitChars_toDigits (by decide) (by decide)]
    exact words number among
  tag_proper := nofun
  metadata_proper := nofun

theorem Form.version_ofNumbers {numbers : List Nat} (filled : numbers ≠ [])
    (words : ∀ number ∈ numbers, number < wordLimit) :
    (Form.ofNumbers numbers filled words).version = .ofNumbers numbers := by
  have read : decimal ∘ Nat.toDigits 10 = id := funext fun number =>
    Nat.ofDigitChars_toDigits (by decide) (by decide)
  have text : dotted (numbers.map (Nat.toDigits 10)) =
      (".".intercalate (numbers.map toString)).toList := by
    rw [String.toList_intercalate, List.map_map]
    exact congrArg dotted (List.map_congr_left fun number _ => Nat.toList_repr.symm)
  unfold Form.version Version.ofNumbers
  congr 1
  · show String.ofList (dotted (numbers.map (Nat.toDigits 10)) ++ []) = _
    rw [List.append_nil, text, String.ofList_toList]
  · show (numbers.map (Nat.toDigits 10)).map decimal = numbers
    rw [List.map_map, read, List.map_id]

/-- **A numeric version that a program may have is the version of a form.** -/
theorem Built.exists_form {version : Version} (built : version.Built)
    (numeric : version.isNumeric = true) : ∃ form : Form, form.version = version := by
  cases built with
  | parsed read =>
    rw [parse_eq] at read
    split at read
    · cases read
    · cases read
      obtain ⟨form, same⟩ := isNumeric_ofTrimmed_iff.mp numeric
      exact ⟨form, same ▸ (ofTrimmed_chars form).symm⟩
  | raw text => cases numeric
  | ofNumbers words => exact ⟨_, Form.version_ofNumbers (isNumeric_iff.mp numeric) words⟩

/-! ### The grammar -/

/-- What versions are compared by decides how they stand to others. -/
theorem order_of_parts {version other : Version} (numeric : version.isNumeric = true)
    (numbers : version.numbers = other.numbers) (identifiers : version.preRelease = other.preRelease)
    (third : Version) :
    version.order third = other.order third ∧ third.order version = third.order other := by
  have numeric' : other.isNumeric = true := by rwa [isNumeric, ← numbers]
  unfold order
  rw [numeric, numeric', numbers, identifiers]
  cases third.isNumeric <;> exact ⟨rfl, rfl⟩

/-- **Reading versions accepts exactly their grammar.** Just the blank texts are refused. What is
read keeps the trimmed text. It is numeric if the trimmed text is that of a form, and then has the
components and identifiers of the form and stands to all others as it would without metadata;
otherwise it is the raw version of the trimmed text. -/
theorem parse_exact (text : String) :
    (∀ error, parse text = .error error ↔
      (∀ character ∈ text.toList, isBlank character = true) ∧ error = .invalidVersion text) ∧
    ∀ version, parse text = .ok version →
      version.text = String.ofList (trimBlank text.toList) ∧
      (version.isNumeric = true ↔ ∃ form : Form, form.chars = trimBlank text.toList) ∧
      (version.isNumeric = false → version = raw (String.ofList (trimBlank text.toList))) ∧
      ∀ form : Form, form.chars = trimBlank text.toList →
        version.numbers = form.numbers ∧ version.preRelease = form.identifiers ∧
        ∃ plain, parse (String.ofList form.plain.chars) = .ok plain ∧
          ∀ other, version.order other = plain.order other ∧
            other.order version = other.order plain := by
  rw [parse_eq]
  by_cases blank : trimBlank text.toList = []
  · rw [if_pos blank]
    refine ⟨fun error => ?_, nofun⟩
    rw [Except.error.injEq, eq_comm, ← trimBlank_eq_nil_iff]
    exact ⟨fun same => ⟨blank, same⟩, fun ⟨_, same⟩ => same⟩
  · rw [if_neg blank]
    refine ⟨fun error => ⟨nofun, fun ⟨blank', _⟩ => absurd (trimBlank_eq_nil_iff.mpr blank') blank⟩,
      ?_⟩
    generalize trimBlank text.toList = trimmed
    rintro version ⟨⟩
    refine ⟨?_, isNumeric_ofTrimmed_iff, fun partless => ?_, ?_⟩
    · unfold ofTrimmed
      split <;> rfl
    · refine ofTrimmed_eq_raw fun formed => ?_
      rw [isNumeric_ofTrimmed_iff.mpr formed] at partless
      cases partless
    · rintro form rfl
      rw [ofTrimmed_chars]
      exact ⟨rfl, rfl, form.plain.version, parse_chars form.plain,
        order_of_parts form.isNumeric_version rfl rfl⟩

/-- Blanks around a version are passed over, zeros in front of a component add nothing, and no
comparison tells the version from the same one without its metadata. -/
theorem parse_exact_of_tagged :
    ∃ version plain, parse "\tv1.02-rc.01+b " = .ok version ∧ version.numbers = [1, 2] ∧
      version.preRelease = [.name "rc", .number 1] ∧
      parse "v1.02-rc.01" = .ok plain ∧ ∀ other, version.order other = plain.order other := by
  let form : Form := ⟨some 'v', ["1".toList, "02".toList], some "rc.01".toList, some "b".toList,
    fun _ member => .inl (Option.mem_some.mp member).symm, by decide, by decide +kernel,
    fun _ member => Option.mem_some.mp member ▸ ⟨by decide, List.all_eq_true.mp rfl⟩,
    fun _ member => Option.mem_some.mp member ▸ ⟨by decide, List.all_eq_true.mp rfl⟩⟩
  have trimmed : form.chars = trimBlank "\tv1.02-rc.01+b ".toList := by decide +kernel
  have read : parse "\tv1.02-rc.01+b " = .ok form.version := by
    rw [parse_eq, ← trimmed, if_neg form.chars_ne_nil, ofTrimmed_chars]
  obtain ⟨-, -, -, parts⟩ := (parse_exact "\tv1.02-rc.01+b ").2 form.version read
  obtain ⟨numbers, identifiers, plain, readPlain, same⟩ := parts form trimmed
  exact ⟨form.version, plain, read, numbers.trans (by decide), identifiers.trans (by decide +kernel),
    readPlain, fun other => (same other).1⟩

end Version

end Loadout
