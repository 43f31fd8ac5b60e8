/-
**Dotted texts and the numbers in them.**

A text is cut as by the standard library's `splitOnP` (`piecesBy_eq`), so to cut it at dots undoes
putting dots between pieces (`piecesBy_dotted`, `dotted_piecesBy`).

* `of_mem_splitOnP`: a piece is a part of the text that has no character to cut at;
* `readDigits_eq_some_iff`, **`readWord_eq_some_iff`**: just the runs of ASCII digits are read, and as
  the numbers that they write (`decimal`);
* `mapM_readWord`: the same of all runs of a dotted text;
* **`trimBlank_trimBlank`**, `trimBlank_eq_nil_iff`, `trimBlank_of_clean`: to trim a text again changes
  nothing, and which texts vanish when they are trimmed or stay as they are.
-/

import Loadout.Text.Blank
import Loadout.Text.Digit
import Loadout.Text.Pieces
import Mathlib.Data.List.DropRight

namespace Loadout

/-! ### Pieces -/

/-- The pieces with a dot between each two neighbours. -/
def dotted (pieces : List (List Char)) : List Char :=
  ['.'].intercalate pieces

/-- The pieces of a text are what the standard library cuts it into. -/
theorem piecesBy_eq (cut : Char → Bool) (text : List Char) :
    piecesBy cut text = text.splitOnP cut := by
  induction text with
  | nil => rfl
  | cons character rest ih =>
    rw [piecesBy, List.splitOnP_cons_eq_if_modifyHead, ih]
    split
    · rfl
    · cases h : rest.splitOnP cut with
      | nil => exact absurd h (List.splitOnP_ne_nil cut rest)
      | cons piece pieces => rfl

/-- The first piece of a text is its start, the others stand behind it, and none has a character to
cut at. -/
theorem exists_first_piece (cut : Char → Bool) (text : List Char) :
    ∃ first others, text.splitOnP cut = first :: others ∧ first <+: text ∧
      (∀ character ∈ first, cut character = false) ∧
      ∀ piece ∈ others, piece <:+: text ∧ ∀ character ∈ piece, cut character = false := by
  induction text with
  | nil => exact ⟨[], [], rfl, List.nil_prefix, nofun, nofun⟩
  | cons character rest ih =>
    obtain ⟨first, others, same, start, clean, later⟩ := ih
    have later' (piece : List Char) (member : piece ∈ others) :
        piece <:+: character :: rest ∧ ∀ character ∈ piece, cut character = false :=
      ⟨List.infix_cons (later piece member).1, (later piece member).2⟩
    rw [List.splitOnP_cons_eq_if_modifyHead, same]
    cases stops : cut character with
    | true =>
      refine ⟨[], first :: others, rfl, List.nil_prefix, nofun, List.forall_mem_cons.mpr ⟨?_, later'⟩⟩
      exact ⟨List.infix_cons start.isInfix, clean⟩
    | false =>
      refine ⟨character :: first, others, rfl, ?_, List.forall_mem_cons.mpr ⟨stops, clean⟩, later'⟩
      exact List.cons_prefix_cons.mpr ⟨rfl, start⟩

/-- **What a piece of a text is**: a part of it that has no character to cut at. -/
theorem of_mem_splitOnP {cut : Char → Bool} {text piece : List Char}
    (member : piece ∈ text.splitOnP cut) :
    piece <:+: text ∧ ∀ character ∈ piece, cut character = false := by
  obtain ⟨first, others, same, start, clean, later⟩ := exists_first_piece cut text
  rw [same] at member
  rcases List.mem_cons.mp member with rfl | among
  · exact ⟨start.isInfix, clean⟩
  · exact later piece among

/-- To put the dots back gives the text. -/
theorem dotted_piecesBy (text : List Char) : dotted (piecesBy (· == '.') text) = text := by
  rw [piecesBy_eq]
  exact List.intercalate_splitOn '.'

/-- To cut at the dots gives the pieces, if there are no dots in them. -/
theorem piecesBy_dotted {pieces : List (List Char)} (filled : pieces ≠ [])
    (undotted : ∀ piece ∈ pieces, '.' ∉ piece) :
    piecesBy (· == '.') (dotted pieces) = pieces := by
  rw [piecesBy_eq]
  exact List.splitOn_intercalate '.' undotted filled

theorem dotted_cons {piece : List Char} {pieces : List (List Char)} (more : pieces ≠ []) :
    dotted (piece :: pieces) = piece ++ '.' :: dotted pieces := by
  obtain ⟨next, others, rfl⟩ := List.exists_cons_of_ne_nil more
  rw [dotted, List.intercalate_cons_cons, List.append_assoc]
  rfl

/-- A dotted text starts with the first character of its first piece. -/
theorem exists_dotted (first : Char) (rest : List Char) (others : List (List Char)) :
    ∃ tail, dotted ((first :: rest) :: others) = first :: tail := by
  by_cases more : others = []
  · subst more
    exact ⟨rest, List.intercalate_singleton⟩
  · exact ⟨rest ++ '.' :: dotted others, dotted_cons more⟩

/-- What is in a dotted text is a dot or in a piece. -/
theorem mem_dotted {pieces : List (List Char)} {character : Char}
    (member : character ∈ dotted pieces) :
    character = '.' ∨ ∃ piece ∈ pieces, character ∈ piece := by
  induction pieces with
  | nil => cases member
  | cons piece pieces ih =>
    by_cases more : pieces = []
    · subst more
      rw [dotted, List.intercalate_singleton] at member
      exact .inr ⟨piece, List.mem_cons_self, member⟩
    · rw [dotted_cons more, List.mem_append, List.mem_cons] at member
      rcases member with here | rfl | later
      · exact .inr ⟨piece, List.mem_cons_self, here⟩
      · exact .inl rfl
      · exact (ih later).imp_right fun ⟨other, among, inside⟩ =>
          ⟨other, List.mem_cons_of_mem _ among, inside⟩

/-- The run of characters at the start of a text that pass a test, and what follows it. -/
theorem span_append {test : Char → Bool} {run rest : List Char}
    (passes : ∀ character ∈ run, test character = true)
    (stops : ∀ character ∈ rest.head?, test character = false) :
    (run ++ rest).takeWhile test = run ∧ (run ++ rest).dropWhile test = rest := by
  rw [List.takeWhile_append_of_pos passes, List.dropWhile_append_of_pos passes]
  cases rest with
  | nil => exact ⟨List.append_nil run, rfl⟩
  | cons first others =>
    have fails : ¬test first = true := Bool.eq_false_iff.mp (stops first rfl)
    rw [List.takeWhile_cons_of_neg fails, List.dropWhile_cons_of_neg fails]
    exact ⟨List.append_nil run, rfl⟩

/-! ### Numbers -/

/-- The number that a run of ASCII digits writes. -/
def decimal (run : List Char) : Nat :=
  Nat.ofDigitChars 10 run 0

/-- A run of characters is the writing of a number below `2 ^ 64` in ASCII digits. -/
def WritesWord (run : List Char) : Prop :=
  run ≠ [] ∧ (∀ character ∈ run, character.isDigit = true) ∧ decimal run < wordLimit

instance (run : List Char) : Decidable (WritesWord run) :=
  decidable_of_iff (run ≠ [] ∧ run.all Char.isDigit = true ∧ decimal run < wordLimit)
    (by rw [WritesWord, List.all_eq_true])

theorem foldl_digits (run : List Char) :
    run.foldl (fun number character => 10 * number + digitValue character) 0 = decimal run := rfl

theorem readDigits_eq_some_iff {text : List Char} {number : Nat} :
    readDigits text = some number ↔
      text ≠ [] ∧ (∀ character ∈ text, character.isDigit = true) ∧ decimal text = number := by
  rw [readDigits, foldl_digits]
  split
  · next bad =>
    rw [Bool.or_eq_true, List.isEmpty_iff, Bool.not_eq_true', List.all_eq_false] at bad
    refine ⟨nofun, fun ⟨filled, digits, _⟩ => ?_⟩
    rcases bad with empty | ⟨character, member, other⟩
    · exact absurd empty filled
    · exact absurd (digits character member) other
  · next good =>
    rw [Bool.or_eq_true, List.isEmpty_iff, Bool.not_eq_true', not_or, Bool.not_eq_false,
      List.all_eq_true] at good
    rw [Option.some.injEq]
    exact ⟨fun same => ⟨good.1, good.2, same⟩, fun ⟨_, _, same⟩ => same⟩

/-- **Just the writings of numbers below `2 ^ 64` are read**, as these numbers. -/
theorem readWord_eq_some_iff {text : List Char} {number : Nat} :
    readWord text = some number ↔ WritesWord text ∧ decimal text = number := by
  rw [readWord, Option.filter_eq_some_iff, readDigits_eq_some_iff, decide_eq_true_eq]
  constructor
  · rintro ⟨⟨filled, digits, rfl⟩, small⟩
    exact ⟨⟨filled, digits, small⟩, rfl⟩
  · rintro ⟨⟨filled, digits, small⟩, rfl⟩
    exact ⟨⟨filled, digits, rfl⟩, small⟩

theorem readWord_eq_none_iff {text : List Char} : readWord text = none ↔ ¬WritesWord text := by
  rw [Option.eq_none_iff_forall_ne_some]
  constructor
  · exact fun unread word => unread _ (readWord_eq_some_iff.mpr ⟨word, rfl⟩)
  · exact fun noWord number read => noWord (readWord_eq_some_iff.mp read).1

/-- All runs are read if each of them writes a number. -/
theorem mapM_readWord {runs : List (List Char)} {numbers : List Nat} :
    runs.mapM readWord = some numbers ↔
      (∀ run ∈ runs, WritesWord run) ∧ runs.map decimal = numbers := by
  induction runs generalizing numbers with
  | nil => simp [eq_comm]
  | cons run runs ih =>
    rw [List.mapM_cons, List.forall_mem_cons, List.map_cons]
    cases first : readWord run with
    | none =>
      have noWord := readWord_eq_none_iff.mp first
      exact ⟨nofun, fun ⟨⟨word, _⟩, _⟩ => absurd word noWord⟩
    | some number =>
      obtain ⟨word, rfl⟩ := readWord_eq_some_iff.mp first
      cases later : runs.mapM readWord with
      | none =>
        refine ⟨nofun, fun ⟨⟨_, words⟩, _⟩ => ?_⟩
        rw [ih.mpr ⟨words, rfl⟩] at later
        cases later
      | some others =>
        obtain ⟨words, rfl⟩ := ih.mp later
        show some _ = some _ ↔ _
        rw [Option.some.injEq]
        exact ⟨fun same => ⟨⟨word, words⟩, same⟩, fun ⟨_, same⟩ => same⟩

/-! ### Trimming -/

/-- What is cut off the end of a list leaves its start as it is. -/
theorem dropWhile_rdropWhile {α : Type} {test : α → Bool} {list : List α}
    (start : list.dropWhile test = list) :
    (list.rdropWhile test).dropWhile test = list.rdropWhile test := by
  obtain ⟨rest, split⟩ := List.rdropWhile_prefix test (l := list)
  cases left : list.rdropWhile test with
  | nil => rfl
  | cons first others =>
    rw [left, List.cons_append] at split
    have stays : ¬test first = true := by
      intro passes
      rw [← split, List.dropWhile_cons_of_pos passes] at start
      have shorter := (List.dropWhile_suffix test (l := others ++ rest)).length_le
      rw [start, List.length_cons] at shorter
      exact Nat.not_succ_le_self _ shorter
    exact List.dropWhile_cons_of_neg stays

/-- **To trim a trimmed text changes nothing.** -/
theorem trimBlank_trimBlank (text : List Char) : trimBlank (trimBlank text) = trimBlank text := by
  have start : (text.dropWhile isBlank).dropWhile isBlank = text.dropWhile isBlank :=
    List.dropWhile_idempotent isBlank text
  show ((List.rdropWhile isBlank (text.dropWhile isBlank)).dropWhile isBlank).rdropWhile isBlank =
    List.rdropWhile isBlank (text.dropWhile isBlank)
  rw [dropWhile_rdropWhile start]
  exact List.rdropWhile_idempotent isBlank _

theorem trimBlank_isInfix (text : List Char) : trimBlank text <:+: text := by
  have start := List.rdropWhile_prefix isBlank (text.dropWhile isBlank)
  exact start.isInfix.trans (List.dropWhile_suffix isBlank).isInfix

/-- Just the blank texts are empty when they are trimmed. -/
theorem trimBlank_eq_nil_iff {text : List Char} :
    trimBlank text = [] ↔ ∀ character ∈ text, isBlank character = true := by
  show (text.dropWhile isBlank).rdropWhile isBlank = [] ↔ _
  rw [List.rdropWhile_eq_nil_iff]
  constructor
  · intro blank
    rw [← List.dropWhile_eq_nil_iff]
    by_contra left
    exact absurd (blank _ (List.head_mem left))
      (Bool.eq_false_iff.mp (List.head_dropWhile_not isBlank left))
  · exact fun blank character member =>
      blank character ((List.dropWhile_suffix isBlank).subset member)

/-- A text without blank characters stays as it is when it is trimmed. -/
theorem trimBlank_of_clean {text : List Char}
    (clean : ∀ character ∈ text, isBlank character = false) : trimBlank text = text := by
  have start : text.dropWhile isBlank = text := by
    cases text with
    | nil => rfl
    | cons first rest =>
      exact List.dropWhile_cons_of_neg (Bool.eq_false_iff.mp (clean first List.mem_cons_self))
  show (text.dropWhile isBlank).rdropWhile isBlank = text
  rw [start, List.rdropWhile_eq_self_iff]
  exact fun left => Bool.eq_false_iff.mp (clean _ (List.getLast_mem left))

end Loadout
