/-
**Cutting texts into pieces.**

`piecesBy` cuts at every character of a class and `piecesAtBars` at every `||`, read from the
left. Both keep empty pieces, so there is always one piece more than there are cuts.
-/

namespace Loadout

/-- The pieces between the characters that satisfy a test. -/
def piecesBy (cut : Char → Bool) : List Char → List (List Char)
  | [] => [[]]
  | character :: rest =>
    if cut character then [] :: piecesBy cut rest
    else
      match piecesBy cut rest with
      | [] => [[character]]
      | piece :: pieces => (character :: piece) :: pieces

/-- The pieces between the double bars of a text. -/
def piecesAtBars : List Char → List (List Char)
  | [] => [[]]
  | '|' :: '|' :: rest => [] :: piecesAtBars rest
  | character :: rest =>
    match piecesAtBars rest with
    | [] => [[character]]
    | piece :: pieces => (character :: piece) :: pieces

theorem piecesBy_ne_nil (cut : Char → Bool) (text : List Char) : piecesBy cut text ≠ [] := by
  cases text with
  | nil => simp [piecesBy]
  | cons character rest =>
    simp only [piecesBy]
    split
    · simp
    · split <;> simp

end Loadout
