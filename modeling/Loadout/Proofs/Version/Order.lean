/-
**The order of versions can be reversed and chained.**

Every comparison that the order of versions is made of is a total preorder (`Std.TransCmp`). Some
compare by kind first (`compareKinds`), and components compare like lists that are filled up with
zeros to one length (`compareNumbers_eq`):

* `compareTexts_eq_iff`: texts are level only with themselves;
* **`Version.transCmp_order`**: the order of versions is a total preorder.
-/

import Loadout.Version

namespace Loadout

open Std

/-! ### Ways to compare -/

section Comparisons

variable {α β : Type}

/-- What compares parts compares the wholes. -/
theorem transCmp_on (part : α → β) {compareParts : β → β → Ordering} [TransCmp compareParts] :
    TransCmp fun left right : α => compareParts (part left) (part right) where
  eq_swap := OrientedCmp.eq_swap
  isLE_trans := TransCmp.isLE_trans

/-- The order in which one kind comes last, and each kind has an order of its own. -/
def compareKinds (isLast : α → Bool) (last first : α → α → Ordering) (left right : α) :
    Ordering :=
  match isLast left, isLast right with
  | true, true => last left right
  | true, false => .gt
  | false, true => .lt
  | false, false => first left right

theorem transCmp_compareKinds (isLast : α → Bool) {last first : α → α → Ordering}
    [TransCmp last] [TransCmp first] : TransCmp (compareKinds isLast last first) where
  eq_swap {left right} := by
    cases here : isLast left <;> cases there : isLast right <;>
      simp only [compareKinds, here, there]
    · exact OrientedCmp.eq_swap
    · rfl
    · rfl
    · exact OrientedCmp.eq_swap
  isLE_trans {left middle right} before after := by
    cases here : isLast left <;> cases between : isLast middle <;> cases there : isLast right <;>
      simp only [compareKinds, here, between, there] at before after ⊢
    -- where the first and the last are of one kind, so is what lies between
    all_goals first | exact TransCmp.isLE_trans before after | contradiction | rfl

end Comparisons

/-! ### Texts -/

instance transCmp_compareTexts : TransCmp compareTexts :=
  transCmp_on fun text : String => text.toList.map Char.toNat

/-- Texts are level only with themselves. -/
theorem compareTexts_eq_iff {left right : String} :
    compareTexts left right = .eq ↔ left = right := by
  unfold compareTexts
  rw [LawfulEqCmp.compare_eq_iff_eq]
  constructor
  · intro same
    exact String.toList_injective (List.map_inj_right (fun _ _ => Char.toNat_inj.mp) |>.mp same)
  · rintro rfl
    rfl

/-! ### Pre-release tags -/

instance Identifier.transCmp_order : TransCmp Identifier.order where
  eq_swap {left right} := by
    cases left <;> cases right <;> simp only [order]
    · exact OrientedCmp.eq_swap
    · rfl
    · rfl
    · exact OrientedCmp.eq_swap
  isLE_trans {left middle right} before after := by
    cases left <;> cases middle <;> cases right <;> simp only [order] at before after ⊢
    all_goals first | exact TransCmp.isLE_trans before after | contradiction | rfl

namespace Version

instance transCmp_comparePreReleases : TransCmp comparePreReleases := by
  have level : TransCmp fun _ _ : List Identifier => Ordering.eq :=
    { eq_swap := rfl, isLE_trans := fun _ _ => rfl }
  exact transCmp_compareKinds List.isEmpty

/-! ### Components -/

/-- **Components compare as if zeros were written** up to a length that is enough for both. -/
theorem compareNumbers_eq {length : Nat} {left right : List Nat} (enough : left.length ≤ length)
    (enough' : right.length ≤ length) : compareNumbers left right =
      List.compareLex compare (left.rightpad length 0) (right.rightpad length 0) := by
  induction length generalizing left right with
  | zero =>
    rw [List.eq_nil_of_length_eq_zero (Nat.le_zero.mp enough),
      List.eq_nil_of_length_eq_zero (Nat.le_zero.mp enough')]
    rfl
  | succ length ih =>
    have blank : [].rightpad (length + 1) 0 = 0 :: [].rightpad length 0 := rfl
    have pad (number : Nat) (rest : List Nat) : (number :: rest).rightpad (length + 1) 0 =
        number :: rest.rightpad length 0 := by
      unfold List.rightpad
      rw [List.length_cons, Nat.add_sub_add_right, List.cons_append]
    cases left with
    | nil =>
      cases right with
      | nil =>
        rw [blank, List.compareLex_cons_cons, ← ih (Nat.zero_le _) (Nat.zero_le _)]
        rfl
      | cons other others =>
        rw [blank, pad, List.compareLex_cons_cons,
          ← ih (Nat.zero_le _) (Nat.le_of_succ_le_succ enough')]
        rfl
    | cons number rest =>
      cases right with
      | nil =>
        rw [blank, pad, List.compareLex_cons_cons,
          ← ih (Nat.le_of_succ_le_succ enough) (Nat.zero_le _)]
        rfl
      | cons other others =>
        rw [pad, pad, List.compareLex_cons_cons,
          ← ih (Nat.le_of_succ_le_succ enough) (Nat.le_of_succ_le_succ enough')]
        rfl

instance transCmp_compareNumbers : TransCmp compareNumbers where
  eq_swap {left right} := by
    rw [compareNumbers_eq (Nat.le_max_left left.length right.length) (Nat.le_max_right _ _),
      compareNumbers_eq (Nat.le_max_right left.length right.length) (Nat.le_max_left _ _)]
    exact OrientedCmp.eq_swap
  isLE_trans {left middle right} before after := by
    -- one length is enough for all three
    let length := max left.length (max middle.length right.length)
    have enough : left.length ≤ length := Nat.le_max_left _ _
    have enough' : middle.length ≤ length :=
      Nat.le_trans (Nat.le_max_left _ _) (Nat.le_max_right _ _)
    have enough'' : right.length ≤ length :=
      Nat.le_trans (Nat.le_max_right _ _) (Nat.le_max_right _ _)
    rw [compareNumbers_eq enough enough'] at before
    rw [compareNumbers_eq enough' enough''] at after
    rw [compareNumbers_eq enough enough'']
    exact TransCmp.isLE_trans before after

/-! ### Versions -/

/-- The numeric versions are those with number components. -/
theorem isNumeric_iff {version : Version} : version.isNumeric = true ↔ version.numbers ≠ [] := by
  rw [isNumeric, Bool.not_eq_true', List.isEmpty_eq_false_iff]

/-- **The order of versions is a total preorder.** -/
instance transCmp_order : TransCmp order := by
  have numbers : TransCmp fun left right : Version => compareNumbers left.numbers right.numbers :=
    transCmp_on numbers
  have tags : TransCmp fun left right : Version =>
      comparePreReleases left.preRelease right.preRelease := transCmp_on preRelease
  have texts : TransCmp fun left right : Version => compareTexts left.text right.text :=
    transCmp_on text
  exact @transCmp_compareKinds _ isNumeric _ _ (@instTransCmpCompareLex _ _ _ numbers tags) texts

end Version

end Loadout
