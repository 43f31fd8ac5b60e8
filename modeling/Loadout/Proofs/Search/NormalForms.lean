/-
**What sums are left in normal form.**

A bounded sum that is neither settled nor a clause is left as a sum over distinct variables that
needs all of its parts (`Linear.Reduced`). The steps of the normal form are followed once more:

* `ascending_gather`: merging leaves one coefficient per variable, in ascending order;
* `linear_of_settle`: a sum is left where it exceeds the bound even without its smallest term;
* `exists_sparing`: some assignment makes every term true but one, so it exceeds the bound with a
  term that is false;
* **`normalize_exact`**: a bounded sum and its normal form hold under the same assignments, and the
  sum that is left, if one is, is reduced.
-/

import Loadout.Proofs.Search.Normalization
import Mathlib.Data.List.Nodup

namespace Loadout

namespace Linear

/-- **A sum that needs all of its parts**: it is no clause, and none of its coefficients could be
smaller without saying something else. -/
structure Reduced (sum : Linear) : Prop where
  /-- The variables are distinct and ascend. -/
  ascending : sum.terms.Pairwise fun first second => first.2.atom < second.2.atom
  /-- Every term counts, and none for more than it takes to exceed the bound. -/
  within : ∀ term ∈ sum.terms, 1 ≤ term.1 ∧ term.1 ≤ sum.bound + 1
  /-- All terms together exceed the bound. -/
  heavy : sum.bound < sum.total
  /-- So do some of them without all the others. -/
  spared : ∃ assignment, sum.holds assignment = false ∧
    ∃ term ∈ sum.terms, term.2.holds assignment = false

end Linear

/-! ### Assignments that spare one term -/

/-- Where all terms but one pass, the weight lacks the coefficient of that one at most. -/
theorem total_le_passedWeight_add {test : Literal → Bool} {terms : List (Nat × Literal)}
    {term : Nat × Literal} (inside : term ∈ terms) (distinct : terms.Nodup)
    (others : ∀ other ∈ terms, other ≠ term → test other.2 = true) :
    (terms.map Prod.fst).sum ≤ passedWeight test terms + term.1 := by
  induction terms with
  | nil => cases inside
  | cons head rest ih =>
    obtain ⟨absent, distinct'⟩ := List.nodup_cons.mp distinct
    have others' : ∀ other ∈ rest, other ≠ term → test other.2 = true :=
      fun other member => others other (List.mem_cons_of_mem _ member)
    rw [List.map_cons, List.sum_cons, passedWeight_cons]
    rcases List.mem_cons.mp inside with here | later
    · subst here
      have pass : ∀ other ∈ rest, test other.2 = true :=
        fun other member => others' other member fun same => absent (same ▸ member)
      rw [passedWeight_of_all pass]
      omega
    · have passes : test head.2 = true :=
        others head List.mem_cons_self fun same => absent (same ▸ later)
      have below := ih later distinct' others'
      rw [if_pos passes]
      omega

/-- **Some assignment makes every term true but one**, where no two are on one variable. -/
theorem exists_sparing {terms : List (Nat × Literal)} {term : Nat × Literal}
    (apart : terms.Pairwise fun first second => first.2.atom < second.2.atom)
    (inside : term ∈ terms) :
    ∃ assignment, term.2.holds assignment = false ∧
      ∀ other ∈ terms, other ≠ term → other.2.holds assignment = true := by
  have atoms : (terms.map fun other => other.2.atom).Nodup :=
    List.pairwise_map.mpr (apart.imp Nat.ne_of_lt)
  have unique : ∀ first ∈ terms, ∀ second ∈ terms,
      first.2.atom = second.2.atom → first = second :=
    fun first member second member' => List.inj_on_of_nodup_map atoms member member'
  refine ⟨fun atom => if atom = term.2.atom then !term.2.positive
    else terms.any fun other => other.2.atom == atom && other.2.positive, ?_, ?_⟩
  · unfold Literal.holds
    dsimp only
    rw [if_pos rfl]
    cases term.2.positive <;> rfl
  · intro other member differs
    have elsewhere : ¬other.2.atom = term.2.atom :=
      fun same => differs (unique other member term inside same)
    unfold Literal.holds
    dsimp only
    rw [if_neg elsewhere, beq_iff_eq, Bool.eq_iff_iff, List.any_eq_true]
    constructor
    · rintro ⟨third, member', both⟩
      rw [Bool.and_eq_true, beq_iff_eq] at both
      rw [← unique third member' other member both.1]
      exact both.2
    · intro positive
      exact ⟨other, member, by rw [positive, beq_self_eq_true, Bool.and_self]⟩

namespace AtMost

/-! ### The variables of merged coefficients -/

/-- One coefficient per variable, in ascending order. -/
def Ascending (merged : List (Nat × Int)) : Prop :=
  merged.Pairwise fun first second => first.1 < second.1

/-- Adding to a coefficient keeps the order of the variables. -/
theorem ascending_addAt {merged : List (Nat × Int)} (ascending : Ascending merged) (atom : Nat)
    (amount : Int) : Ascending (addAt atom amount merged) := by
  induction merged with
  | nil => exact List.pairwise_singleton _ _
  | cons entry rest ih =>
    obtain ⟨other, coefficient⟩ := entry
    obtain ⟨first, later⟩ := List.pairwise_cons.mp ascending
    unfold addAt
    by_cases before : atom < other
    · rw [if_pos before]
      refine List.pairwise_cons.mpr ⟨fun entry inside => ?_, ascending⟩
      rcases List.mem_cons.mp inside with here | old
      · rw [here]
        exact before
      · exact Nat.lt_trans before (first entry old)
    · rw [if_neg before]
      by_cases same : atom = other
      · rw [if_pos same]
        exact List.pairwise_cons.mpr ⟨first, later⟩
      · rw [if_neg same]
        refine List.pairwise_cons.mpr ⟨fun entry inside => ?_, ih later⟩
        rcases mem_addAt inside with new | ⟨old, member, equal⟩
        · rw [new]
          omega
        · rw [← equal]
          exact first old member

theorem ascending_gatherTerm {state : List (Nat × Int) × Int} (ascending : Ascending state.1)
    (term : Int × Literal) : Ascending (gatherTerm state term).1 := by
  unfold gatherTerm
  split
  · exact ascending
  · split
    · exact ascending_addAt ascending _ _
    · exact ascending_addAt ascending _ _

/-- **Gathering leaves one coefficient per variable**, in ascending order. -/
theorem ascending_gather (constraint : AtMost) : Ascending constraint.gather.1 := by
  have general : ∀ (terms : List (Int × Literal)) (state : List (Nat × Int) × Int),
      Ascending state.1 → Ascending (terms.foldl gatherTerm state).1 := by
    intro terms
    induction terms with
    | nil => exact fun state ascending => ascending
    | cons term rest ih =>
      exact fun state ascending => ih _ (ascending_gatherTerm ascending term)
  rw [gather_eq]
  exact general _ _ List.Pairwise.nil

/-! ### What is left of a sum -/

/-- An oriented term counts for something. -/
theorem orient_positive {entry : Nat × Int} {term : Nat × Literal}
    (oriented : orient entry = some term) : 1 ≤ term.1 := by
  unfold orient at oriented
  split at oriented
  · cases oriented
    dsimp only
    omega
  · split at oriented
    · cases oriented
      dsimp only
      omega
    · cases oriented

/-- The smallest coefficient is that of a term, if there is any. -/
theorem exists_smallest {terms : List (Nat × Literal)} (nonempty : terms ≠ []) :
    ∃ term ∈ terms, term.1 = smallest terms := by
  unfold smallest
  cases least : (terms.map Prod.fst).min? with
  | none => exact absurd (List.map_eq_nil_iff.mp (List.min?_eq_none_iff.mp least)) nonempty
  | some value => exact List.mem_map.mp (List.min?_eq_some_iff.mp least).1

/-- **A sum is left where it exceeds the bound even without its smallest term.** -/
theorem linear_of_settle {terms : List (Nat × Literal)} {bound : Nat} {sum : Linear}
    (settled : settle terms bound = .linear sum) :
    sum = ⟨cut terms bound, bound⟩ ∧
      bound < ((cut terms bound).map Prod.fst).sum - smallest (cut terms bound) := by
  unfold settle at settled
  split at settled
  · cases settled
  · change (if ((cut terms bound).map Prod.fst).sum - smallest (cut terms bound) ≤ bound then
      _ else Normal.linear ⟨cut terms bound, bound⟩) = _ at settled
    split at settled
    · cases settled
    · next loose =>
      cases settled
      exact ⟨rfl, Nat.lt_of_not_le loose⟩

/-- **A sum that is left of positive coefficients over distinct variables is reduced.** -/
theorem reduced_of_settle {terms : List (Nat × Literal)} {bound : Nat} {sum : Linear}
    (apart : terms.Pairwise fun first second => first.2.atom < second.2.atom)
    (positive : ∀ term ∈ terms, 1 ≤ term.1) (settled : settle terms bound = .linear sum) :
    sum.Reduced := by
  obtain ⟨rfl, loose⟩ := linear_of_settle settled
  have apart' : (cut terms bound).Pairwise fun first second => first.2.atom < second.2.atom :=
    List.pairwise_map.mpr apart
  have distinct : (cut terms bound).Nodup :=
    apart'.imp fun {first second} less same =>
      Nat.ne_of_lt less (congrArg (fun term : Nat × Literal => term.2.atom) same)
  refine ⟨apart', fun term inside => ?_, Nat.lt_of_lt_of_le loose (Nat.sub_le _ _), ?_⟩
  · obtain ⟨uncut, member, rfl⟩ := List.mem_map.mp inside
    have counts := positive uncut member
    dsimp only
    omega
  · have nonempty : cut terms bound ≠ [] := by
      intro empty
      rw [empty] at loose
      exact Nat.not_lt_zero _ loose
    obtain ⟨term, inside, least⟩ := exists_smallest nonempty
    obtain ⟨assignment, isFalse, others⟩ := exists_sparing apart' inside
    have weight := total_le_passedWeight_add inside distinct others
    refine ⟨assignment, decide_eq_false ?_, term, inside, isFalse⟩
    rw [trueWeight_eq]
    dsimp only
    omega

/-- **The normal form of a bounded sum is exact**: it holds under the same assignments, and a sum
that is left in it is reduced. -/
theorem normalize_exact (constraint : AtMost) :
    (∀ assignment, constraint.normalize.holds assignment = constraint.holds assignment) ∧
    ∀ sum, constraint.normalize = .linear sum → sum.Reduced := by
  refine ⟨fun assignment => holds_normalize assignment constraint, fun sum left => ?_⟩
  rw [normalize_eq] at left
  split at left
  · cases left
  · refine reduced_of_settle ?_ (fun term inside => ?_) left
    · refine (ascending_gather constraint).filterMap _ fun first second less term oriented
        term' oriented' => ?_
      rw [orient_atom oriented, orient_atom oriented']
      exact less
    · obtain ⟨entry, _, oriented⟩ := List.mem_filterMap.mp inside
      exact orient_positive oriented

/-- Two weights at the ends of 64 bits, whose sum has to be negative. -/
def extremes : AtMost :=
  ⟨[(-9223372036854775808, ⟨1, true⟩), (9223372036854775807, ⟨2, true⟩)], -1⟩

theorem normalize_exact_of_extremes :
    extremes.normalize = .linear
      ⟨[(9223372036854775808, ⟨1, false⟩), (9223372036854775807, ⟨2, true⟩)],
        9223372036854775807⟩ ∧
    Linear.Reduced
      ⟨[(9223372036854775808, ⟨1, false⟩), (9223372036854775807, ⟨2, true⟩)],
        9223372036854775807⟩ :=
  have left : extremes.normalize = .linear
      ⟨[(9223372036854775808, ⟨1, false⟩), (9223372036854775807, ⟨2, true⟩)],
        9223372036854775807⟩ := by decide
  ⟨left, (normalize_exact extremes).2 _ left⟩

end AtMost

end Loadout
