/-
**The order of the candidates of a pool.**

A pool is ranked from the higher version down, and among equal versions from the smaller key up. A
candidate *outranks* another that stands behind it so (`Candidate.Outranks`). Where no two
candidates have one key, to be ranked is just that:

* `ranked_sorted`: ranked candidates are in the order by which they are ranked;
* **`ranked_outranks`**: each of them outranks those behind it;
* **`ranked_eq`**: candidates each of which outranks those behind it are ranked.
-/

import Loadout.Proofs.Resolver.Registration
import Loadout.Proofs.Version.Order
import Mathlib.Data.List.Pairwise

namespace Loadout

/-- A candidate stands before another of its pool: its version is higher, or the versions are equal
and its key is smaller. -/
def Candidate.Outranks (candidate other : Candidate) : Prop :=
  candidate.version.order other.version = .gt ∨
    candidate.version.order other.version = .eq ∧ compareTexts candidate.key other.key = .lt

instance (candidate other : Candidate) : Decidable (candidate.Outranks other) :=
  inferInstanceAs (Decidable (_ ∨ _))

namespace Resolver

open Std

/-- The order by which pools are ranked. -/
def rankOrder (candidate other : Candidate) : Ordering :=
  (other.version.order candidate.version).then (compareTexts candidate.key other.key)

instance transCmp_rankOrder : TransCmp rankOrder := by
  have versions : TransCmp fun candidate other : Candidate =>
      other.version.order candidate.version :=
    @transCmp_on _ _ Candidate.version (fun version other => Version.order other version)
      TransCmp.opposite
  have keys : TransCmp fun candidate other : Candidate =>
      compareTexts candidate.key other.key := transCmp_on Candidate.key
  exact @instTransCmpCompareLex _ _ _ versions keys

theorem ranksBefore_iff {candidate other : Candidate} :
    ranksBefore candidate other = true ↔ (rankOrder candidate other).isLE = true := by
  unfold ranksBefore rankOrder
  cases (other.version.order candidate.version).then (compareTexts candidate.key other.key) <;>
    decide

theorem outranks_iff {candidate other : Candidate} :
    candidate.Outranks other ↔ rankOrder candidate other = .lt := by
  have turned : other.version.order candidate.version =
      (candidate.version.order other.version).swap := OrientedCmp.eq_swap
  unfold Candidate.Outranks rankOrder
  rw [turned]
  cases candidate.version.order other.version <;> simp

/-- **Ranked candidates are in order.** -/
theorem ranked_sorted (pool : List Candidate) :
    (ranked pool).Pairwise fun candidate other => (rankOrder candidate other).isLE = true := by
  refine (List.pairwise_mergeSort (fun first second third before after => ?_)
    (fun candidate other => ?_) pool).imp ranksBefore_iff.mp
  · rw [ranksBefore_iff] at before after ⊢
    exact TransCmp.isLE_trans before after
  · have turned : rankOrder candidate other = (rankOrder other candidate).swap :=
      OrientedCmp.eq_swap
    rw [Bool.or_eq_true, ranksBefore_iff, ranksBefore_iff, turned]
    cases rankOrder other candidate <;> decide

/-- **Ranked candidates go from the best down**, where no two have one key. -/
theorem ranked_outranks {pool : List Candidate}
    (distinct : ((ranked pool).map Candidate.key).Nodup) :
    (ranked pool).Pairwise Candidate.Outranks := by
  refine (ranked_sorted pool).imp₂ (fun candidate other before differ => ?_)
    (List.pairwise_map.mp distinct)
  rw [outranks_iff]
  cases compared : rankOrder candidate other with
  | lt => rfl
  | eq => exact absurd (compareTexts_eq_iff.mp (Ordering.then_eq_eq.mp compared).2) differ
  | gt =>
    rw [compared] at before
    cases before

/-- **Candidates that go from the best down are ranked.** -/
theorem ranked_eq {pool order : List Candidate} (same : order.Perm pool)
    (sorted : order.Pairwise Candidate.Outranks) : ranked pool = order := by
  have uneven : order.Pairwise fun candidate other => rankOrder candidate other ≠ .eq :=
    sorted.imp fun outranks level => by
      rw [outranks_iff, level] at outranks
      cases outranks
  have turned : Std.Symm fun candidate other : Candidate => rankOrder candidate other ≠ .eq :=
    ⟨fun candidate other differ level => differ (OrientedCmp.eq_symm level)⟩
  have perm := (ranked_perm pool).trans same.symm
  refine List.Perm.eq_of_pairwise (fun candidate other inside inside' before after => ?_)
    (ranked_sorted pool) (sorted.imp fun outranks => ?_) perm
  · by_contra differ
    exact uneven.forall (perm.mem_iff.mp inside) inside' differ
      (OrientedCmp.isLE_antisymm before after)
  · rw [outranks_iff.mp outranks]
    rfl

/-- A pool with two equal versions and a higher one. -/
def libs : List Candidate :=
  [Candidate.plain "lib b" (.ofNumbers [1]), Candidate.plain "lib a" (.ofNumbers [1, 0]),
    Candidate.plain "lib c" (.ofNumbers [2])]

/-- The higher version comes first, and then the smaller key. -/
theorem ranked_libs : ranked libs =
    [Candidate.plain "lib c" (.ofNumbers [2]), Candidate.plain "lib a" (.ofNumbers [1, 0]),
      Candidate.plain "lib b" (.ofNumbers [1])] := by
  have best : [Candidate.plain "lib c" (.ofNumbers [2]),
      Candidate.plain "lib a" (.ofNumbers [1, 0]),
      Candidate.plain "lib b" (.ofNumbers [1])].Pairwise Candidate.Outranks := by
    decide +kernel
  exact ranked_eq (List.reverse_perm libs) best

end Resolver

end Loadout
