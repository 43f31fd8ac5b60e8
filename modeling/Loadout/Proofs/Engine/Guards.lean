/-
**Cardinalities as bounded sums, with and without a guard.**

A guard switches a bounded sum off without changing what it says elsewhere (`AtMost.GuardedBy`), and
a sum that needs no guard can never exceed its bound.

* `guardedBy_guarded`: that is so of every sum that is put under a guard;
* `mem_forms`: the sums of a cardinality count its true handles, or its false ones;
* `fits_of_mem_forms`: their numbers have a place in 64 bits, and so do those under a guard;
* **`encode_exact`**: the sums of a cardinality on registered roots hold just when it does, and each
  of them can be guarded.
-/

import Loadout.Config
import Loadout.Proofs.Engine.Checks

namespace Loadout

namespace AtMost

/-- **A sum is under a guard**: where the guard is false the guarded sum holds, elsewhere it says
what the sum says. There is none only where no assignment violates the sum. -/
def GuardedBy (guard : Literal) (constraint : AtMost) : Option AtMost → Prop
  | none => ∀ assignment, constraint.holds assignment = true
  | some guarded => ∀ assignment,
      (guard.holds assignment = false → guarded.holds assignment = true) ∧
      (guard.holds assignment = true → guarded.holds assignment = constraint.holds assignment)

/-- The numbers of a sum have a place in 64 bits. -/
structure Fits (constraint : AtMost) : Prop where
  terms : ∀ term ∈ constraint.terms, weightMin ≤ term.1 ∧ term.1 ≤ weightMax
  bound : weightMin ≤ constraint.bound ∧ constraint.bound ≤ weightMax

/-- **Every sum can be put under every guard.** -/
theorem guardedBy_guarded {guard : Literal} (proper : guard.isVoid = false)
    (constraint : AtMost) : constraint.GuardedBy guard (constraint.guarded guard) := by
  cases made : constraint.guarded guard with
  | none =>
    intro assignment
    have below := signedWeight_le_greatest assignment constraint.terms
    unfold AtMost.guarded at made
    dsimp only at made
    split at made
    · next light => exact decide_eq_true (by omega)
    · cases made
  | some guarded =>
    intro assignment
    have meaning := guarded_spec proper constraint assignment
    rw [made, Option.toList_some, List.forall_mem_singleton] at meaning
    constructor
    · intro off
      exact meaning.mpr fun on => absurd (off.symm.trans on) Bool.false_ne_true
    · intro on
      rw [Bool.eq_iff_iff, meaning]
      exact ⟨fun holds => holds on, fun holds _ => holds⟩

end AtMost

namespace Numbering

variable {numbering : Numbering} {cardinality : Cardinality} {forms : List AtMost}

/-- **The sums of a cardinality count its true handles, or its false ones.** -/
theorem mem_forms (encoded : numbering.encode cardinality = .ok forms) {form : AtMost}
    (inside : form ∈ forms) :
    ∃ literals : List Literal, literals.length = cardinality.handles.length ∧
      form.terms = literals.map (fun literal => (1, literal)) ∧
      (cardinality.most < literals.length ∧ form.bound = cardinality.most ∨
        0 < cardinality.least ∧ form.bound = (literals.length : Int) - cardinality.least) := by
  unfold encode at encoded
  cases found : cardinality.handles.mapM numbering.literal with
  | error error =>
    rw [found] at encoded
    cases encoded
  | ok literals =>
    rw [found] at encoded
    cases encoded
    have same : literals.length = cardinality.handles.length :=
      (forall₂_of_mapM found).length_eq.symm
    rcases List.mem_append.mp inside with upper | lower
    · split at upper
      · next exceeds =>
        rw [List.mem_singleton.mp upper]
        exact ⟨literals, same, rfl, .inl ⟨exceeds, rfl⟩⟩
      · exact absurd upper List.not_mem_nil
    · split at lower
      · next asks =>
        rw [List.mem_singleton.mp lower]
        refine ⟨literals.map fun literal => -literal, by rw [List.length_map, same], ?_, ?_⟩
        · rw [List.map_map]
          rfl
        · rw [List.length_map]
          exact .inr ⟨asks, rfl⟩
      · exact absurd lower List.not_mem_nil

theorem sum_ones (literals : List Literal) :
    ((literals.map fun literal => ((1 : Int), literal)).map fun term => max term.1 0).sum =
      literals.length := by
  induction literals with
  | nil => rfl
  | cons literal rest ih =>
    rw [List.map_cons, List.map_cons, List.sum_cons, ih, List.length_cons]
    dsimp only
    omega

/-- **The sums of a cardinality fit into 64 bits, under a guard too**, where its numbers do. -/
theorem fits_of_mem_forms (encoded : numbering.encode cardinality = .ok forms)
    (least : (cardinality.least : Int) ≤ weightMax)
    (handles : (cardinality.handles.length : Int) ≤ weightMax) {form : AtMost}
    (inside : form ∈ forms) (guard : Literal) :
    form.Fits ∧ ∀ guarded, form.guarded guard = some guarded → guarded.Fits := by
  obtain ⟨literals, same, terms, bound⟩ := mem_forms encoded inside
  have lowest : weightMin = -weightMax - 1 := rfl
  have ones : ∀ term ∈ form.terms, weightMin ≤ term.1 ∧ term.1 ≤ weightMax := by
    intro term member
    rw [terms] at member
    obtain ⟨literal, _, rfl⟩ := List.mem_map.mp member
    have one : weightMin ≤ 1 ∧ 1 ≤ weightMax := by decide
    exact one
  have greatest : (form.terms.map fun term => max term.1 0).sum = literals.length := by
    rw [terms, sum_ones]
  refine ⟨⟨ones, by omega⟩, fun guarded made => ?_⟩
  unfold AtMost.guarded at made
  dsimp only at made
  rw [greatest] at made
  split at made
  · cases made
  · next heavy =>
    cases made
    refine ⟨fun term member => ?_, by dsimp only; omega⟩
    rcases List.mem_append.mp member with old | new
    · exact ones term old
    · rw [List.mem_singleton.mp new]
      dsimp only
      omega

/-- **Encoding is exact.** A cardinality on registered roots is encoded by sums that hold together
just when it does, each of which can be put under any guard; and where its numbers have a place in
64 bits, so have theirs. -/
theorem encode_exact {table : ChoiceTable} {cardinality : Cardinality}
    (rooted : cardinality.Rooted table) :
    ∃ forms, (ofTable table).encode cardinality = .ok forms ∧
      (∀ assignment, cardinality.holds ((ofTable table).read assignment) = true ↔
        ∀ form ∈ forms, form.holds assignment = true) ∧
      ∀ form ∈ forms, ∀ guard : Literal, guard.isVoid = false →
        form.GuardedBy guard (form.guarded guard) ∧
        ((cardinality.least : Int) ≤ weightMax →
          (cardinality.handles.length : Int) ≤ weightMax →
          form.Fits ∧ ∀ guarded, form.guarded guard = some guarded → guarded.Fits) := by
  obtain ⟨forms, encoded⟩ := encode_ok_iff.mpr rooted
  refine ⟨forms, encoded, fun assignment => ?_, fun form inside guard proper => ⟨?_, ?_⟩⟩
  · exact (encode_spec (covers_ofTable table) (matches_read _ assignment) encoded).symm
  · exact form.guardedBy_guarded proper
  · exact fun least handles => fits_of_mem_forms encoded least handles inside guard

/-- A table of two branches with a gap between them, where one has been removed. -/
def gapped : ChoiceTable :=
  ⟨#[⟨.branch "first", 0, true⟩, ⟨.branch "gone", 0, false⟩, ⟨.branch "last", 0, true⟩]⟩

/-- Just two of a handle, its opposite, and another handle that is named twice. -/
def mirrored : Cardinality :=
  ⟨[⟨0, false⟩, ⟨0, true⟩, ⟨2, false⟩, ⟨2, false⟩], 2, 2⟩

theorem encode_exact_of_mirrored :
    mirrored.Rooted gapped ∧ (Literal.ofAtom 3).isVoid = false ∧
    ∃ forms, (ofTable gapped).encode mirrored = .ok forms ∧
      (∀ assignment, mirrored.holds ((ofTable gapped).read assignment) = true ↔
        ∀ form ∈ forms, form.holds assignment = true) ∧
      ∀ form ∈ forms, form.GuardedBy (.ofAtom 3) (form.guarded (.ofAtom 3)) :=
  have rooted : mirrored.Rooted gapped := by
    unfold Cardinality.Rooted
    decide
  let ⟨forms, encoded, exact, guards⟩ := encode_exact rooted
  ⟨rooted, rfl, forms, encoded, exact, fun form inside => (guards form inside (.ofAtom 3) rfl).1⟩

end Numbering

end Loadout
