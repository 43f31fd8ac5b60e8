/-
**Rules under selectors.**

An explainer puts the constraints of every rule under a selector of its own. A *mark* is a selector
with its rule, and what the explainer is told is that the constraints of a mark hold where its
selector does (`Explainer.Marked`). So:

* `guarded_spec`: a guarded sum says nothing where its guard is false;
* `build_spec`: after all rules are added, the marks stand for all constraints that say anything;
* `shrink_spec`: what is left of a core after shrinking cannot hold together, and can without any
  one of its rules;
* **`check_spec`**: a check finds that the rules can hold together just when they can, and the rules
  of a core cannot; without an interruption it finds one or the other;
* `check_lasting`: a check that finds something was never told to stop.
-/

import Loadout.Engine.Explainer
import Loadout.Proofs.Engine.Optima

namespace Loadout

/-! ### Guarded sums -/

/-- No assignment gives more than the positive coefficients. -/
theorem signedWeight_le_greatest (assignment : Assignment) (terms : List (Int × Literal)) :
    signedWeight assignment terms ≤ (terms.map fun term => max term.1 0).sum := by
  induction terms with
  | nil => exact Int.le_refl 0
  | cons term rest ih =>
    rw [AtMost.signedWeight_cons, List.map_cons, List.sum_cons]
    split <;> omega

theorem signedWeight_append (assignment : Assignment) (first second : List (Int × Literal)) :
    signedWeight assignment (first ++ second) =
      signedWeight assignment first + signedWeight assignment second := by
  unfold signedWeight
  rw [List.filter_append, List.map_append, List.sum_append]

/-- **A guarded sum says what the sum says where its guard is true**, and nothing elsewhere. -/
theorem guarded_spec {guard : Literal} (proper : guard.isVoid = false) (constraint : AtMost)
    (assignment : Assignment) :
    (∀ form ∈ (constraint.guarded guard).toList, form.holds assignment = true) ↔
      (guard.holds assignment = true → constraint.holds assignment = true) := by
  have below := signedWeight_le_greatest assignment constraint.terms
  have unguarded : constraint.holds assignment = true ↔
      signedWeight assignment constraint.terms ≤ constraint.bound := decide_eq_true_iff
  unfold AtMost.guarded
  dsimp only
  by_cases light :
      (constraint.terms.map fun term => max term.1 0).sum - constraint.bound ≤ 0
  · rw [if_pos light]
    refine iff_of_true (fun form inside => absurd inside List.not_mem_nil) fun _ => ?_
    exact unguarded.mpr (by omega)
  · rw [if_neg light, Option.toList_some, List.forall_mem_singleton, unguarded]
    unfold AtMost.holds
    rw [decide_eq_true_iff, signedWeight_append, AtMost.signedWeight_cons,
      AtMost.signedWeight_nil, proper]
    cases guard.holds assignment with
    | true =>
      simp only [Bool.not_false, Bool.and_self, if_true, forall_true_left]
      omega
    | false =>
      simp only [Bool.and_false, Bool.false_eq_true, if_false, false_implies, iff_true]
      omega

/-- Several sums under one guard. -/
theorem guardedAll_spec {guard : Literal} (proper : guard.isVoid = false) (forms : List AtMost)
    (assignment : Assignment) :
    (∀ form ∈ forms.filterMap (AtMost.guarded guard), form.holds assignment = true) ↔
      (guard.holds assignment = true → ∀ form ∈ forms, form.holds assignment = true) := by
  induction forms with
  | nil =>
    exact iff_of_true (fun form inside => absurd inside List.not_mem_nil)
      fun _ form inside => absurd inside List.not_mem_nil
  | cons form rest ih =>
    have here := guarded_spec proper form assignment
    have split : (form :: rest).filterMap (AtMost.guarded guard) =
        (form.guarded guard).toList ++ rest.filterMap (AtMost.guarded guard) := by
      rw [List.filterMap_cons]
      cases form.guarded guard <;> rfl
    rw [split, List.forall_mem_append, here, ih, List.forall_mem_cons]
    exact ⟨fun both holds => ⟨both.1 holds, both.2 holds⟩,
      fun both => ⟨fun holds => (both holds).1, fun holds => (both holds).2⟩⟩

namespace Explainer

/-- A selector with its rule. -/
abbrev Mark := Literal × RuleId × List Cardinality

variable {numbering : Numbering} {entries : List ChoiceEntry} {demands : List Demand}
  {rules : List (RuleId × List Cardinality)} {marks : List Mark} {explainer : Explainer}

/-! ### What the explainer is told -/

/-- The constraints of a rule hold. -/
def Holds (value : ChoiceId → Bool) (rule : RuleId × List Cardinality) : Prop :=
  ∀ cardinality ∈ rule.2, cardinality.holds value = true

/-- **The explainer says of each mark that its rule holds where its selector is true.** -/
structure Marked (numbering : Numbering) (marks : List Mark) (demands : List Demand)
    (explainer : Explainer) : Prop where
  faithful : ∃ phases, explainer.solver.Faithful demands phases
  roomy : numbering.count ≤ explainer.solver.atomCount
  selectors : explainer.selectors = marks.map fun mark => (mark.1, mark.2.1)
  /-- Selectors are variables that stand for no choice. -/
  fresh : ∀ mark ∈ marks, mark.1.positive = true ∧ numbering.count < mark.1.atom ∧
    mark.1.atom ≤ explainer.solver.atomCount
  distinct : (marks.map Prod.fst).Nodup
  exact : ∀ (value : ChoiceId → Bool) (assignment : Assignment),
    numbering.Matches value assignment →
      (Meets demands assignment ↔
        ∀ mark ∈ marks, mark.1.holds assignment = true → Holds value mark.2)

/-- The marks stand for all rules that say anything. -/
structure Stands (rules : List (RuleId × List Cardinality)) (marks : List Mark) : Prop where
  sublist : (marks.map Prod.snd).Sublist rules
  idle : ∀ rule ∈ rules, rule ∈ marks.map Prod.snd ∨ ∀ value, Holds value rule

theorem Marked.proper (marked : Marked numbering marks demands explainer) {mark : Mark}
    (inside : mark ∈ marks) : mark.1.atom ≠ 0 := by
  have fresh := (marked.fresh mark inside).2.1
  omega

theorem Stands.sublist_mark (stands : Stands rules marks) (selector : Literal)
    (rule : RuleId × List Cardinality) :
    Stands (rules ++ [rule]) (marks ++ [(selector, rule)]) := by
  constructor
  · rw [List.map_append]
    exact stands.sublist.append (List.Sublist.refl _)
  · intro other inside
    rw [List.map_append, List.mem_append]
    rcases List.mem_append.mp inside with old | new
    · exact (stands.idle other old).imp Or.inl id
    · exact Or.inl (Or.inr (List.mem_singleton.mpr (List.mem_singleton.mp new)))

/-- A rule is added under the next variable. -/
theorem Marked.mark (marked : Marked numbering marks demands explainer)
    (rule : RuleId × List Cardinality) (forms : List AtMost)
    (meaning : ∀ (value : ChoiceId → Bool) (assignment : Assignment),
      numbering.Matches value assignment →
        ((∀ form ∈ forms, form.holds assignment = true) ↔ Holds value rule)) :
    Marked numbering (marks ++ [(explainer.solver.newVariable.1, rule)])
      (demands ++ (forms.filterMap (AtMost.guarded explainer.solver.newVariable.1)).map .atMost)
      ⟨(forms.filterMap (AtMost.guarded explainer.solver.newVariable.1)).foldl
          (fun solver form => (solver.addAtMost form).2) explainer.solver.newVariable.2,
        explainer.selectors ++ [(explainer.solver.newVariable.1, rule.1)]⟩ := by
  obtain ⟨⟨phases, faithful⟩, roomy, selectors, fresh, distinct, exact'⟩ := marked
  have selector : explainer.solver.newVariable.1 = .ofAtom (explainer.solver.atomCount + 1) := rfl
  have counted := Solver.atomCount_newVariable explainer.solver
  have grown := Optimizer.atomCount_le_addAll
    (forms.filterMap (AtMost.guarded explainer.solver.newVariable.1))
    explainer.solver.newVariable.2
  refine ⟨⟨phases, Optimizer.faithful_addAll _ faithful.newVariable⟩, ?_, ?_, ?_, ?_, ?_⟩
  · dsimp only
    omega
  · rw [List.map_append, selectors]
    rfl
  · intro mark inside
    rcases List.mem_append.mp inside with old | new
    · obtain ⟨positive, above, within⟩ := fresh mark old
      exact ⟨positive, above, by dsimp only; omega⟩
    · rw [List.mem_singleton.mp new, selector]
      exact ⟨rfl, Nat.lt_succ_of_le roomy, Nat.le_trans (Nat.le_of_eq counted.symm) grown⟩
  · rw [List.map_append, List.nodup_append]
    refine ⟨distinct, List.nodup_singleton _, fun first old second new same => ?_⟩
    obtain ⟨mark, inside, rfl⟩ := List.mem_map.mp old
    have within := (fresh mark inside).2.2
    rw [same, List.mem_singleton.mp new] at within
    exact Nat.not_succ_le_self _ within
  · intro value assignment agrees
    have proper : explainer.solver.newVariable.1.isVoid = false := by
      rw [selector]
      exact beq_false_of_ne (Nat.succ_ne_zero _)
    rw [meets_append_list, exact' value assignment agrees, Optimizer.meets_atMost,
      guardedAll_spec proper, meaning value assignment agrees, List.forall_mem_append,
      List.forall_mem_singleton]

/-- A rule gets a mark unless it says nothing. -/
theorem addRule_spec (covers : numbering.Covers entries) {explainer' : Explainer}
    {rule : RuleId × List Cardinality} (marked : Marked numbering marks demands explainer)
    (stands : Stands rules marks) (added : addRule numbering explainer rule = .ok explainer') :
    ∃ marks' demands', Marked numbering marks' demands' explainer' ∧
      Stands (rules ++ [rule]) marks' := by
  unfold addRule at added
  cases encoded : numbering.encodeAll rule.2 with
  | error error =>
    rw [encoded] at added
    cases added
  | ok forms =>
    rw [encoded] at added
    have meaning := fun (value : ChoiceId → Bool) (assignment : Assignment)
      (agrees : numbering.Matches value assignment) =>
        Numbering.encodeAll_spec covers agrees encoded
    by_cases nothing : forms.isEmpty = true
    · have same : explainer = explainer' := by
        simp only [Except.bind, bind, nothing, if_true, pure, Except.pure] at added
        exact Except.ok.inj added
      subst same
      refine ⟨marks, demands, marked, stands.sublist.trans (List.sublist_append_left _ _), ?_⟩
      intro other inside
      rcases List.mem_append.mp inside with old | new
      · exact stands.idle other old
      · rw [List.mem_singleton.mp new]
        refine Or.inr fun value => (meaning value _ (covers.matches_assign value)).mp ?_
        rw [List.isEmpty_iff.mp nothing]
        exact fun form inside => absurd inside List.not_mem_nil
    · have same : (⟨(forms.filterMap (AtMost.guarded explainer.solver.newVariable.1)).foldl
            (fun solver form => (solver.addAtMost form).2) explainer.solver.newVariable.2,
          explainer.selectors ++ [(explainer.solver.newVariable.1, rule.1)]⟩ : Explainer) =
          explainer' := by
        simp only [Except.bind, bind, nothing, pure, Except.pure] at added
        exact Except.ok.inj added
      subst same
      exact ⟨_, _, marked.mark rule forms meaning, stands.sublist_mark _ _⟩

/-- The explainer is built rule by rule. -/
theorem addRules_spec (covers : numbering.Covers entries) {explainer' : Explainer}
    (rest : List (RuleId × List Cardinality)) (marked : Marked numbering marks demands explainer)
    (stands : Stands rules marks)
    (added : rest.foldlM (addRule numbering) explainer = .ok explainer') :
    ∃ marks' demands', Marked numbering marks' demands' explainer' ∧
      Stands (rules ++ rest) marks' := by
  induction rest generalizing explainer demands rules marks with
  | nil =>
    cases added
    rw [List.append_nil]
    exact ⟨marks, demands, marked, stands⟩
  | cons rule rest ih =>
    rw [List.foldlM_cons] at added
    cases first : addRule numbering explainer rule with
    | error error =>
      rw [first] at added
      cases added
    | ok explainer₁ =>
      rw [first] at added
      obtain ⟨marks₁, demands₁, marked₁, stands₁⟩ := addRule_spec covers marked stands first
      rw [List.append_cons]
      exact ih marked₁ stands₁ added

/-- **An explainer is told what the rules say**, each of them under its selector. -/
theorem build_spec (covers : numbering.Covers entries)
    (built : build numbering rules = .ok explainer) :
    ∃ marks demands, Marked numbering marks demands explainer ∧ Stands rules marks := by
  have blank : Marked numbering [] [] ⟨bare numbering.count, []⟩ :=
    ⟨⟨_, Optimizer.faithful_bare _⟩, Nat.le_of_eq (Optimizer.atomCount_bare _).symm, rfl,
      fun mark inside => absurd inside List.not_mem_nil, List.nodup_nil, fun _ _ _ =>
        iff_of_true (fun demand inside => absurd inside List.not_mem_nil)
          fun mark inside => absurd inside List.not_mem_nil⟩
  exact addRules_spec covers rules blank
    ⟨List.Sublist.refl [], fun rule inside => absurd inside List.not_mem_nil⟩ built

/-! ### Answers -/

/-- Some rules, given by their selectors, cannot hold together. -/
def Contradictory (marks : List Mark) (core : List Literal) : Prop :=
  ∀ value, ∃ mark ∈ marks, mark.1 ∈ core ∧ ¬Holds value mark.2

theorem Contradictory.nonempty {core : List Literal} (contradictory : Contradictory marks core) :
    core ≠ [] := by
  obtain ⟨mark, _, inside, _⟩ := contradictory fun _ => false
  exact List.ne_nil_of_mem inside

/-- More rules contradict each other as well. -/
theorem Contradictory.mono {core larger : List Literal} (contradictory : Contradictory marks core)
    (subset : ∀ literal ∈ core, literal ∈ larger) : Contradictory marks larger := fun value => by
  obtain ⟨mark, inside, within, fails⟩ := contradictory value
  exact ⟨mark, inside, subset _ within, fails⟩

/-- The assignment with the values of the choices that switches on the selectors of a core. -/
def switch (numbering : Numbering) (value : ChoiceId → Bool) (core : List Literal) : Assignment :=
  fun atom => if atom ≤ numbering.count then numbering.assign value atom
    else core.contains (.ofAtom atom)

theorem matches_switch (covers : numbering.Covers entries) (value : ChoiceId → Bool)
    (core : List Literal) : numbering.Matches value (switch numbering value core) := by
  intro id atom found
  unfold switch
  rw [if_pos (covers.within id atom found).2]
  exact covers.matches_assign value id atom found

theorem Marked.holds_switch (marked : Marked numbering marks demands explainer)
    (value : ChoiceId → Bool) (core : List Literal) {mark : Mark} (inside : mark ∈ marks) :
    mark.1.holds (switch numbering value core) = true ↔ mark.1 ∈ core := by
  obtain ⟨positive, above, _⟩ := marked.fresh mark inside
  have same : Literal.ofAtom mark.1.atom = mark.1 := by
    obtain ⟨⟨atom, sign⟩, rule⟩ := mark
    exact congrArg (Literal.mk atom) positive.symm
  unfold Literal.holds switch
  rw [if_neg (Nat.not_le.mpr above), positive, beq_true, same, List.contains_iff_mem]

/-- **The rules of a core cannot hold together.** Otherwise their selectors could all be true. -/
theorem Marked.contradictory (marked : Marked numbering marks demands explainer)
    (covers : numbering.Covers entries) {core : List Literal}
    (selected : ∀ literal ∈ core, literal ∈ marks.map Prod.fst)
    (fails : ∀ assignment, Meets demands assignment →
      ∃ literal ∈ core, literal.holds assignment = false) : Contradictory marks core := by
  intro value
  by_contra together
  have meets : Meets demands (switch numbering value core) := by
    refine (marked.exact value _ (matches_switch covers value core)).mpr fun mark inside holds => ?_
    by_contra breaks
    exact together ⟨mark, inside, (marked.holds_switch value core inside).mp holds, breaks⟩
  obtain ⟨literal, inside, isFalse⟩ := fails _ meets
  obtain ⟨mark, member, rfl⟩ := List.mem_map.mp (selected literal inside)
  rw [(marked.holds_switch value core member).mpr inside] at isFalse
  cases isFalse

/-- A model under all selectors satisfies all rules. -/
theorem Marked.satisfied (marked : Marked numbering marks demands explainer)
    (stands : Stands rules marks) {assignment : Assignment} (meets : Meets demands assignment)
    (selected : ∀ mark ∈ marks, mark.1.holds assignment = true) :
    ∀ rule ∈ rules, Holds (numbering.read assignment) rule := by
  intro rule inside
  rcases stands.idle rule inside with standing | free
  · obtain ⟨mark, member, rfl⟩ := List.mem_map.mp standing
    exact (marked.exact _ _ (Numbering.matches_read numbering assignment)).mp meets mark member
      (selected mark member)
  · exact free _

/-- Where some rules cannot hold together, not all rules can. -/
theorem Stands.contradictory (stands : Stands rules marks) {core : List Literal}
    (contradictory : Contradictory marks core) (value : ChoiceId → Bool) :
    ∃ rule ∈ rules, ¬Holds value rule := by
  obtain ⟨mark, inside, _, fails⟩ := contradictory value
  exact ⟨mark.2, stands.sublist.subset (List.mem_map_of_mem inside), fails⟩

theorem Marked.proper_of_selected (marked : Marked numbering marks demands explainer)
    {core : List Literal} (selected : ∀ literal ∈ core, literal ∈ marks.map Prod.fst) :
    ∀ literal ∈ core, literal.atom ≠ 0 := by
  intro literal inside
  obtain ⟨mark, member, rfl⟩ := List.mem_map.mp (selected literal inside)
  exact marked.proper member

theorem selected_eraseIdx {core : List Literal}
    (selected : ∀ literal ∈ core, literal ∈ marks.map Prod.fst) (place : Nat) :
    ∀ literal ∈ core.eraseIdx place, literal ∈ marks.map Prod.fst :=
  fun literal member => selected literal (List.mem_of_mem_eraseIdx member)

/-! ### Shrinking -/

/-- A core needs one of its selectors: without its rule the rules of the others can hold
together. -/
def Needed (marks : List Mark) (core : List Literal) (selector : Literal) : Prop :=
  ∃ value, ∀ mark ∈ marks, mark.1 ∈ core → mark.1 ≠ selector → Holds value mark.2

/-- What a core needs, a smaller one needs as well. -/
theorem Needed.mono {core smaller : List Literal} {selector : Literal}
    (needed : Needed marks core selector) (subset : ∀ literal ∈ smaller, literal ∈ core) :
    Needed marks smaller selector := by
  obtain ⟨value, holds⟩ := needed
  exact ⟨value, fun mark inside member => holds mark inside (subset _ member)⟩

/-- **What is needed is never lost**: it is in every part of the core that contradicts itself. -/
theorem Needed.mem {core smaller : List Literal} {selector : Literal}
    (needed : Needed marks core selector) (subset : ∀ literal ∈ smaller, literal ∈ core)
    (contradictory : Contradictory marks smaller) : selector ∈ smaller := by
  obtain ⟨value, holds⟩ := needed
  obtain ⟨mark, inside, member, fails⟩ := contradictory value
  by_contra absent
  exact fails (holds mark inside (subset _ member) fun same => absent (same ▸ member))

/-- A model for all selectors but one shows that the core needs that one. -/
theorem Marked.needed (marked : Marked numbering marks demands explainer) {core : List Literal}
    {place : Nat} (inside : place < core.length) {assignment : Assignment}
    (meets : Meets demands assignment)
    (assumed : ∀ literal ∈ core.eraseIdx place, literal.holds assignment = true) :
    Needed marks core core[place] := by
  refine ⟨numbering.read assignment, fun mark member listed different => ?_⟩
  have agrees := Numbering.matches_read numbering assignment
  refine (marked.exact _ _ agrees).mp meets mark member (assumed _ ?_)
  obtain ⟨other, bound, same⟩ := List.getElem_of_mem listed
  refine List.mem_eraseIdx_iff_getElem.mpr ⟨other, bound, ?_, same⟩
  rintro rfl
  exact different same.symm

/-- Dropping a literal, and others behind it, leaves those before it where they are. -/
theorem take_filter_eraseIdx {core : List Literal} {place : Nat} (inside : place < core.length)
    {keep : Literal → Bool} (kept : ∀ literal ∈ core.take place, keep literal = true) :
    ((core.eraseIdx place).filter keep).take place = core.take place := by
  have length : (core.take place).length = place :=
    List.length_take_of_le (Nat.le_of_lt inside)
  rw [List.eraseIdx_eq_take_drop_succ, List.filter_append, List.filter_eq_self.mpr kept,
    List.take_left' length]

variable {condition : Type} [Interruption condition]

/-- **A core that is shrunk still contradicts itself, and needs each of its rules**, if those before
the place where shrinking starts were needed; and shrinking ends unless it is interrupted. -/
theorem shrink_spec (marked : Marked numbering marks demands explainer)
    (covers : numbering.Covers entries) {phases : Assignment} (place : Nat) (core : List Literal)
    (stopping : condition) (solver : Solver) (faithful : solver.Faithful demands phases)
    (selected : ∀ literal ∈ core, literal ∈ marks.map Prod.fst)
    (contradictory : Contradictory marks core)
    (needed : ∀ selector ∈ core.take place, Needed marks core selector) :
    (∀ shrunk, (shrink place core stopping solver).1 = some shrunk →
      shrunk.Sublist core ∧ Contradictory marks shrunk ∧
        ∀ selector ∈ shrunk, Needed marks shrunk selector) ∧
    ∀ quiet : condition → Prop, Interruption.Calm quiet → quiet stopping →
      (shrink place core stopping solver).1 ≠ none ∧
        quiet (shrink place core stopping solver).2.1 := by
  fun_induction shrink place core stopping solver with
  | case1 place core stopping solver inside smaller stopping' solver' solved _ ih =>
    have selected' := selected_eraseIdx selected place
    have proper := marked.proper_of_selected selected'
    obtain ⟨faithful', answers⟩ := Solver.solve_spec faithful _ proper stopping
    have calmly := fun (quiet : condition → Prop) (calm : Interruption.Calm quiet) =>
      Solver.solve_answer calm faithful _ proper stopping
    rw [solved] at faithful' answers calmly
    have shorter : ((core.eraseIdx place).filter smaller.contains).Sublist core :=
      List.filter_sublist.trans (List.eraseIdx_sublist core place)
    have fails : Contradictory marks ((core.eraseIdx place).filter smaller.contains) := by
      refine (marked.contradictory covers (fun literal member => selected' literal
        (answers.1 literal member)) answers.2).mono fun literal member => ?_
      exact List.mem_filter.mpr ⟨answers.1 literal member, List.contains_iff_mem.mpr member⟩
    have stay : ((core.eraseIdx place).filter smaller.contains).take place = core.take place :=
      take_filter_eraseIdx inside fun selector member =>
        (List.mem_filter.mp ((needed selector member).mem (fun _ => shorter.mem) fails)).2
    obtain ⟨right, ends⟩ := ih faithful' (fun literal member => selected literal
      (shorter.subset member)) fails fun selector member =>
        (needed selector (stay ▸ member)).mono fun _ => shorter.mem
    refine ⟨fun shrunk found => ?_, fun quiet calm calmed => ends quiet calm ?_⟩
    · obtain ⟨sublist, contradictory', needed'⟩ := right shrunk found
      exact ⟨sublist.trans shorter, contradictory', needed'⟩
    · exact (calmly quiet calm calmed).2
  | case2 place core stopping solver inside model stopping' solver' solved ih =>
    have proper := marked.proper_of_selected (selected_eraseIdx selected place)
    obtain ⟨faithful', answers⟩ := Solver.solve_spec faithful (core.eraseIdx place) proper stopping
    have calmly := fun (quiet : condition → Prop) (calm : Interruption.Calm quiet) =>
      Solver.solve_answer calm faithful (core.eraseIdx place) proper stopping
    rw [solved] at faithful' answers calmly
    have more : ∀ selector ∈ core.take (place + 1), Needed marks core selector := by
      intro selector member
      rw [List.take_succ_eq_append_getElem inside, List.mem_append, List.mem_singleton] at member
      rcases member with before | rfl
      · exact needed selector before
      · exact marked.needed inside answers.2.1 answers.2.2.1
    obtain ⟨right, ends⟩ := ih faithful' selected contradictory more
    exact ⟨right, fun quiet calm calmed => ends quiet calm (calmly quiet calm calmed).2⟩
  | case3 place core stopping solver inside stopping' solver' solved =>
    have proper := marked.proper_of_selected (selected_eraseIdx selected place)
    refine ⟨nofun, fun quiet calm calmed => ?_⟩
    have answered := (Solver.solve_answer calm faithful (core.eraseIdx place) proper stopping
      calmed).1
    rw [solved] at answered
    exact absurd rfl answered
  | case4 place core stopping solver outside =>
    refine ⟨fun shrunk found => ?_, fun quiet calm calmed => ⟨nofun, calmed⟩⟩
    cases found
    rw [List.take_of_length_le (Nat.le_of_not_lt outside)] at needed
    exact ⟨List.Sublist.refl core, contradictory, needed⟩

/-- The rules of a core are named by their selectors. -/
theorem Marked.mem_rulesOf (marked : Marked numbering marks demands explainer)
    {core : List Literal} {id : RuleId} :
    id ∈ explainer.rulesOf core ↔ ∃ mark ∈ marks, mark.1 ∈ core ∧ mark.2.1 = id := by
  unfold rulesOf
  rw [marked.selectors, List.mem_map]
  constructor
  · rintro ⟨selector, inside, rfl⟩
    obtain ⟨listed, selected⟩ := List.mem_filter.mp inside
    obtain ⟨mark, member, rfl⟩ := List.mem_map.mp listed
    exact ⟨mark, member, List.contains_iff_mem.mp selected, rfl⟩
  · rintro ⟨mark, member, selected, rfl⟩
    exact ⟨(mark.1, mark.2.1), List.mem_filter.mpr
      ⟨List.mem_map_of_mem member, List.contains_iff_mem.mpr selected⟩, rfl⟩

/-- **A core is right**: it names some of the rules, in their order, which cannot hold together; and
if it is to be minimal, they can without any one of them. -/
structure CoreRight (rules : List (RuleId × List Cardinality)) (minimal : Bool)
    (core : List RuleId) : Prop where
  nonempty : core ≠ []
  sublist : core.Sublist (rules.map Prod.fst)
  contradictory : ∀ value, ∃ rule ∈ rules, rule.1 ∈ core ∧ ¬Holds value rule
  irreducible : minimal = true → ∀ id ∈ core, ∃ value, ∀ rule ∈ rules, rule.1 ∈ core →
    rule.1 ≠ id → Holds value rule

/-- What a check finds is right: values that satisfy all rules, or rules that cannot all hold. -/
def FeasibilityRight (rules : List (RuleId × List Cardinality)) (minimal : Bool) :
    Feasibility → Prop
  | .satisfiable => ∃ value, ∀ rule ∈ rules, Holds value rule
  | .unsatisfiable core => CoreRight rules minimal core

/-- The rules of a core are named in their order. -/
theorem Marked.rulesOf_sublist (marked : Marked numbering marks demands explainer)
    (stands : Stands rules marks) (core : List Literal) :
    (explainer.rulesOf core).Sublist (rules.map Prod.fst) := by
  have named : explainer.selectors.map Prod.snd = (marks.map Prod.snd).map Prod.fst := by
    rw [marked.selectors, List.map_map, List.map_map]
    rfl
  have filtered : (explainer.rulesOf core).Sublist (explainer.selectors.map Prod.snd) :=
    List.filter_sublist.map Prod.snd
  rw [named] at filtered
  exact filtered.trans (stands.sublist.map Prod.fst)

theorem Marked.unsatisfiable (marked : Marked numbering marks demands explainer)
    (stands : Stands rules marks) (distinct : (rules.map Prod.fst).Nodup) {minimal : Bool}
    {core : List Literal} (contradictory : Contradictory marks core)
    (needed : minimal = true → ∀ selector ∈ core, Needed marks core selector) :
    CoreRight rules minimal (explainer.rulesOf core) where
  nonempty := by
    obtain ⟨mark, member, selected, _⟩ := contradictory fun _ => false
    exact List.ne_nil_of_mem (marked.mem_rulesOf.mpr ⟨mark, member, selected, rfl⟩)
  sublist := marked.rulesOf_sublist stands core
  contradictory value := by
    obtain ⟨mark, member, selected, fails⟩ := contradictory value
    exact ⟨mark.2, stands.sublist.subset (List.mem_map_of_mem member),
      marked.mem_rulesOf.mpr ⟨mark, member, selected, rfl⟩, fails⟩
  irreducible minimal id inside := by
    obtain ⟨mark, listed, selected, named⟩ := marked.mem_rulesOf.mp inside
    obtain ⟨value, holds⟩ := needed minimal mark.1 selected
    refine ⟨value, fun rule known inside' different => ?_⟩
    obtain ⟨other, member, selected', named'⟩ := marked.mem_rulesOf.mp inside'
    have same : other.2 = rule := List.inj_on_of_nodup_map distinct
      (stands.sublist.subset (List.mem_map_of_mem member)) known named'
    rw [← same]
    refine holds other member selected' fun equal => different ?_
    have equal' : other = mark := List.inj_on_of_nodup_map marked.distinct member listed equal
    rw [← named', equal', named]

/-- **A check finds out whether the rules can hold together**, and comes to an end unless it is
interrupted. -/
theorem check_spec (marked : Marked numbering marks demands explainer)
    (covers : numbering.Covers entries) (stands : Stands rules marks)
    (distinct : (rules.map Prod.fst).Nodup) (minimize : Bool) (stopping : condition) :
    (∀ feasibility, (explainer.check minimize stopping).1 = some feasibility →
      FeasibilityRight rules minimize feasibility) ∧
    ∀ quiet : condition → Prop, Interruption.Calm quiet → quiet stopping →
      (explainer.check minimize stopping).1 ≠ none ∧
        quiet (explainer.check minimize stopping).2 := by
  have names : explainer.selectors.map Prod.fst = marks.map Prod.fst := by
    rw [marked.selectors, List.map_map]
    rfl
  have proper := marked.proper_of_selected fun literal (inside : literal ∈ marks.map Prod.fst) =>
    inside
  obtain ⟨phases, faithful⟩ := marked.faithful
  obtain ⟨faithful', answers⟩ := Solver.solve_spec faithful _ proper stopping
  have calmly := fun (quiet : condition → Prop) (calm : Interruption.Calm quiet) =>
    Solver.solve_answer calm faithful _ proper stopping
  unfold check
  dsimp only
  rw [names]
  generalize explainer.solver.solve (marks.map Prod.fst) stopping = outcome
    at faithful' answers calmly ⊢
  obtain ⟨answer, stopping', solver⟩ := outcome
  dsimp only at faithful' answers calmly ⊢
  cases answer with
  | unknown =>
    exact ⟨fun _ found => absurd found.symm (Option.some_ne_none _),
      fun quiet calm calmed => absurd rfl (calmly quiet calm calmed).1⟩
  | satisfiable model =>
    refine ⟨fun feasibility found => ?_, fun quiet calm calmed =>
      ⟨Option.some_ne_none _, (calmly quiet calm calmed).2⟩⟩
    cases found
    exact ⟨_, marked.satisfied stands answers.2.1 fun mark inside =>
      answers.2.2.1 mark.1 (List.mem_map_of_mem inside)⟩
  | unsatisfiable core =>
    have contradictory := marked.contradictory covers answers.1 answers.2
    cases minimize with
    | false =>
      refine ⟨fun feasibility found => ?_, fun quiet calm calmed =>
        ⟨Option.some_ne_none _, (calmly quiet calm calmed).2⟩⟩
      cases found
      exact marked.unsatisfiable stands distinct contradictory nofun
    | true =>
      have shorter : ((marks.map Prod.fst).filter core.contains).Sublist (marks.map Prod.fst) :=
        List.filter_sublist
      obtain ⟨right, ends⟩ := shrink_spec marked covers 0 _ stopping' solver faithful'
        (fun literal inside => shorter.subset inside) (contradictory.mono fun literal inside =>
          List.mem_filter.mpr ⟨answers.1 literal inside, List.contains_iff_mem.mpr inside⟩)
        (fun selector inside => absurd inside List.not_mem_nil)
      dsimp only [if_true]
      generalize shrink 0 ((marks.map Prod.fst).filter core.contains) stopping' solver = shrinking
        at right ends
      obtain ⟨shrunk, stopping'', solver'⟩ := shrinking
      cases shrunk with
      | none =>
        exact ⟨fun _ found => absurd found.symm (Option.some_ne_none _), fun quiet calm calmed =>
          absurd rfl (ends quiet calm (calmly quiet calm calmed).2).1⟩
      | some shrunk =>
        refine ⟨fun feasibility found => ?_, fun quiet calm calmed =>
          ⟨Option.some_ne_none _, (ends quiet calm (calmly quiet calm calmed).2).2⟩⟩
        cases found
        obtain ⟨_, contradictory', needed⟩ := right shrunk rfl
        exact marked.unsatisfiable stands distinct contradictory' fun _ => needed

/-! ### What a check leaves of its condition -/

section Lasting

variable {safe : condition → Prop}

theorem shrink_lasting (lasting : Interruption.Lasting safe) (place : Nat) (core : List Literal)
    {stopping : condition} (safely : safe stopping) (solver : Solver)
    (shrunk : (shrink place core stopping solver).1 ≠ none) :
    safe (shrink place core stopping solver).2.1 := by
  fun_induction shrink place core stopping solver with
  | case1 place core stopping solver inside smaller stopping' solver' found _ ih =>
    have kept := Solver.solve_lasting lasting (core.eraseIdx place) safely solver
    rw [found] at kept
    exact ih (kept nofun) shrunk
  | case2 place core stopping solver inside model stopping' solver' found ih =>
    have kept := Solver.solve_lasting lasting (core.eraseIdx place) safely solver
    rw [found] at kept
    exact ih (kept nofun) shrunk
  | case3 => exact absurd rfl shrunk
  | case4 => exact safely

/-- **A check that finds something leaves its condition as it was let go on.** -/
theorem check_lasting (lasting : Interruption.Lasting safe) (minimize : Bool)
    {stopping : condition} (safely : safe stopping) (explainer : Explainer)
    (found : (explainer.check minimize stopping).1 ≠ none) :
    safe (explainer.check minimize stopping).2 := by
  have kept := Solver.solve_lasting lasting (explainer.selectors.map Prod.fst) safely
    explainer.solver
  unfold check at found ⊢
  dsimp only at found ⊢
  generalize explainer.solver.solve (explainer.selectors.map Prod.fst) stopping = outcome
    at kept found ⊢
  obtain ⟨answer, stopping', solver⟩ := outcome
  cases answer with
  | unknown => exact absurd rfl found
  | satisfiable model => exact kept nofun
  | unsatisfiable core =>
    have safely' : safe stopping' := kept nofun
    cases minimize with
    | false => exact safely'
    | true =>
      have shrinks := shrink_lasting lasting 0
        ((explainer.selectors.map Prod.fst).filter core.contains) safely' solver
      dsimp only [if_true] at found ⊢
      generalize shrink 0 ((explainer.selectors.map Prod.fst).filter core.contains) stopping'
        solver = shrinking at shrinks found ⊢
      obtain ⟨shrunk, stopping'', solver'⟩ := shrinking
      cases shrunk with
      | none => exact absurd rfl found
      | some shrunk => exact shrinks nofun

end Lasting

end Explainer

end Loadout
