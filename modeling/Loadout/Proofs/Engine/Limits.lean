/-
**A limit cuts a diagnosis off and does nothing else.**

A diagnosis with a limit and one without do the same round by round, up to the round after which
there are as many problems as asked for. No round notes more than one problem, so none is left out
on the way to the limit, and none is given beyond it:

* `CutOff.round`: what one round of both does to that;
* `diagnoseRounds_take`: by induction on the rounds, where those without a limit give problems, the
  others give the first of them;
* `diagnose_zero`: the first round always notes a problem before it looks at the limit, so that a
  limit of zero cuts off where a limit of one does;
* `diagnose_error_iff`: an undisturbed diagnosis fails just when its first question does, so a later
  round cannot fail behind the cut;
* **`diagnose_truncates`**: what follows for every engine in use.
-/

import Loadout.Proofs.Engine.Accounts

namespace Loadout

namespace Engine

variable {engine asked : Engine}

/-! ### Rounds in step -/

/-- **What a limit makes of some rounds.** Without one they give `all`, which starts with the
problems that were noted before; with it, the first of them, unless it had been reached before. -/
def CutOff (limit : Nat) (problems all : List Problem)
    (result : Except SolverError (List Problem)) : Prop :=
  problems.reverse <+: all ∧ (problems.length < limit → result = .ok (all.take limit))

/-- Where the rounds end with what is noted so far, the limit has not been reached. -/
theorem cutOff_end (limit : Nat) (problems : List Problem) :
    CutOff limit problems problems.reverse (.ok problems.reverse) := by
  refine ⟨List.prefix_refl _, fun short => ?_⟩
  rw [List.take_of_length_le]
  rw [List.length_reverse]
  exact Nat.le_of_lt short

/-- A round that meets a conflict notes one problem at most, so it reaches the limit exactly if it
does at all. -/
theorem CutOff.round {limit : Nat} {problems problems' all : List Problem} {noted : Bool}
    {problem : Problem} (same : problems' = if noted then problem :: problems else problems)
    {result : Except SolverError (List Problem)} (rest : CutOff limit problems' all result) :
    CutOff limit problems all
      (if decide (limit ≤ problems'.length) = true then .ok problems'.reverse else result) := by
  obtain ⟨starts, later⟩ := rest
  have longer : problems.reverse <+: problems'.reverse ∧
      problems'.length ≤ problems.length + 1 := by
    cases noted with
    | true =>
      rw [same, if_pos rfl, List.reverse_cons]
      exact ⟨List.prefix_append _ _, Nat.le_refl _⟩
    | false =>
      rw [same, if_neg Bool.false_ne_true]
      exact ⟨List.prefix_refl _, Nat.le_succ _⟩
  refine ⟨longer.1.trans starts, fun below => ?_⟩
  by_cases full : limit ≤ problems'.length
  · have length : problems'.reverse.length = limit := by
      rw [List.length_reverse]
      omega
    rw [if_pos (decide_eq_true full), ← length, ← List.prefix_iff_eq_take.mp starts]
  · rw [if_neg (by simpa using full)]
    exact later (Nat.lt_of_not_le full)

/-- **Where the rounds without a limit give problems, those with a limit give the first of them**,
as long as the limit has not been reached before. -/
theorem diagnoseRounds_take {limit : Nat} (rounds : Nat) (reported : List RuleId)
    (problems : List Problem) (engine : Engine) {all : List Problem}
    (whole : (engine.diagnoseRounds none rounds reported problems).1 = .ok all) :
    CutOff limit problems all
      (engine.diagnoseRounds (some limit) rounds reported problems).1 := by
  induction rounds generalizing reported problems engine with
  | zero =>
    obtain rfl : problems.reverse = all := Except.ok.inj whole
    exact cutOff_end limit problems
  | succ rounds ih =>
    cases found : engine.hasSolution with
    | mk result asked =>
      match result with
      | .error error =>
        unfold diagnoseRounds at whole
        rw [found] at whole
        cases whole
      | .ok true =>
        unfold diagnoseRounds at whole ⊢
        rw [found] at whole ⊢
        obtain rfl : problems.reverse = all := Except.ok.inj whole
        exact cutOff_end limit problems
      | .ok false =>
        cases conflict : asked.lastConflict with
        | error error =>
          unfold diagnoseRounds at whole
          rw [found] at whole
          dsimp only at whole
          rw [conflict] at whole
          cases whole
        | ok core =>
          obtain ⟨problems', noted⟩ : ∃ problems', problems' =
              if !(freshOf reported asked.forest core).isEmpty ||
                  (causesOf asked.forest core).isEmpty then
                asked.forest.problemOf asked.choices (rootsOf asked.forest core)
                  (freshOf reported asked.forest core) :: problems
              else problems := ⟨_, rfl⟩
          rw [diagnoseRounds_conflict none rounds reported problems found conflict noted,
            Option.any_none, if_neg Bool.false_ne_true] at whole
          rw [diagnoseRounds_conflict (some limit) rounds reported problems found conflict noted,
            Option.any_some, apply_ite Prod.fst]
          refine CutOff.round noted ?_
          cases picked : asked.forest.pickRemoval (causesOf asked.forest core) with
          | none =>
            rw [picked] at whole
            obtain rfl : problems'.reverse = all := Except.ok.inj whole
            exact cutOff_end limit problems'
          | some victim =>
            rw [picked] at whole
            dsimp only at whole ⊢
            generalize asked.removeRule victim = removed at whole ⊢
            obtain ⟨error | ids, next⟩ := removed
            · cases whole
            · exact ih _ problems' next whole

/-- The same for whole diagnoses, with a limit above zero. -/
theorem diagnose_take {limit : Nat} (positive : 0 < limit) {all : List Problem}
    (whole : (engine.diagnose none).1 = .ok all) :
    (engine.diagnose (some limit)).1 = .ok (all.take limit) :=
  (diagnoseRounds_take _ [] [] engine whole).2 positive

/-- **A limit of zero is reached where a limit of one is**, by the first problem. -/
theorem diagnose_zero (engine : Engine) : engine.diagnose (some 0) = engine.diagnose (some 1) := by
  unfold diagnose
  cases found : engine.hasSolution with
  | mk result asked =>
    match result with
    | .error error =>
      unfold diagnoseRounds
      rw [found]
    | .ok true =>
      unfold diagnoseRounds
      rw [found]
    | .ok false =>
      cases conflict : asked.lastConflict with
      | error error =>
        unfold diagnoseRounds
        rw [found]
        dsimp only
        rw [conflict]
      | ok core =>
        -- in the first round all causes are new, and without causes the roots are to blame
        have notes : (!(freshOf [] asked.forest core).isEmpty ||
            (causesOf asked.forest core).isEmpty) = true := by
          rw [freshOf_nil]
          cases (causesOf asked.forest core).isEmpty <;> rfl
        have noted : [asked.forest.problemOf asked.choices (rootsOf asked.forest core)
            (freshOf [] asked.forest core)] =
            if !(freshOf [] asked.forest core).isEmpty ||
                (causesOf asked.forest core).isEmpty then
              asked.forest.problemOf asked.choices (rootsOf asked.forest core)
                (freshOf [] asked.forest core) :: []
            else [] := by rw [if_pos notes]
        rw [diagnoseRounds_conflict (some 0) _ [] [] found conflict noted,
          diagnoseRounds_conflict (some 1) _ [] [] found conflict noted]
        rfl

/-! ### Failures -/

/-- A diagnosis fails where its first question does. -/
theorem diagnose_of_error (limit : Option Nat) {error : SolverError}
    (failed : engine.hasSolution.1 = .error error) : (engine.diagnose limit).1 = .error error := by
  unfold diagnose diagnoseRounds
  generalize engine.hasSolution = outcome at failed
  obtain ⟨result, asked⟩ := outcome
  obtain rfl : result = .error error := failed
  rfl

/-- Only an engine that may still be changed says that its rules cannot hold together. -/
theorem open_of_denied (inUse : engine.InUse) (undisturbed : engine.Undisturbed)
    (denied : engine.hasSolution = (.ok false, asked)) : engine.Open := by
  refine ⟨undisturbed, inUse.informed_prepared.1, ?_, inUse.linked⟩
  have inquiry := inquiry_hasSolution engine
  generalize engine.hasSolution = outcome at inquiry denied
  cases inquiry with
  | remembered _ editable _ _ => exact editable
  | checked _ _ editable _ _ _ => exact editable
  | _ => cases denied

/-- The rounds of a diagnosis without a limit come to an end, with some problem. -/
theorem Open.diagnose_ok (open' : engine.Open) (counted : engine.forest.active = engine.forest.size)
    (denied : engine.hasSolution = (.ok false, asked)) :
    ∃ problems, problems ≠ [] ∧ (engine.diagnose none).1 = .ok problems := by
  have size := Forest.size_congr (open'.answered denied).tree.contains
  obtain ⟨_, findings, _, result, _, _, nonempty⟩ :=
    diagnoseRounds_account (engine.forest.active + 1) [] [] engine open' denied (by omega)
  refine ⟨findings.map (Finding.problem asked.choices), ?_, congrArg Prod.fst result⟩
  exact fun empty => nonempty rfl rfl (List.map_eq_nil_iff.mp empty)

/-- **An undisturbed diagnosis fails just where its first question does.** -/
theorem diagnose_error_iff (inUse : engine.InUse) (undisturbed : engine.Undisturbed)
    (error : SolverError) :
    (engine.diagnose none).1 = .error error ↔ engine.hasSolution.1 = .error error := by
  refine ⟨fun failed => ?_, diagnose_of_error none⟩
  cases found : engine.hasSolution with
  | mk result asked =>
    match result with
    | .error other =>
      have same : (engine.diagnose none).1 = .error other :=
        diagnose_of_error none (congrArg Prod.fst found)
      cases same.symm.trans failed
      rfl
    | .ok true =>
      unfold diagnose diagnoseRounds at failed
      rw [found] at failed
      cases failed
    | .ok false =>
      obtain ⟨_, _, result⟩ :=
        (open_of_denied inUse undisturbed found).diagnose_ok inUse.counted found
      rw [result] at failed
      cases failed

/-! ### Whole diagnoses -/

/-- **A limit cuts a diagnosis off and does nothing else.** For an engine in use that nothing
disturbs:

* with a limit above zero, a diagnosis gives the first of the problems that one without a limit
  gives on the same engine, as many as the limit says if there are so many, and fails where that one
  fails;
* so it gives no more problems than the limit;
* with the limit zero, it does what it does with the limit one.

Both fail just when the question fails whether the rules can hold together. -/
theorem diagnose_truncates (inUse : engine.InUse) (undisturbed : engine.Undisturbed) :
    (∀ limit : Nat, 0 < limit →
      (engine.diagnose (some limit)).1 = (engine.diagnose none).1.map (List.take limit) ∧
      ∀ problems, (engine.diagnose (some limit)).1 = .ok problems → problems.length ≤ limit) ∧
    engine.diagnose (some 0) = engine.diagnose (some 1) ∧
    ∀ error, (engine.diagnose none).1 = .error error ↔ engine.hasSolution.1 = .error error := by
  refine ⟨fun limit positive => ?_, diagnose_zero engine, diagnose_error_iff inUse undisturbed⟩
  have cut : (engine.diagnose (some limit)).1 =
      (engine.diagnose none).1.map (List.take limit) := by
    cases whole : (engine.diagnose none).1 with
    | error error =>
      exact diagnose_of_error _ ((diagnose_error_iff inUse undisturbed error).mp whole)
    | ok all => exact diagnose_take positive whole
  refine ⟨cut, fun problems found => ?_⟩
  rw [cut] at found
  cases whole : (engine.diagnose none).1 with
  | error error =>
    rw [whole] at found
    cases found
  | ok all =>
    rw [whole] at found
    cases found
    exact List.length_take_le _ _

/-- **Where the rules cannot hold together, a diagnosis gives a problem**, whatever its limit. -/
theorem exists_problem (inUse : engine.InUse) (undisturbed : engine.Undisturbed)
    (denied : engine.hasSolution.1 = .ok false) (limit : Nat) :
    ∃ problem rest, (engine.diagnose (some limit)).1 = .ok (problem :: rest) := by
  have found : engine.hasSolution = (.ok false, engine.hasSolution.2) := Prod.ext denied rfl
  have open' := open_of_denied inUse undisturbed found
  obtain ⟨all, nonempty, result⟩ := open'.diagnose_ok inUse.counted found
  have within : ∀ limit, 0 < limit →
      ∃ problem rest, (engine.diagnose (some limit)).1 = .ok (problem :: rest) := by
    intro limit positive
    rw [diagnose_take positive result]
    cases all with
    | nil => exact absurd rfl nonempty
    | cons first others =>
      obtain ⟨below, rfl⟩ := Nat.exists_eq_succ_of_ne_zero (Nat.ne_of_gt positive)
      exact ⟨_, _, rfl⟩
  cases limit with
  | zero =>
    rw [diagnose_zero]
    exact within 1 Nat.one_pos
  | succ below => exact within _ (Nat.succ_pos below)

/-- The engine of a mandatory choice that depends on two mods of which there is none. -/
def bereftEngine : Engine :=
  ((((create .standard .clear).perform
    (.addChoice (.candidate "app" "app-1" default true) 0)).perform
      (.addRule (.mandatory 0) none)).perform
        (.addRule (.dependsOnly 0 ⟨"lib", .any, false⟩ none [] []) none)).perform
          (.addRule (.dependsOnly 0 ⟨"core", .any, false⟩ none [] []) none)

theorem inUse_bereftEngine : bereftEngine.InUse :=
  .perform _ (.perform _ (.perform _ (.perform _ (.create _ _))))

theorem undisturbed_bereftEngine : bereftEngine.Undisturbed :=
  Idle.undisturbed ⟨by decide +kernel, by decide +kernel, by decide +kernel, by decide +kernel⟩

/-- Of its problems a limit of one leaves the first. -/
theorem diagnose_truncates_of_bereft :
    ∃ problem, (bereftEngine.diagnose (some 1)).1 = .ok [problem] ∧
      (bereftEngine.diagnose none).1.map (List.take 1) = .ok [problem] := by
  obtain ⟨problem, rest, given⟩ := exists_problem inUse_bereftEngine undisturbed_bereftEngine
    (by decide +kernel) 1
  obtain ⟨cut, within⟩ :=
    (diagnose_truncates inUse_bereftEngine undisturbed_bereftEngine).1 1 (by decide)
  have few := within _ given
  have last : rest = [] := List.eq_nil_of_length_eq_zero (Nat.le_zero.mp (Nat.le_of_succ_le_succ few))
  rw [last] at given
  exact ⟨problem, given, cut.symm.trans given⟩

/-- **A limit of zero lets a problem through.** -/
theorem not_within_of_zero :
    ¬∀ engine : Engine, engine.InUse → engine.Undisturbed → ∀ (limit : Nat) problems,
      (engine.diagnose (some limit)).1 = .ok problems → problems.length ≤ limit := by
  intro within
  obtain ⟨problem, rest, given⟩ := exists_problem inUse_bereftEngine undisturbed_bereftEngine
    (by decide +kernel) 0
  have few := within bereftEngine inUse_bereftEngine undisturbed_bereftEngine 0 _ given
  exact absurd few (Nat.not_succ_le_zero _)

end Engine

end Loadout
