/-
**Engines in use.**

`Engine.Call` lists everything that may be asked of an engine or happen to it, rules being defined
anew on demand included. What holds of every engine that is created, and is kept by every call,
holds of every engine in use (`InUse.keeps`). So an engine in use is always right about what it
holds of its rules, and prepared to search for the cheapest values once it is ready
(`InUse.informed_prepared`).

* **`Undisturbed.hasSolution`**: an engine whose searches nothing stops says whether its rules can
  hold together unless a rule is at fault, and stays undisturbed;
* **`verdict_exact`**: an engine in use says that its rules can hold together just when some values
  of the registered roots satisfy them; otherwise it names rules that cannot, in ascending order
  and, if cores are to be minimal, none too many.
-/

import Loadout.Proofs.Engine.Verdicts

namespace Loadout

namespace Watchdog

variable {dog : Watchdog}

/-- No event takes back that everything is refused. -/
theorem poisoned_advance (poisoned : dog.signal = .poisoned) : dog.advance.signal = .poisoned := by
  unfold advance
  split
  · exact poisoned
  · next event coming _ =>
    cases event with
    | quiet => exact poisoned
    | timeUp => exact poisoned
    | hardCancel => rfl
    | cancel =>
      show dog.signal.cancel = .poisoned
      rw [poisoned]
      rfl

/-- A watchdog that never stops a search is free. -/
theorem free_of_neverStops (never : Interruption.NeverStops dog) :
    dog.signal.isPoisoned = false := by
  have goes : dog.advance.stops = false := never dog .refl
  cases signal : dog.signal with
  | poisoned =>
    unfold stops at goes
    rw [poisoned_advance signal] at goes
    cases goes
  | _ => rfl

/-- No event starts or takes away a clock. -/
theorem clock_advance : dog.advance.clock = none ↔ dog.clock = none := by
  unfold advance
  split
  · exact Iff.rfl
  · next event coming _ => cases event <;> simp [meet]

/-- Never to stop a search, and to have a clock where there is a time limit, is to stay so. -/
theorem calm_neverStops (limited : Prop) : Interruption.Calm fun dog : Watchdog =>
    Interruption.NeverStops dog ∧ (dog.clock = none → limited) where
  poll dog quiet := by
    obtain ⟨goes, kept⟩ := Interruption.calm_neverStops.poll dog quiet.1
    exact ⟨goes, kept, fun none => quiet.2 (clock_advance.mp none)⟩
  decision dog quiet := ⟨Interruption.calm_neverStops.decision dog quiet.1, quiet.2⟩

end Watchdog

namespace Engine

variable {engine after : Engine}

/-! ### Undisturbed engines -/

/-- **Nothing stops the searches of the engine**, however often they look. -/
def Undisturbed (engine : Engine) : Prop :=
  Interruption.NeverStops engine.startClock.watchdog

/-- What a search may find of the outside world without being stopped. -/
def Peaceful (engine : Engine) (dog : Watchdog) : Prop :=
  Interruption.NeverStops dog ∧ (dog.clock = none → engine.timeoutMs = none)

theorem calm_peaceful (engine : Engine) : Interruption.Calm engine.Peaceful :=
  Watchdog.calm_neverStops (engine.timeoutMs = none)

/-- A time limit as it is when its clock is started. -/
def firstClock (engine : Engine) : Option Clock :=
  engine.timeoutMs.map fun limit => if limit = 0 then .expired else .running

/-- Starting the clock changes nothing but what a search heeds, and keeps a clock that runs. -/
theorem watchdog_startClock (engine : Engine) : engine.startClock.watchdog =
    ⟨engine.signal, engine.clock.or engine.firstClock, engine.outside⟩ := by
  unfold startClock watchdog
  split
  · next given =>
    rw [given]
    rfl
  · next given =>
    rw [given]
    rfl

theorem timeoutMs_startClock (engine : Engine) :
    engine.startClock.timeoutMs = engine.timeoutMs := by
  unfold startClock
  split <;> rfl

/-- Once the clock is started, there is one where there is a time limit. -/
theorem Undisturbed.peaceful (undisturbed : engine.Undisturbed) :
    engine.Peaceful engine.startClock.watchdog := by
  refine ⟨undisturbed, fun stopped => ?_⟩
  rw [watchdog_startClock] at stopped
  exact Option.map_eq_none_iff.mp (Option.or_eq_none_iff.mp stopped).2

/-- An engine that is as a search leaves it that was not stopped is undisturbed. -/
theorem undisturbed_of_peaceful {dog : Watchdog} (peaceful : engine.Peaceful dog)
    (watched : after.watchdog = dog) (limited : after.timeoutMs = engine.timeoutMs) :
    after.Undisturbed := by
  have kept : after.startClock.watchdog = dog := by
    rw [watchdog_startClock, ← watched]
    unfold watchdog
    congr 1
    cases stopped : after.clock with
    | some clock => rfl
    | none =>
      have limitless := peaceful.2 (watched ▸ stopped)
      unfold firstClock
      rw [limited, limitless]
      rfl
  unfold Undisturbed
  rw [kept]
  exact peaceful.1

theorem Undisturbed.free (undisturbed : engine.Undisturbed) :
    engine.signal.isPoisoned = false := by
  have free := Watchdog.free_of_neverStops undisturbed
  rw [watchdog_startClock] at free
  exact free

/-! ### What an undisturbed engine says -/

/-- **An undisturbed engine is only kept from an answer by a fault**, and stays undisturbed. -/
theorem Undisturbed.checkRules (undisturbed : engine.Undisturbed) :
    engine.checkRules.2.Undisturbed ∧
      ∀ error, engine.checkRules.1 = .error error → ∃ fault, error = .definition fault := by
  have peaceful := undisturbed.peaceful
  have limited := timeoutMs_startClock engine
  have checked := checked_checkRules engine
  have still : ∀ {after : Engine} {dog : Watchdog}, engine.startClock.Sustains dog →
      after.watchdog = dog → after.timeoutMs = engine.startClock.timeoutMs →
        after.Undisturbed := fun lasts watched kept =>
    undisturbed_of_peaceful (lasts _ (calm_peaceful engine).lasting peaceful) watched
      (kept.trans limited)
  generalize engine.checkRules = outcome at checked
  cases checked with
  | faulty fault _ =>
    refine ⟨undisturbed_of_peaceful peaceful rfl limited, fun error same => ⟨fault, ?_⟩⟩
    exact (Except.error.inj same).symm
  | interrupted dog _ stopped => exact absurd undisturbed stopped
  | feasible dog optimizer _ lasts _ _ => exact ⟨still lasts rfl rfl, nofun⟩
  | infeasible dog core _ lasts _ => exact ⟨still lasts rfl rfl, nofun⟩

theorem Idle.undisturbed (idle : engine.Idle) : engine.Undisturbed := by
  unfold Undisturbed
  rw [idle.startClock, idle.watchdog]
  exact calm_idle.neverStops rfl

/-- To be undisturbed is about what a search heeds alone. -/
theorem Undisturbed.of_same (undisturbed : engine.Undisturbed)
    (watched : after.watchdog = engine.watchdog) (limited : after.timeoutMs = engine.timeoutMs) :
    after.Undisturbed := by
  obtain ⟨signal, clock, coming⟩ := Watchdog.mk.inj watched
  unfold Undisturbed at undisturbed ⊢
  rw [watchdog_startClock] at undisturbed ⊢
  unfold firstClock at undisturbed ⊢
  rw [signal, clock, coming, limited]
  exact undisturbed

/-- **What an undisturbed engine says about its rules**: it answers unless a rule is at fault or the
question is not allowed, and stays undisturbed. -/
theorem Undisturbed.hasSolution (undisturbed : engine.Undisturbed) :
    engine.hasSolution.2.Undisturbed ∧
      ∀ error, engine.hasSolution.1 = .error error → (∃ fault, error = .definition fault) ∨
        error = .invalidState .hasSolution engine.step := by
  have inquiry := inquiry_hasSolution engine
  generalize engine.hasSolution = outcome at inquiry
  cases inquiry with
  | poisoned stopped => cases stopped.symm.trans undisturbed.free
  | closed => exact ⟨undisturbed, fun error same => .inr (Except.error.inj same).symm⟩
  | ready | remembered => exact ⟨undisturbed, nofun⟩
  | checked forest _ _ _ _ _ =>
    have undisturbed' : Undisturbed { engine with forest } := undisturbed.of_same rfl rfl
    obtain ⟨kept, faults⟩ := undisturbed'.checkRules
    exact ⟨kept, fun error failed => .inl (faults error failed)⟩

/-! ### Calls -/

/-- **What may be asked of an engine, or happen to it.** -/
inductive Call
  | addChoice (choice : Choice) (weight : Int)
  | setWeight (id : ChoiceId) (weight : Int)
  | removeChoice (id : ChoiceId)
  | addRule (rule : Rule) (parent : Option RuleId)
  | removeRule (id : RuleId)
  | redefine
  | hasSolution
  | solution
  | cancel
  | hardCancel
  /-- The next searches meet other events. -/
  | expect (events : List OutsideEvent)

/-- The engine after a call, whatever the call comes to. -/
def perform (call : Call) (engine : Engine) : Engine :=
  match call with
  | .addChoice choice weight => (engine.addChoice choice weight).2
  | .setWeight id weight => (engine.setWeight id weight).2
  | .removeChoice id => (engine.removeChoice id).2
  | .addRule rule parent => (engine.addRule rule parent).2
  | .removeRule id => (engine.removeRule id).2
  | .redefine => engine.redefine.2
  | .hasSolution => engine.hasSolution.2
  | .solution => engine.solution.2
  | .cancel => engine.cancel
  | .hardCancel => engine.hardCancel
  | .expect events => { engine with outside := events }

/-- **The engines that calls lead to.** -/
inductive InUse : Engine → Prop
  | create (config : Config) (signal : CancelSignal) : InUse (create config signal)
  | perform {engine : Engine} (call : Call) : InUse engine → InUse (engine.perform call)

/-- **What holds of a fresh engine and is kept by every call holds of every engine in use.** -/
theorem InUse.keeps {law : Engine → Prop}
    (fresh : ∀ config signal, law (Engine.create config signal))
    (kept : ∀ engine call, law engine → law (engine.perform call)) (inUse : engine.InUse) :
    law engine := by
  induction inUse with
  | create config signal => exact fresh config signal
  | perform call _ ih => exact kept _ call ih

/-! ### What engines in use know -/

/-- An engine that has found out about its rules has none to define anew. -/
theorem Informed.redefine_eq (informed : engine.Informed)
    (known : engine.step = .ready ∨ engine.lastCore.isSome = true) :
    engine.redefine = (.ok (), engine) := by
  have settled : Forest.Settled engine.choices engine.forest := by
    rcases known with ready | held
    · exact (informed.ready ready).1
    · obtain ⟨core, known⟩ := Option.isSome_iff_exists.mp held
      exact (informed.conflict core known).2.2.1
  exact redefine_of_fresh settled.fresh

theorem Informed.redefine (informed : engine.Informed) : engine.redefine.2.Informed := by
  by_cases known : engine.step = .ready ∨ engine.lastCore.isSome = true
  · rw [informed.redefine_eq known]
    exact informed
  · obtain ⟨other, unknown⟩ := not_or.mp known
    obtain ⟨forest, redefined, _⟩ := redefine_spec engine
    rw [redefined]
    exact informed_of_open other (Option.not_isSome_iff_eq_none.mp unknown)

theorem Prepared.redefine (prepared : engine.Prepared) (informed : engine.Informed) :
    engine.redefine.2.Prepared := by
  by_cases ready : engine.step = .ready
  · rw [informed.redefine_eq (.inl ready)]
    exact prepared
  · obtain ⟨forest, redefined, _⟩ := redefine_spec engine
    rw [redefined]
    exact prepared_of_step _ ready

/-- **Every engine in use is right about its rules**, and prepared when it is ready. -/
theorem InUse.informed_prepared (inUse : engine.InUse) : engine.Informed ∧ engine.Prepared := by
  refine @InUse.keeps engine (fun engine => engine.Informed ∧ engine.Prepared)
    (fun config signal => ⟨informed_of_open nofun rfl, prepared_of_step _ nofun⟩) ?_ inUse
  rintro engine call ⟨informed, prepared⟩
  cases call with
  | addChoice choice weight =>
    have edit := edit_addChoice choice weight engine
    exact ⟨informed.edit edit, prepared.edit edit⟩
  | setWeight id weight =>
    have edit := edit_setWeight id weight engine
    exact ⟨informed.edit edit, prepared.edit edit⟩
  | removeChoice id =>
    have edit := edit_removeChoice id engine
    exact ⟨informed.edit edit, prepared.edit edit⟩
  | addRule rule parent =>
    have edit := edit_addRule rule parent engine
    exact ⟨informed.edit edit, prepared.edit edit⟩
  | removeRule id =>
    have edit := edit_removeRule id engine
    exact ⟨informed.edit edit, prepared.edit edit⟩
  | redefine => exact ⟨informed.redefine, prepared.redefine informed⟩
  | hasSolution => exact ⟨informed.hasSolution.1.informed, prepared.hasSolution⟩
  | solution => exact ⟨informed.solution, prepared.solution⟩
  | cancel => exact ⟨informed.of_same ⟨rfl, rfl, rfl, rfl, rfl, rfl, rfl⟩,
      prepared.of_same ⟨rfl, rfl, rfl, rfl, rfl, rfl, rfl⟩⟩
  | hardCancel => exact ⟨informed.of_same ⟨rfl, rfl, rfl, rfl, rfl, rfl, rfl⟩,
      prepared.of_same ⟨rfl, rfl, rfl, rfl, rfl, rfl, rfl⟩⟩
  | expect events => exact ⟨informed.of_same ⟨rfl, rfl, rfl, rfl, rfl, rfl, rfl⟩,
      prepared.of_same ⟨rfl, rfl, rfl, rfl, rfl, rfl, rfl⟩⟩

/-! ### Verdicts -/

/-- **The verdict is exact, and its explanation minimal.** Whatever was done with an engine before,
if it says whether its rules can hold together, then:

* choices and rules are what they were, only that rules whose choices have changed are defined anew;
* the answer is positive just when some values of the registered roots satisfy every constraint of
  every rule;
* when it is negative, the engine names rules, at least one and in ascending order, whose
  constraints no values satisfy; and when cores are to be minimal, some values of the registered
  roots satisfy the constraints of all of these rules but any one. -/
theorem verdict_exact (inUse : engine.InUse) {answer : Bool}
    (answered : engine.hasSolution = (.ok answer, after)) :
    Asked engine after ∧
    (answer = true ↔ ∃ value, after.choices.OnRoots value ∧ after.forest.SatisfiedBy value) ∧
    (answer = false → ∃ core, after.lastConflict = .ok core ∧
      after.forest.Explains after.choices after.minimizeCores core) := by
  obtain ⟨judged, asked⟩ := inUse.informed_prepared.1.hasSolution
  rw [answered] at judged asked
  obtain ⟨informed, positive, negative⟩ := judged
  cases answer with
  | true =>
    exact ⟨asked true rfl, iff_of_true rfl (informed.ready (positive rfl)).2, nofun⟩
  | false =>
    obtain ⟨free, held⟩ := negative rfl
    obtain ⟨core, known⟩ := Option.isSome_iff_exists.mp held
    obtain ⟨step, _, _, explains⟩ := informed.conflict core known
    exact ⟨asked false rfl, iff_of_false nofun explains.not_satisfiable, fun _ =>
      ⟨core, lastConflict_of_held free known step, explains⟩⟩

/-- Two branches that are mandatory and break each other, by way of an alias of the second, and a
third that may or may not be loaded. -/
def rivalEngine : Engine :=
  let engine := create (Config.standard.withMinimizeCores true) .clear
  let engine := (engine.addChoice (.branch "first") 0).2
  let engine := (engine.addChoice (.branch "second") 0).2
  let engine := (engine.addChoice (.alias 1 "provided" default) 0).2
  let engine := (engine.addChoice (.branch "bystander") 0).2
  let engine := (engine.addRule (.mandatory 0) none).2
  let engine := (engine.addRule (.dependsAny 0 [1, 3] none) none).2
  let engine := (engine.addRule (.mandatory 1) none).2
  (engine.addRule (.breaksAll 0 [2] none .standalone) none).2

theorem inUse_rivalEngine : rivalEngine.InUse :=
  .perform (.addRule _ _) <| .perform (.addRule _ _) <| .perform (.addRule _ _) <|
    .perform (.addRule _ _) <| .perform (.addChoice _ _) <| .perform (.addChoice _ _) <|
    .perform (.addChoice _ _) <| .perform (.addChoice _ _) <| .create _ _

/-- The rule that asks for the second or the third is left out of the explanation. -/
theorem verdict_exact_of_rivals :
    rivalEngine.hasSolution.1 = .ok false ∧
    rivalEngine.hasSolution.2.lastConflict = .ok [0, 2, 3] ∧
    Forest.Explains rivalEngine.hasSolution.2.choices rivalEngine.hasSolution.2.forest true
      [0, 2, 3] := by
  have denied : rivalEngine.hasSolution.1 = .ok false := by decide +kernel
  have conflict : rivalEngine.hasSolution.2.lastConflict = .ok [0, 2, 3] := by decide +kernel
  have minimal : rivalEngine.minimizeCores = true := by decide +kernel
  obtain ⟨asked, _, explained⟩ :=
    verdict_exact inUse_rivalEngine (Prod.ext denied (Eq.refl rivalEngine.hasSolution.2))
  obtain ⟨core, named, explains⟩ := explained rfl
  rw [conflict] at named
  cases named
  rw [asked.minimizeCores, minimal] at explains
  exact ⟨denied, conflict, explains⟩

end Engine

end Loadout
