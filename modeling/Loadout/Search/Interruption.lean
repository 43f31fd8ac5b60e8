/-
**Interruption: what makes a search give up before it has an answer.**

A search polls a condition between its steps and tells it of every free decision
(`Interruption`). Conditions are plain data: `DecisionBudget` counts decisions, `CancelSignal` is
the state of a cancellation, `Clock` says whether the time is over, and `AnyOf` stops when either
of two conditions does.

A `Watchdog` joins a cancellation and a time limit with a script of the outside world: one
`OutsideEvent` arrives at each poll until the script is used up, so that an interruption can be
placed at any poll.
-/

namespace Loadout

/-- A condition on which a search stops early. -/
class Interruption (condition : Type) where
  /-- Whether to stop now, and the condition as it is after having been asked. -/
  poll : condition → Bool × condition
  /-- The condition after one more free decision. -/
  afterDecision : condition → condition := id

/-- The condition that never stops a search. -/
structure Never where
deriving DecidableEq, Repr, Inhabited

instance : Interruption Never where
  poll never := (false, never)

/-- An absent condition never stops a search. -/
instance {condition : Type} [Interruption condition] : Interruption (Option condition) where
  poll
    | none => (false, none)
    | some inner =>
      let (stop, inner) := Interruption.poll inner
      (stop, some inner)
  afterDecision := Option.map Interruption.afterDecision

/-- Stops once a number of free decisions has been made. -/
structure DecisionBudget where
  limit : Nat
  made : Nat := 0
deriving DecidableEq, Repr, Inhabited

instance : Interruption DecisionBudget where
  poll budget := (decide (budget.limit ≤ budget.made), budget)
  afterDecision budget := { budget with made := budget.made + 1 }

/-- A time limit seen from inside: whether it has run out. -/
inductive Clock
  | running
  | expired
deriving DecidableEq, Repr, Inhabited

instance : Interruption Clock where
  poll clock := (clock == .expired, clock)

/-- Stops when one of two conditions does; the second is asked only if the first goes on. -/
structure AnyOf (first second : Type) where
  left : first
  right : second
deriving DecidableEq, Repr, Inhabited

instance {first second : Type} [Interruption first] [Interruption second] :
    Interruption (AnyOf first second) where
  poll both :=
    match Interruption.poll both.left with
    | (true, left) => (true, { both with left })
    | (false, left) =>
      let (stop, right) := Interruption.poll both.right
      (stop, ⟨left, right⟩)
  afterDecision both :=
    ⟨Interruption.afterDecision both.left, Interruption.afterDecision both.right⟩

/-! ### Cancellation -/

/-- The state of a cancellation. -/
inductive CancelSignal
  /-- Nothing is cancelled. -/
  | clear
  /-- The call that runs now, or the next one, is to stop. -/
  | cancelled
  /-- Every later operation is refused. -/
  | poisoned
deriving DecidableEq, Repr, Inhabited

namespace CancelSignal

/-- Asks for the present call to stop; a poisoned signal stays poisoned. -/
def cancel : CancelSignal → CancelSignal
  | .clear => .cancelled
  | signal => signal

/-- Refuses everything from now on. -/
def hardCancel (_ : CancelSignal) : CancelSignal :=
  .poisoned

/-- Clears a soft cancellation that has been reported. -/
def acknowledge : CancelSignal → CancelSignal
  | .cancelled => .clear
  | signal => signal

/-- Whether any cancellation is pending. -/
def isCancelled (signal : CancelSignal) : Bool :=
  signal != .clear

/-- Whether everything is refused. -/
def isPoisoned (signal : CancelSignal) : Bool :=
  signal == .poisoned

end CancelSignal

instance : Interruption CancelSignal where
  poll signal := (signal.isCancelled, signal)

/-! ### The watch that an engine keeps over its searches -/

/-- What may happen outside between two polls. -/
inductive OutsideEvent
  | quiet
  | cancel
  | hardCancel
  | timeUp
deriving DecidableEq, Repr, Inhabited

/-- A cancellation and a time limit, with the events still to come. -/
structure Watchdog where
  signal : CancelSignal
  /-- The time limit of the call, if there is one. -/
  clock : Option Clock
  /-- The events that the next polls meet; nothing happens after the last one. -/
  coming : List OutsideEvent
deriving DecidableEq, Repr, Inhabited

namespace Watchdog

/-- The watchdog after an event; time passes unnoticed where there is no limit. -/
def meet (event : OutsideEvent) (dog : Watchdog) : Watchdog :=
  match event with
  | .quiet => dog
  | .cancel => { dog with signal := dog.signal.cancel }
  | .hardCancel => { dog with signal := dog.signal.hardCancel }
  | .timeUp => { dog with clock := dog.clock.map fun _ => .expired }

/-- The watchdog at the next poll. -/
def advance (dog : Watchdog) : Watchdog :=
  match dog.coming with
  | [] => dog
  | event :: coming => meet event { dog with coming }

/-- Whether the cancellation or the time limit asks to stop. -/
def stops (dog : Watchdog) : Bool :=
  dog.signal.isCancelled || dog.clock == some .expired

end Watchdog

instance : Interruption Watchdog where
  poll dog := (dog.advance.stops, dog.advance)

end Loadout
