import Mathlib

/-!
# Event systems

A system moves from state to state by events.  A run starts in an initial state
and takes enabled events; a side condition on the events taken singles out the
runs a result is about.  A property of every state reached follows from its
being kept by one event.
-/

namespace SnowTG.Lib

universe u v

/-- Initial states, when an event can happen, and what it does. -/
structure System (State : Type u) (Event : Type v) where
  init : State → Prop
  enabled : State → Event → Prop
  step : State → Event → State

namespace System

variable {State : Type u} {Event : Type v} (M : System State Event)

/-- The states of the runs all of whose events meet `ok`. -/
inductive Reach (ok : State → Event → Prop) : State → Prop where
  | init {s : State} : M.init s → Reach ok s
  | step {s : State} {e : Event} : Reach ok s → M.enabled s e → ok s e → Reach ok (M.step s e)

/-- The state after a list of events. -/
def run : State → List Event → State
  | s, [] => s
  | s, e :: rest => run (M.step s e) rest

/-- Every event of the list can happen when its turn comes, and meets `ok`. -/
def Admissible (ok : State → Event → Prop) : State → List Event → Prop
  | _, [] => True
  | s, e :: rest => M.enabled s e ∧ ok s e ∧ Admissible ok (M.step s e) rest

instance Admissible.decidable [∀ s e, Decidable (M.enabled s e)] (ok : State → Event → Prop)
    [∀ s e, Decidable (ok s e)] : ∀ (s : State) (events : List Event),
      Decidable (M.Admissible ok s events)
  | _, [] => isTrue trivial
  | s, e :: rest =>
    have := Admissible.decidable ok (M.step s e) rest
    inferInstanceAs (Decidable (M.enabled s e ∧ ok s e ∧ M.Admissible ok (M.step s e) rest))

variable {M} {ok : State → Event → Prop} {s : State}

/-- What holds initially and is kept by every event holds in every state reached. -/
theorem Reach.invariant {P : State → Prop} (h : M.Reach ok s) (hinit : ∀ s, M.init s → P s)
    (hstep : ∀ s e, P s → M.enabled s e → ok s e → P (M.step s e)) : P s := by
  induction h with
  | init hs => exact hinit _ hs
  | step _ hen hok ih => exact hstep _ _ ih hen hok

theorem Reach.after (h : M.Reach ok s) (e : Event) (hen : M.enabled s e) (hok : ok s e) :
    M.Reach ok (M.step s e) :=
  .step h hen hok

/-- A list of admissible events leads from a reached state to a reached state. -/
theorem Reach.run {events : List Event} (h : M.Reach ok s) (hrun : M.Admissible ok s events) :
    M.Reach ok (M.run s events) := by
  induction events generalizing s with
  | nil => exact h
  | cons e rest ih => exact ih (h.step hrun.1 hrun.2.1) hrun.2.2

end System

end SnowTG.Lib
