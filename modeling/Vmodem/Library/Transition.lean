import Mathlib.Data.Option.Basic

/-! Runs of a partial transition function and their invariants. A run may be
restricted to steps that satisfy a side condition on the state before the step
and its action; the unrestricted runs are those whose condition is `True`. -/

namespace Transition

variable {State Action : Type*} (step : Action → State → Option State)

/-- A finite run from one state to another, every step of which satisfied
`allowed` in the state it was taken from. -/
inductive Run (allowed : State → Action → Prop) : State → State → Prop where
  | refl (s : State) : Run allowed s s
  | tail {s t u : State} {a : Action} (prior : Run allowed s t) (ok : allowed t a)
      (last : step a t = some u) : Run allowed s u

variable {step} {allowed allowed' : State → Action → Prop} {s t u : State}

/-- Two runs one behind the other are one run. -/
theorem Run.trans (left : Run step allowed s t) (right : Run step allowed t u) :
    Run step allowed s u := by
  induction right with
  | refl => exact left
  | tail _ ok last ih => exact ih.tail ok last

/-- A run of steps allowed by a stricter condition is one of the weaker condition. -/
theorem Run.mono (run : Run step allowed s t) (h : ∀ s a, allowed s a → allowed' s a) :
    Run step allowed' s t := by
  induction run with
  | refl => exact .refl _
  | tail _ ok last ih => exact ih.tail (h _ _ ok) last

/-- What one allowed step preserves, a whole run of allowed steps preserves. -/
theorem Run.invariant {inv : State → Prop} (run : Run step allowed s t) (start : inv s)
    (preserved : ∀ s a t, inv s → allowed s a → step a s = some t → inv t) : inv t := by
  induction run with
  | refl => exact start
  | tail _ ok last ih => exact preserved _ _ _ ih ok last

/-- An invariant of all runs may be used in proving that of the restricted
ones. -/
theorem Run.invariant_under {base inv : State → Prop} (run : Run step allowed s t)
    (hBase : ∀ t, Run step allowed s t → base t) (start : inv s)
    (preserved : ∀ s a t, base s → inv s → allowed s a → step a s = some t → inv t) : inv t := by
  induction run with
  | refl => exact start
  | tail prior ok last ih => exact preserved _ _ _ (hBase _ prior) ih ok last

end Transition
