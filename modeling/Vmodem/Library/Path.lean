import Vmodem.Library.Transition
import Mathlib.Data.List.Basic

/-! Runs that remember their steps. What happened before a state is a list of the
states passed through with the actions taken there, newest first, so that a
property of the past is a property of this list. -/

namespace Transition

variable {State Action : Type*} (step : Action → State → Option State)

/-- A run and its steps. -/
inductive Path (s : State) : List (State × Action) → State → Prop where
  | nil : Path s [] s
  | snoc {past : List (State × Action)} {t u : State} {a : Action} (prior : Path s past t)
      (last : step a t = some u) : Path s ((t, a) :: past) u

variable {step} {allowed : State → Action → Prop} {s t u : State} {past : List (State × Action)}

/-- A recorded path whose steps are all allowed is a run of allowed steps. -/
theorem Path.run {A : State → Action → Prop} (path : Path step s past t)
    (h : ∀ st ∈ past, A st.1 st.2) : Run step A s t := by
  induction path with
  | nil => exact .refl s
  | snoc prior last ih =>
      exact (ih fun st hst => h st (List.mem_cons_of_mem _ hst)).tail (h _ List.mem_cons_self) last

theorem Run.path (run : Run step allowed s t) :
    ∃ past, Path step s past t ∧ ∀ st ∈ past, allowed st.1 st.2 := by
  induction run with
  | refl => exact ⟨[], .nil, by simp⟩
  | @tail t u a prior ok last ih =>
      obtain ⟨past, hPath, hAllowed⟩ := ih
      exact ⟨(t, a) :: past, hPath.snoc last, by simpa [ok] using hAllowed⟩

/-- Every step of a path was taken after a path of its own. -/
theorem Path.before (path : Path step s past t) {st : State × Action} (h : st ∈ past) :
    ∃ earlier next, Path step s earlier st.1 ∧ step st.2 st.1 = some next := by
  induction path with
  | nil => cases h
  | snoc prior last ih =>
      rcases List.mem_cons.mp h with rfl | hOld
      · exact ⟨_, _, prior, last⟩
      · exact ih hOld

/-- The invariant may speak of the steps so far and use everything known of the
states runs lead to. -/
theorem Path.invariant {A : State → Action → Prop} {inv : List (State × Action) → State → Prop}
    (path : Path step s past t) (hAllowed : ∀ st ∈ past, A st.1 st.2) (start : inv [] s)
    (preserved : ∀ past t a u, Path step s past t → inv past t → A t a →
      step a t = some u → inv ((t, a) :: past) u) : inv past t := by
  induction path with
  | nil => exact start
  | snoc prior last ih =>
      have hOld := ih fun st hst => hAllowed st (List.mem_cons_of_mem _ hst)
      exact preserved _ _ _ _ prior hOld (hAllowed _ List.mem_cons_self) last

end Transition
