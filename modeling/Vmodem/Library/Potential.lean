import Vmodem.Library.Path
import Mathlib.Algebra.BigOperators.Group.List.Basic

/-! Runs that use up a potential: they are short, and where they cannot go on they have
reached what they were to reach. -/

namespace Transition

variable {State Action : Type*} {step : Action → State → Option State}
  {allowed : State → Action → Prop} {inv : State → Prop} {potential : State → Nat}

/-- Every allowed step from a state of the invariant keeps it and uses up potential. -/
def Spends (step : Action → State → Option State) (allowed : State → Action → Prop)
    (inv : State → Prop) (potential : State → Nat) : Prop :=
  ∀ s a t, inv s → allowed s a → step a s = some t → inv t ∧ potential t < potential s

/-- No allowed step can be taken. -/
def Stuck (step : Action → State → Option State) (allowed : State → Action → Prop)
    (s : State) : Prop :=
  ∀ a, allowed s a → step a s = none

variable {s t : State} {past : List (State × Action)}

/-- A run has no more steps than the potential it used up. -/
theorem Path.length_add_potential_le (h : Spends step allowed inv potential) (start : inv s)
    (path : Path step s past t) (hAllowed : ∀ st ∈ past, allowed st.1 st.2) :
    inv t ∧ past.length + potential t ≤ potential s := by
  induction path with
  | nil => exact ⟨start, by simp⟩
  | @snoc past t u a prior last ih =>
      obtain ⟨hInv, hBound⟩ := ih fun st hst => hAllowed st (List.mem_cons_of_mem _ hst)
      obtain ⟨hNext, hLess⟩ := h t a u hInv (hAllowed _ List.mem_cons_self) last
      refine ⟨hNext, ?_⟩
      rw [List.length_cons]
      omega

/-- A run can be continued to where no allowed step is left. -/
theorem exists_stuck (h : Spends step allowed inv potential) (start : inv s) :
    ∃ t, Run step allowed s t ∧ Stuck step allowed t := by
  induction hSize : potential s using Nat.strongRecOn generalizing s with
  | ind n ih =>
      by_cases hStuck : Stuck step allowed s
      · exact ⟨s, .refl s, hStuck⟩
      · unfold Stuck at hStuck
        push Not at hStuck
        obtain ⟨a, hAllowed, hSome⟩ := hStuck
        obtain ⟨t, hStep⟩ := Option.ne_none_iff_exists'.mp hSome
        obtain ⟨hInv, hLess⟩ := h s a t start hAllowed hStep
        obtain ⟨u, hRun, hEnd⟩ := ih _ (hSize ▸ hLess) hInv rfl
        exact ⟨u, ((Run.refl s).tail hAllowed hStep).trans hRun, hEnd⟩

end Transition
