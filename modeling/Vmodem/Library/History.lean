import Mathlib.Data.List.Basic

/-! Properties of a history, kept newest first: what was true of each event
when it happened, given the events before it. -/

namespace History

variable {Event : Type*} {P Q : Event → List Event → Prop} {e : Event}
  {newer older trace : List Event}

/-- Every event of the history satisfied `P` with respect to the events that
came before it. -/
def Each (P : Event → List Event → Prop) (trace : List Event) : Prop :=
  ∀ newer e older, trace = newer ++ e :: older → P e older

theorem Each.nil : Each P [] := by
  intro newer e older h
  simp at h

/-- An event whose condition holds on what came before extends the record. -/
theorem Each.cons (h : P e older) (hOlder : Each P older) : Each P (e :: older) := by
  intro newer e' older' hEq
  cases newer with
  | nil =>
      obtain ⟨rfl, rfl⟩ := List.cons.inj hEq
      exact h
  | cons first newer => exact hOlder newer e' older' (List.cons.inj hEq).2

theorem Each.tail (h : Each P (e :: older)) : Each P older := by
  intro newer e' older' hEq
  exact h (e :: newer) e' older' (by rw [hEq]; rfl)

theorem Each.head (h : Each P (e :: older)) : P e older := h [] e older rfl

/-- New events may be added when `P` holds of each, whichever of the others came
before it. -/
theorem Each.extend (h : ∀ e ∈ newer, ∀ middle, (∀ e' ∈ middle, e' ∈ newer) → P e (middle ++ older))
    (hOlder : Each P older) : Each P (newer ++ older) := by
  induction newer with
  | nil => exact hOlder
  | cons first newer ih =>
      refine .cons (h first (by simp) newer fun e' he => by
        simp [he]) (ih fun e he middle hMiddle => ?_)
      exact h e (by simp [he]) middle fun e' he' => by simp [hMiddle e' he']

/-- A weaker condition on the events of this record also holds at each of them. -/
theorem Each.mono (h : Each P trace) (hImp : ∀ e ∈ trace, ∀ before, P e before → Q e before) :
    Each Q trace := by
  intro newer e older hEq
  exact hImp e (by simp [hEq]) older (h newer e older hEq)

end History
