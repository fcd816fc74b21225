import Mathlib.Tactic.Common

/-! Computations that may fail and leave a trace of what they touch, and the condition that
they touch only what they may and give only what they should. -/

structure Traced (Event Result : Type) where
  result : Option Result
  trace : List Event

namespace Traced

variable {Event A B : Type} {x : Traced Event A} {f : A → Traced Event B} {P : Event → Prop}
  {Q : A → Prop} {R : B → Prop}

def fail : Traced Event A := ⟨none, []⟩

instance : Monad (Traced Event) where
  pure a := ⟨some a, []⟩
  bind x f :=
    match x.result with
    | none => ⟨none, x.trace⟩
    | some a => ⟨(f a).result, x.trace ++ (f a).trace⟩

/-- The computation with its failure as a result. -/
def attempt (x : Traced Event A) : Traced Event (Option A) := ⟨some x.result, x.trace⟩

@[simp] theorem result_pure (a : A) : (pure a : Traced Event A).result = some a := rfl

theorem trace_pure (a : A) : (pure a : Traced Event A).trace = [] := rfl

@[simp] theorem result_fail : (fail : Traced Event A).result = none := rfl

@[simp] theorem result_attempt : x.attempt.result = some x.result := rfl

/-- The result of a sequence is that of its plain computations. -/
@[simp] theorem result_bind : (x >>= f).result = x.result.bind fun a => (f a).result := by
  show (match x.result with
    | none => (⟨none, x.trace⟩ : Traced Event B)
    | some a => ⟨(f a).result, x.trace ++ (f a).trace⟩).result = _
  cases x.result <;> rfl

@[simp] theorem result_ite {c : Prop} [Decidable c] {y : Traced Event A} :
    (if c then x else y).result = if c then x.result else y.result := by
  split_ifs <;> rfl

/-- A failed first part ends the sequence, and its events are all there is. -/
theorem bind_none (h : x.result = none) : x >>= f = ⟨none, x.trace⟩ := by
  show (match x.result with
    | none => (⟨none, x.trace⟩ : Traced Event B)
    | some a => ⟨(f a).result, x.trace ++ (f a).trace⟩) = _
  rw [h]

/-- After a successful first part the events of the second follow its own. -/
theorem bind_some {a : A} (h : x.result = some a) :
    x >>= f = ⟨(f a).result, x.trace ++ (f a).trace⟩ := by
  show (match x.result with
    | none => (⟨none, x.trace⟩ : Traced Event B)
    | some a => ⟨(f a).result, x.trace ++ (f a).trace⟩) = _
  rw [h]

/-- Whatever is touched satisfies `P`, and a result `Q`. -/
def Ensures (P : Event → Prop) (Q : A → Prop) (x : Traced Event A) : Prop :=
  (∀ e ∈ x.trace, P e) ∧ ∀ a, x.result = some a → Q a

@[simp] theorem ensures_pure {a : A} : (pure a : Traced Event A).Ensures P Q ↔ Q a := by
  simp [Ensures, trace_pure]

@[simp] theorem ensures_fail : (fail : Traced Event A).Ensures P Q := by
  simp [Ensures, fail]

/-- One after the other. -/
theorem ensures_bind : (x >>= f).Ensures P R ↔ x.Ensures P fun a => (f a).Ensures P R := by
  cases hResult : x.result with
  | none =>
      rw [bind_none hResult]
      simp [Ensures, hResult]
  | some a =>
      rw [bind_some hResult]
      simp only [Ensures, hResult, List.mem_append, Option.some.injEq, forall_eq',
        or_imp, forall_and]
      exact and_assoc

/-- An attempt continues with the outcome of its part, success or failure, and keeps the
events of both. -/
theorem ensures_attempt {Q : Option A → Prop} : x.attempt.Ensures P Q ↔
    x.Ensures P (fun a => Q (some a)) ∧ (x.result = none → Q none) := by
  cases hResult : x.result <;> simp [Ensures, attempt, hResult]

/-- The events of a conditional are those of the branch taken. -/
theorem ensures_ite {c : Prop} [Decidable c] {y : Traced Event A} :
    (if c then x else y).Ensures P Q ↔ if c then x.Ensures P Q else y.Ensures P Q := by
  split_ifs <;> rfl

end Traced
