import Mathlib.Logic.Basic
import Mathlib.Tactic.Common

/-! Loops run with a bound on the number of passes. A body may contain loops of its own,
which get what is left of the bound; a loop ends where some bound is enough, and shows its
state where it is cut. -/

namespace BoundedLoop

/-- What one pass leads to. -/
inductive Pass (State Result : Type*) where
  | again (s : State)
  | leave (r : Result)
  /-- Something in the pass was cut or does not end. -/
  | stuck (s : State)

/-- What is known of a loop after a number of passes. -/
inductive Ran (State Result : Type*) where
  | ended (r : Result)
  | cut (s : State)

variable {State Result : Type*} {body : Nat → State → Pass State Result}
  {n m : Nat} {s t : State} {r r' : Result}

/-- At most `n` passes. -/
def run (body : Nat → State → Pass State Result) : Nat → State → Ran State Result
  | 0, s => .cut s
  | n + 1, s =>
      match body n s with
      | .again t => run body n t
      | .leave r => .ended r
      | .stuck t => .cut t

/-- The loop ends with a result. -/
def Ends (body : Nat → State → Pass State Result) (s : State) (r : Result) : Prop :=
  ∃ n, run body n s = .ended r

/-- A pass that is not stuck is the same with a larger bound. -/
def Steady (body : Nat → State → Pass State Result) : Prop :=
  ∀ n s, (∀ t, body n s ≠ .stuck t) → body (n + 1) s = body n s

/-- A pass that leaves ends the run with its result. -/
theorem run_leave (h : body n s = .leave r) : run body (n + 1) s = .ended r := by
  rw [run, h]

/-- A pass that goes on hands its state to the remaining passes. -/
theorem run_again (h : body n s = .again t) : run body (n + 1) s = run body n t := by
  rw [run, h]

/-- A pass that can go no further cuts the run off in the state it reached. -/
theorem run_stuck (h : body n s = .stuck t) : run body (n + 1) s = .cut t := by
  rw [run, h]

/-- What holds where the loop is left, and before a pass if it holds behind it, holds
wherever the loop ends. -/
theorem run_induction {P : State → Result → Prop}
    (leave : ∀ n s r, body n s = .leave r → P s r)
    (again : ∀ n s t r, body n s = .again t → P t r → P s r)
    (h : run body n s = .ended r) : P s r := by
  induction n generalizing s with
  | zero => nomatch h
  | succ n ih =>
      cases hBody : body n s with
      | again next =>
          rw [run_again hBody] at h
          exact again n s next r hBody (ih h)
      | leave out =>
          rw [run_leave hBody] at h
          injection h with h
          exact h ▸ leave n s out hBody
      | stuck next =>
          rw [run_stuck hBody] at h
          nomatch h

/-- An invariant of the states, and what it gives of the results. -/
def Ran.Holds (inv : State → Prop) (post : Result → Prop) : Ran State Result → Prop
  | .ended r => post r
  | .cut s => inv s

/-- An invariant of the body holds wherever a run stops, and each result of the body
meets the condition on results. -/
theorem run_holds {inv : State → Prop} {post : Result → Prop}
    (again : ∀ n s t, inv s → body n s = .again t → inv t)
    (leave : ∀ n s r, inv s → body n s = .leave r → post r)
    (stuck : ∀ n s t, inv s → body n s = .stuck t → inv t)
    (h : inv s) : (run body n s).Holds inv post := by
  induction n generalizing s with
  | zero => exact h
  | succ n ih =>
      cases hBody : body n s with
      | again next =>
          rw [run_again hBody]
          exact ih (again n s next h hBody)
      | leave out =>
          rw [run_leave hBody]
          exact leave n s out h hBody
      | stuck next =>
          rw [run_stuck hBody]
          exact stuck n s next h hBody

/-- A pass that is not stuck is the same with any larger bound. -/
theorem Steady.raise (h : Steady body) (hLe : n ≤ m) (hBody : ∀ t, body n s ≠ .stuck t) :
    body m s = body n s := by
  induction hLe with
  | refl => rfl
  | step _ ih => rw [h _ _ (by rwa [ih]), ih]

/-- With a steady body, one more allowed pass does not change the result of a run that
has ended. -/
theorem Steady.run_succ (h : Steady body) :
    run body n s = .ended r → run body (n + 1) s = .ended r := by
  induction n generalizing s with
  | zero => nofun
  | succ n ih =>
      intro hRun
      cases hBody : body n s with
      | again next =>
          have hMore := h n s (by rw [hBody]; nofun)
          rw [hBody] at hMore
          rw [run_again hBody] at hRun
          rw [run_again hMore]
          exact ih hRun
      | leave out =>
          have hMore := h n s (by rw [hBody]; nofun)
          rw [hBody] at hMore
          rw [run_leave hBody] at hRun
          rw [run_leave hMore, hRun]
      | stuck next =>
          rw [run_stuck hBody] at hRun
          nomatch hRun

/-- A run that ends within a bound ends with the same result within every larger one. -/
theorem Steady.mono (h : Steady body) (hLe : n ≤ m) (hRun : run body n s = .ended r) :
    run body m s = .ended r := by
  induction hLe with
  | refl => exact hRun
  | step _ ih => exact h.run_succ ih

/-- A loop whose pass leaves ends with that result. -/
theorem Ends.leave (h : body n s = .leave r) : Ends body s r := ⟨n + 1, run_leave h⟩

/-- A loop ends if its first pass goes on to a state from which it ends. -/
theorem Ends.again (hSteady : Steady body) (h : body n s = .again t) (hRest : Ends body t r) :
    Ends body s r := by
  obtain ⟨m, hRun⟩ := hRest
  have hMax : body (max n m) s = .again t := by
    rw [hSteady.raise (Nat.le_max_left n m) (by rw [h]; nofun), h]
  refine ⟨max n m + 1, ?_⟩
  rw [run_again hMax]
  exact hSteady.mono (Nat.le_max_right n m) hRun

/-- A loop has one result. -/
theorem Ends.result (hSteady : Steady body) (h : Ends body s r) (hRun : run body n s = .ended r') :
    r' = r := by
  obtain ⟨m, hEnds⟩ := h
  have hMax := hSteady.mono (Nat.le_max_left m n) hEnds
  rw [hSteady.mono (Nat.le_max_right m n) hRun] at hMax
  injection hMax

/-- A loop that stays in a set of states it does not leave from never ends. -/
theorem not_ends {inv : State → Prop}
    (stays : ∀ n s, inv s → (∃ t, body n s = .stuck t) ∨ ∃ t, inv t ∧ body n s = .again t)
    (h : inv s) : ¬ Ends body s r := by
  rintro ⟨n, hRun⟩
  induction n generalizing s with
  | zero => nomatch hRun
  | succ n ih =>
      rcases stays n s h with ⟨t, hStuck⟩ | ⟨t, hInv, hAgain⟩
      · rw [run_stuck hStuck] at hRun
        nomatch hRun
      · rw [run_again hAgain] at hRun
        exact ih hInv hRun

/-- A loop whose passes end, and with each repetition make a measure smaller, ends. -/
theorem exists_ends {inv : State → Prop} {size : State → Nat} (hSteady : Steady body)
    (passes : ∀ s, inv s → ∃ n, (∃ r, body n s = .leave r) ∨
      ∃ t, inv t ∧ size t < size s ∧ body n s = .again t)
    (h : inv s) : ∃ r, Ends body s r := by
  induction hSize : size s using Nat.strongRecOn generalizing s with
  | ind k ih =>
      obtain ⟨n, ⟨r, hLeave⟩ | ⟨t, hInv, hLess, hAgain⟩⟩ := passes s h
      · exact ⟨r, .leave hLeave⟩
      · obtain ⟨r, hRest⟩ := ih (size t) (hSize ▸ hLess) hInv rfl
        exact ⟨r, .again hSteady hAgain hRest⟩

/-- From some bound on, a computation that runs loops has this result. -/
def Settles {α : Type*} (f : Nat → Option α) (r : α) : Prop := ∃ n, ∀ m, n ≤ m → f m = some r

/-- A computation that uses no bound settles on its value at once. -/
theorem settles_some {α : Type*} (r : α) : Settles (fun _ => some r) r := ⟨0, fun _ _ => rfl⟩

theorem Settles.bind.{u} {α β : Type u} {f : Nat → Option α} {g : Nat → α → Option β}
    {r : α} {q : β}
    (h : Settles f r) (hNext : Settles (fun n => g n r) q) : Settles (fun n => f n >>= g n) q := by
  obtain ⟨n, hFirst⟩ := h
  obtain ⟨m, hSecond⟩ := hNext
  refine ⟨max n m, fun k hLe => ?_⟩
  show (f k).bind (g k) = some q
  rw [hFirst k (by omega)]
  exact hSecond k (by omega)

theorem Settles.map {α β : Type*} {f : Nat → Option α} {r : α} (h : Settles f r) (g : α → β) :
    Settles (fun n => (f n).map g) (g r) := by
  obtain ⟨n, hRun⟩ := h
  exact ⟨n, fun m hLe => congrArg (Option.map g) (hRun m hLe)⟩

end BoundedLoop
