import Mathlib.Order.Monotone.Basic
import Mathlib.Tactic.Common

/-! Waiting for a deadline on a counter that restarts. The deadline is computed once by
adding to a reading, and later readings are compared with it. -/

namespace Deadline

/-- When a counter is read: the ticks passed at each reading since the first. No tick goes
by unseen, and time goes on. -/
structure Schedule where
  elapsed : Nat → Nat
  start : elapsed 0 = 0
  mono : Monotone elapsed
  step : ∀ k, elapsed (k + 1) ≤ elapsed k + 1
  unbounded : ∀ n, ∃ k, n ≤ elapsed k

/-- A counter with `period` values, read after `k` earlier readings. -/
def reading (period start : Nat) (time : Schedule) (k : Nat) : Nat :=
  (start + time.elapsed k) % period

/-- One reading in every tick. -/
def Schedule.everyTick : Schedule where
  elapsed k := k
  start := rfl
  mono := monotone_id
  step _ := Nat.le_refl _
  unbounded n := ⟨n, Nat.le_refl n⟩

variable {period start d k : Nat} {time : Schedule}

/-- Every number of ticks is seen. -/
theorem Schedule.reaches (time : Schedule) (n : Nat) : ∃ k, time.elapsed k = n := by
  induction n with
  | zero => exact ⟨0, time.start⟩
  | succ n ih =>
      by_contra hNever
      obtain ⟨k, hk⟩ := ih
      have hStays : ∀ j, time.elapsed (k + j) = n := by
        intro j
        induction j with
        | zero => exact hk
        | succ j ih =>
            have hStep := time.step (k + j)
            have hMono := time.mono (Nat.le_succ (k + j))
            have hNot : time.elapsed (k + j + 1) ≠ n + 1 := fun hEq => hNever ⟨_, hEq⟩
            show time.elapsed (k + j + 1) = n
            have hSucc : time.elapsed (k + j).succ = time.elapsed (k + j + 1) := rfl
            omega
      obtain ⟨m, hm⟩ := time.unbounded (n + 1)
      have hLate := time.mono (Nat.le_add_left m k)
      have hStill := hStays m
      omega

/-- A counter that starts again at its period never shows the period itself. -/
theorem reading_lt (hPeriod : 0 < period) : reading period start time k < period :=
  Nat.mod_lt _ hPeriod

/-- Until the counter restarts, its reading is the start plus the elapsed time. -/
theorem reading_of_lt (h : start + time.elapsed k < period) :
    reading period start time k = start + time.elapsed k := Nat.mod_eq_of_lt h

/-- Within the period the deadline is seen in time. -/
theorem reading_reaches (h : start + d < period) (hk : time.elapsed k = d) :
    start + d ≤ reading period start time k := by
  rw [reading_of_lt (by omega), hk]

/-- A deadline behind the restart is not seen until the counter is back. -/
theorem reading_misses (hPeriod : 1 < period) (hStart : start < period)
    (h : period ≤ start + max d 1) (hk : 0 < k) (hLimit : k ≤ d + 1) :
    reading period start .everyTick k < start + d := by
  rcases Nat.eq_zero_or_pos d with rfl | hPos
  · have hOne : k = 1 := by omega
    have hLast : start + 1 = period := by omega
    subst hOne
    show (start + 1) % period < start + 0
    rw [hLast, Nat.mod_self]
    omega
  · have hLt : reading period start .everyTick k < period := reading_lt (Nat.zero_lt_of_lt hPeriod)
    omega

end Deadline
