import Mathlib.Algebra.BigOperators.Group.Finset.Basic
import Mathlib.Algebra.BigOperators.Group.Finset.Piecewise
import Mathlib.Algebra.Order.BigOperators.Group.Finset
import Mathlib.Data.Fintype.Basic
import Mathlib.Data.List.Perm.Basic

/-! Counting the holders of a resource. A resource kept in slots of a table and
in lists is counted by sums and list counts; the rules say how a count changes
when one slot is rewritten or one list entry is taken out. -/

namespace Accounting

/-- Whether a slot holds the resource, as a number. -/
def holds {α : Type*} [DecidableEq α] (slot : Option α) (x : α) : Nat :=
  if slot = some x then 1 else 0

section Slots

variable {α : Type*} [DecidableEq α]

@[simp] theorem holds_none (x : α) : holds none x = 0 := rfl

/-- An owner holds exactly one item, so it counts once for that item and never for
another. -/
@[simp] theorem holds_some (y x : α) : holds (some y) x = if y = x then 1 else 0 := by
  simp [holds]

end Slots

/-- Rewriting one entry of a table changes the sum by that entry. -/
theorem sum_rewrite {ι : Type*} [Fintype ι] [DecidableEq ι] (i : ι) (f : ι → Nat) (v : Nat) :
    (∑ j, if j = i then v else f j) + f i = (∑ j, f j) + v := by
  have hNew : (∑ j, if j = i then v else f j) = v + ∑ j ∈ Finset.univ.erase i, f j := by
    rw [← Finset.add_sum_erase _ _ (Finset.mem_univ i), if_pos rfl]
    congr 1
    exact Finset.sum_congr rfl fun j hj => if_neg (Finset.ne_of_mem_erase hj)
  have hOld : ∑ j, f j = f i + ∑ j ∈ Finset.univ.erase i, f j :=
    (Finset.add_sum_erase _ _ (Finset.mem_univ i)).symm
  omega

/-- One entry, or two different ones, weigh at most as much as the table. -/
theorem le_sum {ι : Type*} [Fintype ι] (i : ι) (f : ι → Nat) : f i ≤ ∑ j, f j :=
  Finset.single_le_sum (fun _ _ => Nat.zero_le _) (Finset.mem_univ i)

/-- Two different entries of a table together are at most the sum of the whole table. -/
theorem add_le_sum {ι : Type*} [Fintype ι] [DecidableEq ι] {i k : ι} (h : i ≠ k) (f : ι → Nat) :
    f i + f k ≤ ∑ j, f j := by
  rw [← Finset.sum_pair h]
  exact Finset.sum_le_sum_of_subset (Finset.subset_univ _)

section Lists

variable {α : Type*} [DecidableEq α]

/-- Taking an entry out of a list. -/
theorem count_eraseIdx {l : List α} {n : Nat} {x : α} (h : l[n]? = some x) (y : α) :
    (l.eraseIdx n).count y + (if x = y then 1 else 0) = l.count y := by
  obtain ⟨hn, hx⟩ := List.getElem?_eq_some_iff.mp h
  have hPerm := (List.getElem_cons_eraseIdx_perm hn).count_eq y
  rw [hx, List.count_cons] at hPerm
  simpa using hPerm

/-- Taking an entry out by moving the last one into its place. -/
theorem count_swapRemove {l : List α} {n : Nat} {x : α} (h : l[n]? = some x) (d y : α) :
    ((l.set n (l.getLastD d)).dropLast).count y + (if x = y then 1 else 0) = l.count y := by
  obtain ⟨hn, _⟩ := List.getElem?_eq_some_iff.mp h
  have hNonempty : l ≠ [] := List.ne_nil_of_length_pos (by omega)
  have hLast : l.getLastD d = l.getLast hNonempty := by
    rw [List.getLastD_eq_getLast?, List.getLast?_eq_some_getLast hNonempty]
    rfl
  rw [hLast]
  have hSet : l.set n (l.getLast hNonempty) ≠ [] := by simpa using hNonempty
  have hEnd : (l.set n (l.getLast hNonempty)).getLast hSet = l.getLast hNonempty := by
    rw [List.getLast_eq_getElem, List.getElem_set]
    split_ifs
    · rfl
    · simp [List.getLast_eq_getElem]
  have hSplit := congrArg (List.count y) (List.dropLast_append_getLast hSet)
  have hPerm := (List.set_perm_cons_eraseIdx hn (l.getLast hNonempty)).count_eq y
  have hErase := count_eraseIdx h y
  rw [List.count_append, hEnd, List.count_singleton] at hSplit
  rw [List.count_cons] at hPerm
  omega

/-- Setting one flag that was clear. -/
theorem countP_update {flags : α → Bool} {a : α} {l : List α} (hNodup : l.Nodup) (ha : a ∈ l)
    (h : flags a = false) :
    (l.countP fun o => !Function.update flags a true o) + 1 = l.countP fun o => !flags o := by
  induction l with
  | nil => cases ha
  | cons b l ih =>
      obtain ⟨hFresh, hRest⟩ := List.nodup_cons.mp hNodup
      by_cases hb : b = a
      · subst hb
        have hSame : (l.countP fun o => !Function.update flags b true o) =
            l.countP fun o => !flags o := by
          apply List.countP_congr
          intro o ho
          rw [Function.update_of_ne (ne_of_mem_of_not_mem ho hFresh)]
        simp [hSame, h]
      · have hMem := (List.mem_cons.mp ha).resolve_left (Ne.symm hb)
        have hTail := ih hRest hMem
        rw [List.countP_cons, List.countP_cons, Function.update_of_ne hb]
        omega

end Lists

end Accounting
