import Mathlib.Data.List.Basic
import Mathlib.Data.List.TakeDrop
import Mathlib.Data.Nat.ModEq

/-! Bounded first-in first-out storage kept in a fixed array with wrapping
indices. The array, the two indices and the count are explicit, so that code
which manipulates them by hand can be compared with it line by line. The
abstract value is `contents`, the list of stored elements, oldest first. -/

/-- A store of `size` cells. Only the first `count` cells from `head` on are
live; the others keep whatever was written there before. -/
structure CircularBuffer (α : Type*) (size : Nat) where
  data : Nat → α
  head : Nat
  tail : Nat
  count : Nat

namespace CircularBuffer

variable {α : Type*} {size : Nat}

/-- Forget the stored elements. The cells themselves are not cleared. -/
def reset (r : CircularBuffer α size) : CircularBuffer α size :=
  { r with head := 0, tail := 0, count := 0 }

/-- Store one element at the tail, or report a full buffer. -/
def put? (r : CircularBuffer α size) (b : α) : Option (CircularBuffer α size) :=
  if size ≤ r.count then none
  else some
    { data := fun k => if k = r.tail then b else r.data k
      head := r.head
      tail := (r.tail + 1) % size
      count := r.count + 1 }

/-- Store one element, dropping it when the buffer is full. -/
def put (r : CircularBuffer α size) (b : α) : CircularBuffer α size :=
  (r.put? b).getD r

/-- Store a list of elements one after another, dropping what does not fit. -/
def putAll (r : CircularBuffer α size) (bs : List α) : CircularBuffer α size :=
  bs.foldl put r

/-- Remove the oldest element. -/
def get? (r : CircularBuffer α size) : Option (α × CircularBuffer α size) :=
  if r.count = 0 then none
  else some (r.data r.head, { r with head := (r.head + 1) % size, count := r.count - 1 })

/-- Remove up to `n` elements, stopping early at an empty buffer. -/
def getMany : Nat → CircularBuffer α size → List α × CircularBuffer α size
  | 0, r => ([], r)
  | n + 1, r =>
      match r.get? with
      | none => ([], r)
      | some (b, r') => (b :: (getMany n r').1, (getMany n r').2)

/-- The stored elements, oldest first. -/
def contents (r : CircularBuffer α size) : List α :=
  (List.range r.count).map fun k => r.data ((r.head + k) % size)

/-- The indices stay inside the array and agree with the count. -/
structure WellFormed (r : CircularBuffer α size) : Prop where
  head_lt : r.head < size
  tail_lt : r.tail < size
  count_le : r.count ≤ size
  tail_eq : r.tail = (r.head + r.count) % size

/-- The contents are as many as the count says. -/
@[simp] theorem contents_length (r : CircularBuffer α size) : r.contents.length = r.count := by
  simp [contents]

@[simp] theorem contents_reset (r : CircularBuffer α size) : r.reset.contents = [] := rfl

@[simp] theorem count_reset (r : CircularBuffer α size) : r.reset.count = 0 := rfl

/-- Resetting the indices gives a well formed buffer, whatever was in it. -/
theorem WellFormed.reset (r : CircularBuffer α size) (hSize : 0 < size) : r.reset.WellFormed :=
  ⟨hSize, hSize, Nat.zero_le _, (Nat.zero_mod size).symm⟩

/-- A byte is refused exactly by a full buffer. -/
theorem put?_eq_none_iff (r : CircularBuffer α size) (b : α) :
    r.put? b = none ↔ size ≤ r.count := by
  unfold put?
  split_ifs with hFull <;> simp [hFull]

/-- Storing a byte wraps the head and keeps the buffer well formed. -/
theorem WellFormed.put? {r r' : CircularBuffer α size} {b : α} (h : r.WellFormed)
    (hPut : r.put? b = some r') : r'.WellFormed := by
  unfold CircularBuffer.put? at hPut
  split_ifs at hPut with hFull
  obtain rfl := Option.some.inj hPut
  have hSize : 0 < size := Nat.lt_of_le_of_lt (Nat.zero_le _) h.head_lt
  refine ⟨h.head_lt, Nat.mod_lt _ hSize, by simp only; omega, ?_⟩
  simp only [h.tail_eq, Nat.mod_add_mod, Nat.add_assoc]

/-- The cell written by a put is the one past the last live cell, so no live
cell changes. -/
theorem contents_put? {r r' : CircularBuffer α size} {b : α} (h : r.WellFormed)
    (hPut : r.put? b = some r') : r'.contents = r.contents ++ [b] := by
  unfold CircularBuffer.put? at hPut
  split_ifs at hPut with hFull
  obtain rfl := Option.some.inj hPut
  have hLive : ∀ k, k < r.count → (r.head + k) % size ≠ r.tail := by
    intro k hk hEq
    rw [h.tail_eq] at hEq
    have hDistinct : (r.head + k) ≡ (r.head + r.count) [MOD size] := hEq
    have hSame := Nat.ModEq.add_left_cancel' r.head hDistinct
    rw [Nat.ModEq, Nat.mod_eq_of_lt (by omega)] at hSame
    rcases Nat.lt_or_ge r.count size with hLt | hGe
    · rw [Nat.mod_eq_of_lt hLt] at hSame
      omega
    · omega
  simp only [contents, List.range_succ, List.map_append, List.map_cons, List.map_nil, h.tail_eq,
    ↓reduceIte]
  congr 1
  apply List.map_congr_left
  intro k hk
  have hNe := hLive k (List.mem_range.mp hk)
  rw [h.tail_eq] at hNe
  simp [hNe]

theorem put_of_lt {r : CircularBuffer α size} {b : α} (hRoom : r.count < size) :
    r.put? b = some (r.put b) := by
  unfold put put?
  rw [if_neg (by omega)]
  rfl

/-- A full buffer drops the byte and stays as it is. -/
theorem put_of_full {r : CircularBuffer α size} {b : α} (hFull : size ≤ r.count) :
    r.put b = r := by
  unfold put
  rw [(put?_eq_none_iff r b).mpr hFull]
  rfl

theorem WellFormed.put {r : CircularBuffer α size} (h : r.WellFormed) (b : α) :
    (r.put b).WellFormed := by
  rcases Nat.lt_or_ge r.count size with hRoom | hFull
  · exact h.put? (put_of_lt hRoom)
  · rwa [put_of_full hFull]

/-- While there is room, a new byte goes behind everything stored. -/
theorem contents_put {r : CircularBuffer α size} (h : r.WellFormed) {b : α}
    (hRoom : r.count < size) : (r.put b).contents = r.contents ++ [b] :=
  contents_put? h (put_of_lt hRoom)

/-- A put appends its element or, on a full buffer, does nothing. -/
theorem contents_put_cases {r : CircularBuffer α size} (h : r.WellFormed) (b : α) :
    (r.put b).contents = r.contents ++ [b] ∨ (r.put b).contents = r.contents := by
  rcases Nat.lt_or_ge r.count size with hRoom | hFull
  · exact .inl (contents_put h hRoom)
  · exact .inr (by rw [put_of_full hFull])

/-- Storing a whole list keeps the buffer well formed, also when part of it is dropped.
-/
theorem WellFormed.putAll {r : CircularBuffer α size} (h : r.WellFormed) (bs : List α) :
    (r.putAll bs).WellFormed := by
  induction bs generalizing r with
  | nil => exact h
  | cons b bs ih => exact ih (h.put b)

/-- Storing a list appends some of its elements and keeps everything that was
stored before. -/
theorem contents_putAll {r : CircularBuffer α size} (h : r.WellFormed) (bs : List α) :
    ∃ kept, kept.Sublist bs ∧ (r.putAll bs).contents = r.contents ++ kept := by
  induction bs generalizing r with
  | nil => exact ⟨[], List.Sublist.refl _, by simp [putAll]⟩
  | cons b bs ih =>
      obtain ⟨kept, hSub, hEq⟩ := ih (h.put b)
      rcases contents_put_cases h b with hPut | hPut
      · refine ⟨b :: kept, hSub.cons_cons b, ?_⟩
        calc
          _ = (r.put b).contents ++ kept := hEq
          _ = r.contents ++ b :: kept := by rw [hPut]; simp
      · refine ⟨kept, hSub.cons b, ?_⟩
        calc
          _ = (r.put b).contents ++ kept := hEq
          _ = r.contents ++ kept := by rw [hPut]

/-- There is nothing to take out exactly when the count is zero. -/
theorem get?_eq_none_iff (r : CircularBuffer α size) : r.get? = none ↔ r.count = 0 := by
  unfold get?
  split_ifs with hEmpty <;> simp [hEmpty]

/-- Taking a byte wraps the tail and keeps the buffer well formed. -/
theorem WellFormed.get? {r r' : CircularBuffer α size} {b : α} (h : r.WellFormed)
    (hGet : r.get? = some (b, r')) : r'.WellFormed := by
  unfold CircularBuffer.get? at hGet
  split_ifs at hGet with hEmpty
  obtain ⟨rfl, rfl⟩ := Prod.mk.inj (Option.some.inj hGet)
  have hSize : 0 < size := Nat.lt_of_le_of_lt (Nat.zero_le _) h.head_lt
  have hCount := h.count_le
  refine ⟨Nat.mod_lt _ hSize, h.tail_lt, by simp only; omega, ?_⟩
  simp only [h.tail_eq, Nat.mod_add_mod]
  congr 1
  omega

/-- A get takes the oldest element and leaves the others in order. -/
theorem contents_get? {r r' : CircularBuffer α size} {b : α} (h : r.WellFormed)
    (hGet : r.get? = some (b, r')) : r.contents = b :: r'.contents := by
  unfold CircularBuffer.get? at hGet
  split_ifs at hGet with hEmpty
  obtain ⟨rfl, rfl⟩ := Prod.mk.inj (Option.some.inj hGet)
  obtain ⟨n, hn⟩ := Nat.exists_eq_succ_of_ne_zero hEmpty
  simp only [contents, hn, List.range_succ_eq_map, List.map_cons, List.map_map,
    Nat.succ_eq_add_one, Nat.add_sub_cancel, Nat.add_zero, Nat.mod_eq_of_lt h.head_lt]
  congr 1
  apply List.map_congr_left
  intro k _
  simp only [Function.comp_apply, Nat.mod_add_mod]
  congr 2
  omega

theorem WellFormed.getMany {r : CircularBuffer α size} (h : r.WellFormed) (n : Nat) :
    (r.getMany n).2.WellFormed := by
  induction n generalizing r with
  | zero => exact h
  | succ n ih =>
      unfold CircularBuffer.getMany
      cases hGet : r.get? with
      | none => exact h
      | some pair => exact ih (h.get? (b := pair.1) hGet)

/-- Reading takes a prefix of the stored elements and leaves the rest. -/
theorem contents_getMany {r : CircularBuffer α size} (h : r.WellFormed) (n : Nat) :
    r.contents = (r.getMany n).1 ++ (r.getMany n).2.contents := by
  induction n generalizing r with
  | zero => rfl
  | succ n ih =>
      unfold CircularBuffer.getMany
      cases hGet : r.get? with
      | none => rfl
      | some pair =>
          rw [contents_get? (b := pair.1) h hGet, ih (h.get? (b := pair.1) hGet)]
          rfl

/-- Reading at least as many elements as are stored empties the buffer. -/
theorem getMany_of_count_le {r : CircularBuffer α size} {n : Nat} (h : r.count ≤ n) :
    (r.getMany n).2.count = 0 := by
  induction n generalizing r with
  | zero => exact Nat.le_zero.mp h
  | succ n ih =>
      unfold CircularBuffer.getMany
      cases hGet : r.get? with
      | none => exact (get?_eq_none_iff r).mp hGet
      | some pair =>
          apply ih
          unfold get? at hGet
          split_ifs at hGet with hEmpty
          rw [← Option.some.inj hGet]
          simp only
          omega

/-- Reading everything returns exactly the stored elements. -/
theorem getMany_count_fst {r : CircularBuffer α size} (h : r.WellFormed) :
    (r.getMany r.count).1 = r.contents := by
  have hSplit := contents_getMany h r.count
  have hEmpty : (r.getMany r.count).2.contents = [] := by
    rw [← List.length_eq_zero_iff, contents_length]
    exact getMany_of_count_le (Nat.le_refl _)
  rw [hSplit, hEmpty, List.append_nil]

end CircularBuffer
