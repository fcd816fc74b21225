import Mathlib.Data.List.Basic

/-! Hashing a stream block by block. Bytes that do not fill a block yet are kept until
more arrive, so that it does not matter how the stream was cut. -/

namespace BlockHash

variable {State Byte : Type*} (compress : State → List Byte → State) (size : Nat)

/-- Compress the first `n` blocks of the bytes. -/
def blocks : Nat → State → List Byte → State
  | 0, h, _ => h
  | n + 1, h, bs => blocks n (compress h (bs.take size)) (bs.drop size)

/-- Take more bytes after those kept back. -/
def absorb (s : State × List Byte) (bs : List Byte) : State × List Byte :=
  let n := (s.2 ++ bs).length / size
  (blocks compress size n s.1 (s.2 ++ bs), (s.2 ++ bs).drop (n * size))

variable {compress size} {h : State} {s : State × List Byte} {a b bs : List Byte} {m n : Nat}

/-- Compressing `m + n` blocks is compressing the first `m`, then the other `n` from
where they start. -/
theorem blocks_add : blocks compress size (m + n) h bs =
    blocks compress size n (blocks compress size m h bs) (bs.drop (m * size)) := by
  induction m generalizing h bs with
  | zero => simp [blocks]
  | succ m ih =>
      rw [Nat.succ_add, blocks, ih, blocks, List.drop_drop, Nat.succ_mul, Nat.add_comm size]

/-- Only whole blocks are looked at. -/
theorem blocks_append (hn : n * size ≤ a.length) :
    blocks compress size n h (a ++ b) = blocks compress size n h a := by
  induction n generalizing h a with
  | zero => rfl
  | succ n ih =>
      rw [Nat.succ_mul] at hn
      have hRest : n * size ≤ (a.drop size).length := by
        rw [List.length_drop]
        omega
      rw [blocks, blocks, List.take_append_of_le_length (by omega),
        List.drop_append_of_le_length (by omega), ih hRest]

/-- Another view of the states that compresses in the same way gives the same view of the end. -/
theorem blocks_map {View : Type*} {compress' : View → List Byte → View} (view : State → View)
    (hStep : ∀ h bs, view (compress h bs) = compress' (view h) bs) :
    view (blocks compress size n h bs) = blocks compress' size n (view h) bs := by
  induction n generalizing h bs with
  | zero => rfl
  | succ n ih => rw [blocks, ih, hStep, blocks]

/-- Two portions are taken as one. -/
theorem absorb_append (hSize : 0 < size) :
    absorb compress size (absorb compress size s a) b = absorb compress size s (a ++ b) := by
  obtain ⟨h, kept⟩ := s
  have hFirst := Nat.div_mul_le_self (kept ++ a).length size
  have hTotal : (kept ++ (a ++ b)).length / size =
      (kept ++ a).length / size +
        ((kept ++ a).drop ((kept ++ a).length / size * size) ++ b).length / size := by
    have hSum : (kept ++ (a ++ b)).length =
        ((kept ++ a).drop ((kept ++ a).length / size * size) ++ b).length +
          (kept ++ a).length / size * size := by
      rw [← List.append_assoc, @List.length_append _ (kept ++ a), @List.length_append _ _ b,
        List.length_drop]
      omega
    rw [hSum, Nat.add_mul_div_right _ _ hSize, Nat.add_comm]
  have hDrop : (kept ++ (a ++ b)).drop ((kept ++ a).length / size * size) =
      (kept ++ a).drop ((kept ++ a).length / size * size) ++ b := by
    rw [← List.append_assoc, List.drop_append_of_le_length hFirst]
  unfold absorb
  dsimp only
  rw [hTotal, blocks_add, Nat.add_mul, ← List.drop_drop, hDrop, ← List.append_assoc,
    blocks_append hFirst]

end BlockHash
