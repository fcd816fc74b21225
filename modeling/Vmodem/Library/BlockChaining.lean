import Mathlib.Data.List.Basic

/-! Cipher block chaining over a buffer of bytes. The number of blocks is given; what the
buffer holds behind them is left alone. -/

namespace BlockChaining

/-- How a block lies in a buffer. -/
structure Codec (Byte Block : Type*) where
  size : Nat
  get : List Byte → Block
  put : Block → List Byte
  length_put : ∀ b, (put b).length = size
  get_put : ∀ b rest, get (put b ++ rest) = b
  put_get : ∀ bs, size ≤ bs.length → put (get bs) = bs.take size

variable {Byte Block : Type*} (code : Codec Byte Block) (mix : Block → Block → Block)

/-- Encrypt `n` blocks in place; the result keeps the last block for the next call. -/
def encrypt (enc : Block → Block) : Nat → Block → List Byte → List Byte × Block
  | 0, iv, bs => (bs, iv)
  | n + 1, iv, bs =>
      let ct := enc (mix iv (code.get bs))
      (code.put ct ++ (encrypt enc n ct (bs.drop code.size)).1,
        (encrypt enc n ct (bs.drop code.size)).2)

/-- Decrypt `n` blocks in place. -/
def decrypt (dec : Block → Block) : Nat → Block → List Byte → List Byte × Block
  | 0, iv, bs => (bs, iv)
  | n + 1, iv, bs =>
      let ct := code.get bs
      (code.put (mix iv (dec ct)) ++ (decrypt dec n ct (bs.drop code.size)).1,
        (decrypt dec n ct (bs.drop code.size)).2)

variable {code mix} {enc dec : Block → Block} {n : Nat} {iv : Block} {bs : List Byte}

/-- Chaining replaces blocks in place: the ciphertext is as long as the buffer it is
written over. -/
theorem length_encrypt (h : n * code.size ≤ bs.length) :
    (encrypt code mix enc n iv bs).1.length = bs.length := by
  induction n generalizing iv bs with
  | zero => rfl
  | succ n ih =>
      rw [Nat.succ_mul] at h
      have hRest := @ih (enc (mix iv (code.get bs))) (bs.drop code.size)
        (by rw [List.length_drop]; omega)
      rw [List.length_drop] at hRest
      rw [encrypt, List.length_append, code.length_put]
      omega

/-- The decrypted blocks also take the place of the ciphertext, byte for byte. -/
theorem length_decrypt (h : n * code.size ≤ bs.length) :
    (decrypt code mix dec n iv bs).1.length = bs.length := by
  induction n generalizing iv bs with
  | zero => rfl
  | succ n ih =>
      rw [Nat.succ_mul] at h
      have hRest := @ih (code.get bs) (bs.drop code.size)
        (by rw [List.length_drop]; omega)
      rw [List.length_drop] at hRest
      rw [decrypt, List.length_append, code.length_put]
      omega

/-- Decryption with the same initial block undoes encryption, whatever comes behind. -/
theorem decrypt_encrypt (hInverse : ∀ b, dec (enc b) = b) (hCancel : ∀ a b, mix a (mix a b) = b)
    (h : n * code.size ≤ bs.length) :
    (decrypt code mix dec n iv (encrypt code mix enc n iv bs).1).1 = bs := by
  induction n generalizing iv bs with
  | zero => rfl
  | succ n ih =>
      rw [Nat.succ_mul] at h
      have hRest := @ih (enc (mix iv (code.get bs))) (bs.drop code.size)
        (by rw [List.length_drop]; omega)
      have hDrop (b : Block) (rest : List Byte) : (code.put b ++ rest).drop code.size = rest :=
        List.drop_left' (code.length_put b)
      rw [encrypt, decrypt]
      simp only [code.get_put, hDrop, hInverse, hCancel, hRest]
      rw [code.put_get _ (by omega), List.take_append_drop]

section Blocks

/-- Block `j` of a buffer. -/
def blockAt (code : Codec Byte Block) (bs : List Byte) (j : Nat) : Block :=
  code.get (bs.drop (j * code.size))

/-- What block `j` is mixed with: the initial block, or the one before it in the buffer. -/
def previous (code : Codec Byte Block) (iv : Block) (bs : List Byte) : Nat → Block
  | 0 => iv
  | j + 1 => blockAt code bs j

variable {j : Nat} {b : Block} {rest : List Byte}

/-- The block just written in front is read back as block zero. -/
theorem blockAt_put_zero : blockAt code (code.put b ++ rest) 0 = b := by
  rw [blockAt, Nat.zero_mul, List.drop_zero, code.get_put]

theorem blockAt_put_succ : blockAt code (code.put b ++ rest) (j + 1) = blockAt code rest j := by
  rw [blockAt, blockAt, Nat.succ_mul, Nat.add_comm, ← List.drop_drop,
    List.drop_left' (code.length_put b)]

/-- What a block is chained to, seen from behind the first block: the first block takes
the place of the initialization vector. -/
theorem previous_put (j : Nat) :
    previous code iv (code.put b ++ rest) (j + 1) = previous code b rest j := by
  cases j with
  | zero => exact blockAt_put_zero
  | succ j => exact blockAt_put_succ

theorem blockAt_drop : blockAt code (bs.drop code.size) j = blockAt code bs (j + 1) := by
  rw [blockAt, blockAt, List.drop_drop, Nat.succ_mul, Nat.add_comm]

theorem previous_drop (j : Nat) :
    previous code (blockAt code bs 0) (bs.drop code.size) j = previous code iv bs (j + 1) := by
  cases j with
  | zero => rfl
  | succ j => exact blockAt_drop

/-- Block `j` of the ciphertext, from the ciphertext before it. -/
theorem blockAt_encrypt (hj : j < n) : blockAt code (encrypt code mix enc n iv bs).1 j =
    enc (mix (previous code iv (encrypt code mix enc n iv bs).1 j) (blockAt code bs j)) := by
  induction n generalizing iv bs j with
  | zero => omega
  | succ n ih =>
      cases j with
      | zero =>
          rw [encrypt, blockAt_put_zero, previous, blockAt, Nat.zero_mul, List.drop_zero]
      | succ j =>
          rw [encrypt, blockAt_put_succ, previous_put, ih (by omega), blockAt_drop]

/-- Block `j` of the plaintext, from the ciphertext alone. -/
theorem blockAt_decrypt (hj : j < n) : blockAt code (decrypt code mix dec n iv bs).1 j =
    mix (previous code iv bs j) (dec (blockAt code bs j)) := by
  induction n generalizing iv bs j with
  | zero => omega
  | succ n ih =>
      have hFirst : code.get bs = blockAt code bs 0 := by
        rw [blockAt, Nat.zero_mul, List.drop_zero]
      cases j with
      | zero => rw [decrypt, blockAt_put_zero, previous, hFirst]
      | succ j =>
          rw [decrypt, blockAt_put_succ, ih (by omega), blockAt_drop, hFirst, previous_drop]

/-- What is behind the last block stays. -/
theorem drop_encrypt :
    (encrypt code mix enc n iv bs).1.drop (n * code.size) = bs.drop (n * code.size) := by
  induction n generalizing iv bs with
  | zero => rfl
  | succ n ih =>
      rw [encrypt, Nat.succ_mul, Nat.add_comm, ← List.drop_drop,
        List.drop_left' (code.length_put _), ih,
        List.drop_drop]

/-- Only the first `n` blocks are decrypted. The bytes behind them stay as they were. -/
theorem drop_decrypt :
    (decrypt code mix dec n iv bs).1.drop (n * code.size) = bs.drop (n * code.size) := by
  induction n generalizing iv bs with
  | zero => rfl
  | succ n ih =>
      rw [decrypt, Nat.succ_mul, Nat.add_comm, ← List.drop_drop,
        List.drop_left' (code.length_put _), ih,
        List.drop_drop]

end Blocks

end BlockChaining
