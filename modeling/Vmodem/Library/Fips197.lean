import Mathlib.Data.List.OfFn
import Mathlib.Data.UInt
import Mathlib.Tactic.FinCases

/-! AES-128 as FIPS 197 describes it, on a state of four rows and four columns of bytes, and
that its inverse cipher undoes its cipher. The S-box is given by what it is, the inverse in
the field of 256 elements and an affine map, not by a table. -/

namespace Fips197

abbrev Byte := UInt8

section Field

/-- Multiplication by the polynomial `x`. -/
def xtime (b : Byte) : Byte := if b &&& 0x80 = 0 then b <<< 1 else b <<< 1 ^^^ 0x1B

/-- The sum of `b` times the `n` low powers of `x` that `a` has. -/
def mulBits : Nat → Nat → Byte → Byte
  | 0, _, _ => 0
  | n + 1, a, b => (if a % 2 = 1 then b else 0) ^^^ mulBits n (a / 2) (xtime b)

/-- The product in the field. -/
def mul (a b : Byte) : Byte := mulBits 8 a.toNat b

def rotate (b k : Byte) : Byte := b <<< k ||| b >>> (8 - k)

def affine (b : Byte) : Byte :=
  b ^^^ rotate b 1 ^^^ rotate b 2 ^^^ rotate b 3 ^^^ rotate b 4 ^^^ 0x63

/-- An S-box and its inverse: the affine image of the inverse in the field, 0 taken as the
inverse of 0. -/
structure Sbox where
  sub : Byte → Byte
  unsub : Byte → Byte
  sub_zero : sub 0 = affine 0
  sub_inverse : ∀ b, b ≠ 0 → ∃ i, mul b i = 1 ∧ sub b = affine i
  unsub_sub : ∀ b, unsub (sub b) = b

end Field

/-- A state: row, column. -/
abbrev State := Fin 4 → Fin 4 → Byte

local instance four_neZero : NeZero 4 := ⟨by decide⟩

variable (S : Sbox)

section Steps

def subBytes (s : State) : State := fun r c => S.sub (s r c)

def invSubBytes (s : State) : State := fun r c => S.unsub (s r c)

def shiftRows (s : State) : State := fun r c => s r (c + r)

def invShiftRows (s : State) : State := fun r c => s r (c - r)

def mixColumns (s : State) : State := fun r c =>
  mul 0x02 (s r c) ^^^ mul 0x03 (s (r + 1) c) ^^^ s (r + 2) c ^^^ s (r + 3) c

def invMixColumns (s : State) : State := fun r c =>
  mul 0x0E (s r c) ^^^ mul 0x0B (s (r + 1) c) ^^^ mul 0x0D (s (r + 2) c) ^^^ mul 0x09 (s (r + 3) c)

def addRoundKey (s k : State) : State := fun r c => s r c ^^^ k r c

end Steps

section Schedule

abbrev Word := Fin 4 → Byte

def rcon (j : Nat) : Word := fun r => if r = 0 then xtime^[j - 1] 1 else 0

def subRotWord (w : Word) : Word := fun r => S.sub (w (r + 1))

/-- Word `i` of the key schedule. -/
def keyWord (key : List Byte) (i : Nat) : Word :=
  if i < 4 then fun r => key.getD (4 * i + r) 0
  else if i % 4 = 0 then
    fun r => keyWord key (i - 4) r ^^^ (subRotWord S (keyWord key (i - 1)) r ^^^ rcon (i / 4) r)
  else fun r => keyWord key (i - 4) r ^^^ keyWord key (i - 1) r
termination_by i

def roundKey (key : List Byte) (n : Nat) : State := fun r c => keyWord S key (4 * n + c) r

end Schedule

section Cipher

variable (k : Nat → State)

/-- The state after `n` full rounds. -/
def rounds : Nat → State → State
  | 0, s => addRoundKey s (k 0)
  | n + 1, s => addRoundKey (mixColumns (shiftRows (subBytes S (rounds n s)))) (k (n + 1))

/-- `n` full rounds of the inverse cipher, down to the key of round 1. -/
def invRounds : Nat → State → State
  | 0, s => s
  | n + 1, s =>
      invRounds n (invMixColumns (addRoundKey (invSubBytes S (invShiftRows s)) (k (n + 1))))

/-- The cipher with the keys of its ten rounds. -/
def cipher (s : State) : State := addRoundKey (shiftRows (subBytes S (rounds S k 9 s))) (k 10)

def invCipher (s : State) : State :=
  addRoundKey (invSubBytes S (invShiftRows (invRounds S k 9 (addRoundKey s (k 10))))) (k 0)

end Cipher

/-- The state of 16 bytes, column by column. -/
def load (bs : List Byte) : State := fun r c => bs.getD (r + 4 * c) 0

section FieldLemmas

variable {a b c : Byte}

/-- What holds of all 256 numbers holds of every byte. -/
theorem forall_byte {P : Byte → Prop} (h : ∀ n : Fin 256, P (UInt8.ofNat n)) (b : Byte) : P b := by
  have hb := h ⟨b.toNat, b.toNat_lt⟩
  rwa [UInt8.ofNat_toNat] at hb

/-- Multiplication by x without a case on the high bit: the reduction is spelled with
shifts. -/
theorem xtime_eq (b : Byte) :
    xtime b = b <<< 1 ^^^ b >>> 7 ^^^ (b >>> 7) <<< 1 ^^^ (b >>> 7) <<< 3 ^^^ (b >>> 7) <<< 4 := by
  apply forall_byte (P := fun b =>
    xtime b = b <<< 1 ^^^ b >>> 7 ^^^ (b >>> 7) <<< 1 ^^^ (b >>> 7) <<< 3 ^^^ (b >>> 7) <<< 4)
  decide +kernel

theorem xtime_xor : xtime (a ^^^ b) = xtime a ^^^ xtime b := by
  simp only [xtime_eq, UInt8.shiftLeft_xor, UInt8.shiftRight_xor]
  ac_rfl

/-- The multiples that occur. -/
theorem mul_small : mul 0x02 b = xtime b ∧ mul 0x03 b = b ^^^ xtime b ∧
    mul 0x09 b = b ^^^ xtime (xtime (xtime b)) ∧
    mul 0x0B b = b ^^^ (xtime b ^^^ xtime (xtime (xtime b))) ∧
    mul 0x0D b = b ^^^ (xtime (xtime b) ^^^ xtime (xtime (xtime b))) ∧
    mul 0x0E b = xtime b ^^^ (xtime (xtime b) ^^^ xtime (xtime (xtime b))) := by
  simp [mul, mulBits]

theorem xor_left_cancel (a b : Byte) : a ^^^ (a ^^^ b) = b := by
  rw [← UInt8.xor_assoc, UInt8.xor_self, UInt8.zero_xor]

theorem xor_left_comm (a b c : Byte) : a ^^^ (b ^^^ c) = b ^^^ (a ^^^ c) := by
  rw [← UInt8.xor_assoc, UInt8.xor_comm a, UInt8.xor_assoc]

theorem mul_xor (a b c : Byte) : mul a (b ^^^ c) = mul a b ^^^ mul a c := by
  have hBits (n m : Nat) (b c : Byte) : mulBits n m (b ^^^ c) = mulBits n m b ^^^
    mulBits n m c := by
    induction n generalizing m b c with
    | zero => simp only [mulBits, UInt8.xor_zero]
    | succ n ih =>
        rw [mulBits, mulBits, mulBits, xtime_xor, ih]
        split
        · ac_rfl
        · simp only [UInt8.zero_xor]
  exact hBits 8 a.toNat b c

/-- A row of the matrix of InvMixColumns against the columns of that of MixColumns. -/
theorem mul_row (b : Byte) :
    mul 0x0E (mul 0x02 b) ^^^ mul 0x0B b ^^^ mul 0x0D b ^^^ mul 0x09 (mul 0x03 b) = b ∧
    mul 0x0E (mul 0x03 b) ^^^ mul 0x0B (mul 0x02 b) ^^^ mul 0x0D b ^^^ mul 0x09 b = 0 ∧
    mul 0x0E b ^^^ mul 0x0B (mul 0x03 b) ^^^ mul 0x0D (mul 0x02 b) ^^^ mul 0x09 b = 0 ∧
    mul 0x0E b ^^^ mul 0x0B b ^^^ mul 0x0D (mul 0x03 b) ^^^ mul 0x09 (mul 0x02 b) = 0 := by
  simp only [mul_small, xtime_xor, UInt8.xor_comm, xor_left_comm, UInt8.xor_self,
    xor_left_cancel, UInt8.xor_zero, and_self]

/-- One row of the inverse column matrix against the four rows of the column matrix: the
coefficients collapse to the identity. -/
theorem invMix_mix (x0 x1 x2 x3 : Byte) :
    mul 0x0E (mul 0x02 x0 ^^^ mul 0x03 x1 ^^^ x2 ^^^ x3) ^^^
      mul 0x0B (mul 0x02 x1 ^^^ mul 0x03 x2 ^^^ x3 ^^^ x0) ^^^
      mul 0x0D (mul 0x02 x2 ^^^ mul 0x03 x3 ^^^ x0 ^^^ x1) ^^^
      mul 0x09 (mul 0x02 x3 ^^^ mul 0x03 x0 ^^^ x1 ^^^ x2) = x0 := by
  obtain ⟨h0, -⟩ := mul_row x0
  obtain ⟨-, h1, -⟩ := mul_row x1
  obtain ⟨-, -, h2, -⟩ := mul_row x2
  obtain ⟨-, -, -, h3⟩ := mul_row x3
  calc _ = (mul 0x0E (mul 0x02 x0) ^^^ mul 0x0B x0 ^^^ mul 0x0D x0 ^^^ mul 0x09 (mul 0x03 x0)) ^^^
        (mul 0x0E (mul 0x03 x1) ^^^ mul 0x0B (mul 0x02 x1) ^^^ mul 0x0D x1 ^^^ mul 0x09 x1) ^^^
        (mul 0x0E x2 ^^^ mul 0x0B (mul 0x03 x2) ^^^ mul 0x0D (mul 0x02 x2) ^^^ mul 0x09 x2) ^^^
        (mul 0x0E x3 ^^^ mul 0x0B x3 ^^^ mul 0x0D (mul 0x03 x3) ^^^ mul 0x09 (mul 0x02 x3)) := by
        simp only [mul_xor]
        ac_rfl
    _ = x0 := by rw [h0, h1, h2, h3, UInt8.xor_zero, UInt8.xor_zero, UInt8.xor_zero]

end FieldLemmas

section Inverse

variable {S} {s k : State} {ks : Nat → State}

/-- The inverse substitution undoes the substitution, for any table that has an inverse.
-/
theorem invSubBytes_subBytes : invSubBytes S (subBytes S s) = s := by
  funext r c
  exact S.unsub_sub (s r c)

theorem invShiftRows_shiftRows : invShiftRows (shiftRows s) = s := by
  funext r c
  simp [invShiftRows, shiftRows]

theorem invMixColumns_mixColumns : invMixColumns (mixColumns s) = s := by
  funext r c
  fin_cases r <;> apply invMix_mix

theorem addRoundKey_addRoundKey : addRoundKey (addRoundKey s k) k = s := by
  funext r c
  rw [addRoundKey, addRoundKey, UInt8.xor_assoc, UInt8.xor_self, UInt8.xor_zero]

/-- The inverse rounds undo the rounds, from the last substitution back to the first key
addition. The induction is on the number of rounds. -/
theorem invRounds_rounds (n : Nat) : invRounds S ks n (shiftRows (subBytes S (rounds S ks n s))) =
    shiftRows (subBytes S (addRoundKey s (ks 0))) := by
  induction n with
  | zero => rfl
  | succ n ih =>
      rw [rounds, invRounds, invShiftRows_shiftRows, invSubBytes_subBytes, addRoundKey_addRoundKey,
        invMixColumns_mixColumns, ih]

/-- The inverse cipher undoes the cipher. -/
theorem invCipher_cipher : invCipher S ks (cipher S ks s) = s := by
  rw [invCipher, cipher, addRoundKey_addRoundKey, invRounds_rounds, invShiftRows_shiftRows,
    invSubBytes_subBytes, addRoundKey_addRoundKey]

end Inverse

end Fips197
