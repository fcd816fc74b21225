import Mathlib.Algebra.Ring.Nat
import Mathlib.Tactic.Common
import Vmodem.Library.BlockHash

/-! SHA-256 as FIPS 180-4 describes it, on messages that are whole bytes. The constants are
given by what they are, the first bits of certain roots, not by a table. -/

namespace Fips180

abbrev Word := BitVec 32

/-- The first 64 primes. -/
def primes : List Nat :=
  [2, 3, 5, 7, 11, 13, 17, 19, 23, 29, 31, 37, 41, 43, 47, 53, 59, 61, 67, 71, 73, 79, 83, 89, 97,
    101, 103, 107, 109, 113, 127, 131, 137, 139, 149, 151, 157, 163, 167, 173, 179, 181, 191, 193,
    197, 199, 211, 223, 227, 229, 233, 239, 241, 251, 257, 263, 269, 271, 277, 281, 283, 293, 307,
    311]

/-- The word is the first 32 bits of the fractional part of the `k`-th root of `p`, whose
whole part is small. -/
def RootBits (k p : Nat) (w : Word) : Prop :=
  ∃ whole < 8, (whole * 2 ^ 32 + w.toNat) ^ k ≤ p * 2 ^ (32 * k) ∧
    p * 2 ^ (32 * k) < (whole * 2 ^ 32 + w.toNat + 1) ^ k

instance (k p : Nat) (w : Word) : Decidable (RootBits k p w) :=
  inferInstanceAs (Decidable (∃ whole < 8, _ ∧ _))

/-- The constants: cube roots for the rounds, square roots for the initial hash value. -/
structure Constants where
  k : Nat → Word
  h : Nat → Word
  cubeRoots : ∀ t < 64, RootBits 3 (primes.getD t 0) (k t)
  squareRoots : ∀ j < 8, RootBits 2 (primes.getD j 0) (h j)

section Functions

def ch (x y z : Word) : Word := (x &&& y) ^^^ (~~~x &&& z)

def maj (x y z : Word) : Word := (x &&& y) ^^^ (x &&& z) ^^^ (y &&& z)

/-- The functions written with a capital sigma. -/
def bigSigma0 (x : Word) : Word := x.rotateRight 2 ^^^ x.rotateRight 13 ^^^ x.rotateRight 22

def bigSigma1 (x : Word) : Word := x.rotateRight 6 ^^^ x.rotateRight 11 ^^^ x.rotateRight 25

def smallSigma0 (x : Word) : Word := x.rotateRight 7 ^^^ x.rotateRight 18 ^^^ x >>> 3

def smallSigma1 (x : Word) : Word := x.rotateRight 17 ^^^ x.rotateRight 19 ^^^ x >>> 10

end Functions

/-- The message schedule of a block of 16 words. -/
def schedule (m : Nat → Word) (t : Nat) : Word :=
  if t < 16 then m t
  else smallSigma1 (schedule m (t - 2)) + schedule m (t - 7) + smallSigma0 (schedule m (t - 15)) +
    schedule m (t - 16)
termination_by t

/-- The working variables, or a hash value. -/
@[ext] structure Vars where
  a : Word
  b : Word
  c : Word
  d : Word
  e : Word
  f : Word
  g : Word
  h : Word

def round (k w : Word) (v : Vars) : Vars :=
  let t1 := v.h + bigSigma1 v.e + ch v.e v.f v.g + k + w
  let t2 := bigSigma0 v.a + maj v.a v.b v.c
  ⟨t1 + t2, v.a, v.b, v.c, v.d + t1, v.e, v.f, v.g⟩

variable (K : Constants)

/-- The first `n` rounds. -/
def rounds (m : Nat → Word) : Nat → Vars → Vars
  | 0, v => v
  | t + 1, v => round (K.k t) (schedule m t) (rounds m t v)

/-- A word of a block, high byte first. -/
def word (block : List UInt8) (j : Nat) : Word :=
  BitVec.ofNat 32 ((block.getD (4 * j) 0).toNat * 2 ^ 24 +
    ((block.getD (4 * j + 1) 0).toNat * 2 ^ 16 +
    ((block.getD (4 * j + 2) 0).toNat * 2 ^ 8 + (block.getD (4 * j + 3) 0).toNat)))

/-- A hash value and the next block. -/
def compress (h : Vars) (block : List UInt8) : Vars :=
  let v := rounds K (word block) 64 h
  ⟨v.a + h.a, v.b + h.b, v.c + h.c, v.d + h.d, v.e + h.e, v.f + h.f, v.g + h.g, v.h + h.h⟩

/-- The length in bits, in 64 bits. -/
def lengthBytes (n : Nat) : List UInt8 := (List.range 8).map fun i => .ofNat (n / 256 ^ (7 - i))

/-- A one, as many zeros as it takes, the length. -/
def pad (message : List UInt8) : List UInt8 :=
  message ++ ([0x80] ++ List.replicate ((119 - message.length % 64) % 64) 0 ++
    lengthBytes (8 * message.length))

def initial : Vars := ⟨K.h 0, K.h 1, K.h 2, K.h 3, K.h 4, K.h 5, K.h 6, K.h 7⟩

/-- The four bytes of a word. -/
def wordBytes (w : Word) : List UInt8 :=
  [.ofNat (w.toNat / 2 ^ 24), .ofNat (w.toNat / 2 ^ 16), .ofNat (w.toNat / 2 ^ 8), .ofNat w.toNat]

def Vars.bytes (v : Vars) : List UInt8 :=
  [v.a, v.b, v.c, v.d, v.e, v.f, v.g, v.h].flatMap wordBytes

/-- SHA-256. -/
def digest (message : List UInt8) : List UInt8 :=
  (BlockHash.blocks (compress K) 64 ((pad message).length / 64) (initial K) (pad message)).bytes

section Lemmas

variable {K} {k p : Nat} {v w : Word} {m : Nat → Word} {t : Nat}

/-- A smaller power of the same degree has a smaller base. -/
theorem base_lt {a b : Nat} (h : a ^ k < b ^ k) : a < b :=
  Nat.lt_of_not_le fun hLe => Nat.not_lt.mpr (Nat.pow_le_pow_left hLe k) h

/-- A root has one fractional part. -/
theorem RootBits.unique (hv : RootBits k p v) (hw : RootBits k p w) : v = w := by
  obtain ⟨a, -, hLow, hHigh⟩ := hv
  obtain ⟨b, -, hLow', hHigh'⟩ := hw
  have hLe : a * 2 ^ 32 + v.toNat ≤ b * 2 ^ 32 + w.toNat :=
    Nat.le_of_lt_succ (base_lt (Nat.lt_of_le_of_lt hLow hHigh'))
  have hGe : b * 2 ^ 32 + w.toNat ≤ a * 2 ^ 32 + v.toNat :=
    Nat.le_of_lt_succ (base_lt (Nat.lt_of_le_of_lt hLow' hHigh))
  have hv := v.isLt
  have hw := w.isLt
  apply BitVec.eq_of_toNat_eq
  omega

theorem schedule_first (h : t < 16) : schedule m t = m t := by
  rw [schedule, if_pos h]

/-- From the sixteenth on, a word of the schedule is made from four earlier ones. -/
theorem schedule_next (h : 16 ≤ t) : schedule m t = smallSigma1 (schedule m (t - 2)) +
    schedule m (t - 7) + smallSigma0 (schedule m (t - 15)) + schedule m (t - 16) := by
  rw [schedule, if_neg (by omega)]

end Lemmas

end Fips180
