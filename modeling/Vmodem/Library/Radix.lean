import Mathlib.Data.List.Induction
import Mathlib.Data.Nat.Digits.Defs
import Mathlib.Data.Nat.Size
import Mathlib.Tactic.Common

/-! Numbers in a positional system, and the arithmetic of two methods that go through their
bits from the top: reduction by shifted subtraction and exponentiation by squaring. -/

namespace Radix

variable {base low low' high high' k m n r b e : Nat}

/-- The higher parts decide, unless they are the same. -/
theorem compare_high (hLow : low < base) (hLow' : low' < base) :
    compare (low + base * high) (low' + base * high') =
      (compare high high').then (compare low low') := by
  rcases Nat.lt_trichotomy high high' with hLess | hSame | hMore
  · have hStep : base * (high + 1) ≤ base * high' := Nat.mul_le_mul_left base hLess
    rw [Nat.compare_eq_lt.mpr hLess, Nat.compare_eq_lt.mpr (by rw [Nat.mul_succ] at hStep; omega)]
    rfl
  · subst hSame
    rw [Nat.compare_eq_eq.mpr (Eq.refl high), Nat.compare_eq_ite_lt, Nat.compare_eq_ite_lt]
    simp
  · have hStep : base * (high' + 1) ≤ base * high := Nat.mul_le_mul_left base hMore
    rw [Nat.compare_eq_gt.mpr hMore, Nat.compare_eq_gt.mpr (by rw [Nat.mul_succ] at hStep; omega)]
    rfl

/-- The bits of a number whose higher part is not zero. -/
theorem size_high (hLow : low < 2 ^ k) (hHigh : high ≠ 0) :
    (low + 2 ^ k * high).size = k + high.size := by
  apply Nat.le_antisymm
  · have hTop : high + 1 ≤ 2 ^ high.size := Nat.lt_size_self high
    rw [Nat.size_le, Nat.pow_add]
    calc low + 2 ^ k * high < 2 ^ k * (high + 1) := by rw [Nat.mul_succ]; omega
      _ ≤ 2 ^ k * 2 ^ high.size := Nat.mul_le_mul_left _ hTop
  · obtain ⟨top, hTop⟩ : ∃ top, high.size = top + 1 :=
      Nat.exists_eq_succ_of_ne_zero (by rwa [Ne, Nat.size_eq_zero])
    have hLeast : 2 ^ top ≤ high := Nat.lt_size.mp (by omega)
    rw [hTop, ← Nat.add_assoc, Nat.succ_le_iff, Nat.lt_size, Nat.pow_add]
    calc 2 ^ k * 2 ^ top ≤ 2 ^ k * high := Nat.mul_le_mul_left _ hLeast
      _ ≤ low + 2 ^ k * high := Nat.le_add_left ..

/-- A number shifted so that it still has fewer bits is smaller. -/
theorem shifted_lt (h : m.size + k < r.size) : m * 2 ^ k < r := by
  have hLeast : 2 ^ (m.size + k) ≤ r := Nat.lt_size.mp h
  calc m * 2 ^ k < 2 ^ m.size * 2 ^ k :=
        (Nat.mul_lt_mul_right (Nat.two_pow_pos k)).mpr (Nat.lt_size_self m)
    _ = 2 ^ (m.size + k) := (Nat.pow_add ..).symm
    _ ≤ r := hLeast

/-- One bit more of the exponent: a square, and a product if the bit is set. -/
theorem pow_next : b ^ (e / 2 ^ n) =
    b ^ (e / 2 ^ (n + 1)) * b ^ (e / 2 ^ (n + 1)) * if e.testBit n then b else 1 := by
  have hBit : e / 2 ^ n = e / 2 ^ (n + 1) + e / 2 ^ (n + 1) + (e.testBit n).toNat := by
    rw [Nat.toNat_testBit, Nat.pow_succ, ← Nat.div_div_eq_div_mul]
    omega
  rw [hBit, Nat.pow_add, Nat.pow_add]
  cases e.testBit n <;> simp

section Octets

/-- The number that bytes stand for, the highest first. -/
def ofOctets (bs : List UInt8) : Nat := bs.foldl (fun n b => n * 256 + b.toNat) 0

/-- A number in so many bytes, the highest first. -/
def toOctets (len n : Nat) : List UInt8 :=
  ((List.range len).map fun i => UInt8.ofNat (n / 256 ^ i)).reverse

/-- A number written in `len` octets has that many octets. -/
theorem length_toOctets (len n : Nat) : (toOctets len n).length = len := by
  rw [toOctets, List.length_reverse, List.length_map, List.length_range]

/-- The big-endian value is that of the reversed list as digits to the base 256. -/
theorem ofOctets_eq (bs : List UInt8) :
    ofOctets bs = Nat.ofDigits 256 (bs.reverse.map UInt8.toNat) := by
  induction bs using List.reverseRecOn with
  | nil => rfl
  | append_singleton bs b ih =>
      rw [List.reverse_append, List.reverse_singleton, List.singleton_append, List.map_cons,
        Nat.ofDigits_cons, ← ih, ofOctets, List.foldl_append, ← ofOctets, List.foldl_cons,
          List.foldl_nil]
      omega

/-- A further octet multiplies the value by 256 and is added. -/
theorem ofOctets_concat (bs : List UInt8) (b : UInt8) :
    ofOctets (bs ++ [b]) = ofOctets bs * 256 + b.toNat := by
  rw [ofOctets, List.foldl_append]
  rfl

/-- The last of `len + 1` octets is the remainder by 256, behind the octets of the
quotient. -/
theorem toOctets_succ (len n : Nat) :
    toOctets (len + 1) n = toOctets len (n / 256) ++ [UInt8.ofNat n] := by
  rw [toOctets, List.range_succ_eq_map, List.map_cons, List.reverse_cons, List.map_map,
    Nat.pow_zero,
    Nat.div_one, toOctets]
  congr 3
  funext i
  simp only [Function.comp_apply, Nat.pow_succ', Nat.div_div_eq_div_mul]

/-- A number that fits is read back from its octets. -/
theorem ofOctets_toOctets {len n : Nat} (h : n < 256 ^ len) : ofOctets (toOctets len n) = n := by
  induction len generalizing n with
  | zero => rw [Nat.pow_zero] at h; simp [toOctets, ofOctets, show n = 0 by omega]
  | succ len ih =>
      rw [toOctets_succ, ofOctets_concat, ih (by rw [Nat.pow_succ] at h; omega), UInt8.toNat_ofNat']
      omega

/-- Octets are written back from their value, leading zeros included. -/
theorem toOctets_ofOctets (bs : List UInt8) : toOctets bs.length (ofOctets bs) = bs := by
  induction bs using List.reverseRecOn with
  | nil => rfl
  | append_singleton bs b ih =>
      have hb := b.toNat_lt
      rw [List.length_append, List.length_singleton, toOctets_succ, ofOctets_concat,
        show (ofOctets bs * 256 + b.toNat) / 256 = ofOctets bs by omega, ih]
      congr 2
      apply UInt8.toNat_inj.mp
      rw [UInt8.toNat_ofNat']
      omega

/-- A list of octets is worth less than 256 to its length. -/
theorem ofOctets_lt (bs : List UInt8) : ofOctets bs < 256 ^ bs.length := by
  induction bs using List.reverseRecOn with
  | nil => exact Nat.one_pos
  | append_singleton bs b ih =>
      have hb := b.toNat_lt
      rw [ofOctets_concat, List.length_append, List.length_singleton, Nat.pow_succ]
      omega

/-- A zero in front changes nothing. -/
theorem ofOctets_zero (bs : List UInt8) : ofOctets (0 :: bs) = ofOctets bs := rfl

end Octets

end Radix
