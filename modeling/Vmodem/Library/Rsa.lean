import Mathlib.FieldTheory.Finite.Basic
import Vmodem.Library.Radix

/-! RSA with two primes, and the encryption blocks of PKCS #1 v1.5: a private exponent undoes the
public one, and the message is found again behind its padding. -/

namespace Rsa

/-- A private key. -/
structure Key where
  p : Nat
  q : Nat
  e : Nat
  d : Nat
  prime_p : p.Prime
  prime_q : q.Prime
  distinct : p ≠ q
  exponents : e * d % ((p - 1) * (q - 1)) = 1

/-- The modulus. -/
def Key.n (key : Key) : Nat := key.p * key.q

section Powers

/-- A power whose exponent is 1 modulo `p - 1` changes nothing modulo the prime. -/
theorem pow_modEq {p k : Nat} (hp : p.Prime) (c : Nat) (hk : k = 1 + (p - 1) * c) (m : Nat) :
    m ^ k ≡ m [MOD p] := by
  rw [hk]
  by_cases hDvd : p ∣ m
  · have hZero : m ≡ 0 [MOD p] := (Nat.modEq_zero_iff_dvd).mpr hDvd
    calc m ^ (1 + (p - 1) * c) = m * m ^ ((p - 1) * c) := by rw [Nat.pow_add, Nat.pow_one]
      _ ≡ 0 * m ^ ((p - 1) * c) [MOD p] := hZero.mul_right _
      _ = 0 := Nat.zero_mul _
      _ ≡ m [MOD p] := hZero.symm
  · have hFermat : m ^ (p - 1) ≡ 1 [MOD p] := by
      rw [← Nat.totient_prime hp]
      exact Nat.ModEq.pow_totient ((Nat.Prime.coprime_iff_not_dvd hp).mpr hDvd).symm
    calc
      m ^ (1 + (p - 1) * c) = m * (m ^ (p - 1)) ^ c := by
        rw [Nat.pow_add, Nat.pow_one, Nat.pow_mul]
      _ ≡ m * 1 ^ c [MOD p] := (hFermat.pow c).mul_left m
      _ = m := by rw [Nat.one_pow, Nat.mul_one]

variable (key : Key)

/-- Decryption undoes encryption for every message below the modulus, also one that
shares a factor with it. -/
theorem decrypt_encrypt (m : Nat) (h : m < key.n) : (m ^ key.e % key.n) ^ key.d % key.n = m := by
  have hSplit : key.e * key.d = 1 + (key.p - 1) * (key.q - 1) *
    (key.e * key.d / ((key.p - 1) * (key.q - 1))) := by
    have hDiv := Nat.mod_add_div (key.e * key.d) ((key.p - 1) * (key.q - 1))
    rw [key.exponents] at hDiv
    exact hDiv.symm
  have hP : m ^ (key.e * key.d) ≡ m [MOD key.p] :=
    pow_modEq key.prime_p _ (hSplit.trans (by rw [Nat.mul_assoc])) m
  have hQ : m ^ (key.e * key.d) ≡ m [MOD key.q] :=
    pow_modEq key.prime_q _ (hSplit.trans (by rw [Nat.mul_comm (key.p - 1), Nat.mul_assoc])) m
  have hCoprime : key.p.Coprime key.q :=
    (Nat.coprime_primes key.prime_p key.prime_q).mpr key.distinct
  have hBoth : m ^ (key.e * key.d) ≡ m [MOD key.n] :=
    (Nat.modEq_and_modEq_iff_modEq_mul hCoprime).mp ⟨hP, hQ⟩
  calc (m ^ key.e % key.n) ^ key.d % key.n = m ^ (key.e * key.d) % key.n := by
        rw [← Nat.pow_mod, Nat.pow_mul]
    _ = m % key.n := hBoth
    _ = m := Nat.mod_eq_of_lt h

end Powers

section Blocks

/-- The message behind the padding of an encryption block. -/
def unpad : List UInt8 → Option (List UInt8)
  | 0x00 :: 0x02 :: rest =>
      match rest.dropWhile (· ≠ 0) with
      | _ :: msg => some msg
      | [] => none
  | _ => none

/-- A block without a zero byte in its padding is unpadded to its message. -/
theorem unpad_block {padding msg : List UInt8} (h : ∀ b ∈ padding, b ≠ 0) :
    unpad ([0x00, 0x02] ++ padding ++ [0x00] ++ msg) = some msg := by
  have hDrop : (padding ++ (0x00 :: msg)).dropWhile (· ≠ 0) = 0x00 :: msg := by
    rw [List.dropWhile_append_of_pos]
    · simp
    · intro b hMem
      simpa using h b hMem
  rw [List.append_assoc, List.append_assoc]
  show (match (padding ++ (0x00 :: msg)).dropWhile (· ≠ 0) with
    | _ :: msg => some msg
    | [] => none) = some msg
  rw [hDrop]

end Blocks

/-- What the owner of the key makes of a ciphertext. -/
def Key.decrypt (key : Key) (len : Nat) (ct : List UInt8) : Option (List UInt8) :=
  unpad (Radix.toOctets len (Radix.ofOctets ct ^ key.d % key.n))

end Rsa
