import Vmodem.Properties.ModularPower
import Vmodem.Tls.Asn1

/-! When the RSA encryption ends. The reduction subtracts a zero modulus for ever. -/

namespace Vmodem.Tls

open BoundedLoop Radix

section ZeroModulus

variable {a m : Bignum}

/-- The bit count of a number is one of a 16-bit int. -/
theorem bnBits_range (b : Bignum) : int16 (bnBits b - 0) = bnBits b := by
  rw [bnBits_eq]
  unfold int16
  omega

/-- A pass leaves the number as it is, if an `int` counts its bits. -/
theorem bnModPass_zero (hZero : bnValue m = 0) :
    bnModPass m a = if bnBits a < 0 then .leave a else .again a := by
  have hBits : bnBits m = 0 := by rw [bnBits_eq, hZero]; rfl
  have hCmp : bnCmp a m ≠ .lt := by rw [bnCmp_eq, Ne, Nat.compare_eq_lt, hZero]; omega
  rw [bnModPass, if_neg hCmp, hBits, bnBits_range]
  dsimp only
  by_cases hNegative : bnBits a < 0
  · rw [if_pos hNegative, if_pos hNegative]
  · have hShifted : bnValue (bnShiftLeft m (bnBits a).toNat) = 0 := by
      rw [bnValue_shiftLeft, hZero, Nat.zero_mul]
    have hSame : bnSub a (bnShiftLeft m (bnBits a).toNat) 0 = a := by
      apply bnValue_inj (length_bnSub ..)
      rw [bnValue_sub (by omega), hShifted, Nat.sub_zero]
    have hNotMore : bnCmp (bnShiftLeft m (bnBits a).toNat) a ≠ .gt := by
      rw [bnCmp_eq, Ne, Nat.compare_eq_gt, hShifted]
      omega
    rw [if_neg hNegative, if_neg hNegative, if_neg hNotMore, hSame]

/-- The reduction by zero does not end. -/
theorem bnMod_zero (hZero : bnValue m = 0) (hBits : 0 ≤ bnBits a) (fuel : Nat) :
    bnMod fuel a m = none := by
  have hCut : run (fun _ => bnModPass m) fuel a = .cut a := by
    induction fuel with
    | zero => rfl
    | succ fuel ih => rw [run_again (t := a) (by rw [bnModPass_zero hZero, if_neg (by omega)]), ih]
  dsimp only [bnMod]
  rw [hCut]

/-- `bn_mod` ends exactly for a modulus that is not zero, or a dividend whose bit count
has wrapped below zero. -/
theorem bnMod_settles_iff (a m : Bignum) :
    (∃ r, Settles (fun fuel => bnMod fuel a m) r) ↔ bnValue m ≠ 0 ∨ bnBits a < 0 := by
  constructor
  · rintro ⟨r, n, hRun⟩
    by_contra hNot
    rw [not_or, Ne, not_not, Int.not_lt] at hNot
    exact absurd ((bnMod_zero hNot.1 hNot.2 n).symm.trans (hRun n n.le_refl)) (by simp)
  · rintro (hZero | hNegative)
    · obtain ⟨r, hEnds⟩ := reduction_ends hZero a
      exact ⟨_, bnMod_settles hEnds⟩
    · by_cases hZero : bnValue m = 0
      · exact ⟨_, bnMod_settles (.leave (n := 0) (by rw [bnModPass_zero hZero, if_pos hNegative]))⟩
      · obtain ⟨r, hEnds⟩ := reduction_ends hZero a
        exact ⟨_, bnMod_settles hEnds⟩

end ZeroModulus

section Encryption

variable {rand : Rand} {n e msg : List UInt8} {base exp mod : Bignum}

/-- With a modulus that is not zero the loop of `bn_modpow` ends. The induction is on
the bits of the exponent. -/
theorem bnModpowBits_settles (hZero : bnValue mod ≠ 0) (k : Nat) (result : Bignum) :
    ∃ c, Settles (fun fuel => bnModpowBits fuel base exp mod k result) c := by
  induction k generalizing result with
  | zero => exact ⟨result, settles_some result⟩
  | succ k ih =>
      obtain ⟨square, hSquare⟩ := (bnMod_settles_iff (bnMul result result) mod).mpr (.inl hZero)
      by_cases hBit : bnBit exp k
      · obtain ⟨next, hNext⟩ := (bnMod_settles_iff (bnMul square base) mod).mpr (.inl hZero)
        obtain ⟨c, hRest⟩ := ih next
        refine ⟨c, ?_⟩
        simp only [bnModpowBits, hBit, if_true]
        exact hSquare.bind (hNext.bind hRest)
      · obtain ⟨c, hRest⟩ := ih square
        refine ⟨c, ?_⟩
        simp only [bnModpowBits, hBit, Bool.false_eq_true, if_false]
        exact hSquare.bind ((settles_some square).bind hRest)

/-- The first square is reduced by zero. -/
theorem bnModpow_zero (hZero : bnValue mod = 0) (hBits : 0 < bnBits exp) (fuel : Nat) :
    bnModpow fuel base exp mod = none := by
  obtain ⟨k, hCount⟩ : ∃ k, (bnBits exp).toNat = k + 1 := Nat.exists_eq_succ_of_ne_zero (by omega)
  rw [bnModpow, hCount, bnModpowBits, bnMod_zero hZero (by decide)]
  rfl

/-- With a modulus of zeros the first reduction never ends. -/
theorem rsaEncrypt_hangs (hRoom : msg.length + 11 ≤ n.length) (hZero : ofOctets n = 0)
    (hBits : 0 < bnBits (bnFromBytes e)) (fuel : Nat) : rsaEncrypt fuel rand n e msg = none := by
  rw [rsaEncrypt, if_neg (by omega), bnModpow_zero (by rw [bnValue_fromBytes, hZero]) hBits]
  rfl

/-- The encryption of a pre-master secret ends unless the modulus is zero, with room for the
message, and the exponent has bits. The reduction ends unless it is by zero. -/
theorem rsa_ends_iff (rand : Rand) (n e : List UInt8) (hMsg : msg.length = 48) :
    ((∃ out, Settles (fun fuel => rsaEncrypt fuel rand n e msg) out) ↔
      n.length < 59 ∨ ofOctets n ≠ 0 ∨ bnBits (bnFromBytes e) ≤ 0) ∧
    ∀ a m : Bignum, (∃ r, Settles (fun fuel => bnMod fuel a m) r) ↔
      bnValue m ≠ 0 ∨ bnBits a < 0 := by
  refine ⟨⟨?_, ?_⟩, bnMod_settles_iff⟩
  · rintro ⟨out, k, hRun⟩
    by_contra hNot
    simp only [not_or, Nat.not_lt, Ne, not_not, Int.not_le] at hNot
    obtain ⟨hRoom, hZero, hBits⟩ := hNot
    exact absurd ((rsaEncrypt_hangs (by omega) hZero hBits k).symm.trans (hRun k k.le_refl))
      (by simp)
  · intro hCond
    by_cases hShort : n.length < 59
    · exact ⟨none, 0, fun fuel _ => if_pos (by omega)⟩
    · simp only [rsaEncrypt, if_neg (show ¬ (n.length : Int) - 11 < msg.length by omega)]
      have hPower : ∃ c, Settles (fun fuel => bnModpow fuel (bnFromBytes (pkcs1 rand n.length msg))
          (bnFromBytes e) (bnFromBytes n)) c := by
        rcases hCond with hLess | hZero | hBits
        · exact absurd hLess hShort
        · exact bnModpowBits_settles (by rwa [bnValue_fromBytes]) _ _
        · simp only [bnModpow, show (bnBits (bnFromBytes e)).toNat = 0 by omega]
          exact ⟨[1], settles_some _⟩
      obtain ⟨c, hSettles⟩ := hPower
      exact ⟨_, hSettles.map fun c => some (bnToBytes c n.length)⟩

/-- With a modulus of 59 bytes the secret is reduced. -/
theorem rsa_ends_iff_reduced :
    ∃ out, Settles (fun fuel => rsaEncrypt fuel .ones (List.replicate 59 0xC5) [3]
      (List.replicate 48 0xAB)) out :=
  (rsa_ends_iff .ones (List.replicate 59 0xC5) [3] (by decide)).1.mpr
    (.inr (.inl (by decide +kernel)))

/-- A certificate with a modulus of zero bytes and the exponent 1. -/
def zeroModulus : Buffer :=
  .around ([0x30, 0x5C, 0x30, 0x5A, 0xA0, 0x03, 0x02, 0x01, 0x02, 0x02, 0x01, 0x01, 0x30,
    0x00, 0x30, 0x00,
    0x30, 0x00, 0x30, 0x00, 0x30, 0x48, 0x30, 0x00, 0x03, 0x44, 0x00, 0x30, 0x41, 0x02, 0x3C] ++
    List.replicate 60 0x00 ++ [0x02, 0x01, 0x01]) fun _ => 0

/-- Its key is read, and the encryption with it does not end. -/
theorem zero_modulus_hangs : ∃ key, x509ExtractRsa zeroModulus zeroModulus.len = some key ∧
    ∀ rand fuel, rsaEncrypt fuel rand (zeroModulus.bytes key.n.start key.n.len)
      (zeroModulus.bytes key.e.start key.e.len) (List.replicate 48 0xAB) = none := by
  have hKey : x509ExtractRsa zeroModulus zeroModulus.len = some ⟨⟨32, 59⟩, ⟨93, 1⟩⟩ := by
    decide +kernel
  refine ⟨_, hKey, fun rand fuel => ?_⟩
  exact rsaEncrypt_hangs (by decide) (by decide +kernel) (by decide +kernel) fuel

end Encryption

end Vmodem.Tls
