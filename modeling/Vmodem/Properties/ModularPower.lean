import Vmodem.Tls.BignumValue

/-! Modular exponentiation gives the power it should, and the RSA encryption the power of the
padded message. -/

namespace Vmodem.Tls

open BoundedLoop Radix

section Reduction

variable {a m : Bignum}

theorem bnModPass_steady (m : Bignum) : Steady fun _ => bnModPass m := fun _ _ _ => rfl

/-- The reduction ends, whatever the number, unless the modulus is zero. -/
theorem reduction_ends (hZero : bnValue m ≠ 0) (a : Bignum) :
    ∃ r, Ends (fun _ => bnModPass m) a r := by
  have hPasses : ∀ r, True → ∃ _ : Nat, (∃ s, bnModPass m r = .leave s) ∨
      ∃ s, True ∧ bnValue s < bnValue r ∧ bnModPass m r = .again s := by
    intro r _
    rcases bnModPass_cases hZero r with ⟨hLeave, -⟩ | ⟨s, hAgain, -, hSmaller, -⟩
    · exact ⟨0, .inl ⟨r, hLeave⟩⟩
    · exact ⟨0, .inr ⟨s, trivial, hSmaller, hAgain⟩⟩
  exact exists_ends (bnModPass_steady m) hPasses trivial

/-- What is left where it ends. -/
theorem reduction_result (hZero : bnValue m ≠ 0) (hFits : a.length ≤ 2047) {r : Bignum}
    (h : Ends (fun _ => bnModPass m) a r) : bnValue r = bnValue a % bnValue m := by
  obtain ⟨n, hRun⟩ := h
  have hHolds : (run (fun _ => bnModPass m) n a).Holds
      (fun s => s.length = a.length ∧ bnValue s % bnValue m = bnValue a % bnValue m)
      (fun r => bnValue r = bnValue a % bnValue m) := by
    apply run_holds
    · rintro _ s t ⟨hLength, hMod⟩ hAgain
      rcases bnModPass_cases hZero s with ⟨hLeave, -⟩ | ⟨next, hNext, hSame, -, hKept⟩
      · rw [hLeave] at hAgain
        cases hAgain
      · rw [hNext] at hAgain
        cases hAgain
        exact ⟨hSame.trans hLength, hKept.trans hMod⟩
    · rintro _ s t ⟨hLength, hMod⟩ hEnd
      rcases bnModPass_cases hZero s with ⟨hLeave, hLess | hLong⟩ | ⟨next, hNext, -⟩
      · rw [hLeave] at hEnd
        cases hEnd
        rw [← hMod, Nat.mod_eq_of_lt hLess]
      · omega
      · rw [hNext] at hEnd
        cases hEnd
    · rintro _ s t - hStuck
      rcases bnModPass_cases hZero s with ⟨hLeave, -⟩ | ⟨next, hNext, -⟩
      · rw [hLeave] at hStuck
        cases hStuck
      · rw [hNext] at hStuck
        cases hStuck
    · exact ⟨rfl, rfl⟩
  rwa [hRun] at hHolds

/-- Where the loop ends, `bn_mod` trims what is left. -/
theorem bnMod_settles {r : Bignum} (h : Ends (fun _ => bnModPass m) a r) :
    Settles (fun fuel => bnMod fuel a m) (r.take (max (bnStrip m).length (min m.length 1))) := by
  obtain ⟨n, hRun⟩ := h
  refine ⟨n, fun k hLe => ?_⟩
  dsimp only [bnMod]
  rw [(bnModPass_steady m).mono hLe hRun]
  dsimp only
  split
  · rfl
  · rw [List.take_of_length_le (by omega)]

/-- `bn_mod` gives the remainder, in the words of the modulus. -/
theorem bnMod_spec (hZero : bnValue m ≠ 0) (hFits : a.length ≤ 2047) :
    ∃ r, Settles (fun fuel => bnMod fuel a m) r ∧ r.length ≤ m.length ∧
      bnValue r = bnValue a % bnValue m := by
  obtain ⟨r, hEnds⟩ := reduction_ends hZero a
  have hResult := reduction_result hZero hFits hEnds
  refine ⟨_, bnMod_settles hEnds, ?_, ?_⟩
  · have hStrip := length_bnStrip_le m
    exact (List.length_take_le ..).trans (by omega)
  · have hWords : bnValue r < 65536 ^ max (bnStrip m).length (min m.length 1) := by
      calc bnValue r < bnValue m := hResult ▸ Nat.mod_lt _ (Nat.pos_of_ne_zero hZero)
        _ = bnValue (bnStrip m) := (bnValue_strip m).symm
        _ < 65536 ^ (bnStrip m).length := bnValue_lt _
        _ ≤ _ := Nat.pow_le_pow_right (by decide) (Nat.le_max_left ..)
    rw [bnValue_take hWords, hResult]

end Reduction

section Exponentiation

variable {exp mod : Bignum} {n : Nat}

/-- A square or a product, reduced. -/
theorem mulMod_spec (result base : Bignum) (hZero : bnValue mod ≠ 0)
    (hFits : result.length + base.length ≤ 2047) :
    ∃ r, Settles (fun fuel => bnMod fuel (bnMul result base) mod) r ∧ r.length ≤ mod.length ∧
      bnValue r = bnValue result * bnValue base % bnValue mod := by
  rw [← bnValue_mul]
  apply bnMod_spec hZero
  rwa [length_bnMul]

/-- One bit of the exponent after another, from the top: the result is always the power with
the bits so far. -/
theorem bnModpowBits_spec {base result : Bignum} (hZero : bnValue mod ≠ 0)
    (hMod : mod.length ≤ 1023)
    (hBase : base.length ≤ 1023) (hLength : result.length ≤ mod.length)
    (hValue : bnValue result = bnValue base ^ (bnValue exp / 2 ^ n) % bnValue mod) :
    ∃ c, Settles (fun fuel => bnModpowBits fuel base exp mod n result) c ∧
      bnValue c = bnValue base ^ bnValue exp % bnValue mod := by
  induction n generalizing result with
  | zero =>
      rw [Nat.pow_zero, Nat.div_one] at hValue
      exact ⟨result, settles_some result, hValue⟩
  | succ n ih =>
      obtain ⟨square, hSquare, hSquareLength, hSquareValue⟩ :=
        mulMod_spec result result hZero (by omega)
      rw [hValue, ← Nat.mul_mod] at hSquareValue
      by_cases hBit : bnBit exp n
      · obtain ⟨next, hNext, hNextLength, hNextValue⟩ :=
          mulMod_spec square base hZero (by omega)
        have hPower := pow_next (b := bnValue base) (e := bnValue exp) (n := n)
        rw [← bnBit_eq, if_pos hBit] at hPower
        rw [hSquareValue, Nat.mod_mul_mod, ← hPower] at hNextValue
        obtain ⟨c, hRest, hPow⟩ := ih hNextLength hNextValue
        refine ⟨c, ?_, hPow⟩
        simp only [bnModpowBits, hBit, if_true]
        exact hSquare.bind (hNext.bind hRest)
      · have hPower := pow_next (b := bnValue base) (e := bnValue exp) (n := n)
        rw [← bnBit_eq, if_neg hBit, Nat.mul_one] at hPower
        rw [← hPower] at hSquareValue
        obtain ⟨c, hRest, hPow⟩ := ih hSquareLength hSquareValue
        refine ⟨c, ?_, hPow⟩
        simp only [bnModpowBits, hBit, Bool.false_eq_true, if_false]
        exact hSquare.bind ((settles_some square).bind hRest)

/-- `bn_modpow` computes the power modulo its modulus, for operands of at most 1023
words. -/
theorem bnModpow_spec (base exp mod : Bignum) (hBase : base.length ≤ 1023)
    (hExp : exp.length ≤ 1023)
    (hMod : mod.length ≤ 1023) (hTwo : 2 ≤ bnValue mod) :
    ∃ c, Settles (fun fuel => bnModpow fuel base exp mod) c ∧
      bnValue c = bnValue base ^ bnValue exp % bnValue mod := by
  have hBits : (bnBits exp).toNat = (bnValue exp).size := by
    have hSize : (bnValue exp).size ≤ 16 * exp.length := by
      rw [Nat.size_le, Nat.pow_mul]
      exact bnValue_lt exp
    rw [bnBits_eq, int16_of_lt (by omega) (by omega), Int.toNat_natCast]
  have hOne : ([1] : Bignum).length ≤ mod.length := bnValue_pos_length (by omega)
  simp only [bnModpow, hBits]
  apply bnModpowBits_spec (by omega) hMod hBase hOne
  rw [Nat.div_eq_of_lt (Nat.lt_size_self _), Nat.pow_zero, Nat.mod_eq_of_lt hTwo]
  rfl

end Exponentiation

section Encryption

variable {rand : Rand} {n e msg : List UInt8}

/-- The padded block is as long as the modulus. -/
theorem length_pkcs1 (h : msg.length + 11 ≤ n.length) :
    (pkcs1 rand n.length msg).length = n.length := by
  simp only [pkcs1, List.length_append, List.length_cons, List.length_nil, List.length_map,
    List.length_range]
  omega

/-- The block that is encrypted is the message behind bytes that are not zero. -/
theorem pkcs1_form (rand : Rand) (n msg : List UInt8) : ∃ padding : List UInt8,
    padding.length = n.length - msg.length - 3 ∧ (∀ b ∈ padding, b ≠ 0) ∧
      pkcs1 rand n.length msg = [0, 2] ++ padding ++ [0] ++ msg := by
  refine ⟨_, ?_, ?_, rfl⟩
  · rw [List.length_map, List.length_range]
  · intro b hMem
    obtain ⟨i, -, rfl⟩ := List.mem_map.mp hMem
    exact rand.pad_ne_zero i

/-- `rsa_encrypt` raises the padded block to the exponent, and writes the result in as
many bytes as the modulus has. -/
theorem rsaEncrypt_spec (hN : n.length ≤ 2046) (hE : e.length ≤ 2046) (hTwo : 2 ≤ ofOctets n)
    (hRoom : msg.length + 11 ≤ n.length) :
    Settles (fun fuel => rsaEncrypt fuel rand n e msg) (some (toOctets n.length
      (ofOctets (pkcs1 rand n.length msg) ^ ofOctets e % ofOctets n))) := by
  have hSpec := bnModpow_spec (bnFromBytes (pkcs1 rand n.length msg)) (bnFromBytes e)
    (bnFromBytes n)
  simp only [length_bnFromBytes, length_pkcs1 hRoom, bnValue_fromBytes] at hSpec
  obtain ⟨c, hSettles, hValue⟩ := hSpec (by omega) (by omega) (by omega) hTwo
  simp only [rsaEncrypt, if_neg (show ¬ (n.length : Int) - 11 < msg.length by omega)]
  rw [← hValue, ← bnToBytes_eq]
  exact hSettles.map fun c => some (bnToBytes c n.length)

/-- `bn_modpow` gives the power, and `rsa_encrypt` the power of the padded message as the bytes
of the modulus are. -/
theorem modpow_is_power :
    (∀ base exp mod : Bignum, base.length ≤ 1023 → exp.length ≤ 1023 → mod.length ≤ 1023 →
      2 ≤ bnValue mod → ∃ c, Settles (fun fuel => bnModpow fuel base exp mod) c ∧
        bnValue c = bnValue base ^ bnValue exp % bnValue mod) ∧
    (∀ (rand : Rand) (n e msg : List UInt8), n.length ≤ 2046 → e.length ≤ 2046 →
      2 ≤ ofOctets n → msg.length + 11 ≤ n.length → ∃ padding : List UInt8,
        padding.length = n.length - msg.length - 3 ∧ (∀ b ∈ padding, b ≠ 0) ∧
        Settles (fun fuel => rsaEncrypt fuel rand n e msg) (some (toOctets n.length
          (ofOctets ([0x00, 0x02] ++ padding ++ [0x00] ++ msg) ^ ofOctets e % ofOctets n)))) := by
  refine ⟨bnModpow_spec, fun rand n e msg hN hE hTwo hRoom => ?_⟩
  obtain ⟨padding, hLength, hNonzero, hForm⟩ := pkcs1_form rand n msg
  refine ⟨padding, hLength, hNonzero, ?_⟩
  rw [← hForm]
  exact rsaEncrypt_spec hN hE hTwo hRoom

/-- A generator that only gives ones. -/
def Rand.ones : Rand := ⟨fun _ => 1, fun k => ⟨k, k.le_refl, by decide⟩⟩

/-- A power of two words, and a message of one byte. -/
theorem modpow_is_power_small :
    (∃ c, Settles (fun fuel => bnModpow fuel [3, 0] [5] [7, 0]) c ∧ bnValue c = 5) ∧
      ∃ out, Settles (fun fuel => rsaEncrypt fuel .ones (List.replicate 12 0xC5) [3] [7])
        (some out) ∧ out.length = 12 := by
  constructor
  · obtain ⟨c, hSettles, hValue⟩ := modpow_is_power.1 [3, 0] [5] [7, 0] (by decide) (by decide)
      (by decide) (by decide)
    exact ⟨c, hSettles, hValue.trans (by decide)⟩
  · obtain ⟨padding, -, -, hSettles⟩ := modpow_is_power.2 .ones (List.replicate 12 0xC5) [3] [7]
      (by decide) (by decide) (by decide) (by decide)
    exact ⟨_, hSettles, length_toOctets ..⟩

end Encryption

end Vmodem.Tls
