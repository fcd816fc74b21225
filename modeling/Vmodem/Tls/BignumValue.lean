import Vmodem.Library.Radix
import Vmodem.Tls.Bignum
import Mathlib.Data.List.TakeWhile
import Mathlib.Tactic.Ring

/-! What the operations on numbers do to the values of the numbers. -/

namespace Vmodem.Tls

open Radix

/-- The value of a number. -/
def bnValue (b : Bignum) : Nat := Nat.ofDigits 65536 (b.map UInt16.toNat)

section Values

variable {a b lo : Bignum} {w : UInt16} {k n : Nat}

@[simp] theorem bnValue_nil : bnValue [] = 0 := rfl

/-- The first word of a number is its lowest. -/
@[simp] theorem bnValue_cons : bnValue (w :: b) = w.toNat + 65536 * bnValue b := Nat.ofDigits_cons

@[simp] theorem bnValue_zeros : bnValue (List.replicate k 0) = 0 := by
  rw [bnValue, List.map_replicate]
  exact Nat.ofDigits_replicate_zero

/-- Words behind a number weigh 65536 to its length. -/
theorem bnValue_append : bnValue (a ++ b) = bnValue a + 65536 ^ a.length * bnValue b := by
  rw [bnValue, List.map_append, Nat.ofDigits_append, List.length_map, bnValue, bnValue]

/-- A number of `n` words is below 65536 to the `n`. -/
theorem bnValue_lt (b : Bignum) : bnValue b < 65536 ^ b.length := by
  rw [← List.length_map UInt16.toNat]
  apply Nat.ofDigits_lt_base_pow_length (by decide)
  intro x hMem
  obtain ⟨w, -, rfl⟩ := List.mem_map.mp hMem
  exact w.toNat_lt

/-- A number that is not zero has a word. -/
theorem bnValue_pos_length (h : bnValue b ≠ 0) : 0 < b.length := by
  cases b with
  | nil => exact absurd rfl h
  | cons w b => simp

/-- Numbers of the same length with the same value are the same. -/
theorem bnValue_inj (hLength : a.length = b.length) (h : bnValue a = bnValue b) : a = b := by
  induction a generalizing b with
  | nil => exact (List.length_eq_zero_iff.mp hLength.symm).symm
  | cons w a ih =>
      cases b with
      | nil => simp at hLength
      | cons v b =>
          rw [bnValue_cons, bnValue_cons] at h
          have hw := w.toNat_lt
          have hv := v.toNat_lt
          rw [UInt16.toNat_inj.mp (show w.toNat = v.toNat by omega),
            ih (Nat.succ.inj hLength) (by omega)]

/-- The words from one on. -/
theorem bnValue_take_drop (b : Bignum) (n : Nat) :
    bnValue (b.take n) + 65536 ^ (min n b.length) * bnValue (b.drop n) = bnValue b := by
  rw [← List.length_take, ← bnValue_append, List.take_append_drop]

/-- A number that is small enough fits in the words that are kept. -/
theorem bnValue_take (h : bnValue b < 65536 ^ n) : bnValue (b.take n) = bnValue b := by
  have hSplit := bnValue_take_drop b n
  by_cases hLong : b.length ≤ n
  · rw [List.take_of_length_le hLong]
  · rw [Nat.min_eq_left (by omega)] at hSplit
    cases hHigh : bnValue (b.drop n) with
    | zero => rw [← hSplit, hHigh, Nat.mul_zero, Nat.add_zero]
    | succ high =>
        rw [hHigh, Nat.mul_succ] at hSplit
        omega

end Values

section Bits

variable {a b : Bignum} {n : Nat}

/-- Stripping takes away high words, all of them zero. -/
theorem bnStrip_zeros (b : Bignum) : ∃ k, b = bnStrip b ++ List.replicate k 0 := by
  refine ⟨(b.reverse.takeWhile (· = 0)).length, ?_⟩
  have hZeros : b.reverse.takeWhile (· = 0) =
      List.replicate (b.reverse.takeWhile (· = 0)).length 0 := by
    rw [List.eq_replicate_iff]
    refine ⟨rfl, fun w hMem => ?_⟩
    simpa using List.mem_takeWhile_imp hMem
  have hSplit := congrArg List.reverse
    (List.takeWhile_append_dropWhile (p := (· = (0 : UInt16))) (l := b.reverse))
  rw [List.reverse_append, List.reverse_reverse, hZeros, List.reverse_replicate] at hSplit
  exact hSplit.symm

theorem bnValue_strip (b : Bignum) : bnValue (bnStrip b) = bnValue b := by
  obtain ⟨k, hZeros⟩ := bnStrip_zeros b
  conv_rhs => rw [hZeros, bnValue_append, bnValue_zeros, Nat.mul_zero, Nat.add_zero]

theorem length_bnStrip_le (b : Bignum) : (bnStrip b).length ≤ b.length := by
  rw [bnStrip, List.length_reverse, ← b.length_reverse]
  exact (List.dropWhile_suffix _).length_le

/-- The bits of the value, as far as an `int` counts them. -/
theorem bnBits_eq (b : Bignum) : bnBits b = int16 ((bnValue b).size : Nat) := by
  rw [bnBits, ← bnValue_strip]
  cases hTop : (bnStrip b).reverse with
  | nil => rw [List.reverse_eq_nil_iff.mp hTop]; rfl
  | cons top rest =>
      have hPos : top.toNat ≠ 0 := by
        have hHead : b.reverse.dropWhile (· = 0) = top :: rest := by
          rw [← hTop, bnStrip, List.reverse_reverse]
        have hFalse := List.head_dropWhile_not (p := (· = (0 : UInt16))) (l := b.reverse)
          (by simp [hHead])
        simp only [hHead, List.head_cons, decide_eq_false_iff_not] at hFalse
        exact fun h => hFalse (UInt16.toNat_inj.mp h)
      have hWords : bnStrip b = rest.reverse ++ [top] := by
        rw [← List.reverse_reverse (bnStrip b), hTop, List.reverse_cons]
      have hLow := bnValue_lt rest.reverse
      have hBase : 65536 ^ rest.reverse.length = 2 ^ (rest.length * 16) := by
        rw [List.length_reverse, Nat.mul_comm, Nat.pow_mul]
      rw [hBase] at hLow
      rw [hWords, bnValue_append, hBase, bnValue_cons, bnValue_nil, Nat.mul_zero, Nat.add_zero,
        size_high hLow hPos]
      rfl

/-- `bn_bit` tests the bit of the value, also beyond the last word. -/
theorem bnBit_eq (b : Bignum) (n : Nat) : bnBit b n = (bnValue b).testBit n := by
  induction b generalizing n with
  | nil => simp [bnBit]
  | cons w b ih =>
      have hWord : bnValue (w :: b) = 2 ^ 16 * bnValue b + w.toNat := by
        rw [bnValue_cons, Nat.add_comm]; rfl
      rw [hWord, Nat.testBit_two_pow_mul_add _ w.toNat_lt]
      by_cases hLow : n < 16
      · rw [if_pos hLow, bnBit, Nat.div_eq_of_lt hLow, Nat.mod_eq_of_lt hLow, List.getD_cons_zero]
      · obtain ⟨m, rfl⟩ : ∃ m, n = m + 16 := ⟨n - 16, by omega⟩
        rw [if_neg hLow, Nat.add_sub_cancel, ← ih, bnBit, Nat.add_div_right m (by decide),
          Nat.add_mod_right, List.getD_cons_succ, bnBit]

end Bits

section Products

variable {a b lo : Bignum}

/-- A multiple of a number is added to as many words, and the carry goes to the next. -/
theorem bnMulRow_spec (x : UInt16) (hi : Bignum) {carry : UInt32} (hLength : lo.length = b.length)
    (hCarry : carry.toNat < 65536) :
    ∃ row, bnMulRow x b (lo ++ 0 :: hi) carry = row ++ hi ∧ row.length = b.length + 1 ∧
      bnValue row = bnValue lo + x.toNat * bnValue b + carry.toNat := by
  induction b generalizing lo carry with
  | nil =>
      rw [List.length_eq_zero_iff.mp hLength]
      refine ⟨[carry.toUInt16], ?_, rfl, ?_⟩
      · rw [List.nil_append, bnMulRow, UInt16.zero_add, List.singleton_append]
      · simp [Nat.mod_eq_of_lt hCarry]
  | cons y b ih =>
      cases lo with
      | nil => simp at hLength
      | cons z lo =>
          have hProd : (x.toUInt32 * y.toUInt32 + z.toUInt32 + carry).toNat =
              x.toNat * y.toNat + z.toNat + carry.toNat := by
            have hx := x.toNat_lt
            have hy := y.toNat_lt
            have hz := z.toNat_lt
            have hProduct : x.toNat * y.toNat ≤ 65535 * 65535 :=
              Nat.mul_le_mul (by omega) (by omega)
            simp only [UInt32.toNat_add, UInt32.toNat_mul, UInt16.toNat_toUInt32]
            omega
          have hNext : ((x.toUInt32 * y.toUInt32 + z.toUInt32 + carry) >>> 16).toNat =
              (x.toNat * y.toNat + z.toNat + carry.toNat) / 65536 := by
            rw [UInt32.toNat_shiftRight, hProd, Nat.shiftRight_eq_div_pow]
            rfl
          have hSmall : (x.toNat * y.toNat + z.toNat + carry.toNat) / 65536 < 65536 := by
            have hBound := (x.toUInt32 * y.toUInt32 + z.toUInt32 + carry).toNat_lt
            omega
          obtain ⟨row, hRow, hRowLength, hValue⟩ := ih (Nat.succ.inj hLength)
            (hNext ▸ hSmall)
          refine ⟨(x.toUInt32 * y.toUInt32 + z.toUInt32 + carry).toUInt16 :: row, ?_,
            congrArg (· + 1) hRowLength, ?_⟩
          · rw [List.cons_append, bnMulRow, hRow]
            rfl
          · rw [bnValue_cons, hValue, hNext, UInt32.toNat_toUInt16, hProd, bnValue_cons,
              bnValue_cons]
            have hSplit := Nat.mod_add_div (x.toNat * y.toNat + z.toNat + carry.toNat) 65536
            rw [Nat.mul_add, Nat.mul_add, Nat.mul_add, Nat.mul_left_comm x.toNat]
            omega

/-- The rows of the school multiplication add up to the product, in exactly as many
words as both factors have. The induction is on the words of the first factor, with `lo`
the words already final. -/
theorem bnMulRows_spec (hLength : lo.length = b.length) :
    (bnMulRows b a (lo ++ List.replicate a.length 0)).length = a.length + b.length ∧
      bnValue (bnMulRows b a (lo ++ List.replicate a.length 0)) =
        bnValue lo + bnValue a * bnValue b := by
  induction a generalizing lo with
  | nil => simp [bnMulRows, hLength]
  | cons x a ih =>
      obtain ⟨row, hRow, hRowLength, hValue⟩ :=
        bnMulRow_spec x (List.replicate a.length 0) hLength (show (0 : UInt32).toNat < 65536 by
          decide)
      cases row with
      | nil => simp at hRowLength
      | cons low rest =>
          obtain ⟨hLen, hRest⟩ := ih (Nat.succ.inj hRowLength)
          rw [List.length_cons, List.replicate_succ, bnMulRows, hRow, List.cons_append]
          refine ⟨by rw [List.length_cons, hLen]; omega, ?_⟩
          rw [bnValue_cons, hRest]
          rw [bnValue_cons] at hValue
          rw [bnValue_cons, Nat.add_mul, Nat.mul_add, Nat.mul_assoc]
          simp only [UInt32.toNat_zero] at hValue
          omega

/-- A product has as many words as both factors together. -/
theorem length_bnMul (a b : Bignum) : (bnMul a b).length = a.length + b.length := by
  rw [bnMul, Nat.add_comm a.length, List.replicate_add, Nat.add_comm b.length]
  exact (bnMulRows_spec List.length_replicate).1

theorem bnValue_mul (a b : Bignum) : bnValue (bnMul a b) = bnValue a * bnValue b := by
  rw [bnMul, Nat.add_comm, List.replicate_add, (bnMulRows_spec List.length_replicate).2,
    bnValue_zeros, Nat.zero_add]

end Products

section Comparison

variable {a b : Bignum} {n : Nat}

theorem bnValue_take_succ (b : Bignum) (n : Nat) :
    bnValue (b.take (n + 1)) = bnValue (b.take n) + 65536 ^ n * (b.getD n 0).toNat := by
  induction n generalizing b with
  | zero => cases b <;> simp
  | succ n ih =>
      cases b with
      | nil => simp
      | cons w b =>
          rw [List.take_succ_cons, bnValue_cons, ih, List.take_succ_cons, bnValue_cons,
            List.getD_cons_succ, Nat.pow_succ]
          ring

theorem compare_word (v w : UInt16) : compare v w = compare v.toNat w.toNat := by
  simp [compare, compareOfLessAndEq, UInt16.lt_iff_toNat_lt, ← UInt16.toNat_inj]

/-- The highest words that differ decide as the values do. -/
theorem bnCmp_eq (a b : Bignum) : bnCmp a b = compare (bnValue a) (bnValue b) := by
  have hTake : ∀ n, (((List.range n).reverse.map fun i => compare (a.getD i 0) (b.getD i 0)).find?
      (· ≠ .eq)).getD .eq = compare (bnValue (a.take n)) (bnValue (b.take n)) := by
    intro n
    induction n with
    | zero => rfl
    | succ n ih =>
        have hA : bnValue (a.take n) < 65536 ^ n :=
          (bnValue_lt _).trans_le (Nat.pow_le_pow_right (by decide) (List.length_take_le ..))
        have hB : bnValue (b.take n) < 65536 ^ n :=
          (bnValue_lt _).trans_le (Nat.pow_le_pow_right (by decide) (List.length_take_le ..))
        rw [List.range_succ, List.reverse_append, List.reverse_singleton, List.singleton_append,
          List.map_cons, List.find?_cons, compare_word, bnValue_take_succ, bnValue_take_succ,
          compare_high hA hB, ← ih]
        cases compare (a.getD n 0).toNat (b.getD n 0).toNat <;> rfl
  rw [bnCmp, hTake, List.take_of_length_le (Nat.le_max_left ..),
    List.take_of_length_le (Nat.le_max_right ..)]

end Comparison

section Shifts

variable {a r : Bignum} {bits n : Nat}

/-- The top word takes what is shifted out of the others. -/
theorem bnShiftBits_spec {carry : UInt16} (hBits : bits < 16) (hCarry : carry.toNat < 2 ^ bits) :
    bnValue (bnShiftBits bits (r ++ [0]) carry) = bnValue r * 2 ^ bits + carry.toNat := by
  induction r generalizing carry with
  | nil =>
      have hZero : (0 : UInt16).toUInt32 <<< UInt32.ofNat bits = 0 := by simp
      rw [List.nil_append, bnShiftBits, hZero, UInt32.zero_or]
      simp [bnShiftBits]
  | cons w r ih =>
      have hShift : (UInt32.ofNat bits).toNat % 32 = bits := by
        rw [UInt32.toNat_ofNat_of_lt' (by simp only [UInt32.size]; omega)]
        exact Nat.mod_eq_of_lt (by omega)
      have hWord : w.toNat * 2 ^ bits + carry.toNat < 65536 * 2 ^ bits := by
        have hTop : (w.toNat + 1) * 2 ^ bits ≤ 65536 * 2 ^ bits := Nat.mul_le_mul_right _ w.toNat_lt
        rw [Nat.succ_mul] at hTop
        omega
      have hSmall : w.toNat * 2 ^ bits + carry.toNat < 2 ^ 32 := by
        have hFactor : 2 ^ bits ≤ 2 ^ 16 := Nat.pow_le_pow_right (by decide) (by omega)
        omega
      have hValue : (w.toUInt32 <<< UInt32.ofNat bits ||| carry.toUInt32).toNat =
          w.toNat * 2 ^ bits + carry.toNat := by
        rw [UInt32.toNat_or, UInt32.toNat_shiftLeft, UInt16.toNat_toUInt32,
          UInt16.toNat_toUInt32, hShift,
          Nat.shiftLeft_eq, Nat.mod_eq_of_lt (by omega), Nat.mul_comm,
            Nat.two_pow_add_eq_or_of_lt hCarry]
      have hNext : ((w.toUInt32 <<< UInt32.ofNat bits ||| carry.toUInt32) >>> 16).toUInt16.toNat =
          (w.toNat * 2 ^ bits + carry.toNat) / 65536 := by
        rw [UInt32.toNat_toUInt16, UInt32.toNat_shiftRight, hValue, Nat.shiftRight_eq_div_pow]
        have hDiv : (w.toNat * 2 ^ bits + carry.toNat) / 2 ^ 16 < 65536 := by omega
        exact Nat.mod_eq_of_lt hDiv
      rw [List.cons_append, bnShiftBits, bnValue_cons, ih (by rw [hNext]; omega), hNext,
        UInt32.toNat_toUInt16, hValue, bnValue_cons, Nat.add_mul, Nat.mul_assoc]
      omega

theorem bnValue_shiftLeft (a : Bignum) (n : Nat) :
    bnValue (bnShiftLeft a n) = bnValue a * 2 ^ n := by
  have hWords : 65536 ^ (n / 16) * 2 ^ (n % 16) = 2 ^ n := by
    rw [show 65536 = 2 ^ 16 by rfl, ← Nat.pow_mul, ← Nat.pow_add, Nat.div_add_mod]
  rw [bnShiftLeft, bnValue_append, bnValue_zeros, List.length_replicate, Nat.zero_add, ← hWords]
  by_cases hBits : 0 < n % 16
  · rw [if_pos hBits, bnShiftBits_spec (Nat.mod_lt _ (by decide)) (by simp)]
    simp only [UInt16.toNat_zero]
    ring
  · rw [if_neg hBits, bnValue_append, Nat.eq_zero_of_not_pos hBits]
    simp only [bnValue_cons, bnValue_nil, UInt16.toNat_zero]
    ring

end Shifts

section Differences

variable {r ms : Bignum}

theorem length_bnSub (r ms : Bignum) (borrow : UInt32) : (bnSub r ms borrow).length = r.length := by
  induction r generalizing ms borrow with
  | nil => rfl
  | cons w r ih => rw [bnSub, List.length_cons, ih, List.length_cons]

/-- A word that is too small borrows from the next. -/
theorem borrow_spec (v w : UInt16) {borrow : UInt32} (hBorrow : borrow.toNat ≤ 1) :
    (v.toUInt32 - w.toUInt32 - borrow).toUInt16.toNat + w.toNat + borrow.toNat =
        v.toNat + 65536 * ((v.toUInt32 - w.toUInt32 - borrow) >>> 16 &&& 1).toNat ∧
      ((v.toUInt32 - w.toUInt32 - borrow) >>> 16 &&& 1).toNat ≤ 1 := by
  have hv := v.toNat_lt
  have hw := w.toNat_lt
  have hSub : (v.toUInt32 - w.toUInt32 - borrow).toNat =
      (v.toNat + 2 ^ 32 - w.toNat + 2 ^ 32 - borrow.toNat) % 2 ^ 32 := by
    simp only [UInt32.toNat_sub, UInt16.toNat_toUInt32]
    omega
  rw [UInt32.toNat_toUInt16, UInt32.toNat_and, UInt32.toNat_shiftRight, hSub,
    Nat.shiftRight_eq_div_pow]
  rw [show (16 : UInt32).toNat % 32 = 16 by rfl, UInt32.toNat_one, Nat.and_one_is_mod]
  omega

/-- The difference, as far as the words of `r` hold it. -/
theorem bnSub_mod (r ms : Bignum) {borrow : UInt32} (hBorrow : borrow.toNat ≤ 1) :
    bnValue (bnSub r ms borrow) + bnValue ms + borrow.toNat ≡ bnValue r [MOD 65536 ^ r.length] := by
  induction r generalizing ms borrow with
  | nil => exact Nat.modEq_one
  | cons v r ih =>
      obtain ⟨hWord, hNext⟩ := borrow_spec v (ms.headD 0) hBorrow
      have hRest := (ih ms.tail hNext).mul_left' 65536
      have hSplit : bnValue ms = (ms.headD 0).toNat + 65536 * bnValue ms.tail := by
        cases ms <;> simp
      rw [bnSub, bnValue_cons, hSplit, List.length_cons, Nat.pow_succ, Nat.mul_comm _ 65536,
        bnValue_cons]
      have hSum := hRest.add_left v.toNat
      rw [Nat.mul_add, Nat.mul_add] at hSum
      convert hSum using 1
      omega

/-- Where it does not underflow, the subtraction in `bn_mod` subtracts. -/
theorem bnValue_sub (h : bnValue ms ≤ bnValue r) :
    bnValue (bnSub r ms 0) = bnValue r - bnValue ms := by
  have hMod := bnSub_mod r ms (show (0 : UInt32).toNat ≤ 1 by decide)
  have hLess := bnValue_lt (bnSub r ms 0)
  have hBound := bnValue_lt r
  rw [length_bnSub] at hLess
  simp only [UInt32.toNat_zero, Nat.add_zero] at hMod
  have hEq : bnValue (bnSub r ms 0) ≡ bnValue r - bnValue ms [MOD 65536 ^ r.length] := by
    apply Nat.ModEq.add_right_cancel' (bnValue ms)
    rwa [Nat.sub_add_cancel h]
  exact hEq.eq_of_lt_of_lt hLess (by omega)

end Differences

section Reduction

open BoundedLoop (Pass)

variable {m r : Bignum} {k : Nat}

/-- What a shifted modulus that fits leaves of a number. -/
theorem bnSub_shifted (hZero : bnValue m ≠ 0) (h : bnValue m * 2 ^ k ≤ bnValue r) :
    (bnSub r (bnShiftLeft m k) 0).length = r.length ∧
      bnValue (bnSub r (bnShiftLeft m k) 0) < bnValue r ∧
      bnValue (bnSub r (bnShiftLeft m k) 0) % bnValue m = bnValue r % bnValue m := by
  rw [← bnValue_shiftLeft] at h
  rw [length_bnSub, bnValue_sub h, bnValue_shiftLeft]
  rw [bnValue_shiftLeft] at h
  have hSome : 0 < bnValue m * 2 ^ k := Nat.mul_pos (Nat.pos_of_ne_zero hZero) (Nat.two_pow_pos k)
  exact ⟨rfl, by omega, Nat.sub_mul_mod h⟩

/-- The shift is what the top bits are apart, or an `int` that wrapped to less. -/
theorem shift_cases (h : bnValue m ≤ bnValue r) :
    (int16 (bnBits r - bnBits m) < 0 ∧ 2047 < r.length) ∨
      ∃ k : Nat, int16 (bnBits r - bnBits m) = k ∧ (bnValue m).size + k ≤ (bnValue r).size := by
  have hSizes : (bnValue m).size ≤ (bnValue r).size := Nat.size_le_size h
  have hWords : (bnValue r).size ≤ 16 * r.length := by
    rw [Nat.size_le, Nat.pow_mul]
    exact bnValue_lt r
  rw [bnBits_eq, bnBits_eq]
  unfold int16
  by_cases hNegative : ((((bnValue r).size : Int) + 32768) % 65536 - 32768 -
      ((((bnValue m).size : Int) + 32768) % 65536 - 32768) + 32768) % 65536 - 32768 < 0
  · exact .inl ⟨hNegative, by omega⟩
  · exact .inr ⟨_, (Int.toNat_of_nonneg (by omega)).symm, by omega⟩

/-- The loop is left with a remainder, or too early with a number whose bits an `int` cannot
count; otherwise a pass makes the number smaller and keeps its remainder. -/
theorem bnModPass_cases (hZero : bnValue m ≠ 0) (r : Bignum) :
    (bnModPass m r = .leave r ∧ (bnValue r < bnValue m ∨ 2047 < r.length)) ∨
      ∃ s, bnModPass m r = .again s ∧ s.length = r.length ∧ bnValue s < bnValue r ∧
        bnValue s % bnValue m = bnValue r % bnValue m := by
  rw [bnModPass]
  by_cases hLess : bnCmp r m = .lt
  · rw [if_pos hLess]
    rw [bnCmp_eq, Nat.compare_eq_lt] at hLess
    exact .inl ⟨rfl, .inl hLess⟩
  · rw [if_neg hLess]
    rw [bnCmp_eq, Nat.compare_eq_lt] at hLess
    rcases shift_cases (Nat.le_of_not_lt hLess) with ⟨hNegative, hLong⟩ | ⟨k, hShift, hFits⟩
    · exact .inl ⟨if_pos hNegative, .inr hLong⟩
    · rw [hShift, if_neg (by omega), Int.toNat_natCast]
      right
      by_cases hMore : bnCmp (bnShiftLeft m k) r = .gt
      · rw [if_pos hMore]
        rw [bnCmp_eq, Nat.compare_eq_gt, bnValue_shiftLeft] at hMore
        cases k with
        | zero => omega
        | succ k =>
            rw [if_neg (by omega), Nat.add_sub_cancel]
            exact ⟨_, rfl, bnSub_shifted hZero (shifted_lt (by omega)).le⟩
      · rw [if_neg hMore]
        rw [bnCmp_eq, Nat.compare_eq_gt, bnValue_shiftLeft] at hMore
        exact ⟨_, rfl, bnSub_shifted hZero (by omega)⟩

end Reduction

section Bytes

variable {b : Bignum}

/-- Two bytes of a number, the lowest first, make a word. -/
theorem bnValue_words (ds : List UInt8) :
    bnValue ((List.range ((ds.length + 1) / 2)).map fun i =>
      (ds.getD (2 * i) 0).toUInt16 ||| (ds.getD (2 * i + 1) 0).toUInt16 <<< 8) =
        Nat.ofDigits 256 (ds.map UInt8.toNat) := by
  have hWord : ∀ x y : UInt8, (x.toUInt16 ||| y.toUInt16 <<< 8).toNat = x.toNat + 256 *
    y.toNat := by
    intro x y
    have hy := y.toNat_lt
    rw [UInt16.toNat_or, UInt16.toNat_shiftLeft, UInt8.toNat_toUInt16, UInt8.toNat_toUInt16,
      show (8 : UInt16).toNat % 16 = 8 by rfl, Nat.shiftLeft_eq, Nat.mod_eq_of_lt (by omega),
        Nat.or_comm,
      Nat.mul_comm, ← Nat.two_pow_add_eq_or_of_lt x.toNat_lt]
    omega
  induction ds using List.twoStepInduction with
  | nil => rfl
  | singleton x => simp
  | cons_cons x y ds ih _ =>
      rw [show ((x :: y :: ds).length + 1) / 2 = (ds.length + 1) / 2 + 1 by simp; omega,
        List.range_succ_eq_map, List.map_cons, bnValue_cons, List.map_map, List.map_cons,
          List.map_cons,
        Nat.ofDigits_cons, Nat.ofDigits_cons, ← ih]
      simp only [Function.comp_def, Nat.mul_succ, List.getD_cons_succ]
      rw [Nat.mul_zero, List.getD_cons_zero, List.getD_cons_zero, hWord]
      omega

theorem bnValue_fromBytes (data : List UInt8) : bnValue (bnFromBytes data) = ofOctets data := by
  rw [ofOctets_eq, ← bnValue_words, List.length_reverse, bnFromBytes]

/-- Two bytes make a word, an odd one a word of its own. -/
theorem length_bnFromBytes (data : List UInt8) :
    (bnFromBytes data).length = (data.length + 1) / 2 := by
  rw [bnFromBytes, List.length_map, List.length_range]

/-- A word is a digit of the value to the base 65536. -/
theorem bnWord_eq (b : Bignum) (i : Nat) : (b.getD i 0).toNat = bnValue b / 65536 ^ i % 65536 := by
  induction b generalizing i with
  | nil => simp
  | cons w b ih =>
      have hw := w.toNat_lt
      cases i with
      | zero => simp
      | succ i =>
          rw [List.getD_cons_succ, ih, bnValue_cons, Nat.pow_succ', ← Nat.div_div_eq_div_mul]
          congr 2
          omega

/-- `bn_to_bytes` writes the low bytes of the value, big-endian. -/
theorem bnToBytes_eq (b : Bignum) (len : Nat) : bnToBytes b len = toOctets len (bnValue b) := by
  rw [bnToBytes, toOctets]
  congr 2
  funext i
  apply UInt8.toNat_inj.mp
  have hHalf : 256 ^ i = 65536 ^ (i / 2) * 256 ^ (i % 2) := by
    rw [show 65536 = 256 ^ 2 by rfl, ← Nat.pow_mul, ← Nat.pow_add, Nat.div_add_mod]
  rw [UInt16.toNat_toUInt8, UInt16.toNat_shiftRight, bnWord_eq, UInt8.toNat_ofNat', hHalf,
    ← Nat.div_div_eq_div_mul, Nat.shiftRight_eq_div_pow]
  rcases Nat.mod_two_eq_zero_or_one i with hEven | hOdd
  · simp [hEven]
  · rw [hOdd]
    simp
    omega

end Bytes

end Vmodem.Tls
