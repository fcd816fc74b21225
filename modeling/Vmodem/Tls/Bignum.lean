import Vmodem.Tls.Messages
import Mathlib.Data.Nat.Find
import Mathlib.Data.Nat.Size

/-! Numbers as lists of 16-bit words, the lowest word first, and the RSA encryption. Where
the word count is in `b[0]`, here it is the length. -/

namespace Vmodem.Tls

abbrev Bignum := List UInt16

/-- `bn_from_bytes`. -/
def bnFromBytes (data : List UInt8) : Bignum :=
  (List.range ((data.length + 1) / 2)).map fun i =>
    (data.reverse.getD (2 * i) 0).toUInt16 ||| (data.reverse.getD (2 * i + 1) 0).toUInt16 <<< 8

/-- A number without the zero words at its top. -/
def bnStrip (b : Bignum) : Bignum := (b.reverse.dropWhile (· = 0)).reverse

/-- `bn_bits`, an `int`. -/
def bnBits (b : Bignum) : Int :=
  match (bnStrip b).reverse with
  | [] => 0
  | top :: rest => int16 (rest.length * 16 + top.toNat.size)

/-- `bn_bit`. -/
def bnBit (b : Bignum) (n : Nat) : Bool := (b.getD (n / 16) 0).toNat.testBit (n % 16)

/-- The inner loop of `bn_mul`: a multiple of `b` added to the words from one on. -/
def bnMulRow (x : UInt16) : Bignum → Bignum → UInt32 → Bignum
  | y :: b, z :: r, carry =>
      let prod := x.toUInt32 * y.toUInt32 + z.toUInt32 + carry
      prod.toUInt16 :: bnMulRow x b r (prod >>> 16)
  | [], z :: r, carry => (z + carry.toUInt16) :: r
  | _, [], _ => []

/-- The outer loop of `bn_mul`. -/
def bnMulRows (b : Bignum) : Bignum → Bignum → Bignum
  | [], r => r
  | x :: a, r =>
      match bnMulRow x b r 0 with
      | [] => []
      | low :: rest => low :: bnMulRows b a rest

/-- `bn_mul`. -/
def bnMul (a b : Bignum) : Bignum := bnMulRows b a (List.replicate (a.length + b.length) 0)

/-- `bn_cmp`: the highest words that differ decide. -/
def bnCmp (a b : Bignum) : Ordering :=
  let words := max a.length b.length
  (((List.range words).reverse.map fun i => compare (a.getD i 0) (b.getD i 0)).find? (· ≠ .eq)).getD
    .eq

/-- The second loop of `bn_shift_left`. -/
def bnShiftBits (bits : Nat) : Bignum → UInt16 → Bignum
  | [], _ => []
  | w :: r, carry =>
      let v := w.toUInt32 <<< .ofNat bits ||| carry.toUInt32
      v.toUInt16 :: bnShiftBits bits r (v >>> 16).toUInt16

/-- `bn_shift_left`. -/
def bnShiftLeft (a : Bignum) (n : Nat) : Bignum :=
  let high := a ++ [0]
  List.replicate (n / 16) 0 ++ if 0 < n % 16 then bnShiftBits (n % 16) high 0 else high

/-- The subtraction of `bn_mod`, in the words of `r`. -/
def bnSub : Bignum → Bignum → UInt32 → Bignum
  | [], _, _ => []
  | rv :: r, ms, borrow =>
      let sub := rv.toUInt32 - (ms.headD 0).toUInt32 - borrow
      sub.toUInt16 :: bnSub r ms.tail (sub >>> 16 &&& 1)

open BoundedLoop (Pass)

/-- One pass of the loop of `bn_mod`. -/
def bnModPass (m r : Bignum) : Pass Bignum Bignum :=
  if bnCmp r m = .lt then .leave r
  else
    let shift := int16 (bnBits r - bnBits m)
    if shift < 0 then .leave r
    else
      let ms := bnShiftLeft m shift.toNat
      if bnCmp ms r = .gt then
        if shift = 0 then .leave r
        else .again (bnSub r (bnShiftLeft m (shift.toNat - 1)) 0)
      else .again (bnSub r ms 0)

/-- `bn_mod` with a bound on its passes. -/
def bnMod (fuel : Nat) (a m : Bignum) : Option Bignum :=
  let mw := max (bnStrip m).length (min m.length 1)
  match BoundedLoop.run (fun _ => bnModPass m) fuel a with
  | .cut _ => none
  | .ended r => some (if mw < r.length then r.take mw else r)

/-- The loop of `bn_modpow` over the lowest `n` bits of the exponent. -/
def bnModpowBits (fuel : Nat) (base exp mod : Bignum) : Nat → Bignum → Option Bignum
  | 0, result => some result
  | n + 1, result => do
      let result ← bnMod fuel (bnMul result result) mod
      let result ← if bnBit exp n then bnMod fuel (bnMul result base) mod else some result
      bnModpowBits fuel base exp mod n result

/-- `bn_modpow`. -/
def bnModpow (fuel : Nat) (base exp mod : Bignum) : Option Bignum :=
  bnModpowBits fuel base exp mod (bnBits exp).toNat [1]

/-- `bn_to_bytes`. -/
def bnToBytes (b : Bignum) (len : Nat) : List UInt8 :=
  ((List.range len).map fun i =>
    ((b.getD (i / 2) 0) >>> (if i % 2 = 1 then 8 else 0)).toUInt8).reverse

/-- `rand() & 0xFF`, call by call. The generator gives a byte that is not zero again and
again. -/
structure Rand where
  draws : Nat → UInt8
  nonzero : ∀ k, ∃ j, k ≤ j ∧ draws j ≠ 0

namespace Rand

/-- The call that ends a do-while whose first call is `k`. -/
def stop (rand : Rand) (k : Nat) : Nat := Nat.find (rand.nonzero k)

/-- The first call for a byte of the padding. -/
def first (rand : Rand) : Nat → Nat
  | 0 => 0
  | i + 1 => rand.stop (rand.first i) + 1

/-- A byte of the padding. -/
def pad (rand : Rand) (i : Nat) : UInt8 := rand.draws (rand.stop (rand.first i))

/-- The loop for a byte goes on over zeros and ends with another byte. -/
theorem pad_spec (rand : Rand) (i : Nat) :
    rand.pad i ≠ 0 ∧ rand.first i ≤ rand.stop (rand.first i) ∧
    ∀ j, rand.first i ≤ j → j < rand.stop (rand.first i) → rand.draws j = 0 := by
  obtain ⟨hFrom, hByte⟩ := Nat.find_spec (rand.nonzero (rand.first i))
  refine ⟨hByte, hFrom, fun j hStart hBefore => ?_⟩
  by_contra hOther
  exact Nat.find_min (rand.nonzero (rand.first i)) hBefore ⟨hStart, hOther⟩

/-- The bytes that the loop over `rand()` lets through are not zero. -/
theorem pad_ne_zero (rand : Rand) (i : Nat) : rand.pad i ≠ 0 := (rand.pad_spec i).1

end Rand

/-- The block that is encrypted. -/
def pkcs1 (rand : Rand) (nLen : Nat) (msg : List UInt8) : List UInt8 :=
  [0x00, 0x02] ++ (List.range (nLen - msg.length - 3)).map rand.pad ++ [0x00] ++ msg

/-- `rsa_encrypt` with a bound for each reduction; it gives up with `some none`. -/
def rsaEncrypt (fuel : Nat) (rand : Rand) (n e msg : List UInt8) :
    Option (Option (List UInt8)) :=
  if (n.length : Int) - 11 < msg.length then some none
  else
    (bnModpow fuel (bnFromBytes (pkcs1 rand n.length msg)) (bnFromBytes e) (bnFromBytes n)).map
      fun c => some (bnToBytes c n.length)

end Vmodem.Tls
