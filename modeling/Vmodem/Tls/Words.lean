import Mathlib.Data.List.Basic
import Mathlib.Data.UInt

/-! 32-bit words and the bytes they are made of (`GET32_BE`, `PUT32_BE`). -/

namespace Vmodem.Tls

/-- The word with these bytes, the first one on top. -/
def pack (b3 b2 b1 b0 : UInt8) : UInt32 :=
  b3.toUInt32 <<< 24 ||| b2.toUInt32 <<< 16 ||| b1.toUInt32 <<< 8 ||| b0.toUInt32

/-- `(w >> 24) & 0xFF`. -/
def byte3 (w : UInt32) : UInt8 := (w >>> 24).toUInt8
def byte2 (w : UInt32) : UInt8 := (w >>> 16).toUInt8
def byte1 (w : UInt32) : UInt8 := (w >>> 8).toUInt8
def byte0 (w : UInt32) : UInt8 := w.toUInt8

/-- `GET32_BE` of the bytes from an offset on. -/
def get32 (bs : List UInt8) (offset : Nat) : UInt32 :=
  pack (bs.getD offset 0) (bs.getD (offset + 1) 0) (bs.getD (offset + 2) 0) (bs.getD (offset + 3) 0)

/-- `PUT32_BE`. -/
def put32 (w : UInt32) : List UInt8 := [byte3 w, byte2 w, byte1 w, byte0 w]

/-- `PUT16_BE`. -/
def put16 (v : Nat) : List UInt8 := [.ofNat (v / 256), .ofNat v]

section Bytes

variable {a b c d a' b' c' d' : UInt8} {v w : UInt32}

/-- A packed word is the big-endian number of its bytes. -/
theorem toNat_pack : (pack a b c d).toNat =
    a.toNat * 2 ^ 24 + (b.toNat * 2 ^ 16 + (c.toNat * 2 ^ 8 + d.toNat)) := by
  have ha := a.toNat_lt
  have hb := b.toNat_lt
  have hc := c.toNat_lt
  have hd := d.toNat_lt
  have hShift (x : UInt8) (k : Nat) (hk : k ≤ 24) : x.toNat <<< k % 2 ^ 32 = x.toNat * 2 ^ k := by
    have hx := x.toNat_lt
    rw [Nat.shiftLeft_eq, Nat.mod_eq_of_lt]
    calc x.toNat * 2 ^ k < 2 ^ 8 * 2 ^ k := Nat.mul_lt_mul_of_pos_right hx (Nat.two_pow_pos k)
      _ ≤ 2 ^ 8 * 2 ^ 24 := Nat.mul_le_mul_left _ (Nat.pow_le_pow_right (by omega) hk)
      _ = 2 ^ 32 := rfl
  have hOr (x n k : Nat) (hn : n < 2 ^ k) : x * 2 ^ k ||| n = x * 2 ^ k + n := by
    rw [← Nat.shiftLeft_eq, Nat.shiftLeft_add_eq_or_of_lt hn]
  simp only [pack, UInt32.toNat_or, UInt32.toNat_shiftLeft, UInt8.toNat_toUInt32,
    UInt32.reduceToNat]
  rw [hShift a 24 (by omega), hShift b 16 (by omega), hShift c 8 (by omega), Nat.or_assoc,
    Nat.or_assoc, hOr c.toNat, hOr b.toNat, hOr a.toNat]
  all_goals omega

/-- The bytes of a word are its digits to the base 256. -/
theorem toNat_bytes :
    (byte3 w).toNat = w.toNat / 2 ^ 24 ∧ (byte2 w).toNat = w.toNat / 2 ^ 16 % 256 ∧
    (byte1 w).toNat = w.toNat / 2 ^ 8 % 256 ∧ (byte0 w).toNat = w.toNat % 256 := by
  have hw := w.toNat_lt
  refine ⟨?_, ?_, ?_, ?_⟩ <;>
    simp only [byte3, byte2, byte1, byte0, UInt32.toNat_toUInt8, UInt32.toNat_shiftRight,
      UInt32.reduceToNat, Nat.shiftRight_eq_div_pow, Nat.reduceMod, Nat.reducePow]
  omega

/-- A word is its four bytes. -/
theorem word_ext (h3 : byte3 v = byte3 w) (h2 : byte2 v = byte2 w) (h1 : byte1 v = byte1 w)
    (h0 : byte0 v = byte0 w) : v = w := by
  obtain ⟨v3, v2, v1, v0⟩ := toNat_bytes (w := v)
  obtain ⟨w3, w2, w1, w0⟩ := toNat_bytes (w := w)
  rw [h3] at v3
  rw [h2] at v2
  rw [h1] at v1
  rw [h0] at v0
  apply UInt32.toNat_inj.mp
  omega

/-- The bytes of a packed word are the ones packed. -/
theorem bytes_pack : byte3 (pack a b c d) = a ∧ byte2 (pack a b c d) = b ∧
    byte1 (pack a b c d) = c ∧ byte0 (pack a b c d) = d := by
  have ha := a.toNat_lt
  have hb := b.toNat_lt
  have hc := c.toNat_lt
  have hd := d.toNat_lt
  have hWord := toNat_pack (a := a) (b := b) (c := c) (d := d)
  obtain ⟨h3, h2, h1, h0⟩ := toNat_bytes (w := pack a b c d)
  rw [hWord] at h3 h2 h1 h0
  refine ⟨UInt8.toNat_inj.mp ?_, UInt8.toNat_inj.mp ?_, UInt8.toNat_inj.mp ?_,
    UInt8.toNat_inj.mp ?_⟩ <;> omega

@[simp] theorem byte3_pack : byte3 (pack a b c d) = a := bytes_pack.1
@[simp] theorem byte2_pack : byte2 (pack a b c d) = b := bytes_pack.2.1
@[simp] theorem byte1_pack : byte1 (pack a b c d) = c := bytes_pack.2.2.1
@[simp] theorem byte0_pack : byte0 (pack a b c d) = d := bytes_pack.2.2.2

@[simp] theorem pack_bytes : pack (byte3 w) (byte2 w) (byte1 w) (byte0 w) = w :=
  word_ext byte3_pack byte2_pack byte1_pack byte0_pack

@[simp] theorem byte3_xor : byte3 (v ^^^ w) = byte3 v ^^^ byte3 w := by
  rw [byte3, UInt32.shiftRight_xor, UInt32.toUInt8_xor, byte3, byte3]

@[simp] theorem byte2_xor : byte2 (v ^^^ w) = byte2 v ^^^ byte2 w := by
  rw [byte2, UInt32.shiftRight_xor, UInt32.toUInt8_xor, byte2, byte2]

@[simp] theorem byte1_xor : byte1 (v ^^^ w) = byte1 v ^^^ byte1 w := by
  rw [byte1, UInt32.shiftRight_xor, UInt32.toUInt8_xor, byte1, byte1]

@[simp] theorem byte0_xor : byte0 (v ^^^ w) = byte0 v ^^^ byte0 w := UInt32.toUInt8_xor v w

theorem pack_xor : pack a b c d ^^^ pack a' b' c' d' =
    pack (a ^^^ a') (b ^^^ b') (c ^^^ c') (d ^^^ d') := by
  apply word_ext <;> simp

end Bytes

end Vmodem.Tls
