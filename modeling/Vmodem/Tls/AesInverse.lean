import Vmodem.Tls.Aes
import Vmodem.Library.Fips197

/-! `aes_decrypt_block` inverts `aes_encrypt_block`. The decryption tables undo MixColumns
because both are linear over xor; a decryption round therefore turns the state after
SubBytes and ShiftRows of one round into that of the round before. -/

namespace Vmodem.Tls

section Bytes

variable {x y : UInt8}

/-- The two S-boxes of the source are inverse to each other, as all 256 bytes show. -/
theorem sboxinv_sbox (x : UInt8) : sboxinv (sbox x) = x := by
  apply Fips197.forall_byte (P := fun x => sboxinv (sbox x) = x)
  decide +kernel

/-- `mulby2` is the multiplication by `x` of the standard. -/
theorem mulby2_eq (x : UInt8) : mulby2 x = Fips197.xtime x := by
  apply Fips197.forall_byte (P := fun x => mulby2 x = Fips197.xtime x)
  decide +kernel

theorem mulby2_xor : mulby2 (x ^^^ y) = mulby2 x ^^^ mulby2 y := by
  simp only [mulby2_eq, Fips197.xtime_xor]

/-- The decryption tables are linear in the S-box value. -/
theorem unmix_xor :
    unmix0 (x ^^^ y) = unmix0 x ^^^ unmix0 y ∧ unmix1 (x ^^^ y) = unmix1 x ^^^ unmix1 y ∧
    unmix2 (x ^^^ y) = unmix2 x ^^^ unmix2 y ∧ unmix3 (x ^^^ y) = unmix3 x ^^^ unmix3 y := by
  have h9 : by9 (x ^^^ y) = by9 x ^^^ by9 y := by
    simp only [by9, mulby2_xor]
    ac_rfl
  have h11 : by11 (x ^^^ y) = by11 x ^^^ by11 y := by
    simp only [by11, mulby2_xor]
    ac_rfl
  have h13 : by13 (x ^^^ y) = by13 x ^^^ by13 y := by
    simp only [by13, mulby2_xor]
    ac_rfl
  have h14 : by14 (x ^^^ y) = by14 x ^^^ by14 y := by
    simp only [by14, mulby2_xor]
    ac_rfl
  simp only [unmix0, unmix1, unmix2, unmix3, pack_xor, h9, h11, h13, h14, and_self]

end Bytes

/-- InvMixColumns of a column. -/
def unmix (w : UInt32) : UInt32 :=
  unmix0 (byte3 w) ^^^ unmix1 (byte2 w) ^^^ unmix2 (byte1 w) ^^^ unmix3 (byte0 w)

/-- MixColumns of a column. -/
def mix (x3 x2 x1 x0 : UInt8) : UInt32 := mix0 x3 ^^^ mix1 x2 ^^^ mix2 x1 ^^^ mix3 x0

section Columns

variable {v w : UInt32} {x3 x2 x1 x0 : UInt8}

/-- The inverse column mix is linear, so round keys can be mixed apart from the state.
-/
theorem unmix_linear : unmix (v ^^^ w) = unmix v ^^^ unmix w := by
  obtain ⟨h0, _, _, _⟩ := unmix_xor (x := byte3 v) (y := byte3 w)
  obtain ⟨_, h1, _, _⟩ := unmix_xor (x := byte2 v) (y := byte2 w)
  obtain ⟨_, _, h2, _⟩ := unmix_xor (x := byte1 v) (y := byte1 w)
  obtain ⟨_, _, _, h3⟩ := unmix_xor (x := byte0 v) (y := byte0 w)
  simp only [unmix, byte3_xor, byte2_xor, byte1_xor, byte0_xor, h0, h1, h2, h3]
  ac_rfl

/-- The multiples of one byte cancel but for the byte itself. -/
theorem unmix_single (x : UInt8) : unmix (mix0 x) = pack x 0 0 0 ∧ unmix (mix1 x) = pack 0 x 0 0 ∧
    unmix (mix2 x) = pack 0 0 x 0 ∧ unmix (mix3 x) = pack 0 0 0 x := by
  simp only [unmix, mix0, mix1, mix2, mix3, byte3_pack, byte2_pack, byte1_pack, byte0_pack, unmix0,
    unmix1, unmix2, unmix3, pack_xor, by9, by11, by13, by14, mulby2_xor, UInt8.xor_assoc,
    UInt8.xor_comm, Fips197.xor_left_comm, UInt8.xor_self, Fips197.xor_left_cancel, UInt8.xor_zero,
      UInt8.zero_xor,
    and_self]

/-- The column tables of decryption undo those of encryption. -/
theorem unmix_mix : unmix (mix x3 x2 x1 x0) = pack x3 x2 x1 x0 := by
  simp only [mix, unmix_linear, (unmix_single x3).1, (unmix_single x2).2.1, (unmix_single x1).2.2.1,
    (unmix_single x0).2.2.2, pack_xor, UInt8.xor_zero, UInt8.zero_xor]

/-- A decryption key word is the mixed encryption key word. -/
theorem invWord_eq (w : UInt32) : invWord w = unmix w := by
  simp only [invWord, d0, d1, d2, d3, sboxinv_sbox, unmix]

end Columns

section Rounds

variable {s k : Block}

theorem Block.xor_xor (s k : Block) : (s.xor k).xor k = s := by
  simp only [Block.xor, UInt32.xor_assoc, UInt32.xor_self, UInt32.xor_zero]

/-- A column of a decryption round, from the S-box values of a column. -/
theorem unmix_sbox (w : UInt32) :
    d0 (sbox (byte3 w)) ^^^ d1 (sbox (byte2 w)) ^^^ d2 (sbox (byte1 w)) ^^^ d3 (sbox (byte0 w)) =
      unmix w := invWord_eq w

/-- With the key word mixed as well, a decryption round removes both the mix and the
key. -/
theorem unmix_column (x3 x2 x1 x0 : UInt8) (w : UInt32) :
    unmix (mix x3 x2 x1 x0 ^^^ w) ^^^ unmix w = pack x3 x2 x1 x0 := by
  rw [unmix_linear, unmix_mix, UInt32.xor_assoc, UInt32.xor_self, UInt32.xor_zero]

/-- A decryption round steps back over an encryption round. -/
theorem decryptRound_encryptRound :
    decryptRound (encryptLast (encryptRound s k)) (invRoundKey k) = encryptLast s := by
  have h0 := unmix_column (sbox (byte3 s.w0)) (sbox (byte2 s.w1)) (sbox (byte1 s.w2))
    (sbox (byte0 s.w3)) k.w0
  have h1 := unmix_column (sbox (byte3 s.w1)) (sbox (byte2 s.w2)) (sbox (byte1 s.w3))
    (sbox (byte0 s.w0)) k.w1
  have h2 := unmix_column (sbox (byte3 s.w2)) (sbox (byte2 s.w3)) (sbox (byte1 s.w0))
    (sbox (byte0 s.w1)) k.w2
  have h3 := unmix_column (sbox (byte3 s.w3)) (sbox (byte2 s.w0)) (sbox (byte1 s.w1))
    (sbox (byte0 s.w2)) k.w3
  unfold decryptRound invRoundKey
  simp only [invWord_eq]
  unfold encryptLast
  simp only [byte3_pack, byte2_pack, byte1_pack, byte0_pack, unmix_sbox]
  rw [← h0, ← h1, ← h2, ← h3]
  rfl

/-- The last rounds, which mix no columns, undo each other. -/
theorem decryptLast_encryptLast : decryptLast (encryptLast s) = s := by
  simp [decryptLast, encryptLast, sboxinv_sbox]

/-- The decryption rounds take the encryption rounds back in reverse order. The
induction is on the round keys. -/
theorem decryptRounds (keys : List Block) :
    (keys.reverse.map invRoundKey).foldl decryptRound (encryptLast (keys.foldl encryptRound s)) =
      encryptLast s := by
  induction keys generalizing s with
  | nil => rfl
  | cons k keys ih =>
      rw [List.reverse_cons, List.map_append, List.foldl_append, List.foldl_cons, ih]
      exact decryptRound_encryptRound

/-- A decrypted block is the block that was encrypted, under every key. -/
theorem aesDecryptBlock_aesEncryptBlock (key : AesKey) (block : Block) :
    aesDecryptBlock key (aesEncryptBlock key block) = block := by
  rw [aesDecryptBlock, aesEncryptBlock, Block.xor_xor, decryptRounds, decryptLast_encryptLast,
    Block.xor_xor]

end Rounds

end Vmodem.Tls
