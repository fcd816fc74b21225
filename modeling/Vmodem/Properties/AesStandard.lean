import Mathlib.Data.Finite.Prod
import Vmodem.Library.Fips197
import Vmodem.Tls.AesInverse
import Vmodem.Tls.Record

/-! The AES of `vtls.c` is the standard's: the round tables against SubBytes, ShiftRows and
MixColumns, the key schedule, and the chaining of a record's blocks. -/

namespace Vmodem.Tls

/-- The inverse of a byte in the field, read off its S-box value. -/
def fieldInverse (b : UInt8) : UInt8 :=
  Fips197.rotate (sbox b) 1 ^^^ Fips197.rotate (sbox b) 3 ^^^ Fips197.rotate (sbox b) 6 ^^^ 0x05

/-- The table entry of a nonzero byte is the affine map of its inverse in the field. -/
theorem sbox_inverse (b : UInt8) :
    b ≠ 0 → Fips197.mul b (fieldInverse b) = 1 ∧ sbox b = Fips197.affine (fieldInverse b) := by
  apply Fips197.forall_byte (P := fun b =>
    b ≠ 0 → Fips197.mul b (fieldInverse b) = 1 ∧ sbox b = Fips197.affine (fieldInverse b))
  decide +kernel

/-- The tables of the source are an S-box as the standard asks for. -/
def sourceSbox : Fips197.Sbox where
  sub := sbox
  unsub := sboxinv
  sub_zero := by decide
  sub_inverse b hb := ⟨fieldInverse b, sbox_inverse b hb⟩
  unsub_sub := sboxinv_sbox

/-- The four values of a function. -/
def four {α : Type} (a b c d : α) : Fin 4 → α
  | 0 => a
  | 1 => b
  | 2 => c
  | 3 => d

/-- A word as a column, the top byte first. -/
def column (w : UInt32) : Fips197.Word := four (byte3 w) (byte2 w) (byte1 w) (byte0 w)

/-- Four words as the columns of a state. -/
def Block.state (s : Block) : Fips197.State := fun r c =>
  four (column s.w0) (column s.w1) (column s.w2) (column s.w3) c r

section Columns

variable {s k : Block}

theorem column_xor (v w : UInt32) : column (v ^^^ w) = fun r => column v r ^^^ column w r := by
  funext r
  fin_cases r <;> simp [column, four]

/-- The block exclusive or is the addition of a round key. -/
theorem state_xor : (s.xor k).state = Fips197.addRoundKey s.state k.state := by
  funext r c
  fin_cases c <;> simp [Block.state, Block.xor, column_xor, Fips197.addRoundKey, four]

/-- A block is loaded column by column, as the standard's state is. -/
theorem state_get (bs : List UInt8) : (Block.get bs).state = Fips197.load bs := by
  funext r c
  fin_cases r <;> fin_cases c <;> simp [Block.state, Block.get, get32, column, four, Fips197.load]

end Columns

section Rounds

variable {s k : Block}

/-- The last round substitutes and shifts, and mixes no columns. -/
theorem state_encryptLast : (encryptLast s).state =
    Fips197.shiftRows (Fips197.subBytes sourceSbox s.state) := by
  funext r c
  fin_cases r <;> fin_cases c <;>
    simp [Block.state, column, four, encryptLast, Fips197.shiftRows, Fips197.subBytes, sourceSbox]

/-- MixColumns of a word. -/
def mixWord (w : UInt32) : UInt32 := mix (byte3 w) (byte2 w) (byte1 w) (byte0 w)

/-- The mix of a word is one column of the standard's matrix. -/
theorem column_mixWord (w : UInt32) : column (mixWord w) = fun r =>
    Fips197.mul 0x02 (column w r) ^^^ Fips197.mul 0x03 (column w (r + 1)) ^^^ column w (r + 2) ^^^
      column w (r + 3) := by
  funext r
  fin_cases r <;>
    simp [column, four, mixWord, mix, mix0, mix1, mix2, mix3, Fips197.mul_small, mulby2_eq] <;>
      ac_rfl

/-- The round tables combine SubBytes, ShiftRows and MixColumns. -/
theorem encryptRound_eq : encryptRound s k = (Block.mk (mixWord (encryptLast s).w0)
    (mixWord (encryptLast s).w1) (mixWord (encryptLast s).w2)
    (mixWord (encryptLast s).w3)).xor k := by
  simp [encryptRound, encryptLast, Block.xor, mixWord, mix, e0, e1, e2, e3]

/-- An encryption round by tables is substitution, shift, mix and key. -/
theorem state_encryptRound : (encryptRound s k).state =
    Fips197.addRoundKey (Fips197.mixColumns
      (Fips197.shiftRows (Fips197.subBytes sourceSbox s.state)))
      k.state := by
  rw [encryptRound_eq, state_xor, ← state_encryptLast]
  generalize encryptLast s = t
  congr 1
  funext r c
  fin_cases c
  · exact congrFun (column_mixWord t.w0) r
  · exact congrFun (column_mixWord t.w1) r
  · exact congrFun (column_mixWord t.w2) r
  · exact congrFun (column_mixWord t.w3) r

end Rounds

section Schedule

variable {key : List UInt8}

/-- The table of round constants holds the powers of x. -/
theorem rcon_eq {r : Nat} (h : r < 10) : column (rcon.getD r 0) = Fips197.rcon (r + 1) := by
  have hAll : ∀ r : Fin 10, ∀ i : Fin 4, column (rcon.getD r 0) i = Fips197.rcon (r + 1) i := by
    decide +kernel
  funext i
  exact hAll ⟨r, h⟩ i

/-- The words of the next round's key. -/
theorem state_nextRoundKey {s : Block} {n : Nat} (h : s.state = Fips197.roundKey sourceSbox key n)
    (hn : n < 10) : (nextRoundKey s (n + 1)).state = Fips197.roundKey sourceSbox key (n + 1) := by
  have hWord (c : Fin 4) : (fun r => s.state r c) = Fips197.keyWord sourceSbox key (4 * n + c) := by
    rw [h]
    rfl
  have h0 : column s.w0 = Fips197.keyWord sourceSbox key (4 * n) := hWord 0
  have h1 : column s.w1 = Fips197.keyWord sourceSbox key (4 * n + 1) := hWord 1
  have h2 : column s.w2 = Fips197.keyWord sourceSbox key (4 * n + 2) := hWord 2
  have h3 : column s.w3 = Fips197.keyWord sourceSbox key (4 * n + 3) := hWord 3
  have hStep (i : Nat) (hi : 0 < i ∧ i < 4) : Fips197.keyWord sourceSbox key (4 * (n + 1) + i) =
      fun r => Fips197.keyWord sourceSbox key (4 * n + i) r ^^^
        Fips197.keyWord sourceSbox key (4 * (n + 1) + (i - 1)) r := by
    rw [Fips197.keyWord, if_neg (by omega), if_neg (by omega),
      show 4 * (n + 1) + i - 4 = 4 * n + i by omega,
      show 4 * (n + 1) + i - 1 = 4 * (n + 1) + (i - 1) by omega]
  have hRot : column (pack (sbox (byte2 s.w3)) (sbox (byte1 s.w3)) (sbox (byte0 s.w3))
    (sbox (byte3 s.w3))) =
      Fips197.subRotWord sourceSbox (column s.w3) := by
    funext r
    fin_cases r <;> simp [column, four, Fips197.subRotWord, sourceSbox]
  have hFirst : column (nextRoundKey s (n + 1)).w0 =
    Fips197.keyWord sourceSbox key (4 * (n + 1) + 0) := by
    rw [Fips197.keyWord, if_neg (by omega), if_pos (by omega),
      show 4 * (n + 1) + 0 - 4 = 4 * n by omega, show 4 * (n + 1) + 0 - 1 = 4 * n + 3 by omega,
      show (4 * (n + 1) + 0) / 4 = n + 1 by omega, ← h0, ← h3, ← rcon_eq hn, ← hRot]
    simp only [nextRoundKey, column_xor, Nat.add_sub_cancel]
  have hSecond : column (nextRoundKey s (n + 1)).w1 =
    Fips197.keyWord sourceSbox key (4 * (n + 1) + 1) := by
    rw [hStep 1 (by decide), ← h1, ← hFirst, ← column_xor]
    rfl
  have hThird : column (nextRoundKey s (n + 1)).w2 =
    Fips197.keyWord sourceSbox key (4 * (n + 1) + 2) := by
    rw [hStep 2 (by decide), ← h2, ← hSecond, ← column_xor]
    rfl
  have hFourth : column (nextRoundKey s (n + 1)).w3 =
    Fips197.keyWord sourceSbox key (4 * (n + 1) + 3) := by
    rw [hStep 3 (by decide), ← h3, ← hThird, ← column_xor]
    rfl
  funext r c
  fin_cases c
  · exact congrFun hFirst r
  · exact congrFun hSecond r
  · exact congrFun hThird r
  · exact congrFun hFourth r

/-- The key of round `n`. -/
def roundKeyOf (first : Block) : Nat → Block
  | 0 => first
  | n + 1 => nextRoundKey (roundKeyOf first n) (n + 1)

/-- The key schedule: the key, nine round keys, and the last. -/
theorem aesSetup_eq :
    aesSetup key = ⟨Block.get key, (List.range' 1 9).map (roundKeyOf (Block.get key)),
    roundKeyOf (Block.get key) 10⟩ := rfl

/-- Every round key is that of the standard. The induction is on the round. -/
theorem state_roundKeyOf {n : Nat} (hn : n ≤ 10) :
    (roundKeyOf (Block.get key) n).state = Fips197.roundKey sourceSbox key n := by
  induction n with
  | zero =>
      rw [roundKeyOf, state_get]
      funext r c
      rw [Fips197.roundKey, Fips197.keyWord, if_pos (by omega), Fips197.load]
      congr 1
      omega
  | succ n ih => exact state_nextRoundKey (ih (by omega)) hn

end Schedule

section Cipher

variable {key : List UInt8} {b : Block}

/-- After `n` rounds the state is that of the standard. The induction is on `n`. -/
theorem state_rounds {n : Nat} (hn : n < 10) :
    (((List.range' 1 n).map (roundKeyOf (Block.get key))).foldl encryptRound
      (b.xor (Block.get key))).state =
      Fips197.rounds sourceSbox (Fips197.roundKey sourceSbox key) n b.state := by
  induction n with
  | zero =>
      have hFirst : (Block.get key).state = _ := state_roundKeyOf (n := 0) (by omega)
      rw [Fips197.rounds, ← hFirst]
      exact state_xor
  | succ n ih =>
      rw [List.range'_1_concat, List.map_append, List.foldl_append, List.map_singleton,
        List.foldl_cons,
        List.foldl_nil, state_encryptRound, ih (by omega), state_roundKeyOf (by omega),
          Nat.add_comm 1]
      rfl

theorem state_aesEncryptBlock : (aesEncryptBlock (aesSetup key) b).state =
    Fips197.cipher sourceSbox (Fips197.roundKey sourceSbox key) b.state := by
  rw [aesSetup_eq, aesEncryptBlock, state_xor, state_encryptLast, state_rounds (by omega),
    state_roundKeyOf (by omega), Fips197.cipher]

instance : Finite Block :=
  Finite.of_injective (fun s : Block => (s.w0.toFin, s.w1.toFin, s.w2.toFin, s.w3.toFin)) (by
    intro s t h
    cases s
    cases t
    simpa [UInt32.toFin_inj] using h)

/-- There are finitely many blocks, so decryption is the inverse on both sides. -/
theorem state_aesDecryptBlock : (aesDecryptBlock (aesSetup key) b).state =
    Fips197.invCipher sourceSbox (Fips197.roundKey sourceSbox key) b.state := by
  have hInjective : Function.Injective (aesEncryptBlock (aesSetup key)) :=
    Function.LeftInverse.injective (aesDecryptBlock_aesEncryptBlock (aesSetup key))
  obtain ⟨plain, rfl⟩ := Finite.injective_iff_surjective.mp hInjective b
  rw [aesDecryptBlock_aesEncryptBlock, state_aesEncryptBlock, Fips197.invCipher_cipher]

end Cipher

section Chaining

/-- Block `j` of a buffer, as a state. -/
def loadBlock (bs : List UInt8) (j : Nat) : Fips197.State := Fips197.load (bs.drop (16 * j))

/-- What block `j` is chained to: the initial block, or the ciphertext block before it. -/
def chainedTo (iv : Block) (ct : List UInt8) : Nat → Fips197.State
  | 0 => iv.state
  | j + 1 => loadBlock ct j

/-- The blocks of a buffer are the blocks of its bytes. -/
theorem state_blockAt (bs : List UInt8) (j : Nat) :
    (BlockChaining.blockAt blockCodec bs j).state = loadBlock bs j := by
  rw [loadBlock, ← state_get, Nat.mul_comm]
  rfl

/-- What a block is chained to is the block in front of it, or the initialization
vector. -/
theorem state_previous (iv : Block) (ct : List UInt8) (j : Nat) :
    (BlockChaining.previous blockCodec iv ct j).state = chainedTo iv ct j := by
  cases j with
  | zero => rfl
  | succ j => exact state_blockAt ct j

end Chaining

/-- The buffer is the standard's cipher and inverse cipher in CBC mode, block by block, and
what is behind the last whole block stays. -/
theorem aes_cbc_is_standard (key : List UInt8) (iv : Block) (blk : List UInt8) :
    let k := Fips197.roundKey sourceSbox key
    let ct := (aesCbcEncrypt (aesSetup key) iv blk).1
    let pt := (aesCbcDecrypt (aesSetup key) iv blk).1
    (∀ j < blk.length / 16,
      loadBlock ct j = Fips197.cipher sourceSbox k
        (Fips197.addRoundKey (chainedTo iv ct j) (loadBlock blk j)) ∧
      loadBlock pt j = Fips197.addRoundKey (chainedTo iv blk j)
        (Fips197.invCipher sourceSbox k (loadBlock blk j))) ∧
    ct.length = blk.length ∧ pt.length = blk.length ∧
    ct.drop (blk.length / 16 * 16) = blk.drop (blk.length / 16 * 16) ∧
    pt.drop (blk.length / 16 * 16) = blk.drop (blk.length / 16 * 16) := by
  refine ⟨fun j hj => ⟨?_, ?_⟩, ?_, ?_, ?_, ?_⟩
  · rw [aesCbcEncrypt, ← state_blockAt, BlockChaining.blockAt_encrypt hj,
      state_aesEncryptBlock, state_xor,
      state_previous, state_blockAt]
  · rw [aesCbcDecrypt, ← state_blockAt, BlockChaining.blockAt_decrypt hj, state_xor,
      state_aesDecryptBlock,
      state_previous, state_blockAt]
  · exact BlockChaining.length_encrypt (Nat.div_mul_le_self _ 16)
  · exact BlockChaining.length_decrypt (Nat.div_mul_le_self _ 16)
  · rw [aesCbcEncrypt, show 16 = blockCodec.size from rfl]
    exact BlockChaining.drop_encrypt
  · rw [aesCbcDecrypt, show 16 = blockCodec.size from rfl]
    exact BlockChaining.drop_decrypt

end Vmodem.Tls
