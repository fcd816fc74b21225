import Vmodem.Library.BlockChaining
import Vmodem.Tls.Words

/-! AES-128 as `vtls.c` computes it, with the round tables that combine the S-box and
MixColumns, and CBC over a buffer. -/

namespace Vmodem.Tls

/-- `Sbox`, by rows of 16 values. -/
def sboxTable : Array (Array UInt8) :=
  #[#[0x63, 0x7c, 0x77, 0x7b, 0xf2, 0x6b, 0x6f, 0xc5, 0x30, 0x01, 0x67, 0x2b, 0xfe, 0xd7,
    0xab, 0x76],
    #[0xca, 0x82, 0xc9, 0x7d, 0xfa, 0x59, 0x47, 0xf0, 0xad, 0xd4, 0xa2, 0xaf, 0x9c, 0xa4,
      0x72, 0xc0],
    #[0xb7, 0xfd, 0x93, 0x26, 0x36, 0x3f, 0xf7, 0xcc, 0x34, 0xa5, 0xe5, 0xf1, 0x71, 0xd8,
      0x31, 0x15],
    #[0x04, 0xc7, 0x23, 0xc3, 0x18, 0x96, 0x05, 0x9a, 0x07, 0x12, 0x80, 0xe2, 0xeb, 0x27,
      0xb2, 0x75],
    #[0x09, 0x83, 0x2c, 0x1a, 0x1b, 0x6e, 0x5a, 0xa0, 0x52, 0x3b, 0xd6, 0xb3, 0x29, 0xe3,
      0x2f, 0x84],
    #[0x53, 0xd1, 0x00, 0xed, 0x20, 0xfc, 0xb1, 0x5b, 0x6a, 0xcb, 0xbe, 0x39, 0x4a, 0x4c,
      0x58, 0xcf],
    #[0xd0, 0xef, 0xaa, 0xfb, 0x43, 0x4d, 0x33, 0x85, 0x45, 0xf9, 0x02, 0x7f, 0x50, 0x3c,
      0x9f, 0xa8],
    #[0x51, 0xa3, 0x40, 0x8f, 0x92, 0x9d, 0x38, 0xf5, 0xbc, 0xb6, 0xda, 0x21, 0x10, 0xff,
      0xf3, 0xd2],
    #[0xcd, 0x0c, 0x13, 0xec, 0x5f, 0x97, 0x44, 0x17, 0xc4, 0xa7, 0x7e, 0x3d, 0x64, 0x5d,
      0x19, 0x73],
    #[0x60, 0x81, 0x4f, 0xdc, 0x22, 0x2a, 0x90, 0x88, 0x46, 0xee, 0xb8, 0x14, 0xde, 0x5e,
      0x0b, 0xdb],
    #[0xe0, 0x32, 0x3a, 0x0a, 0x49, 0x06, 0x24, 0x5c, 0xc2, 0xd3, 0xac, 0x62, 0x91, 0x95,
      0xe4, 0x79],
    #[0xe7, 0xc8, 0x37, 0x6d, 0x8d, 0xd5, 0x4e, 0xa9, 0x6c, 0x56, 0xf4, 0xea, 0x65, 0x7a,
      0xae, 0x08],
    #[0xba, 0x78, 0x25, 0x2e, 0x1c, 0xa6, 0xb4, 0xc6, 0xe8, 0xdd, 0x74, 0x1f, 0x4b, 0xbd,
      0x8b, 0x8a],
    #[0x70, 0x3e, 0xb5, 0x66, 0x48, 0x03, 0xf6, 0x0e, 0x61, 0x35, 0x57, 0xb9, 0x86, 0xc1,
      0x1d, 0x9e],
    #[0xe1, 0xf8, 0x98, 0x11, 0x69, 0xd9, 0x8e, 0x94, 0x9b, 0x1e, 0x87, 0xe9, 0xce, 0x55,
      0x28, 0xdf],
    #[0x8c, 0xa1, 0x89, 0x0d, 0xbf, 0xe6, 0x42, 0x68, 0x41, 0x99, 0x2d, 0x0f, 0xb0, 0x54,
      0xbb, 0x16]]

/-- `Sboxinv`, by rows of 16 values. -/
def sboxinvTable : Array (Array UInt8) :=
  #[#[0x52, 0x09, 0x6a, 0xd5, 0x30, 0x36, 0xa5, 0x38, 0xbf, 0x40, 0xa3, 0x9e, 0x81, 0xf3,
    0xd7, 0xfb],
    #[0x7c, 0xe3, 0x39, 0x82, 0x9b, 0x2f, 0xff, 0x87, 0x34, 0x8e, 0x43, 0x44, 0xc4, 0xde,
      0xe9, 0xcb],
    #[0x54, 0x7b, 0x94, 0x32, 0xa6, 0xc2, 0x23, 0x3d, 0xee, 0x4c, 0x95, 0x0b, 0x42, 0xfa,
      0xc3, 0x4e],
    #[0x08, 0x2e, 0xa1, 0x66, 0x28, 0xd9, 0x24, 0xb2, 0x76, 0x5b, 0xa2, 0x49, 0x6d, 0x8b,
      0xd1, 0x25],
    #[0x72, 0xf8, 0xf6, 0x64, 0x86, 0x68, 0x98, 0x16, 0xd4, 0xa4, 0x5c, 0xcc, 0x5d, 0x65,
      0xb6, 0x92],
    #[0x6c, 0x70, 0x48, 0x50, 0xfd, 0xed, 0xb9, 0xda, 0x5e, 0x15, 0x46, 0x57, 0xa7, 0x8d,
      0x9d, 0x84],
    #[0x90, 0xd8, 0xab, 0x00, 0x8c, 0xbc, 0xd3, 0x0a, 0xf7, 0xe4, 0x58, 0x05, 0xb8, 0xb3,
      0x45, 0x06],
    #[0xd0, 0x2c, 0x1e, 0x8f, 0xca, 0x3f, 0x0f, 0x02, 0xc1, 0xaf, 0xbd, 0x03, 0x01, 0x13,
      0x8a, 0x6b],
    #[0x3a, 0x91, 0x11, 0x41, 0x4f, 0x67, 0xdc, 0xea, 0x97, 0xf2, 0xcf, 0xce, 0xf0, 0xb4,
      0xe6, 0x73],
    #[0x96, 0xac, 0x74, 0x22, 0xe7, 0xad, 0x35, 0x85, 0xe2, 0xf9, 0x37, 0xe8, 0x1c, 0x75,
      0xdf, 0x6e],
    #[0x47, 0xf1, 0x1a, 0x71, 0x1d, 0x29, 0xc5, 0x89, 0x6f, 0xb7, 0x62, 0x0e, 0xaa, 0x18,
      0xbe, 0x1b],
    #[0xfc, 0x56, 0x3e, 0x4b, 0xc6, 0xd2, 0x79, 0x20, 0x9a, 0xdb, 0xc0, 0xfe, 0x78, 0xcd,
      0x5a, 0xf4],
    #[0x1f, 0xdd, 0xa8, 0x33, 0x88, 0x07, 0xc7, 0x31, 0xb1, 0x12, 0x10, 0x59, 0x27, 0x80,
      0xec, 0x5f],
    #[0x60, 0x51, 0x7f, 0xa9, 0x19, 0xb5, 0x4a, 0x0d, 0x2d, 0xe5, 0x7a, 0x9f, 0x93, 0xc9,
      0x9c, 0xef],
    #[0xa0, 0xe0, 0x3b, 0x4d, 0xae, 0x2a, 0xf5, 0xb0, 0xc8, 0xeb, 0xbb, 0x3c, 0x83, 0x53,
      0x99, 0x61],
    #[0x17, 0x2b, 0x04, 0x7e, 0xba, 0x77, 0xd6, 0x26, 0xe1, 0x69, 0x14, 0x63, 0x55, 0x21,
      0x0c, 0x7d]]

def tableEntry (table : Array (Array UInt8)) (x : UInt8) : UInt8 :=
  (table.getD (x.toNat / 16) #[]).getD (x.toNat % 16) 0

def sbox (x : UInt8) : UInt8 := tableEntry sboxTable x
def sboxinv (x : UInt8) : UInt8 := tableEntry sboxinvTable x

/-- `mulby2`. -/
def mulby2 (x : UInt8) : UInt8 := (x &&& 0x7F) <<< 1 ^^^ if x &&& 0x80 = 0 then 0 else 0x1B

/-- What `aes_build_tables` enters into the four encryption tables for an S-box value. -/
def mix0 (s : UInt8) : UInt32 := pack (mulby2 s) s s (mulby2 s ^^^ s)
def mix1 (s : UInt8) : UInt32 := pack (mulby2 s ^^^ s) (mulby2 s) s s
def mix2 (s : UInt8) : UInt32 := pack s (mulby2 s ^^^ s) (mulby2 s) s
def mix3 (s : UInt8) : UInt32 := pack s s (mulby2 s ^^^ s) (mulby2 s)

/-- The multiples of an inverse S-box value: by 9, 11, 13 and 14. -/
def by9 (s : UInt8) : UInt8 := mulby2 (mulby2 (mulby2 s)) ^^^ s
def by11 (s : UInt8) : UInt8 := mulby2 (mulby2 (mulby2 s)) ^^^ mulby2 s ^^^ s
def by13 (s : UInt8) : UInt8 := mulby2 (mulby2 (mulby2 s)) ^^^ mulby2 (mulby2 s) ^^^ s
def by14 (s : UInt8) : UInt8 := mulby2 (mulby2 (mulby2 s)) ^^^ mulby2 (mulby2 s) ^^^ mulby2 s

/-- What it enters into the four decryption tables. -/
def unmix0 (s : UInt8) : UInt32 := pack (by14 s) (by9 s) (by13 s) (by11 s)
def unmix1 (s : UInt8) : UInt32 := pack (by11 s) (by14 s) (by9 s) (by13 s)
def unmix2 (s : UInt8) : UInt32 := pack (by13 s) (by11 s) (by14 s) (by9 s)
def unmix3 (s : UInt8) : UInt32 := pack (by9 s) (by13 s) (by11 s) (by14 s)

def e0 (x : UInt8) : UInt32 := mix0 (sbox x)
def e1 (x : UInt8) : UInt32 := mix1 (sbox x)
def e2 (x : UInt8) : UInt32 := mix2 (sbox x)
def e3 (x : UInt8) : UInt32 := mix3 (sbox x)

def d0 (x : UInt8) : UInt32 := unmix0 (sboxinv x)
def d1 (x : UInt8) : UInt32 := unmix1 (sboxinv x)
def d2 (x : UInt8) : UInt32 := unmix2 (sboxinv x)
def d3 (x : UInt8) : UInt32 := unmix3 (sboxinv x)

/-- `Rcon`. -/
def rcon : Array UInt32 :=
  #[0x01000000, 0x02000000, 0x04000000, 0x08000000, 0x10000000, 0x20000000, 0x40000000, 0x80000000,
    0x1b000000, 0x36000000]

/-- Four words: a block, or the key of a round. -/
structure Block where
  w0 : UInt32
  w1 : UInt32
  w2 : UInt32
  w3 : UInt32
  deriving DecidableEq, Repr

namespace Block

def xor (s t : Block) : Block := ⟨s.w0 ^^^ t.w0, s.w1 ^^^ t.w1, s.w2 ^^^ t.w2, s.w3 ^^^ t.w3⟩

def get (bs : List UInt8) : Block := ⟨get32 bs 0, get32 bs 4, get32 bs 8, get32 bs 12⟩

def put (s : Block) : List UInt8 := put32 s.w0 ++ put32 s.w1 ++ put32 s.w2 ++ put32 s.w3

end Block

/-- The round keys of a 16-byte key. -/
structure AesKey where
  /-- The key of the first addition. -/
  whitening : Block
  /-- The keys of rounds 1 to 9. -/
  rounds : List Block
  /-- The key of the last round. -/
  last : Block
  deriving DecidableEq, Repr

/-- The four words of round `r` of `aes_setup` from those of the round before; the source
fills `sched` word by word, and `Nk` is 4. -/
def nextRoundKey (k : Block) (r : Nat) : Block :=
  let temp := pack (sbox (byte2 k.w3)) (sbox (byte1 k.w3)) (sbox (byte0 k.w3))
    (sbox (byte3 k.w3)) ^^^
    rcon.getD (r - 1) 0
  let w0 := k.w0 ^^^ temp
  let w1 := k.w1 ^^^ w0
  let w2 := k.w2 ^^^ w1
  ⟨w0, w1, w2, k.w3 ^^^ w2⟩

/-- The words of `n` rounds from round `r` on. -/
def roundKeys : Nat → Nat → Block → List Block
  | 0, _, _ => []
  | n + 1, r, k => nextRoundKey k r :: roundKeys n (r + 1) (nextRoundKey k r)

/-- A word of `invkeysched`. -/
def invWord (w : UInt32) : UInt32 :=
  d0 (sbox (byte3 w)) ^^^ d1 (sbox (byte2 w)) ^^^ d2 (sbox (byte1 w)) ^^^ d3 (sbox (byte0 w))

def invRoundKey (k : Block) : Block := ⟨invWord k.w0, invWord k.w1, invWord k.w2, invWord k.w3⟩

/-- `aes_setup` with a 16-byte key: `keysched`. -/
def aesSetup (key : List UInt8) : AesKey :=
  let first := Block.get key
  let keys := roundKeys 10 1 first
  ⟨first, keys.dropLast, keys.getLastD first⟩

/-- A round of `aes_encrypt_block`. -/
def encryptRound (s k : Block) : Block where
  w0 := e0 (byte3 s.w0) ^^^ e1 (byte2 s.w1) ^^^ e2 (byte1 s.w2) ^^^ e3 (byte0 s.w3) ^^^ k.w0
  w1 := e0 (byte3 s.w1) ^^^ e1 (byte2 s.w2) ^^^ e2 (byte1 s.w3) ^^^ e3 (byte0 s.w0) ^^^ k.w1
  w2 := e0 (byte3 s.w2) ^^^ e1 (byte2 s.w3) ^^^ e2 (byte1 s.w0) ^^^ e3 (byte0 s.w1) ^^^ k.w2
  w3 := e0 (byte3 s.w3) ^^^ e1 (byte2 s.w0) ^^^ e2 (byte1 s.w1) ^^^ e3 (byte0 s.w2) ^^^ k.w3

/-- The last round, without MixColumns. -/
def encryptLast (s : Block) : Block where
  w0 := pack (sbox (byte3 s.w0)) (sbox (byte2 s.w1)) (sbox (byte1 s.w2)) (sbox (byte0 s.w3))
  w1 := pack (sbox (byte3 s.w1)) (sbox (byte2 s.w2)) (sbox (byte1 s.w3)) (sbox (byte0 s.w0))
  w2 := pack (sbox (byte3 s.w2)) (sbox (byte2 s.w3)) (sbox (byte1 s.w0)) (sbox (byte0 s.w1))
  w3 := pack (sbox (byte3 s.w3)) (sbox (byte2 s.w0)) (sbox (byte1 s.w1)) (sbox (byte0 s.w2))

/-- `aes_encrypt_block`. -/
def aesEncryptBlock (key : AesKey) (block : Block) : Block :=
  (encryptLast (key.rounds.foldl encryptRound (block.xor key.whitening))).xor key.last

/-- A round of `aes_decrypt_block`, with a key of `invkeysched`. -/
def decryptRound (s k : Block) : Block where
  w0 := d0 (byte3 s.w0) ^^^ d1 (byte2 s.w3) ^^^ d2 (byte1 s.w2) ^^^ d3 (byte0 s.w1) ^^^ k.w0
  w1 := d0 (byte3 s.w1) ^^^ d1 (byte2 s.w0) ^^^ d2 (byte1 s.w3) ^^^ d3 (byte0 s.w2) ^^^ k.w1
  w2 := d0 (byte3 s.w2) ^^^ d1 (byte2 s.w1) ^^^ d2 (byte1 s.w0) ^^^ d3 (byte0 s.w3) ^^^ k.w2
  w3 := d0 (byte3 s.w3) ^^^ d1 (byte2 s.w2) ^^^ d2 (byte1 s.w1) ^^^ d3 (byte0 s.w0) ^^^ k.w3

def decryptLast (s : Block) : Block where
  w0 := pack (sboxinv (byte3 s.w0)) (sboxinv (byte2 s.w3)) (sboxinv (byte1 s.w2))
    (sboxinv (byte0 s.w1))
  w1 := pack (sboxinv (byte3 s.w1)) (sboxinv (byte2 s.w0)) (sboxinv (byte1 s.w3))
    (sboxinv (byte0 s.w2))
  w2 := pack (sboxinv (byte3 s.w2)) (sboxinv (byte2 s.w1)) (sboxinv (byte1 s.w0))
    (sboxinv (byte0 s.w3))
  w3 := pack (sboxinv (byte3 s.w3)) (sboxinv (byte2 s.w2)) (sboxinv (byte1 s.w1))
    (sboxinv (byte0 s.w0))

/-- `aes_decrypt_block`: the rounds run backwards over `invkeysched`, which has the first
and the last key as they are. -/
def aesDecryptBlock (key : AesKey) (block : Block) : Block :=
  (decryptLast ((key.rounds.reverse.map invRoundKey).foldl decryptRound (block.xor key.last))).xor
    key.whitening

end Vmodem.Tls
