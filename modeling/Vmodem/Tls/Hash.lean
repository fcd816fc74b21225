import Vmodem.Driver.Types
import Vmodem.Library.BlockHash
import Vmodem.Tls.Words

/-! SHA-1 and SHA-256, HMAC over either, and the TLS 1.2 pseudo-random function
(`vtls.c`, `sha256.c`). -/

namespace Vmodem.Tls

/-- `sha1_rol`. -/
def rol (x n : UInt32) : UInt32 := x <<< n ||| x >>> (32 - n)

/-- `ROR`. -/
def ror (x n : UInt32) : UInt32 := x >>> n ||| x <<< (32 - n)

/-- The digest registers of SHA-1. -/
structure Sha1Digest where
  a : UInt32
  b : UInt32
  c : UInt32
  d : UInt32
  e : UInt32
  deriving DecidableEq, Repr

/-- The word schedule of `sha1_transform`. -/
def sha1Schedule (blk : List UInt8) : Array UInt32 :=
  (List.range 64).foldl
    (fun w k =>
      let t := k + 16
      w.push (rol (w.getD (t - 3) 0 ^^^ w.getD (t - 8) 0 ^^^ w.getD (t - 14) 0 ^^^
        w.getD (t - 16) 0) 1))
    ((List.range 16).map fun t => get32 blk (t * 4)).toArray

/-- One of the 80 steps; every 20 steps have their own function and constant. -/
def sha1Step (w : Array UInt32) (s : Sha1Digest) (t : Nat) : Sha1Digest :=
  let f :=
    if t < 20 then (s.b &&& s.c ||| s.d &&& ~~~s.b) + s.e + w.getD t 0 + 0x5a827999
    else if t < 40 then (s.b ^^^ s.c ^^^ s.d) + s.e + w.getD t 0 + 0x6ed9eba1
    else if t < 60 then (s.b &&& s.c ||| s.b &&& s.d ||| s.c &&& s.d) + s.e +
      w.getD t 0 + 0x8f1bbcdc
    else (s.b ^^^ s.c ^^^ s.d) + s.e + w.getD t 0 + 0xca62c1d6
  ⟨rol s.a 5 + f, s.a, rol s.b 30, s.c, s.d⟩

/-- `sha1_transform`. -/
def sha1Transform (h : Sha1Digest) (blk : List UInt8) : Sha1Digest :=
  let s := (List.range 80).foldl (sha1Step (sha1Schedule blk)) h
  ⟨h.a + s.a, h.b + s.b, h.c + s.c, h.d + s.d, h.e + s.e⟩

/-- `SHA1_CTX`; `block` holds the `blkused` bytes that are used. -/
structure Sha1 where
  h : Sha1Digest
  block : List UInt8
  lenhi : UInt32
  lenlo : UInt32
  deriving DecidableEq, Repr

namespace Sha1

/-- `sha1_init`. -/
def init : Sha1 := ⟨⟨0x67452301, 0xefcdab89, 0x98badcfe, 0x10325476, 0xc3d2e1f0⟩, [], 0, 0⟩

/-- `sha1_update`: whole blocks are transformed as soon as they are full. -/
def update (s : Sha1) (p : List UInt8) : Sha1 :=
  let lenw := p.length.toUInt32
  let r := BlockHash.absorb sha1Transform 64 (s.h, s.block) p
  { h := r.1
    block := r.2
    lenhi := s.lenhi + if s.lenlo + lenw < lenw then 1 else 0
    lenlo := s.lenlo + lenw }

/-- `sha1_final`. -/
def final (s : Sha1) : List UInt8 :=
  let blkused := s.block.length
  let pad := if 56 ≤ blkused then 56 + 64 - blkused else 56 - blkused
  let lenhi := s.lenhi <<< 3 ||| s.lenlo >>> 29
  let lenlo := s.lenlo <<< 3
  let s := (s.update (0x80 :: List.replicate (pad - 1) 0)).update (put32 lenhi ++ put32 lenlo)
  put32 s.h.a ++ put32 s.h.b ++ put32 s.h.c ++ put32 s.h.d ++ put32 s.h.e

end Sha1

/-- The digest registers of SHA-256. -/
structure Sha256Digest where
  a : UInt32
  b : UInt32
  c : UInt32
  d : UInt32
  e : UInt32
  f : UInt32
  g : UInt32
  h : UInt32
  deriving DecidableEq, Repr

def sha256K : Array UInt32 :=
  #[0x428a2f98, 0x71374491, 0xb5c0fbcf, 0xe9b5dba5, 0x3956c25b, 0x59f111f1, 0x923f82a4, 0xab1c5ed5,
    0xd807aa98, 0x12835b01, 0x243185be, 0x550c7dc3, 0x72be5d74, 0x80deb1fe, 0x9bdc06a7, 0xc19bf174,
    0xe49b69c1, 0xefbe4786, 0x0fc19dc6, 0x240ca1cc, 0x2de92c6f, 0x4a7484aa, 0x5cb0a9dc, 0x76f988da,
    0x983e5152, 0xa831c66d, 0xb00327c8, 0xbf597fc7, 0xc6e00bf3, 0xd5a79147, 0x06ca6351, 0x14292967,
    0x27b70a85, 0x2e1b2138, 0x4d2c6dfc, 0x53380d13, 0x650a7354, 0x766a0abb, 0x81c2c92e, 0x92722c85,
    0xa2bfe8a1, 0xa81a664b, 0xc24b8b70, 0xc76c51a3, 0xd192e819, 0xd6990624, 0xf40e3585, 0x106aa070,
    0x19a4c116, 0x1e376c08, 0x2748774c, 0x34b0bcb5, 0x391c0cb3, 0x4ed8aa4a, 0x5b9cca4f, 0x682e6ff3,
    0x748f82ee, 0x78a5636f, 0x84c87814, 0x8cc70208, 0x90befffa, 0xa4506ceb, 0xbef9a3f7, 0xc67178f2]

def sig0 (x : UInt32) : UInt32 := ror x 7 ^^^ ror x 18 ^^^ x >>> 3
def sig1 (x : UInt32) : UInt32 := ror x 17 ^^^ ror x 19 ^^^ x >>> 10
def ep0 (x : UInt32) : UInt32 := ror x 2 ^^^ ror x 13 ^^^ ror x 22
def ep1 (x : UInt32) : UInt32 := ror x 6 ^^^ ror x 11 ^^^ ror x 25

/-- The word schedule of `sha256_transform`. -/
def sha256Schedule (data : List UInt8) : Array UInt32 :=
  (List.range 48).foldl
    (fun w k =>
      let i := k + 16
      w.push (sig1 (w.getD (i - 2) 0) + w.getD (i - 7) 0 + sig0 (w.getD (i - 15) 0) +
        w.getD (i - 16) 0))
    ((List.range 16).map fun i => get32 data (i * 4)).toArray

def sha256Step (w : Array UInt32) (s : Sha256Digest) (i : Nat) : Sha256Digest :=
  let ch := s.e &&& s.f ^^^ ~~~s.e &&& s.g
  let maj := s.a &&& s.b ^^^ s.a &&& s.c ^^^ s.b &&& s.c
  let t1 := s.h + ep1 s.e + ch + sha256K.getD i 0 + w.getD i 0
  let t2 := ep0 s.a + maj
  ⟨t1 + t2, s.a, s.b, s.c, s.d + t1, s.e, s.f, s.g⟩

/-- `sha256_transform`. -/
def sha256Transform (h : Sha256Digest) (data : List UInt8) : Sha256Digest :=
  let s := (List.range 64).foldl (sha256Step (sha256Schedule data)) h
  ⟨h.a + s.a, h.b + s.b, h.c + s.c, h.d + s.d, h.e + s.e, h.f + s.f, h.g + s.g, h.h + s.h⟩

/-- `SHA256_State`; `block` holds the `blkused` bytes that are used. -/
structure Sha256 where
  h : Sha256Digest
  block : List UInt8
  totlen : UInt32
  deriving DecidableEq, Repr

namespace Sha256

/-- `sha256_init`. -/
def init : Sha256 :=
  ⟨⟨0x6a09e667, 0xbb67ae85, 0x3c6ef372, 0xa54ff53a, 0x510e527f, 0x9b05688c, 0x1f83d9ab, 0x5be0cd19⟩,
    [], 0⟩

/-- `sha256_update`: the block that was begun is filled up first, then whole blocks are
taken from the input. -/
def update (s : Sha256) (p : List UInt8) : Sha256 :=
  let s := { s with totlen := s.totlen + p.length.toUInt32 }
  let fill := 64 - s.block.length
  if 0 < s.block.length ∧ 64 ≤ s.block.length + p.length then
    let d := p.drop fill
    { s with
      h := BlockHash.blocks sha256Transform 64 (d.length / 64)
        (sha256Transform s.h (s.block ++ p.take fill)) d
      block := d.drop (d.length / 64 * 64) }
  else
    { s with
      h := BlockHash.blocks sha256Transform 64 (p.length / 64) s.h p
      block := s.block ++ p.drop (p.length / 64 * 64) }

/-- `while (s->blkused != 56) sha256_update(s, &zero, 1);` -/
def padZeros : Nat → Sha256 → Sha256
  | 0, s => s
  | n + 1, s => if s.block.length = 56 then s else padZeros n (s.update [0])

/-- `sha256_final`. 63 rounds are enough for the padding. -/
def final (s : Sha256) : List UInt8 :=
  let bits := s.totlen * 8
  let s := (padZeros 63 (s.update [0x80])).update ([0, 0, 0, 0] ++ put32 bits)
  put32 s.h.a ++ put32 s.h.b ++ put32 s.h.c ++ put32 s.h.d ++
    (put32 s.h.e ++ put32 s.h.f ++ put32 s.h.g ++ put32 s.h.h)

end Sha256

/-- The digest of some portions. -/
def sha1 (portions : List (List UInt8)) : List UInt8 := (portions.foldl Sha1.update .init).final

def sha256 (portions : List (List UInt8)) : List UInt8 := (portions.foldl Sha256.update .init).final

/-- `hmac_sha1` and `hmac_sha256`: a key is cut to the 64 bytes of a block. -/
def hmac (hash : List (List UInt8) → List UInt8) (key data : List UInt8) : List UInt8 :=
  let ipad := (List.range 64).map fun i => 0x36 ^^^ key.getD i 0
  let opad := (List.range 64).map fun i => 0x5c ^^^ key.getD i 0
  hash [opad, hash [ipad, data]]

def hmacSha1 (key data : List UInt8) : List UInt8 := hmac sha1 key data

def hmacSha256 (key data : List UInt8) : List UInt8 := hmac sha256 key data

/-- The rounds of `tls_prf`, 32 bytes each. -/
def prfRounds (secret lseed : List UInt8) : Nat → List UInt8 → List UInt8
  | 0, _ => []
  | n + 1, a => hmacSha256 secret (a ++ lseed) ++ prfRounds secret lseed n (hmacSha256 secret a)

/-- `tls_prf`. -/
def tlsPrf (secret : List UInt8) (label : String) (seed : List UInt8) (outlen : Nat) : List UInt8 :=
  let lseed := bytes label ++ seed
  (prfRounds secret lseed ((outlen + 31) / 32) (hmacSha256 secret lseed)).take outlen

/-- `tls_prf` with its `int` sums: `none` where `lslen`, or `clen` of a round, overflows. -/
def tlsPrfInt (secret : List UInt8) (label : String) (seed : List UInt8) (outlen : Nat) :
    Option (List UInt8) :=
  let lslen := (bytes label).length + seed.length
  if 32768 ≤ lslen ∨ 0 < outlen ∧ 32768 ≤ 32 + lslen then none
  else some (tlsPrf secret label seed outlen)

theorem length_hmacSha1 (key data : List UInt8) : (hmacSha1 key data).length = 20 := rfl

theorem length_hmacSha256 (key data : List UInt8) : (hmacSha256 key data).length = 32 := rfl

namespace Sha256

variable {s : Sha256} {a b p : List UInt8}

/-- The hash registers and the bytes kept back, as the general streaming rules see them. -/
theorem update_eq_absorb (h : s.block.length < 64) :
    s.update p = ⟨(BlockHash.absorb sha256Transform 64 (s.h, s.block) p).1,
      (BlockHash.absorb sha256Transform 64 (s.h, s.block) p).2, s.totlen + p.length.toUInt32⟩ := by
  unfold update BlockHash.absorb
  dsimp only
  split_ifs with hFill
  · obtain ⟨_, hFull⟩ := hFill
    have hTake : (s.block ++ p).take 64 = s.block ++ p.take (64 - s.block.length) := by
      rw [List.take_append, List.take_of_length_le (by omega)]
    have hDrop : (s.block ++ p).drop 64 = p.drop (64 - s.block.length) := by
      rw [List.drop_append, List.drop_of_length_le (by omega), List.nil_append]
    have hCount : (s.block ++ p).length / 64 = (p.drop (64 - s.block.length)).length / 64 + 1 := by
      rw [List.length_append, List.length_drop]
      omega
    rw [hCount, BlockHash.blocks, hTake, hDrop, Nat.succ_mul, Nat.add_comm _ 64, ← List.drop_drop,
      hDrop]
  · by_cases hEmpty : s.block = []
    · simp [hEmpty]
    · have hShort : s.block.length + p.length < 64 := by
        have hPos := List.length_pos_of_ne_nil hEmpty
        omega
      have hNone : (s.block ++ p).length / 64 = 0 ∧ p.length / 64 = 0 := by
        rw [List.length_append]
        omega
      rw [hNone.1, hNone.2]
      simp [BlockHash.blocks]

/-- Between two calls the buffer of the hash is never a whole block. -/
theorem length_block_update (h : s.block.length < 64) : (s.update p).block.length < 64 := by
  rw [update_eq_absorb h]
  unfold BlockHash.absorb
  rw [List.length_drop]
  omega

/-- Cutting a stream does not change its digest. -/
theorem update_append (h : s.block.length < 64) : (s.update a).update b = s.update (a ++ b) := by
  have hAbsorb := @BlockHash.absorb_append _ _ sha256Transform 64 (s.h, s.block) a b (by decide)
  have hLength : s.totlen + a.length.toUInt32 + b.length.toUInt32 =
      s.totlen + (a ++ b).length.toUInt32 := by
    rw [List.length_append, UInt32.add_assoc]
    exact congrArg (s.totlen + ·) (UInt32.ofNat_add a.length b.length).symm
  rw [update_eq_absorb (length_block_update h), update_eq_absorb h, update_eq_absorb h]
  dsimp only
  rw [← hAbsorb, hLength]

theorem length_block_init : init.block.length < 64 := by decide

/-- A stream of portions is hashed as one. -/
theorem foldl_update (h : s.block.length < 64) (portions : List (List UInt8)) :
    portions.foldl update s = s.update portions.flatten := by
  induction portions generalizing s with
  | nil =>
      rw [update_eq_absorb h]
      simp [BlockHash.absorb, BlockHash.blocks, Nat.div_eq_of_lt h]
  | cons a portions ih =>
      rw [List.foldl_cons, ih (length_block_update h), update_append h, List.flatten_cons]

end Sha256

end Vmodem.Tls
