import Vmodem.Library.Fips180
import Vmodem.Tls.Hash

/-! SHA-256 in portions is SHA-256: the compression against the standard, the padding, and the
stream of `sha256_update` calls of any sizes. -/

namespace Vmodem.Tls

open Fips180 (Word)

/-- The registers as the standard's variables. -/
def Sha256Digest.vars (h : Sha256Digest) : Fips180.Vars :=
  ⟨h.a.toBitVec, h.b.toBitVec, h.c.toBitVec, h.d.toBitVec, h.e.toBitVec, h.f.toBitVec, h.g.toBitVec,
    h.h.toBitVec⟩

/-- The constants of the source are the roots the standard asks for. -/
def sourceConstants : Fips180.Constants where
  k t := (sha256K.getD t 0).toBitVec
  h j := ([0x6a09e667, 0xbb67ae85, 0x3c6ef372, 0xa54ff53a, 0x510e527f, 0x9b05688c, 0x1f83d9ab,
    0x5be0cd19].getD j (0 : UInt32)).toBitVec
  cubeRoots := by decide +kernel
  squareRoots := by decide +kernel

section Compression

variable (K : Fips180.Constants) {data : List UInt8} {h : Sha256Digest}

/-- The table of constants is the one of the standard. -/
theorem sha256K_eq {t : Nat} (ht : t < 64) : (sha256K.getD t 0).toBitVec = K.k t :=
  (sourceConstants.cubeRoots t ht).unique (K.cubeRoots t ht)

theorem init_vars : Sha256.init.h.vars = Fips180.initial K := by
  have hRoot (j : Nat) (hj : j < 8) : sourceConstants.h j = K.h j :=
    (sourceConstants.squareRoots j hj).unique (K.squareRoots j hj)
  rw [Fips180.initial, ← hRoot 0 (by decide), ← hRoot 1 (by decide), ← hRoot 2 (by decide),
    ← hRoot 3 (by decide), ← hRoot 4 (by decide), ← hRoot 5 (by decide), ← hRoot 6 (by decide),
    ← hRoot 7 (by decide)]
  rfl

theorem get32_eq (bs : List UInt8) (j : Nat) : (get32 bs (j * 4)).toBitVec = Fips180.word bs j := by
  apply BitVec.eq_of_toNat_eq
  rw [UInt32.toNat_toBitVec, get32, toNat_pack, Fips180.word, BitVec.toNat_ofNat, Nat.mul_comm j 4,
    Nat.mod_eq_of_lt]
  have h3 := (bs.getD (4 * j) 0).toNat_lt
  have h2 := (bs.getD (4 * j + 1) 0).toNat_lt
  have h1 := (bs.getD (4 * j + 2) 0).toNat_lt
  have h0 := (bs.getD (4 * j + 3) 0).toNat_lt
  omega

/-- A pass of the loop that extends the schedule. -/
def extendSchedule (w : Array UInt32) (k : Nat) : Array UInt32 :=
  let i := k + 16
  w.push (sig1 (w.getD (i - 2) 0) + w.getD (i - 7) 0 + sig0 (w.getD (i - 15) 0) + w.getD (i - 16) 0)

theorem getD_push (w : Array UInt32) (v : UInt32) (t : Nat) :
    (w.push v).getD t 0 = if t < w.size then w.getD t 0 else if t = w.size then v else 0 := by
  simp only [Array.getD_eq_getD_getElem?, Array.getElem?_push]
  by_cases hLast : t = w.size
  · rw [if_pos hLast, if_neg (by omega), if_pos hLast]
    rfl
  · rw [if_neg hLast, if_neg hLast]
    split_ifs with hIn
    · rfl
    · rw [Array.getElem?_eq_none (by omega)]
      rfl

/-- The array holds the schedule, as far as it goes. -/
theorem extendSchedule_eq (data : List UInt8) (n : Nat) :
    let w := (List.range n).foldl extendSchedule
      ((List.range 16).map fun i => get32 data (i * 4)).toArray
    w.size = n + 16 ∧ ∀ t < n + 16, (w.getD t 0).toBitVec =
      Fips180.schedule (Fips180.word data) t := by
  induction n with
  | zero =>
      refine ⟨rfl, fun t ht => ?_⟩
      rw [Fips180.schedule_first (by omega), ← get32_eq]
      simp [Array.getD_eq_getD_getElem?, List.getElem?_range (show t < 16 by omega)]
  | succ n ih =>
      rw [@List.range_succ n, List.foldl_append]
      generalize (List.range n).foldl extendSchedule _ = w at ih
      obtain ⟨hSize, hWords⟩ := ih
      refine ⟨?_, fun t ht => ?_⟩
      · show (w.push _).size = n + 1 + 16
        rw [Array.size_push, hSize]
      · show ((w.push _).getD t 0).toBitVec = _
        rw [getD_push, hSize]
        by_cases hOld : t < n + 16
        · rw [if_pos hOld]
          exact hWords t hOld
        · obtain rfl : t = n + 16 := by omega
          rw [if_neg hOld, if_pos rfl, Fips180.schedule_next (by omega), ← hWords _ (by omega),
            ← hWords _ (by omega), ← hWords _ (by omega), ← hWords _ (by omega)]
          rfl

/-- The message schedule is the one of the standard. The induction is on the words made
so far. -/
theorem sha256Schedule_eq {t : Nat} (ht : t < 64) :
    ((sha256Schedule data).getD t 0).toBitVec = Fips180.schedule (Fips180.word data) t :=
  (extendSchedule_eq data 48).2 t ht

/-- The rounds, one by one. -/
theorem sha256Rounds_eq (data : List UInt8) (h : Sha256Digest) {n : Nat} (hn : n ≤ 64) :
    ((List.range n).foldl (sha256Step (sha256Schedule data)) h).vars =
      Fips180.rounds K (Fips180.word data) n h.vars := by
  induction n with
  | zero => rfl
  | succ n ih =>
      rw [List.range_succ, List.foldl_append, List.foldl_cons, List.foldl_nil, Fips180.rounds,
        ← ih (by omega), ← sha256K_eq K (by omega), ← sha256Schedule_eq (by omega)]
      rfl

theorem sha256Transform_eq (h : Sha256Digest) (data : List UInt8) :
    (sha256Transform h data).vars = Fips180.compress K h.vars data := by
  have hRounds := sha256Rounds_eq K data h (Nat.le_refl 64)
  unfold sha256Transform Fips180.compress
  rw [← hRounds]
  generalize (List.range 64).foldl (sha256Step (sha256Schedule data)) h = s
  apply Fips180.Vars.ext <;> exact BitVec.add_comm _ _

theorem put32_eq (w : UInt32) : put32 w = Fips180.wordBytes w.toBitVec := by
  obtain ⟨h3, h2, h1, h0⟩ := toNat_bytes (w := w)
  have hw := w.toNat_lt
  have hByte {b : UInt8} {n : Nat} (h : b.toNat = n % 256) : b = UInt8.ofNat n := by
    apply UInt8.toNat_inj.mp
    rw [h, UInt8.toNat_ofNat']
  rw [put32, Fips180.wordBytes, UInt32.toNat_toBitVec]
  rw [hByte (b := byte3 w) (n := w.toNat / 2 ^ 24) (by omega), hByte h2, hByte h1, hByte h0]

end Compression

section Padding

variable {s : Sha256} {p : List UInt8}

/-- The buffer keeps what does not fill a block. -/
theorem Sha256.length_update (h : s.block.length < 64) :
    (s.update p).block.length = (s.block.length + p.length) % 64 := by
  have hMod := Nat.mod_add_div (s.block ++ p).length 64
  rw [Sha256.update_eq_absorb h, BlockHash.absorb]
  dsimp only
  rw [List.length_drop, ← List.length_append]
  omega

theorem Sha256.update_nil (h : s.block.length < 64) : s.update [] = s :=
  (Sha256.foldl_update h []).symm

/-- The zeros up to the place of the length. -/
theorem Sha256.padZeros_eq {n : Nat} (h : s.block.length < 64)
    (hn : (120 - s.block.length) % 64 ≤ n) :
    padZeros n s = s.update (List.replicate ((120 - s.block.length) % 64) 0) := by
  induction n generalizing s with
  | zero =>
      rw [Nat.le_zero.mp hn]
      exact (Sha256.update_nil h).symm
  | succ n ih =>
      rw [padZeros]
      split_ifs with hDone
      · rw [hDone]
        exact (Sha256.update_nil h).symm
      · have hLength := Sha256.length_update (p := [0]) h
        rw [List.length_singleton] at hLength
        obtain ⟨k, hk⟩ : ∃ k, (120 - s.block.length) % 64 = k + 1 :=
          Nat.exists_eq_add_one_of_ne_zero (by omega)
        have hNext : (120 - (s.update [0]).block.length) % 64 = k := by
          rw [hLength]
          omega
        rw [ih (Sha256.length_block_update h) (by omega), hNext, hk, Sha256.update_append h]
        rfl

/-- What `sha256_final` feeds in. -/
def Sha256.tail (s : Sha256) : List UInt8 :=
  [0x80] ++ List.replicate ((119 - s.block.length) % 64) 0 ++ ([0, 0, 0, 0] ++ put32 (s.totlen * 8))

/-- The digest is the state after the padding has been hashed too. -/
theorem Sha256.final_eq (h : s.block.length < 64) : s.final = (s.update s.tail).h.vars.bytes := by
  have hOne := Sha256.length_block_update (p := [0x80]) h
  have hLength := Sha256.length_update (p := [0x80]) h
  rw [List.length_singleton] at hLength
  have hZeros : (120 - (s.update [0x80]).block.length) % 64 = (119 - s.block.length) % 64 := by
    rw [hLength]
    omega
  have hPad : padZeros 63 (s.update [0x80]) =
      s.update ([0x80] ++ List.replicate ((119 - s.block.length) % 64) 0) := by
    rw [Sha256.padZeros_eq hOne (by omega), hZeros, Sha256.update_append h]
  unfold Sha256.final
  dsimp only
  rw [hPad, Sha256.update_append h, ← Sha256.tail]
  generalize (s.update s.tail).h = d
  rw [Fips180.Vars.bytes]
  simp only [List.flatMap_cons, List.flatMap_nil, List.append_nil, put32_eq, List.append_assoc,
    Sha256Digest.vars]

/-- The length field of a message below 2^29 bytes is right: its upper word is zero. -/
theorem lengthBytes_eq {n : Nat} (h : n < 2 ^ 29) :
    [0, 0, 0, 0] ++ put32 (n.toUInt32 * 8) = Fips180.lengthBytes (8 * n) := by
  have hBits : (n.toUInt32 * 8).toNat = 8 * n := by
    rw [UInt32.toNat_mul, Nat.toUInt32_eq, UInt32.toNat_ofNat']
    show n % 2 ^ 32 * 8 % 2 ^ 32 = 8 * n
    omega
  have hHigh (k : Nat) (hk : 2 ^ 32 ≤ k) : UInt8.ofNat (8 * n / k) = 0 := by
    rw [Nat.div_eq_of_lt (by omega)]
    rfl
  rw [put32_eq, Fips180.wordBytes, UInt32.toNat_toBitVec, hBits]
  show _ = [UInt8.ofNat (8 * n / 256 ^ 7), .ofNat (8 * n / 256 ^ 6), .ofNat (8 * n / 256 ^ 5),
    .ofNat (8 * n / 256 ^ 4), .ofNat (8 * n / 256 ^ 3), .ofNat (8 * n / 256 ^ 2),
    .ofNat (8 * n / 256 ^ 1), .ofNat (8 * n / 256 ^ 0)]
  rw [hHigh (256 ^ 7) (by decide), hHigh (256 ^ 6) (by decide), hHigh (256 ^ 5) (by decide),
    hHigh (256 ^ 4) (by decide), Nat.pow_zero, Nat.div_one]
  rfl

/-- The state behind a message. -/
theorem tail_of_message (p : List UInt8) (h : p.length < 2 ^ 29) :
    p ++ (Sha256.init.update p).tail = Fips180.pad p := by
  have hLength : (Sha256.init.update p).block.length = p.length % 64 := by
    rw [Sha256.length_update Sha256.length_block_init]
    exact congrArg (· % 64) (Nat.zero_add p.length)
  have hTotal : (Sha256.init.update p).totlen = p.length.toUInt32 := by
    rw [Sha256.update_eq_absorb Sha256.length_block_init]
    exact UInt32.zero_add _
  rw [Sha256.tail, hLength, hTotal, lengthBytes_eq h]
  rfl

/-- The digest of a message hashed in one piece is that of the standard. -/
theorem final_update (K : Fips180.Constants) (p : List UInt8) (h : p.length < 2 ^ 29) :
    (Sha256.init.update p).final = Fips180.digest K p := by
  rw [Sha256.final_eq (Sha256.length_block_update Sha256.length_block_init),
    Sha256.update_append Sha256.length_block_init, tail_of_message p h,
    Sha256.update_eq_absorb Sha256.length_block_init, Fips180.digest]
  show (BlockHash.blocks sha256Transform 64 _ Sha256.init.h ([] ++ Fips180.pad p)).vars.bytes = _
  rw [List.nil_append, BlockHash.blocks_map Sha256Digest.vars (sha256Transform_eq K), init_vars K]
  rfl

end Padding

/-- What one call of `sha256_update` is given. -/
structure Chunk where
  bytes : List UInt8
  size : bytes.length ≤ 18436

/-- One call of `sha256_update` for each chunk. -/
def Sha256.updates (s : Sha256) (chunks : List Chunk) : Sha256 :=
  chunks.foldl (fun s c => s.update c.bytes) s

/-- Hashing piece by piece is hashing the whole. The induction is on the pieces. -/
theorem updates_eq {s : Sha256} (h : s.block.length < 64) (chunks : List Chunk) :
    s.updates chunks = s.update (chunks.flatMap Chunk.bytes) := by
  rw [Sha256.updates, List.flatMap_def, ← Sha256.foldl_update h, List.foldl_map]

/-- The digest of a message in chunks is the standard's, also of a copy that is finalised before
the rest comes. -/
theorem sha256_is_standard (K : Fips180.Constants) (front back : List Chunk)
    (h : ((front ++ back).flatMap Chunk.bytes).length < 2 ^ 29) :
    (Sha256.init.updates front).final = Fips180.digest K (front.flatMap Chunk.bytes) ∧
      ((Sha256.init.updates front).updates back).final =
        Fips180.digest K ((front ++ back).flatMap Chunk.bytes) := by
  have hBlock := Sha256.length_block_init
  have hAll : (front ++ back).flatMap Chunk.bytes = front.flatMap Chunk.bytes ++
    back.flatMap Chunk.bytes :=
    List.flatMap_append
  have hFront : (front.flatMap Chunk.bytes).length < 2 ^ 29 := by
    rw [hAll, List.length_append] at h
    omega
  rw [updates_eq hBlock, updates_eq (Sha256.length_block_update hBlock),
    Sha256.update_append hBlock, ← hAll]
  exact ⟨final_update K _ hFront, final_update K _ h⟩

/-- A message in two portions. -/
theorem sha256_is_standard_abc :
    (Sha256.init.updates [⟨bytes "ab", by decide⟩]).final =
      Fips180.digest sourceConstants (bytes "ab") ∧
      ((Sha256.init.updates [⟨bytes "ab", by decide⟩]).updates [⟨bytes "c", by decide⟩]).final =
        Fips180.digest sourceConstants (bytes "abc") :=
  sha256_is_standard sourceConstants [⟨bytes "ab", by decide⟩] [⟨bytes "c", by decide⟩] (by decide)

end Vmodem.Tls
