import Mathlib.Data.List.GetD
import Vmodem.Library.KeyedHash
import Vmodem.Tls.Hash

/-! `tls_prf` is the pseudo-random function of RFC 5246, for labels and seeds whose lengths an
`int` can add up. -/

namespace Vmodem.Tls

/-- SHA-256 of the repository, of a message in one piece. -/
def sha256Of (message : List UInt8) : List UInt8 := sha256 [message]

/-- The standard's function. -/
def standardPrf (secret : List UInt8) (label : String) (seed : List UInt8)
    (outlen : Nat) : List UInt8 :=
  KeyedHash.pHash (KeyedHash.hmac sha256Of 64 secret) (bytes label ++ seed) outlen

/-- The function writes the standard's bytes, and fewer of them for a shorter length. -/
def WritesStandard (secret : List UInt8) (label : String) (seed : List UInt8)
    (outlen : Nat) : Prop :=
  tlsPrfInt secret label seed outlen = some (standardPrf secret label seed outlen) ∧
    ∀ n ≤ outlen, ∃ short, tlsPrfInt secret label seed n = some short ∧
      short <+: standardPrf secret label seed outlen

section Mac

variable {key data secret lseed : List UInt8}

/-- A message in two portions. -/
theorem sha256_pair (a b : List UInt8) : sha256 [a, b] = sha256Of (a ++ b) := by
  rw [sha256, sha256Of, sha256, Sha256.foldl_update Sha256.length_block_init,
    Sha256.foldl_update Sha256.length_block_init]
  simp

/-- The loop that masks the pads, for a key that fits a block. -/
theorem pad_eq (h : key.length ≤ 64) (mask : UInt8) :
    ((List.range 64).map fun i => mask ^^^ key.getD i 0) =
      (KeyedHash.blockKey sha256Of 64 key).map (· ^^^ mask) := by
  unfold KeyedHash.blockKey
  rw [if_neg (by omega)]
  apply List.ext_getElem
  · simp only [List.length_map, List.length_range, List.length_append, List.length_replicate]
    omega
  · intro i hi hi'
    rw [List.length_map, List.length_range] at hi
    rw [List.getElem_map, List.getElem_range, List.getElem_map, UInt8.xor_comm,
      List.getElem_append]
    split_ifs with hKey
    · rw [List.getD_eq_getElem _ _ hKey]
    · rw [List.getElem_replicate, List.getD_eq_default _ _ (Nat.le_of_not_lt hKey)]

/-- For keys of one block at most this is the standard's keyed hash. -/
theorem hmacSha256_eq (h : key.length ≤ 64) (data : List UInt8) :
    hmacSha256 key data = KeyedHash.hmac sha256Of 64 key data := by
  unfold hmacSha256 hmac KeyedHash.hmac
  dsimp only
  rw [sha256_pair, sha256_pair, pad_eq h, pad_eq h]

/-- The rounds from A(i + 1) on are the rest of the stream. -/
theorem prfRounds_eq (secret lseed : List UInt8) (i n : Nat) :
    KeyedHash.stream (hmacSha256 secret) lseed (i + n) =
      KeyedHash.stream (hmacSha256 secret) lseed i ++
      prfRounds secret lseed n (KeyedHash.chain (hmacSha256 secret) lseed (i + 1)) := by
  induction n generalizing i with
  | zero => exact (List.append_nil _).symm
  | succ n ih =>
      have hNext := ih (i + 1)
      rw [KeyedHash.stream_succ, List.append_assoc, Nat.add_right_comm] at hNext
      exact hNext

/-- `tls_prf` is the standard's expansion over the keyed hash. -/
theorem tlsPrf_eq (secret : List UInt8) (label : String) (seed : List UInt8) (outlen : Nat) :
    tlsPrf secret label seed outlen =
      KeyedHash.pHash (hmacSha256 secret) (bytes label ++ seed) outlen := by
  have hLen : ∀ text, (hmacSha256 secret text).length = 32 := length_hmacSha256 secret
  have hRounds := prfRounds_eq secret (bytes label ++ seed) 0 ((outlen + 31) / 32)
  rw [Nat.zero_add, KeyedHash.stream_zero, List.nil_append, Nat.zero_add, KeyedHash.chain_one]
    at hRounds
  rw [tlsPrf, ← hRounds, KeyedHash.pHash]
  exact (KeyedHash.take_stream hLen (by omega) (by omega)).symm

/-- For secrets of one block at most `tls_prf` is the standard's pseudorandom function.
-/
theorem tlsPrf_standard (h : secret.length ≤ 64) (label : String) (seed : List UInt8)
    (outlen : Nat) :
    tlsPrf secret label seed outlen = standardPrf secret label seed outlen := by
  have hMac : hmacSha256 secret = KeyedHash.hmac sha256Of 64 secret := funext (hmacSha256_eq h)
  rw [tlsPrf_eq, standardPrf, hMac]

end Mac

/-- The bytes are the standard's wherever the lengths add up: that of label and seed, and, where
there is a round, that of a block in front of them. -/
theorem prf_is_standard {secret : List UInt8} (hSecret : secret.length ≤ 64) (label : String)
    (seed : List UInt8) (outlen : Nat) (hInt : (bytes label).length + seed.length < 32768)
    (hRound : 0 < outlen → 32 + ((bytes label).length + seed.length) < 32768) :
    WritesStandard secret label seed outlen := by
  have hGoes (n : Nat) (hn : n ≤ outlen) :
      tlsPrfInt secret label seed n = some (standardPrf secret label seed n) := by
    unfold tlsPrfInt
    dsimp only
    rw [if_neg (by omega), tlsPrf_standard hSecret]
  refine ⟨hGoes outlen (Nat.le_refl outlen), fun n hn => ⟨_, hGoes n hn, ?_⟩⟩
  rw [← tlsPrf_standard hSecret, ← tlsPrf_standard hSecret, tlsPrf_eq, tlsPrf_eq]
  exact KeyedHash.pHash_prefix (length_hmacSha256 secret) (by decide) hn

/-- The use for the first Finished. -/
theorem prf_is_standard_finished :
    WritesStandard (List.replicate 48 1) "client finished" (List.replicate 32 2) 12 :=
  prf_is_standard (by decide) "client finished" (List.replicate 32 2) 12 (by decide)
    (fun _ => by decide)

/-- A seed with which the length of a round's message overflows. -/
theorem long_seed_overflows : (List.replicate 32736 (0 : UInt8)).length < 32768 ∧
    ¬ ∀ (secret : List UInt8) (label : String) (seed : List UInt8) (outlen : Nat),
      secret.length ≤ 64 → WritesStandard secret label seed outlen := by
  have hLength : (List.replicate 32736 (0 : UInt8)).length = 32736 := List.length_replicate
  refine ⟨by omega, fun hAll => ?_⟩
  have hNone : tlsPrfInt [] "" (List.replicate 32736 0) 1 = none := by
    unfold tlsPrfInt
    dsimp only
    rw [hLength]
    exact if_pos (.inr ⟨by decide, by decide⟩)
  have hSome := (hAll [] "" (List.replicate 32736 0) 1 (by decide)).1
  rw [hNone] at hSome
  cases hSome

end Vmodem.Tls
