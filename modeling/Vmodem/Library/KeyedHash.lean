import Mathlib.Data.List.Basic
import Mathlib.Data.UInt

/-! HMAC over any hash function (RFC 2104), and the expansion of a secret into a stream of bytes
with it (RFC 5246, section 5). -/

namespace KeyedHash

variable (hash : List UInt8 → List UInt8) (size : Nat)

/-- The key filled up to a block; a longer one is hashed first. -/
def blockKey (key : List UInt8) : List UInt8 :=
  let key := if size < key.length then hash key else key
  key ++ List.replicate (size - key.length) 0

/-- H(K XOR opad, H(K XOR ipad, text)). -/
def hmac (key text : List UInt8) : List UInt8 :=
  let k := blockKey hash size key
  hash (k.map (· ^^^ 0x5c) ++ hash (k.map (· ^^^ 0x36) ++ text))

variable (mac : List UInt8 → List UInt8) (seed : List UInt8)

/-- A(i): the seed, and each time the MAC of the one before. -/
def chain : Nat → List UInt8
  | 0 => seed
  | i + 1 => mac (chain i)

/-- The first `n` blocks of the stream. -/
def stream (n : Nat) : List UInt8 :=
  (List.range n).flatMap fun i => mac (chain mac seed (i + 1) ++ seed)

/-- The first bytes of P_hash; as many blocks as bytes are always enough. -/
def pHash (outlen : Nat) : List UInt8 := (stream mac seed outlen).take outlen

section Stream

variable {mac seed} {m n len outlen : Nat}

theorem chain_one : chain mac seed 1 = mac seed := rfl

theorem stream_zero : stream mac seed 0 = [] := rfl

/-- Each further round appends one block, keyed by the next link of the chain. -/
theorem stream_succ (n : Nat) :
    stream mac seed (n + 1) = stream mac seed n ++ mac (chain mac seed (n + 1) ++ seed) := by
  rw [stream, List.range_succ, List.flatMap_append, List.flatMap_singleton, ← stream]

/-- The stream grows by one block of the same length in each round. -/
theorem length_stream (hLen : ∀ text, (mac text).length = len) (n : Nat) :
    (stream mac seed n).length = n * len := by
  induction n with
  | zero => rw [Nat.zero_mul]; rfl
  | succ n ih => rw [stream_succ, List.length_append, ih, hLen, Nat.succ_mul]

theorem stream_prefix (h : m ≤ n) : stream mac seed m <+: stream mac seed n := by
  induction h with
  | refl => exact List.prefix_refl _
  | step _ ih =>
      rw [stream_succ]
      exact ih.trans (List.prefix_append _ _)

/-- More blocks than needed do not matter. -/
theorem take_stream (hLen : ∀ text, (mac text).length = len) (hEnough : outlen ≤ m * len)
    (h : m ≤ n) :
    (stream mac seed n).take outlen = (stream mac seed m).take outlen := by
  have hPrefix : stream mac seed m <+: stream mac seed n := stream_prefix h
  obtain ⟨rest, hRest⟩ := hPrefix
  rw [← hRest, List.take_append_of_le_length]
  rwa [length_stream hLen]

/-- Fewer bytes are the beginning of more. -/
theorem pHash_prefix (hLen : ∀ text, (mac text).length = len) (hPos : 0 < len) (h : m ≤ n) :
    pHash mac seed m <+: pHash mac seed n := by
  have hEnough : m ≤ m * len := Nat.le_mul_of_pos_right m hPos
  rw [pHash, ← take_stream hLen hEnough h, pHash]
  exact List.take_prefix_take_left h

end Stream

end KeyedHash
