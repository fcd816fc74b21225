import Vmodem.Library.BoundedLoop
import Vmodem.Tls.Hash

/-! The loop of `vtls_handshake` that takes the messages of a handshake record apart. What
lies around the record in memory can be read, so a buffer is a memory and a length. -/

namespace Vmodem.Tls

def htClientHello : UInt8 := 1
def htServerHello : UInt8 := 2
def htCertificate : UInt8 := 11
def htCertRequest : UInt8 := 13
def htServerDone : UInt8 := 14
def htClientKeyEx : UInt8 := 16
def htFinished : UInt8 := 20

/-- TLS_RSA_WITH_AES_128_CBC_SHA. -/
def rsaAes128Sha : Nat := 0x002F

/-- What an `int` holds of a number. -/
def int16 (x : Int) : Int := (x + 32768) % 65536 - 32768

/-- A value in range survives the conversion to a 16-bit int. -/
theorem int16_of_lt {x : Int} (hLow : -32768 ≤ x) (hHigh : x < 32768) : int16 x = x := by
  unfold int16
  omega

/-- A buffer at address 0 of a memory. -/
structure Buffer where
  len : Nat
  mem : Int → UInt8

namespace Buffer

/-- Bytes with some memory around them. -/
def around (bs : List UInt8) (outside : Int → UInt8) : Buffer where
  len := bs.length
  mem i := if 0 ≤ i ∧ i < bs.length then bs.getD i.toNat 0 else outside i

def bytes (rec : Buffer) (start : Int) (count : Nat) : List UInt8 :=
  (List.range count).map fun k => rec.mem (start + k)

/-- `GET16_BE`. -/
def get16 (rec : Buffer) (i : Int) : Nat := (rec.mem i).toNat * 256 + (rec.mem (i + 1)).toNat

/-- The number in three bytes. -/
def get24 (rec : Buffer) (i : Int) : Nat := (rec.mem i).toNat * 65536 + rec.get16 (i + 1)

end Buffer

/-- A use of the record by the loop. -/
inductive Access where
  | read (start : Int) (count : Nat)
  /-- `memcpy(server_random, rec + start, count)`. -/
  | random (start : Int) (count : Nat)
  /-- `sha256_update(&hs_hash, rec + start, len)` for a message of `message` bytes. -/
  | hash (start len : Int) (message : Nat)
  deriving DecidableEq, Repr

/-- The variables of `vtls_handshake` that the server's first messages fill. -/
structure FirstFlight where
  hsHash : Sha256
  serverRandom : List UInt8
  gotHello : Bool
  /-- `cert_data` once `got_cert` is set. -/
  cert : Option (List UInt8)
  certRequested : Bool
  gotDone : Bool

/-- `sha256_update` of part of a buffer; a negative length only changes the total. -/
def Sha256.updateFrom (s : Sha256) (rec : Buffer) (start len : Int) : Sha256 :=
  if 0 ≤ len then s.update (rec.bytes start len.toNat)
  else { s with totlen := s.totlen + .ofInt len }

/-- What a branch of the loop reads, and the variables behind it unless it gives up. -/
structure Branch where
  log : List Access
  flight : Option FirstFlight

/-- A ServerHello. `off` is below the length of the record, so the sums fit an `int`. -/
def serverHello (rec : Buffer) (off hlen : Int) (f : FirstFlight) : Branch :=
  if hlen < 38 then ⟨[], none⟩
  else
    let sidLen := (rec.mem (off + 4 + 34)).toNat
    let csOff := off + 4 + 35 + sidLen
    let log := [.random (off + 4 + 2) 32, .read (off + 4 + 34) 1, .read csOff 2]
    if rec.get16 csOff ≠ rsaAes128Sha then ⟨log, none⟩
    else ⟨log, some { f with serverRandom := rec.bytes (off + 4 + 2) 32, gotHello := true }⟩

/-- The size passed to `malloc` and `memcpy` for the first certificate: an `int` taken for
unsigned. -/
def firstCertLen (rec : Buffer) (off : Int) : Nat := rec.get24 (off + 4 + 3) % 65536

/-- A Certificate message; `alloc` says for which sizes `malloc` succeeds. -/
def certificate (rec : Buffer) (alloc : Nat → Bool) (off : Int) (f : FirstFlight) : Branch :=
  let log := [.read (off + 4) 3, .read (off + 4 + 3) 3]
  let size := firstCertLen rec off
  if alloc size then
    ⟨log ++ [.read (off + 4 + 6) size], some { f with cert := some (rec.bytes (off + 4 + 6) size) }⟩
  else ⟨log, none⟩

/-- The `switch` over the message type. -/
def messageBody (rec : Buffer) (alloc : Nat → Bool) (off hlen : Int) (f : FirstFlight) : Branch :=
  let ht := rec.mem off
  if ht = htServerHello then serverHello rec off hlen f
  else if ht = htCertificate then certificate rec alloc off f
  else if ht = htCertRequest then ⟨[], some { f with certRequested := true }⟩
  else if ht = htServerDone then ⟨[], some { f with gotDone := true }⟩
  else ⟨[], some f⟩

/-- The loop between two passes. -/
structure Splitting where
  off : Int
  flight : FirstFlight
  log : List Access

/-- How the loop is left: `none` for the jump to `fail`. -/
structure Split where
  flight : Option FirstFlight
  log : List Access

open BoundedLoop (Pass Ran)

/-- One pass of the loop. -/
def messagePass (rec : Buffer) (alloc : Nat → Bool) (s : Splitting) : Pass Splitting Split :=
  if rec.len ≤ s.off then .leave ⟨some s.flight, s.log⟩
  else if rec.len < s.off + 4 then .leave ⟨none, s.log⟩
  else
    let hlen := int16 (rec.get24 (s.off + 1))
    if rec.len < int16 (s.off + 4 + hlen) then .leave ⟨none, s.log ++ [.read s.off 4]⟩
    else
      let log := s.log ++
        [.read s.off 4, .hash s.off (int16 (4 + hlen)) (4 + rec.get24 (s.off + 1))]
      let flight :=
        { s.flight with hsHash := s.flight.hsHash.updateFrom rec s.off (int16 (4 + hlen)) }
      let b := messageBody rec alloc s.off hlen flight
      match b.flight with
      | none => .leave ⟨none, log ++ b.log⟩
      | some flight => .again ⟨int16 (s.off + 4 + hlen), flight, log ++ b.log⟩

/-- The loop over a handshake record, with a bound on the number of passes. -/
def messageLoop (rec : Buffer) (alloc : Nat → Bool) : Nat → Splitting → Ran Splitting Split :=
  BoundedLoop.run fun _ => messagePass rec alloc

/-- What the check of the server's Finished reads of a handshake record. -/
def finishedReads (rec : Buffer) : List Access :=
  if 4 ≤ rec.len then
    .read 0 1 :: if rec.mem 0 = htFinished then [.read 4 12] else []
  else []

end Vmodem.Tls
