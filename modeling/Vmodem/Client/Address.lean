import Vmodem.Library.CString
import Vmodem.Library.Decimal

/-! Dotted addresses (`inet_addr` of `vsocket.c`). An `unsigned long` has 32 bits. -/

namespace Vmodem

def inaddrNone : UInt32 := 0xFFFFFFFF

/-- The digit loop: `val`, `digits` and `p` behind it. A string lies in one segment, so
that the count of its digits never comes back to 0. -/
def inetDigits : List UInt8 → UInt32 → Nat → UInt32 × Nat × List UInt8
  | [], val, digits => (val, digits, [])
  | b :: p, val, digits =>
      if 0x30 ≤ b ∧ b ≤ 0x39 then inetDigits p (val * 10 + (b.toUInt32 - 0x30)) (digits + 1)
      else (val, digits, b :: p)

/-- The separator behind an octet that is not the last; `i` octets are still to come. -/
def inetDot (i : Nat) (p : List UInt8) : Option (List UInt8) :=
  if 0 < i then
    if p.head? = some 0x2E then some p.tail else none
  else some p

/-- The loop over the octets, with `i` of them left to read. -/
def inetOctets : Nat → List UInt8 → Option (List UInt32 × List UInt8)
  | 0, p => some ([], p)
  | i + 1, p =>
      let (val, digits, p) := inetDigits p 0 0
      if digits = 0 ∨ 255 < val then none
      else
        match inetDot i p with
        | none => none
        | some p =>
            match inetOctets i p with
            | none => none
            | some (octets, p) => some (val :: octets, p)

/-- The octets as an address; the first is the least significant byte. -/
def inetPack (octets : List UInt32) : UInt32 :=
  octets.getD 0 0 ||| (octets.getD 1 0 <<< 8) ||| (octets.getD 2 0 <<< 16) |||
    (octets.getD 3 0 <<< 24)

def inetAddr (cp : CString) : UInt32 :=
  match inetOctets 4 cp.bytes with
  | none => inaddrNone
  | some (octets, p) => if p ≠ [] then inaddrNone else inetPack octets

end Vmodem
