import Vmodem.Driver.State

/-! What a program learns of the caller's terminal (`int8.c`). -/

namespace Vmodem

/-- The answer of MUX_PORT_TTYPE: AX, and the bytes stored from ES:BX on. -/
structure TtypeReply where
  ax : UInt16
  stored : List UInt8
  deriving DecidableEq, Repr

/-- The copy loop: up to a NUL, and no further than the caller's buffer. -/
def copyText (src : Nat → UInt8) : Nat → Nat → List UInt8
  | 0, _ => []
  | room + 1, len => if src len ≠ 0 then src len :: copyText src room (len + 1) else []

/-- MUX_PORT_TTYPE. -/
def portTtype (i : PortIdx) (bufsz : UInt16) (s : Sys) : TtypeReply :=
  if 0 < bufsz then
    let text := copyText (s.ports i).ttype (bufsz - 1).toNat 0
    ⟨text.length.toUInt16, text ++ [0]⟩
  else ⟨0, []⟩

/-- The places of the source the loop looks at; the last one it does not copy. -/
def scanned (src : Nat → UInt8) : Nat → Nat → List Nat
  | 0, len => [len]
  | room + 1, len => len :: if src len ≠ 0 then scanned src room (len + 1) else []

/-- The places of `ttype` MUX_PORT_TTYPE reads. -/
def ttypeScanned (i : PortIdx) (bufsz : UInt16) (s : Sys) : List Nat :=
  if 0 < bufsz then scanned (s.ports i).ttype (bufsz - 1).toNat 0 else []

end Vmodem
