import Vmodem.Driver.Types

/-! The ping and traceroute interface: one echo request at a time, sent by the poll cycle
and matched with the ICMP packets mTCP hands to the driver. The rest of the driver does not
touch this state. -/

namespace Vmodem

/-- `ICMP_STATE_*`. -/
inductive IcmpState where
  | idle
  | waiting
  | reply
  | timeout
  deriving DecidableEq, Repr

def icmpEchoReply : UInt8 := 0
def icmpUnreachable : UInt8 := 3
def icmpTimeExceeded : UInt8 := 11

/-- The identifier of every echo request of the driver. -/
def icmpIdent : UInt16 := 0xC3C3

/-- `htons` on a little-endian machine. -/
def htons (x : UInt16) : UInt16 := .ofNat (x.toNat % 256 * 256 + x.toNat / 256)

/-- An incoming ICMP packet. What lies behind the end of the message is whatever the
packet buffer holds. -/
structure IcmpPacket where
  type : UInt8
  code : UInt8
  ipSrc : IpAddr
  ipTtl : UInt8
  payload : Nat → UInt8

namespace IcmpPacket

/-- The 16-bit word at an offset of the payload. -/
def word (pkt : IcmpPacket) (offset : Nat) : UInt16 :=
  .ofNat ((pkt.payload offset).toNat + 256 * (pkt.payload (offset + 1)).toNat)

/-- Where the identifier of a quoted request lies: behind the 4 unused bytes, the quoted IP
header, and the 4 bytes of the quoted ICMP header. -/
def quotedIdent (pkt : IcmpPacket) : Nat := 4 + ((pkt.payload 4).toNat % 16) * 4 + 4

/-- Time exceeded or destination unreachable. -/
def isError (pkt : IcmpPacket) : Bool := pkt.type = icmpTimeExceeded ∨ pkt.type = icmpUnreachable

end IcmpPacket

/-- `IcmpMuxResult`. -/
structure IcmpMuxResult where
  respType : UInt8
  respCode : UInt8
  respIp : IpAddr
  respSeq : UInt16
  respRttTicks : UInt16
  respTtl : UInt8
  deriving DecidableEq, Repr

/-- An echo request as it went out. -/
structure EchoRequest where
  dest : IpAddr
  ttl : UInt8
  seq : UInt16
  deriving DecidableEq, Repr

structure Icmp where
  state : IcmpState
  sendPending : Bool
  ttl : UInt8
  seq : UInt16
  destIp : IpAddr
  sendTick : UInt32
  result : IcmpMuxResult
  /-- The echo requests handed to the packet driver so far. -/
  sent : List EchoRequest

namespace Icmp

/-- `g_state` is cleared at startup. -/
def zero : Icmp := ⟨.idle, false, 0, 0, 0, 0, ⟨0, 0, 0, 0, 0, 0⟩, []⟩

/-- `MUX_ICMP_SEND`. -/
def send (ttl : UInt8) (seq : UInt16) (dest : IpAddr) (now : UInt32) (s : Icmp) : Icmp :=
  { s with
    ttl := ttl, seq := seq, destIp := dest, sendTick := now, sendPending := true,
    state := .waiting }

/-- The checks of `vmodem_icmp_handler`. -/
def accepts (pkt : IcmpPacket) (s : Icmp) : Bool :=
  s.state = .waiting ∧
    if pkt.type = icmpEchoReply then pkt.word 0 = icmpIdent ∧ pkt.word 2 = htons s.seq
    else if pkt.isError then pkt.word pkt.quotedIdent = icmpIdent
    else False

/-- What `vmodem_icmp_handler` notes of a packet. -/
def resultOf (pkt : IcmpPacket) (now : UInt32) (s : Icmp) : IcmpMuxResult where
  respType := pkt.type
  respCode := pkt.code
  respIp := pkt.ipSrc
  respSeq := s.seq
  respRttTicks := (now - s.sendTick).toUInt16
  respTtl := pkt.ipTtl

/-- `vmodem_icmp_handler`. -/
def handler (pkt : IcmpPacket) (now : UInt32) (s : Icmp) : Icmp :=
  if accepts pkt s then { s with result := resultOf pkt now s, state := .reply } else s

/-- The ICMP step of `do_mtcp_poll`; `resolved` says that `setDestEth` returned 0. -/
def transmit (resolved : Bool) (now : UInt32) (s : Icmp) : Icmp :=
  if s.sendPending ∧ resolved then
    { s with sent := ⟨s.destIp, s.ttl, s.seq⟩ :: s.sent, sendTick := now, sendPending := false }
  else s

/-- `MUX_ICMP_POLL`. -/
def poll (now : UInt32) (s : Icmp) : Icmp :=
  if s.state = .waiting ∧ !s.sendPending ∧ now - s.sendTick > 91 then { s with state := .timeout }
  else s

/-- `MUX_ICMP_RESULT`: the result is copied to the caller. -/
def takeResult (s : Icmp) : Icmp := { s with state := .idle }

inductive Action where
  | send (ttl : UInt8) (seq : UInt16) (dest : IpAddr) (now : UInt32)
  /-- The poll cycle hands a received packet to `vmodem_icmp_handler`. -/
  | receive (pkt : IcmpPacket) (now : UInt32)
  /-- The poll cycle comes to its ICMP step. -/
  | transmit (resolved : Bool) (now : UInt32)
  | poll (now : UInt32)
  | takeResult

def step : Action → Icmp → Option Icmp
  | .send ttl seq dest now, s => some (s.send ttl seq dest now)
  | .receive pkt now, s => some (s.handler pkt now)
  | .transmit resolved now, s => some (s.transmit resolved now)
  | .poll now, s => some (s.poll now)
  | .takeResult, s => some s.takeResult

end Icmp

end Vmodem
