import Vmodem.Driver.State

/-! The telnet layer (`telnet.c`): the negotiation sent on connect, the option
policy, and the parser every received byte goes through. -/

namespace Vmodem

def telIac : UInt8 := 0xFF
def telWill : UInt8 := 0xFB
def telWont : UInt8 := 0xFC
def telDo : UInt8 := 0xFD
def telDont : UInt8 := 0xFE
def telSB : UInt8 := 0xFA
def telSE : UInt8 := 0xF0

def teloptBinary : UInt8 := 0x00
def teloptEcho : UInt8 := 0x01
def teloptSga : UInt8 := 0x03
def teloptTtype : UInt8 := 0x18
def teloptNaws : UInt8 := 0x1F

/-- `telnet_send_raw`: bytes go to the port's socket without escaping; what the
socket does not take is lost. -/
def telnetSendRaw (i : PortIdx) (buf : List UInt8) (a : Answer) (s : Sys) : Sys :=
  match (s.ports i).sock with
  | none => s
  | some x =>
      if a.closed then s
      else s.setNet (s.net.send x (buf.map fun b => ⟨b, .control⟩) a.sent)

/-- The first batch of `telnet_on_connect`: WILL and DO BINARY, WILL ECHO,
WILL and DO SGA. -/
def connectOffers : List UInt8 :=
  [telIac, telWill, teloptBinary, telIac, telDo, teloptBinary, telIac, telWill, teloptEcho,
    telIac, telWill, teloptSga, telIac, telDo, teloptSga]

/-- The second batch: DO NAWS, DO TTYPE. -/
def connectRequests : List UInt8 :=
  [telIac, telDo, teloptNaws, telIac, telDo, teloptTtype]

/-- The part of `telnet_on_connect` that resets the parser and the negotiation
flags. -/
def telnetReset (p : PortState) : PortState :=
  { p with
    iacState := .normal
    iacCmd := 0
    iacHasPending := false
    iacPending := 0
    negBinary := false
    negEcho := false
    negSga := false
    negNaws := false
    negTtype := false
    sbOpt := 0
    sbLen := 0
    nawsCols := 0
    nawsRows := 0
    ttype := fun k => if k = 0 then 0 else p.ttype k }

/-- `telnet_send_response`. -/
def response (cmd opt : UInt8) : List UInt8 := [telIac, cmd, opt]

/-- The request for the terminal type: IAC SB TTYPE SEND IAC SE. -/
def ttypeRequest : List UInt8 := [telIac, telSB, teloptTtype, 0x01, telIac, telSE]

/-- `telnet_handle_option`: the updated port and the reply, if there is one. -/
def telnetHandleOption (p : PortState) (cmd opt : UInt8) : PortState × Option (List UInt8) :=
  if cmd = telDo then
    if opt = teloptBinary ∧ !p.negBinary then
      ({ p with negBinary := true }, some (response telWill opt))
    else if opt = teloptEcho ∧ !p.negEcho then
      ({ p with negEcho := true }, some (response telWill opt))
    else if opt = teloptSga ∧ !p.negSga then
      ({ p with negSga := true }, some (response telWill opt))
    else if opt ≠ teloptBinary ∧ opt ≠ teloptEcho ∧ opt ≠ teloptSga then
      (p, some (response telWont opt))
    else (p, none)
  else if cmd = telWill then
    if opt = teloptBinary ∧ !p.negBinary then
      ({ p with negBinary := true }, some (response telDo opt))
    else if opt = teloptSga ∧ !p.negSga then
      ({ p with negSga := true }, some (response telDo opt))
    else if opt = teloptNaws ∧ !p.negNaws then
      ({ p with negNaws := true }, some (response telDo opt))
    else if opt = teloptTtype ∧ !p.negTtype then
      ({ p with negTtype := true }, some ttypeRequest)
    else if opt ≠ teloptBinary ∧ opt ≠ teloptSga ∧ opt ≠ teloptNaws ∧ opt ≠ teloptTtype then
      (p, some (response telDont opt))
    else (p, none)
  else (p, none)

/-- What the parser makes of one received byte. -/
structure Filtered where
  port : PortState
  /-- The byte for the receive ring, `none` for -1. -/
  out : Option UInt8
  /-- The control sequence sent in answer. -/
  reply : Option (List UInt8)

/-- One byte of a subnegotiation after its option code is known or while it is
being read (`IAC_IN_SB`). -/
def subnegotiationByte (p : PortState) (b : UInt8) : PortState :=
  let p :=
    if p.sbLen = 0 then { p with sbOpt := b }
    else if p.sbOpt = teloptTtype ∧ 2 ≤ p.sbLen then
      if p.sbLen - 2 < 40 then
        { p with ttype := fun k => if k = (p.sbLen - 2).toNat then b else p.ttype k }
      else p
    else if p.sbLen ≤ 8 then
      { p with sbBuf := fun k => if k = (p.sbLen - 1).toNat then b else p.sbBuf k }
    else p
  { p with sbLen := p.sbLen + 1 }

/-- IAC SE: take over the terminal type or the window size. -/
def subnegotiationDone (p : PortState) : PortState :=
  if p.sbOpt = teloptTtype ∧ 2 < p.sbLen then
    let tlen := if 40 < p.sbLen - 2 then 40 else p.sbLen - 2
    { p with ttype := fun k => if k = tlen.toNat then 0 else p.ttype k }
  else if p.sbOpt = teloptNaws ∧ 5 ≤ p.sbLen then
    { p with
      nawsCols := (p.sbBuf 0).toUInt16 <<< 8 ||| (p.sbBuf 1).toUInt16
      nawsRows := (p.sbBuf 2).toUInt16 <<< 8 ||| (p.sbBuf 3).toUInt16 }
  else p

/-- `telnet_filter`. -/
def telnetFilter (p : PortState) (b : UInt8) : Filtered :=
  match p.iacState with
  | .normal =>
      if b = telIac then ⟨{ p with iacState := .sawFF }, none, none⟩
      else ⟨p, some b, none⟩
  | .sawFF =>
      if b = telIac then ⟨{ p with iacState := .normal }, some 0xFF, none⟩
      else if b = telWill ∨ b = telWont ∨ b = telDo ∨ b = telDont then
        ⟨{ p with iacCmd := b, iacState := .sawCmd }, none, none⟩
      else if b = telSB then
        ⟨{ p with sbLen := 0, sbOpt := 0, iacState := .inSB }, none, none⟩
      else ⟨{ p with iacState := .normal }, none, none⟩
  | .sawCmd =>
      ⟨{ (telnetHandleOption p p.iacCmd b).1 with iacState := .normal }, none,
        (telnetHandleOption p p.iacCmd b).2⟩
  | .inSB =>
      if b = telIac then ⟨{ p with iacState := .sbIac }, none, none⟩
      else ⟨subnegotiationByte p b, none, none⟩
  | .sbIac =>
      if b = telSE then ⟨{ subnegotiationDone p with iacState := .normal }, none, none⟩
      else ⟨{ p with iacState := .inSB }, none, none⟩

/-- What the parser passes on from a stretch of received bytes, replies left
aside. -/
def telnetFilterAll (p : PortState) : List UInt8 → PortState × List UInt8
  | [] => (p, [])
  | b :: bs =>
      ((telnetFilterAll (telnetFilter p b).port bs).1,
        (telnetFilter p b).out.toList ++ (telnetFilterAll (telnetFilter p b).port bs).2)

/-- The arrays the parser writes into. -/
inductive ParserArray where
  | sbBuf
  | ttype
  deriving DecidableEq, Repr

def ParserArray.size : ParserArray → Nat
  | sbBuf => 8
  | ttype => 41

/-- A store into one of them. -/
structure ParserStore where
  array : ParserArray
  index : Nat
  value : UInt8
  deriving DecidableEq, Repr

/-- What a byte of a subnegotiation stores. -/
def subnegotiationStore (p : PortState) (b : UInt8) : Option ParserStore :=
  if p.sbLen = 0 then none
  else if p.sbOpt = teloptTtype ∧ 2 ≤ p.sbLen then
    if p.sbLen - 2 < 40 then some ⟨.ttype, (p.sbLen - 2).toNat, b⟩ else none
  else if p.sbLen ≤ 8 then some ⟨.sbBuf, (p.sbLen - 1).toNat, b⟩
  else none

/-- The terminator IAC SE stores. -/
def terminatorStore (p : PortState) : Option ParserStore :=
  if p.sbOpt = teloptTtype ∧ 2 < p.sbLen then
    some ⟨.ttype, (if 40 < p.sbLen - 2 then 40 else p.sbLen - 2).toNat, 0⟩
  else none

/-- The store `telnet_filter` makes for a byte. -/
def filterStore (p : PortState) (b : UInt8) : Option ParserStore :=
  match p.iacState with
  | .inSB => if b = telIac then none else subnegotiationStore p b
  | .sbIac => if b = telSE then terminatorStore p else none
  | _ => none

/-- The store of `telnet_on_connect`. -/
def resetStore : ParserStore := ⟨.ttype, 0, 0⟩

end Vmodem
