import Vmodem.Driver.Telnet
import Vmodem.Driver.Fossil

/-! Two drivers that talk to each other: each runs `telnet_on_connect` once and feeds
what arrives to `telnet_filter`. TCP keeps the bytes of a direction in order, takes every
send whole, and delivers as much at a time as it likes. -/

namespace Vmodem

/-- The options sent by `telnet_on_connect`, one at a time. -/
def connectMessages : List (List UInt8) :=
  [response telWill teloptBinary, response telDo teloptBinary, response telWill teloptEcho,
    response telWill teloptSga, response telDo teloptSga, response telDo teloptNaws,
    response telDo teloptTtype]

example : connectMessages.flatten = connectOffers ++ connectRequests := rfl

/-- The replies `telnet_filter` sends while a stretch of bytes is received. -/
def telnetReplies (p : PortState) : List UInt8 → List (List UInt8)
  | [] => []
  | b :: bs => (telnetFilter p b).reply.toList ++ telnetReplies (telnetFilter p b).port bs

structure Endpoint where
  port : PortState
  /-- `telnet_on_connect` has run. -/
  connected : Bool
  /-- The bytes on their way to this endpoint. -/
  inbound : List UInt8
  /-- The negotiation messages this endpoint has sent so far. -/
  said : List (List UInt8)

inductive Side where
  | caller
  | host
  deriving DecidableEq, Repr

def Side.other : Side → Side
  | .caller => .host
  | .host => .caller

abbrev Link := Side → Endpoint

namespace Link

/-- The endpoints of a link, the first for one side and the second for the other. -/
def place (side : Side) (here there : Endpoint) : Link :=
  fun t => if t = side then here else there

/-- `telnet_on_connect`. -/
def connect (side : Side) (l : Link) : Link :=
  place side
    { l side with
      port := telnetReset (l side).port, connected := true,
      said := (l side).said ++ connectMessages }
    { l side.other with inbound := (l side.other).inbound ++ (connectOffers ++ connectRequests) }

/-- One received byte goes through `telnet_filter`. -/
def deliverByte (side : Side) (l : Link) : Link :=
  match (l side).inbound with
  | [] => l
  | b :: rest =>
      let f := telnetFilter (l side).port b
      place side
        { l side with port := f.port, inbound := rest, said := (l side).said ++ f.reply.toList }
        { l side.other with inbound := (l side.other).inbound ++ f.reply.toList.flatten }

/-- The bytes of the application, sent as `fossil_flush_tx` escapes them. -/
def write (side : Side) (bs : List TxByte) (l : Link) : Link :=
  place side (l side)
    { l side.other with
      inbound := (l side.other).inbound ++ (bs.flatMap escape).map WireByte.val }

inductive Action where
  | connect (side : Side)
  /-- A chunk of `n` bytes is received. -/
  | deliver (side : Side) (n : Nat)
  | write (side : Side) (bs : List TxByte)

def step : Action → Link → Option Link
  | .connect side, l => if (l side).connected then none else some (connect side l)
  | .deliver side n, l =>
      if (l side).connected ∧ 0 < n ∧ n ≤ (l side).inbound.length then
        some ((deliverByte side)^[n] l)
      else none
  | .write side bs, l => if (l side).connected then some (write side bs l) else none

/-- Neither endpoint has run `telnet_on_connect` yet; its port is as an earlier call left
it. -/
def start (port : Side → PortState) : Link := fun side => ⟨port side, false, [], []⟩

end Link

end Vmodem
