import Vmodem.Driver.AtCommand

/-! The pieces the driver code is run in. A driver call starts a handler, and
what is left of it is a stack of blocks; a block is a stretch of source code
between two points where the state has to be looked at, with at most one write
to a socket. Between two blocks TCP data, connections and ticks may arrive. -/

namespace Vmodem

/-- The INT 14h functions with their register arguments. Functions that only
concern the keyboard, the screen, the timer and driver information are
`passthrough`. -/
inductive Fossil where
  /-- AH=00h and every unknown function. -/
  | setBaud
  /-- AH=01h -/
  | transmit (b : UInt8)
  /-- AH=02h -/
  | receive
  /-- AH=03h -/
  | status
  /-- AH=04h -/
  | init
  /-- AH=05h -/
  | deinit
  /-- AH=06h -/
  | dtr (al : UInt8)
  /-- AH=08h -/
  | flush
  /-- AH=09h -/
  | purgeOutput
  /-- AH=0Ah -/
  | purgeInput
  /-- AH=0Bh -/
  | transmitNoWait (b : UInt8)
  /-- AH=0Ch -/
  | peek
  /-- AH=0Fh -/
  | flowControl (al : UInt8)
  /-- AH=18h -/
  | blockRead (max : UInt16)
  /-- AH=19h; `data` is the caller's buffer of CX bytes. -/
  | blockWrite (data : List UInt8)
  | passthrough
  deriving DecidableEq, Repr

/-- The INT 2Fh functions that touch ports and sockets. Indices out of range
are refused by the source and do not occur here. -/
inductive Mux where
  | listen (i : PortIdx) (port : UInt16)
  | disconnect (i : PortIdx)
  | huntListen (mask : UInt8) (port : UInt16)
  | poll
  | sockAlloc
  | sockConnect (k : ExtIdx) (ip : IpAddr) (port : UInt16)
  | sockStatus (k : ExtIdx)
  | sockSend (k : ExtIdx) (data : List UInt8)
  | sockRecv (k : ExtIdx) (size : UInt16)
  | sockClose (k : ExtIdx)
  | sockRecvReady (k : ExtIdx)
  deriving DecidableEq, Repr

inductive Block where
  -- entry points
  | int14 (i : PortIdx) (f : Fossil)
  | int28
  | mux (m : Mux)
  -- listen sockets opened by `main` before the driver goes resident
  | preallocate (i : PortIdx) (eager : Bool)
  | preallocateHunt (g : GroupIdx) (eager : Bool)
  -- writes to the socket of a port
  | raw (i : PortIdx) (buf : List UInt8)
  | flush (i : PortIdx)
  -- the AT layer
  | ring (i : PortIdx)
  | checkRing (i : PortIdx)
  | connectResult (i : PortIdx)
  | ringTimeout (i : PortIdx)
  | hangup (i : PortIdx)
  -- `do_mtcp_poll`
  | pollStart
  | closing (n : Nat)
  | hunt (g : GroupIdx)
  | port (i : PortIdx)
  | answered (i : PortIdx)
  | pollClose (i : PortIdx) (silent : Bool)
  | recv (i : PortIdx)
  | rx (i : PortIdx) (x : SockId) (tmp : List UInt8) (drop : Bool)
  | keepalive (i : PortIdx)
  | idle (i : PortIdx) (now : Tick)
  | idleClose (i : PortIdx)
  | disconnected (i : PortIdx) (now : Tick)
  | ext (k : ExtIdx)
  | pollDone
  -- what INT 14h functions do after a poll cycle or a flush
  | status (i : PortIdx)
  | purgeStatus (i : PortIdx)
  | readChar (i : PortIdx)
  | spin (i : PortIdx)
  | spinLoop (i : PortIdx) (start : Tick)
  | spinCheck (i : PortIdx) (start : Tick)
  | readBlock (i : PortIdx) (max : UInt16)
  | retryChar (i : PortIdx) (b : UInt8)
  | write (i : PortIdx) (rest : List UInt8) (count : UInt16)
  | retryWrite (i : PortIdx) (b : UInt8) (rest : List UInt8) (count : UInt16)
  | int14Deinit (i : PortIdx)
  | initDisc (i : PortIdx)
  | initFinish (i : PortIdx)
  | ret (i : PortIdx) (ax : UInt16)
  deriving DecidableEq, Repr

/-- The blocks of one poll cycle. -/
def pollCycle : List Block :=
  .pollStart :: (List.finRange 2).map .hunt ++ (List.finRange 4).map .port ++
    (List.finRange 4).map .ext

end Vmodem
