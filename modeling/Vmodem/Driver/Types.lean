import Vmodem.Library.CircularBuffer

/-! The resident data of the driver: the port table, the AT interpreter state,
the FOSSIL state of each port, hunt groups and external sockets. Fields keep
the names and the ranges of the C structures. Two kinds of bookkeeping are
added and never read by a modelled function: ring cells carry the place their
byte came from, and `Event` records what happened during a run. -/

namespace Vmodem

/-- A COM port, 0-3 (`MAX_PORTS`). -/
abbrev PortIdx := Fin 4

/-- Ports are written as numerals. -/
instance neZeroMaxPorts : NeZero 4 := ⟨by decide⟩

/-- A hunt group (`MAX_HUNT_GROUPS`). -/
abbrev GroupIdx := Fin 2

/-- An external socket handle (`MAX_EXT_SOCKETS`). -/
abbrev ExtIdx := Fin 4

/-- One use of an mTCP socket. mTCP recycles its socket objects; here every
allocation and every incoming connection has an identity of its own. -/
abbrev SockId := Nat

abbrev IpAddr := UInt32

/-- The BIOS tick counter at 0040:006Ch. -/
abbrev Tick := UInt32

/-- `RING_SIZE`, the receive ring. -/
def ringSize : Nat := 4096

/-- `TX_RING_SIZE`, the transmit ring. -/
def txRingSize : Nat := 512

/-- `MAX_CLOSING_SOCKETS`, the capacity of the deferred close queue. -/
def maxClosingSockets : Nat := 4

/-- The bytes of a C string literal. -/
def bytes (text : String) : List UInt8 :=
  text.toList.map fun c => c.toNat.toUInt8

/-- A byte in a receive ring. `src` is the connection it was received from,
`none` for what the AT interpreter wrote. -/
structure RxByte where
  val : UInt8
  src : Option SockId
  deriving DecidableEq, Repr

/-- A byte the application wrote, with the port it was written on and the
connection that was current there. -/
structure TxByte where
  val : UInt8
  port : PortIdx
  conn : SockId
  deriving DecidableEq, Repr

/-- What a byte queued on a socket is: an application byte, the first half of
an escaped application byte 0xFF, or part of what the driver sends itself. -/
inductive Origin where
  | app (b : TxByte)
  | escape (b : TxByte)
  | control
  deriving DecidableEq, Repr

structure WireByte where
  val : UInt8
  origin : Origin
  deriving DecidableEq, Repr

abbrev RingBuf := CircularBuffer RxByte ringSize

abbrev TxRing := CircularBuffer TxByte txRingSize

inductive PortMode where
  | disc
  | listen
  | conn
  deriving DecidableEq, Repr

/-- `IAC_NORMAL` to `IAC_SB_IAC`. -/
inductive IacState where
  | normal
  | sawFF
  | sawCmd
  | inSB
  | sbIac
  deriving DecidableEq, Repr

structure PortState where
  mode : PortMode
  sock : Option SockId
  listenSock : Option SockId
  rx : RingBuf
  remoteIP : IpAddr
  remotePort : UInt16
  localPort : UInt16
  initialized : Bool
  /-- `none` is -1, a standalone port. -/
  huntGroupIdx : Option GroupIdx
  iacState : IacState
  iacCmd : UInt8
  negEcho : Bool
  negSga : Bool
  negBinary : Bool
  negNaws : Bool
  negTtype : Bool
  sbOpt : UInt8
  sbBuf : Nat → UInt8
  sbLen : UInt8
  nawsCols : UInt16
  nawsRows : UInt16
  ttype : Nat → UInt8
  iacHasPending : Bool
  iacPending : UInt8
  pendingClose : UInt8
  dtrIgnore : Bool
  connTick : Tick
  lastRxTick : Tick
  lastTxTick : Tick
  idleTimeout : UInt16

/-- The zeroed structure with `huntGroupIdx = -1`, as `main` leaves it. -/
def PortState.zero : PortState where
  mode := .disc
  sock := none
  listenSock := none
  rx := ⟨fun _ => ⟨0, none⟩, 0, 0, 0⟩
  remoteIP := 0
  remotePort := 0
  localPort := 0
  initialized := false
  huntGroupIdx := none
  iacState := .normal
  iacCmd := 0
  negEcho := false
  negSga := false
  negBinary := false
  negNaws := false
  negTtype := false
  sbOpt := 0
  sbBuf := fun _ => 0
  sbLen := 0
  nawsCols := 0
  nawsRows := 0
  ttype := fun _ => 0
  iacHasPending := false
  iacPending := 0
  pendingClose := 0
  dtrIgnore := false
  connTick := 0
  lastRxTick := 0
  lastTxTick := 0
  idleTimeout := 0

/-- The mode of a port without a call: listening when it has a listen socket
or belongs to a hunt group. -/
def PortState.idleMode (p : PortState) : PortMode :=
  if p.listenSock.isSome then .listen
  else if p.huntGroupIdx.isSome then .listen
  else .disc

/-- The AT interpreter state of a port. -/
structure AtState where
  buf : Nat → UInt8
  pos : Nat
  echo : Bool
  quiet : Bool
  verbose : Bool
  s0 : UInt8
  ringing : Bool
  ringsSent : UInt8
  cmdMode : Bool
  connectPending : Bool
  ringTick : Tick
  connectTick : Tick
  plusCount : UInt8
  lastTxTick : Tick

def AtState.zero : AtState where
  buf := fun _ => 0
  pos := 0
  echo := false
  quiet := false
  verbose := false
  s0 := 0
  ringing := false
  ringsSent := 0
  cmdMode := false
  connectPending := false
  ringTick := 0
  connectTick := 0
  plusCount := 0
  lastTxTick := 0

/-- The static per-port arrays of the FOSSIL driver: `g_tx`, `g_fossil_init`,
`g_flow_ctrl`, `g_overrun`, `g_dtr` and `g_purge_seen`. -/
structure FossilState where
  tx : TxRing
  init : Bool
  flowCtrl : UInt8
  overrun : Bool
  dtr : Bool
  purgeSeen : UInt8

def FossilState.zero : FossilState where
  tx := ⟨fun _ => ⟨0, 0, 0⟩, 0, 0, 0⟩
  init := false
  flowCtrl := 0
  overrun := false
  dtr := false
  purgeSeen := 0

/-- The buffer of unsent bytes, shared by all ports: `data` is the first
`g_tx_pend_len` bytes of `g_tx_pending`, `off` is `g_tx_pend_off` and `port`
is `g_tx_pend_port` (`none` for -1). -/
structure TxPending where
  data : List WireByte
  off : Nat
  port : Option PortIdx

structure HuntGroup where
  listenSock : Option SockId
  tcpPort : UInt16
  portMask : UInt8
  active : Bool

def HuntGroup.zero : HuntGroup := ⟨none, 0, 0, false⟩

/-- `portMask & (1 << j)`. -/
def hasPort (mask : UInt8) (j : PortIdx) : Bool :=
  mask.toNat.testBit j.val

/-- `EXT_SOCK_FREE` to `EXT_SOCK_CLOSING`. -/
inductive ExtState where
  | free
  | connecting
  | established
  | remoteClosed
  | error
  | closing
  deriving DecidableEq, Repr

/-- The code of the state in `mux_sock_result`. -/
def ExtState.code : ExtState → UInt16
  | free => 0
  | connecting => 1
  | established => 2
  | remoteClosed => 3
  | error => 4
  | closing => 5

structure ExtSocket where
  sock : Option SockId
  state : ExtState
  pendingConnect : Bool
  connIp : IpAddr
  connPort : UInt16

def ExtSocket.zero : ExtSocket := ⟨none, .free, false, 0, 0⟩

/-- The branch that closed the socket of a call. -/
inductive CloseReason where
  | remote
  | idle
  | ringTimeout
  | pollClose
  | initDisc
  | replaced
  deriving DecidableEq, Repr

/-- The history of a run. -/
inductive Event where
  /-- A connection became the current one of a port. -/
  | attached (i : PortIdx) (x : SockId)
  /-- A connection was sent an engaged message and closed; `free` are the ports
  that could have taken it at that moment. -/
  | rejected (x : SockId) (free : List PortIdx)
  /-- TCP delivered bytes on a connection. -/
  | delivered (x : SockId) (bs : List UInt8)
  /-- A teardown of the port's call was asked for while `x` was its current
  connection. -/
  | request (i : PortIdx) (x : SockId)
  /-- The driver closed the port's current connection. -/
  | closed (i : PortIdx) (x : SockId) (why : CloseReason)
  /-- A socket pointer was overwritten while it still held a socket. -/
  | dropped (x : SockId)
  /-- `isCloseDone()` returned true. -/
  | closeDone (x : SockId)
  /-- The deferred close queue had no room for the socket. -/
  | queueFull (x : SockId)
  /-- `freeSocket()` was called. -/
  | freed (x : SockId)
  /-- The driver took a byte of the application into a transmit ring. -/
  | stored (i : PortIdx) (b : TxByte)
  /-- The port's unsent output was discarded by AH=09h or AH=04h. -/
  | purged (i : PortIdx)
  /-- The driver took bytes of an answered call from TCP. -/
  | received (i : PortIdx) (x : SockId) (bs : List UInt8)
  /-- The application read a byte. -/
  | read (i : PortIdx) (b : RxByte)
  /-- A call returned a FOSSIL status word. -/
  | status (i : PortIdx) (word : UInt16)
  /-- A call returned another value in AX. -/
  | returned (i : PortIdx) (ax : UInt16)
  deriving DecidableEq, Repr

end Vmodem
