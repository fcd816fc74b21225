import Vmodem.Driver.Types

/-! The part of mTCP the driver talks to. It is outside the repository; the
functions here follow its documented behaviour. Whatever mTCP decides by
itself is a field of `Answer` and may take any value. -/

namespace Vmodem

/-- An mTCP socket. `inbox` holds bytes TCP has delivered and the driver has
not taken; `wire` is everything queued for sending, oldest first. -/
structure TcpSocket where
  /-- The TCP port an incoming connection arrived on. -/
  srcPort : UInt16
  dstHost : IpAddr
  dstPort : UInt16
  listenPort : Option UInt16
  connected : Bool
  inbox : List UInt8
  wire : List WireByte

def TcpSocket.zero : TcpSocket := ⟨0, 0, 0, none, false, [], []⟩

/-- The sockets, the queue of connections waiting for `accept()`, and the first
identity not yet used. -/
structure Mtcp where
  sockets : SockId → TcpSocket
  pending : List SockId
  next : SockId

def Mtcp.zero : Mtcp := ⟨fun _ => .zero, [], 0⟩

/-- The results of the mTCP calls one block of driver code makes. -/
structure Answer where
  /-- `isClosed()` -/
  closed : Bool := false
  /-- `isRemoteClosed()` -/
  remoteClosed : Bool := false
  /-- `isConnectComplete()` -/
  connectComplete : Bool := false
  /-- `isCloseDone()` -/
  closeDone : Bool := false
  /-- `getSocket()` returned a socket. -/
  obtained : Bool := true
  /-- `listen()`, `setRecvBuffer()` or `connectNonBlocking()` returned 0. -/
  succeeded : Bool := true
  /-- Which waiting connection `accept()` returned. -/
  accepted : Option Nat := none
  /-- The result of `send()`. -/
  sent : Int := 0
  /-- The result of the second `send()` of a flush. -/
  sentBatch : Int := 0
  /-- The result of `recv()`. -/
  received : Int := 0

namespace Mtcp

def setSocket (net : Mtcp) (x : SockId) (t : TcpSocket) : Mtcp :=
  { net with sockets := fun y => if y = x then t else net.sockets y }

/-- A new connection on a listening port waits for `accept()`. -/
def arrive (net : Mtcp) (port : UInt16) (host : IpAddr) (remote : UInt16) : Mtcp :=
  { sockets := fun y =>
      if y = net.next then
        { TcpSocket.zero with
          srcPort := port, dstHost := host, dstPort := remote, connected := true }
      else net.sockets y
    pending := net.pending ++ [net.next]
    next := net.next + 1 }

/-- TCP delivers bytes to a socket. -/
def deliver (net : Mtcp) (x : SockId) (bs : List UInt8) : Mtcp :=
  net.setSocket x { net.sockets x with inbox := (net.sockets x).inbox ++ bs }

/-- `TcpSocketMgr::accept()`: any one of the waiting connections, whatever port
it arrived on. -/
def accept (net : Mtcp) (which : Option Nat) : Option (SockId × Mtcp) :=
  match which with
  | none => none
  | some k =>
      match net.pending[k]? with
      | none => none
      | some x => some (x, { net with pending := net.pending.eraseIdx k })

/-- `TcpSocketMgr::getSocket()`. -/
def getSocket (net : Mtcp) (obtained : Bool) : Option (SockId × Mtcp) :=
  if obtained then
    some (net.next,
      { net with
        sockets := fun y => if y = net.next then .zero else net.sockets y
        next := net.next + 1 })
  else none

/-- The socket now listens on a TCP port. -/
def listen (net : Mtcp) (x : SockId) (port : UInt16) : Mtcp :=
  net.setSocket x { net.sockets x with listenPort := some port }

/-- The socket's connection attempt was started. -/
def connect (net : Mtcp) (x : SockId) : Mtcp :=
  net.setSocket x { net.sockets x with connected := true }

/-- `send()` queues a prefix of the offered bytes, none for a result that is
not positive. -/
def send (net : Mtcp) (x : SockId) (offered : List WireByte) (rc : Int) : Mtcp :=
  net.setSocket x
    { net.sockets x with wire := (net.sockets x).wire ++ offered.take rc.toNat }

/-- `recvDataWaiting()`. -/
def recvDataWaiting (net : Mtcp) (x : SockId) : Bool :=
  !(net.sockets x).inbox.isEmpty

/-- `recv()` with a buffer of `size` bytes: the next bytes of the stream. -/
def recv (net : Mtcp) (x : SockId) (size : Nat) (rc : Int) : List UInt8 × Mtcp :=
  ((net.sockets x).inbox.take (min size rc.toNat),
    net.setSocket x
      { net.sockets x with inbox := (net.sockets x).inbox.drop (min size rc.toNat) })

/-- A freed socket stops listening. -/
def free (net : Mtcp) (x : SockId) : Mtcp :=
  net.setSocket x { net.sockets x with listenPort := none }

end Mtcp

end Vmodem
