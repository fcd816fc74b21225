import Vmodem.Driver.Sockets
import Mathlib.Tactic.Simps.Basic

/-! The whole state the driver code works on, and the few kinds of update it
is changed by. Every modelled function is built from these, so what a function
leaves alone follows from the equations below. -/

namespace Vmodem

structure Sys where
  ports : PortIdx → PortState
  ats : PortIdx → AtState
  fossils : PortIdx → FossilState
  pend : TxPending
  huntGroups : GroupIdx → HuntGroup
  extSockets : ExtIdx → ExtSocket
  /-- The first `g_closing_count` entries of `g_closing_sockets`. -/
  closing : List SockId
  busy : Bool
  dosSafe : Bool
  int14Safe : Bool
  muxSockResult : UInt16
  net : Mtcp
  tick : Tick
  /-- What happened so far, newest first. -/
  trace : List Event

namespace Sys

/-- The state before any port is configured. The statically zeroed
`g_tx_pend_port` names port 0, with nothing pending. -/
def zero (tick : Tick) : Sys where
  ports := fun _ => .zero
  ats := fun _ => .zero
  fossils := fun _ => .zero
  pend := ⟨[], 0, some 0⟩
  huntGroups := fun _ => .zero
  extSockets := fun _ => .zero
  closing := []
  busy := false
  dosSafe := false
  int14Safe := false
  muxSockResult := 0
  net := .zero
  tick := tick
  trace := []

@[simps]
def modPort (s : Sys) (i : PortIdx) (f : PortState → PortState) : Sys :=
  { s with ports := fun j => if j = i then f (s.ports j) else s.ports j }

@[simps]
def modAt (s : Sys) (i : PortIdx) (f : AtState → AtState) : Sys :=
  { s with ats := fun j => if j = i then f (s.ats j) else s.ats j }

@[simps]
def modFossil (s : Sys) (i : PortIdx) (f : FossilState → FossilState) : Sys :=
  { s with fossils := fun j => if j = i then f (s.fossils j) else s.fossils j }

@[simps]
def modHunt (s : Sys) (g : GroupIdx) (f : HuntGroup → HuntGroup) : Sys :=
  { s with huntGroups := fun h => if h = g then f (s.huntGroups h) else s.huntGroups h }

@[simps]
def modExt (s : Sys) (k : ExtIdx) (f : ExtSocket → ExtSocket) : Sys :=
  { s with extSockets := fun h => if h = k then f (s.extSockets h) else s.extSockets h }

@[simps]
def setPend (s : Sys) (pend : TxPending) : Sys := { s with pend := pend }

@[simps]
def setNet (s : Sys) (net : Mtcp) : Sys := { s with net := net }

@[simps]
def setClosing (s : Sys) (closing : List SockId) : Sys := { s with closing := closing }

@[simps]
def setResult (s : Sys) (result : UInt16) : Sys := { s with muxSockResult := result }

@[simps]
def setGuards (s : Sys) (busy dosSafe int14Safe : Bool) : Sys :=
  { s with busy := busy, dosSafe := dosSafe, int14Safe := int14Safe }

@[simps]
def log (s : Sys) (e : Event) : Sys := { s with trace := e :: s.trace }

/-- `g_dos_safe || g_int14_safe`. -/
def safe (s : Sys) : Bool := s.dosSafe || s.int14Safe

/-- The bytes of the shared buffer that are still to be sent, whoever owns
them. -/
def leftover (s : Sys) : List WireByte := s.pend.data.drop s.pend.off

/-- The unsent bytes of a port. -/
def unsent (s : Sys) (i : PortIdx) : List WireByte :=
  if s.pend.port = some i then s.leftover else []

end Sys

/-- `TcpSocketMgr::freeSocket()`. -/
def freeSocket (x : SockId) (s : Sys) : Sys :=
  (s.setNet (s.net.free x)).log (.freed x)

/-- `sock_close_fast`: start a close and queue the socket for its completion,
or free it at once when the queue is full. -/
def sockCloseFast (x : SockId) (s : Sys) : Sys :=
  if s.closing.length < maxClosingSockets then s.setClosing (s.closing ++ [x])
  else freeSocket x (s.log (.queueFull x))

/-- `sock_close_fast(p->sock); p->sock = NULL;` -/
def closeSock (i : PortIdx) (why : CloseReason) (s : Sys) : Sys :=
  match (s.ports i).sock with
  | none => s
  | some x =>
      ((sockCloseFast x s).log (.closed i x why)).modPort i fun p => { p with sock := none }

/-- `memset(p->remoteIP, 0, 4); p->remotePort = 0;` -/
def clearRemote (i : PortIdx) (s : Sys) : Sys :=
  s.modPort i fun p => { p with remoteIP := 0, remotePort := 0 }

/-- `ring_init(&p->rx);` -/
def clearRx (i : PortIdx) (s : Sys) : Sys :=
  s.modPort i fun p => { p with rx := p.rx.reset }

/-- Leave the port in the mode of one without a call. -/
def enterIdleMode (i : PortIdx) (s : Sys) : Sys :=
  s.modPort i fun p => { p with mode := p.idleMode }

/-- Record that the port's teardown is wanted while its call is up. -/
def logRequest (i : PortIdx) (s : Sys) : Sys :=
  match (s.ports i).sock with
  | none => s
  | some x => s.log (.request i x)

end Vmodem
