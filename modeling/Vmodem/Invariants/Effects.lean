import Vmodem.Invariants.AtCommand
import Mathlib.Logic.Relation

/-! What a block can do, said once. Every block is a sequence of effects, and
every invariant is proved effect by effect. Effects that only some blocks have
name those blocks, so that a proof about the others can rule them out. -/

namespace Vmodem

/-- The blocks that change the mode of a port. -/
def Block.setsMode : Block → Bool
  | .preallocate _ _ | .preallocateHunt _ _ | .ringTimeout _ | .port _ | .answered _
  | .pollClose _ _ | .idleClose _ | .disconnected _ _ | .initDisc _ | .initFinish _ => true
  | _ => false

/-- The call a block may end, and the reason it gives. -/
def Block.ends : Block → Option (PortIdx × CloseReason)
  | .ringTimeout i => some (i, .ringTimeout)
  | .pollClose i _ => some (i, .pollClose)
  | .idleClose i => some (i, .idle)
  | .disconnected i _ => some (i, .remote)
  | .initDisc i => some (i, .initDisc)
  | _ => none

/-- The port whose receive ring a call empties on request. -/
def Block.discards : Block → Option PortIdx
  | .int14 i .init | .int14 i .purgeInput => some i
  | _ => none

/-- The port whose output a block discards. -/
def Block.purges : Block → Option PortIdx
  | .int14 i .init | .int14 i .purgeOutput => some i
  | _ => none

/-- The blocks that take a connection from `accept()`. -/
def Block.accepts : Block → Bool
  | .hunt _ | .port _ => true
  | _ => false

/-- The port a block connects the next caller to. -/
def Block.target (b : Block) (s : Sys) : Option PortIdx :=
  match b with
  | .hunt g =>
      if (s.huntGroups g).active ∧ (s.huntGroups g).listenSock.isSome then
        freeMember (s.huntGroups g).portMask s
      else none
  | .port i =>
      if (s.ports i).initialized ∧ (s.ports i).mode = .listen ∧ (s.ports i).huntGroupIdx = none then
        some i
      else none
  | _ => none

/-- The block turns the next caller away. -/
def Block.refuses (b : Block) (s : Sys) : Bool :=
  match b with
  | .hunt g =>
      (s.huntGroups g).active && (s.huntGroups g).listenSock.isSome &&
        (freeMember (s.huntGroups g).portMask s).isNone
  | .port i =>
      (s.ports i).initialized && decide ((s.ports i).mode = .conn) && (s.ports i).sock.isSome &&
        (s.ports i).huntGroupIdx.isNone && (s.ports i).listenSock.isSome
  | _ => false

/-- Only a block that takes from `accept()` connects a caller to a port. -/
theorem Block.accepts_of_target {b : Block} {s : Sys} {i : PortIdx} (h : b.target s = some i) :
    b.accepts := by
  cases b <;> simp_all [Block.target, Block.accepts]

/-- Only a block that takes from `accept()` turns a caller away. -/
theorem Block.accepts_of_refuses {b : Block} {s : Sys} (h : b.refuses s) : b.accepts := by
  cases b <;> simp_all [Block.refuses, Block.accepts]

/-- The control commands that set ports up anew. -/
def Block.reconfigures : Block → Bool
  | .mux (.listen _ _) | .mux (.huntListen _ _) => true
  | _ => false

/-- The ports they set up anew. -/
def Block.renews : Block → PortIdx → Bool
  | .mux (.listen i _), j => decide (j = i)
  | .mux (.huntListen mask _), j => hasPort mask j
  | _, _ => false

/-- The ports set up anew belong to one of the control commands. -/
theorem Block.reconfigures_of_renews {b : Block} {j : PortIdx} (h : b.renews j) :
    b.reconfigures := by
  cases b with
  | mux m => cases m <;> simp_all [Block.renews, Block.reconfigures]
  | _ => cases h

/-- The listen sockets opened for ports and groups. -/
def Block.listens : Block → Bool
  | .preallocate _ _ | .preallocateHunt _ _ | .initFinish _ => true
  | _ => false

/-- What MUX_LISTEN and MUX_HUNT_LISTEN make of a port. -/
structure PortState.Reconfigured (p q : PortState) : Prop where
  sock : q.sock = none
  listenSock : q.listenSock = none
  mode : q.mode = .disc
  rx : q.rx = p.rx.reset
  remoteIP : q.remoteIP = p.remoteIP
  remotePort : q.remotePort = p.remotePort
  pendingClose : q.pendingClose = p.pendingClose
  iacState : q.iacState = p.iacState
  gathered : q.gathered = p.gathered
  iacHasPending : q.iacHasPending = p.iacHasPending

/-- One change made by block `b` with the mTCP results `a`. -/
inductive Effect (b : Block) (a : Answer) : Sys → Sys → Prop where
  | quiet {s t : Sys} (h : Quiet s t) : Effect b a s t
  -- the transmit path
  | store {s t : Sys} (i : PortIdx) (x : SockId) (v : UInt8) (hSock : (s.ports i).sock = some x)
      (h : storeTx i x v s = some t) : Effect b a s t
  | purge {s : Sys} (i : PortIdx) (hb : b.purges = some i) :
      Effect b a s ((fossilClearTx i s).log (.purged i))
  | flush {s : Sys} (i : PortIdx) (hb : b = .flush i) : Effect b a s (fossilFlushTx i a s)
  | write {s : Sys} (i : PortIdx) (buf : List UInt8) (hb : b = .raw i buf) :
      Effect b a s (telnetSendRaw i buf a s)
  -- the receive path
  | filter {s : Sys} (i : PortIdx) (x : SockId) (tmp : List UInt8) (drop : Bool)
      (hb : b = .rx i x tmp drop) (hSock : (s.ports i).sock = some x) :
      Effect b a s (pollRx i x tmp drop a s).1
  | receive {s : Sys} (i : PortIdx) (hb : b = .recv i) : Effect b a s (pollRecv i a s).1
  | read {s : Sys} (i : PortIdx) (n : Nat) : Effect b a s (readRx i n s)
  | clearRx {s : Sys} (i : PortIdx) (hb : b.discards = some i ∨ (s.ports i).sock = none) :
      Effect b a s (clearRx i s)
  -- the calls of the ports
  | clearRemote {s : Sys} (i : PortIdx) (hb : b.setsMode) : Effect b a s (clearRemote i s)
  | modes {s : Sys} (f : PortIdx → PortMode) (hb : b.setsMode) :
      Effect b a s { s with ports := fun j => { s.ports j with mode := f j } }
  | close {s : Sys} (i : PortIdx) (why : CloseReason) (hb : b.ends = some (i, why)) :
      Effect b a s (closeSock i why s)
  | attach {s : Sys} (i : PortIdx) (x : SockId) (net : Mtcp) (hb : b.target s = some i)
      (hSock : (s.ports i).sock = none) (hAccept : s.net.accept a.accepted = some (x, net)) :
      Effect b a s (acceptCall i x (s.setNet net)).1
  | reject {s : Sys} (x : SockId) (net : Mtcp) (msg : List UInt8) (hb : b.refuses s)
      (hAccept : s.net.accept a.accepted = some (x, net)) :
      Effect b a s (rejectCall x msg a (s.setNet net))
  -- configuration and listen sockets
  | reconfigure {s : Sys} (i : PortIdx) (f : PortState → PortState) (hb : b.renews i)
      (hf : ∀ p : PortState, p.Reconfigured (f p)) :
      Effect b a s ((logDropped i s).modPort i f)
  | group {s : Sys} (g : GroupIdx) (tcpPort : UInt16) (mask : UInt8) (hb : b.reconfigures)
      (hFree : (s.huntGroups g).active = false) :
      Effect b a s (s.modHunt g fun _ => ⟨none, tcpPort, mask, true⟩)
  | listenPort {s : Sys} (i : PortIdx) (tcpPort : UInt16) (x : SockId) (net : Mtcp)
      (hb : b.listens) (hFree : (s.ports i).listenSock = none)
      (hGet : s.net.getSocket a.obtained = some (x, net))
      (hPort : (s.ports i).localPort = tcpPort) :
      Effect b a s ((s.setNet (net.listen x tcpPort)).modPort i fun p =>
        { p with listenSock := some x })
  | listenHunt {s : Sys} (g : GroupIdx) (tcpPort : UInt16) (x : SockId) (net : Mtcp)
      (hb : b.listens) (hFree : (s.huntGroups g).listenSock = none)
      (hActive : (s.huntGroups g).active = true)
      (hGet : s.net.getSocket a.obtained = some (x, net))
      (hPort : (s.huntGroups g).tcpPort = tcpPort) :
      Effect b a s ((s.setNet (net.listen x tcpPort)).modHunt g fun h =>
        { h with listenSock := some x })
  | waste {s : Sys} (x : SockId) (net : Mtcp) (hGet : s.net.getSocket a.obtained = some (x, net)) :
      Effect b a s (freeSocket x (s.setNet net))
  -- the close queue and external sockets
  | drain {s : Sys} (n : Nat) : Effect b a s (closingDrain n a s)
  | extTouch {s : Sys} (k : ExtIdx) (f : ExtSocket → ExtSocket)
      (hf : ∀ e : ExtSocket, (f e).sock = e.sock) : Effect b a s (s.modExt k f)
  | extAlloc {s : Sys} (k : ExtIdx) (x : SockId) (net : Mtcp) (hFree : (s.extSockets k).sock = none)
      (hGet : s.net.getSocket a.obtained = some (x, net)) (hb : b = .mux .sockAlloc) :
      Effect b a s ((s.setNet net).modExt k fun e => { e with sock := some x, state := .free })
  | extConnect {s : Sys} (k : ExtIdx) (x : SockId) (hSock : (s.extSockets k).sock = some x) :
      Effect b a s (s.setNet (s.net.connect x))
  | extClose {s : Sys} (k : ExtIdx) (x : SockId) (hSock : (s.extSockets k).sock = some x) :
      Effect b a s
        ((sockCloseFast x s).modExt k fun e => { e with sock := none, state := .free })
  | extSend {s : Sys} (k : ExtIdx) (x : SockId) (hSock : (s.extSockets k).sock = some x)
      (out : List UInt8) (rc : Int) (hb : ∃ data, b = .mux (.sockSend k data)) :
      Effect b a s (s.setNet (s.net.send x (out.map fun b => ⟨b, .control⟩) rc))
  | extRecv {s : Sys} (k : ExtIdx) (x : SockId) (hSock : (s.extSockets k).sock = some x)
      (size : Nat) (rc : Int) (hb : ∃ max, b = .mux (.sockRecv k max)) :
      Effect b a s (s.setNet (s.net.recv x size rc).2)

/-- The changes of one block, in order. -/
abbrev Effects (b : Block) (a : Answer) : Sys → Sys → Prop := Relation.ReflTransGen (Effect b a)

end Vmodem
