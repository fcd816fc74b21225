import Vmodem.Driver.ExternalSockets
import Vmodem.Library.Transition

/-! The driver as a transition system. A configuration is the state and the
stack of blocks the current driver call still has to run; with an empty stack
the machine is between two driver calls. -/

namespace Vmodem

/-- Run one block: the new state and the blocks that come next. -/
def exec (b : Block) (a : Answer) (s : Sys) : Sys × List Block :=
  match b with
  | .int14 i f => int14 i f s
  | .int28 =>
      if s.busy then (s, [])
      else (s.setGuards true true s.int14Safe, pollCycle ++ [.pollDone])
  | .mux m => mux m a s
  | .preallocate i eager => (preallocate i eager a s, [])
  | .preallocateHunt g eager => (preallocateHunt g eager a s, [])
  | .raw i buf => (telnetSendRaw i buf a s, [])
  | .flush i => (fossilFlushTx i a s, [])
  | .ring i => (atSendRing i s, [])
  | .checkRing i => atCheckRing i s
  | .connectResult i => (connectResult i s, [])
  | .ringTimeout i => (ringTimeout i s, [])
  | .hangup i => (atNoCarrier i (requestClose i s), [])
  | .pollStart => (s, [.closing s.closing.length])
  | .closing 0 => (s, [])
  | .closing (n + 1) => (closingDrain n a s, [.closing n])
  | .hunt g => pollHunt g a s
  | .port i => pollPort i a s
  | .answered i => answered i s
  | .pollClose i silent => (pollClose i silent s, [])
  | .recv i => pollRecv i a s
  | .rx i x tmp drop => pollRx i x tmp drop a s
  | .keepalive i => (s, pollKeepalive i s)
  | .idle i now => (s, pollIdle i now s)
  | .idleClose i => (idleClose i s, [])
  | .disconnected i now => (pollDisconnected i now a s, [])
  | .ext k => (pollExt k a s, [])
  | .pollDone => (s.setGuards false false false, [])
  | .status i => (fossilStatus i s, [])
  | .purgeStatus i => (purgeStatus i s, [])
  | .readChar i => (readChar i s, [])
  | .spin i => (s, spin i a s)
  | .spinLoop i start => (s, spinLoop i start s)
  | .spinCheck i start => (s, spinCheck i start s)
  | .readBlock i max => (readBlock i max s, [])
  | .retryChar i b => (retryChar i b s, [])
  | .write i rest count => writeNext i rest count s
  | .retryWrite i b rest count => retryWrite i b rest count s
  | .int14Deinit i => (deinit i s, [])
  | .initDisc i => (initDisc i s, [])
  | .initFinish i => (initFinish i a s, [])
  | .ret i ax => (s.log (.returned i ax), [])

/-- What happens outside the driver. -/
inductive Outside where
  /-- Timer ticks pass; the counter restarts after 1800AFh. -/
  | ticks (n : Nat)
  /-- A connection comes in on a listening socket. -/
  | arrive (listener : SockId) (host : IpAddr) (remote : UInt16)
  /-- TCP delivers bytes on a connection. -/
  | deliver (x : SockId) (bs : List UInt8)
  deriving DecidableEq, Repr

def outside (e : Outside) (s : Sys) : Option Sys :=
  match e with
  | .ticks n => some { s with tick := UInt32.ofNat ((s.tick.toNat + n) % 0x1800B0) }
  | .arrive l host remote =>
      match (s.net.sockets l).listenPort with
      | none => none
      | some port => some (s.setNet (s.net.arrive port host remote))
  | .deliver x bs =>
      if x < s.net.next then some ((s.setNet (s.net.deliver x bs)).log (.delivered x bs)) else none

structure Config where
  sys : Sys
  todo : List Block

inductive Action where
  /-- Software calls the driver; `b` is an entry point. -/
  | call (b : Block)
  /-- The driver runs its next block, with these results from mTCP. -/
  | run (a : Answer)
  | outside (e : Outside)

/-- The blocks a driver call may start with. -/
def Block.entry : Block → Bool
  | .int14 _ _ | .int28 | .mux _ => true
  | _ => false

def step (act : Action) (c : Config) : Option Config :=
  match act with
  | .call b => if c.todo = [] ∧ b.entry then some ⟨c.sys, [b]⟩ else none
  | .run a =>
      match c.todo with
      | [] => none
      | b :: rest => some ⟨(exec b a c.sys).1, (exec b a c.sys).2 ++ rest⟩
  | .outside e => (outside e c.sys).map fun s => ⟨s, c.todo⟩

/-- A port argument of the command line: `/L:n:port` or `/L:n-m:port`. -/
inductive PortArg where
  | listen (i : PortIdx) (port : UInt16)
  | hunt (mask : UInt8) (port : UInt16)
  deriving DecidableEq, Repr

def PortArg.block : PortArg → Block
  | listen i port => .mux (.listen i port)
  | hunt mask port => .mux (.huntListen mask port)

/-- The driver being installed by `main`: the port arguments, then a listen
socket for every standalone port and every hunt group. -/
def install (args : List PortArg) (eager : Bool) (tick : Tick) : Config where
  sys := .zero tick
  todo := args.map PortArg.block ++ (List.finRange 4).map (.preallocate · eager) ++
    (List.finRange 2).map (.preallocateHunt · eager)

/-- A configuration that is not inside a driver call. -/
def Config.between (c : Config) : Prop := c.todo = []

/-- Reachable from an installation by steps that satisfy a condition. -/
def ReachableBy (allowed : Config → Action → Prop) (c : Config) : Prop :=
  ∃ args eager tick, Transition.Run step allowed (install args eager tick) c

def Reachable (c : Config) : Prop := ReachableBy (fun _ _ => True) c

end Vmodem
