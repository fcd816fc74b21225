import Vmodem.Driver.Fossil

/-! The poll cycle (`do_mtcp_poll`) and the ring check it shares with AH=03h. -/

namespace Vmodem

/-- `at_check_ring`: deliver a due CONNECT, or ring again, answer, or give up. -/
def atCheckRing (i : PortIdx) (s : Sys) : Sys × List Block :=
  let m := s.ats i
  if m.connectPending then
    if 36 ≤ s.tick - m.connectTick then
      (s.modAt i fun m => { m with connectPending := false },
        [.raw i (bytes "Connected!\r\n"), .connectResult i])
    else (s, [])
  else if !m.ringing then (s, [])
  else if s.tick - m.ringTick < 110 then (s, [])
  else if 0 < m.s0 ∧ m.s0 ≤ m.ringsSent ∧ (s.fossils i).init then
    (atSendConnect i (s.modAt i fun m => { m with ringing := false, ringsSent := 0 }), [])
  else if 10 ≤ m.ringsSent then
    (s.modAt i fun m => { m with ringing := false, ringsSent := 0 },
      [.raw i (bytes "\r\nThe host didn't answer :(\r\n"), .ringTimeout i])
  else
    ((atResult i "RING" "2" s).modAt i fun m =>
      { m with ringsSent := m.ringsSent + 1, ringTick := s.tick },
      [.raw i (bytes "RING...\r\n")])

/-- The result code that follows the text "Connected!". -/
def connectResult (i : PortIdx) (s : Sys) : Sys := atResult i "CONNECT 57600" "1" s

/-- The end of an unanswered call in `at_check_ring`. -/
def ringTimeout (i : PortIdx) (s : Sys) : Sys :=
  s |> closeSock i .ringTimeout |> clearRx i |> atNoCarrier i |> enterIdleMode i

/-- `isCloseDone()` of entry `n` of the deferred close queue; a finished entry
is freed and replaced by the last one. -/
def closingDrain (n : Nat) (a : Answer) (s : Sys) : Sys :=
  match s.closing[n]? with
  | none => s
  | some x =>
      if a.closeDone then
        (freeSocket x (s.log (.closeDone x))).setClosing
          ((s.closing.set n (s.closing.getLastD x)).dropLast)
      else s

/-- The first port of a hunt group that is free. -/
def freeMember (mask : UInt8) (s : Sys) : Option PortIdx :=
  (List.finRange 4).find? fun j =>
    hasPort mask j && (s.ports j).mode = .listen && (s.ports j).sock.isNone

/-- Attach an accepted connection to a port and start ringing. -/
def acceptCall (i : PortIdx) (x : SockId) (s : Sys) : Sys × List Block :=
  let s := (s.modPort i fun p =>
    { p with
      sock := some x
      mode := .conn
      remotePort := (s.net.sockets x).dstPort
      remoteIP := (s.net.sockets x).dstHost
      connTick := s.tick
      lastRxTick := s.tick
      lastTxTick := s.tick
      rx := p.rx.reset }).log (.attached i x)
  let s := (fossilClearTx i s).modPort i telnetReset
  (s, [.raw i connectOffers, .raw i connectRequests,
    .raw i (bytes "\r\nRinging the host, please wait...\r\n"), .ring i])

def huntBusyMsg : List UInt8 := bytes "\r\nAll lines are engaged. Please try again later.\r\n"

def lineBusyMsg : List UInt8 := bytes "\r\nLine is engaged. Please try again later.\r\n"

/-- The ports configured for a TCP port that have no call. -/
def freePorts (tcpPort : UInt16) (s : Sys) : List PortIdx :=
  (List.finRange 4).filter fun j =>
    (s.ports j).initialized && (s.ports j).localPort = tcpPort && (s.ports j).mode = .listen &&
      (s.ports j).sock.isNone

/-- Turn a connection away. -/
def rejectCall (x : SockId) (msg : List UInt8) (a : Answer) (s : Sys) : Sys :=
  sockCloseFast x
    ((s.setNet (s.net.send x (msg.map fun b => ⟨b, .control⟩) a.sent)).log
      (.rejected x (freePorts (s.net.sockets x).srcPort s)))

/-- A hunt group takes a waiting connection: to its first free member, or away
with an engaged message. -/
def pollHunt (g : GroupIdx) (a : Answer) (s : Sys) : Sys × List Block :=
  if (s.huntGroups g).active ∧ (s.huntGroups g).listenSock.isSome then
    match s.net.accept a.accepted with
    | none => (s, [])
    | some (x, net) =>
        match freeMember (s.huntGroups g).portMask s with
        | some j => acceptCall j x (s.setNet net)
        | none => (rejectCall x huntBusyMsg a (s.setNet net), [])
  else (s, [])

/-- A standalone port in a call turns away a waiting connection. -/
def rejectBusy (i : PortIdx) (a : Answer) (s : Sys) : Sys :=
  if (s.ports i).huntGroupIdx = none ∧ (s.ports i).listenSock.isSome ∧ s.net.pending ≠ [] then
    match s.net.accept a.accepted with
    | none => s
    | some (x, net) => rejectCall x lineBusyMsg a (s.setNet net)
  else s

/-- The start of the service of a port. -/
def pollPort (i : PortIdx) (a : Answer) (s : Sys) : Sys × List Block :=
  if (s.ports i).initialized then
    match (s.ports i).mode with
    | .disc => (s, [])
    | .listen =>
        if (s.ports i).huntGroupIdx.isSome then (s, [])
        else
          match s.net.accept a.accepted with
          | none => (s, [])
          | some (x, net) => acceptCall i x (closeSock i .replaced (s.setNet net))
    | .conn =>
        if (s.ports i).sock = none then (enterIdleMode i s, [])
        else (rejectBusy i a s, [.checkRing i, .answered i])
  else (s, [])

/-- The service of a port in a call after its ring check: POLL-CLOSE, or the
transfer of data. -/
def answered (i : PortIdx) (s : Sys) : Sys × List Block :=
  if (s.ports i).sock = none then
    (if (s.ports i).mode = .listen then s else enterIdleMode i s, [])
  else if (s.ports i).pendingClose ≠ 0 ∧ s.safe then
    let silent : Bool := 2 ≤ (s.ports i).pendingClose
    (s.modPort i fun p => { p with pendingClose := 0 },
      (if silent then [] else [.raw i (bytes "\r\nSession finished.\r\n")]) ++
        [.pollClose i silent])
  else (s, [.flush i, .recv i])

/-- The rest of POLL-CLOSE. -/
def pollClose (i : PortIdx) (silent : Bool) (s : Sys) : Sys :=
  let s := s |> closeSock i .pollClose |> clearRemote i |> clearRx i
  enterIdleMode i (if silent then s else atSendNoCarrier i s)

/-- One round of the receive loop: take up to 256 bytes from TCP while the ring
has room for them. Bytes of a call that is not answered are dropped after the
telnet parser has seen them. -/
def pollRecv (i : PortIdx) (a : Answer) (s : Sys) : Sys × List Block :=
  match (s.ports i).sock with
  | none => (s, [])
  | some x =>
      if s.net.recvDataWaiting x = false ∨ ringSize - 256 < (s.ports i).rx.count ∨
          a.received ≤ 0 then (s, [.keepalive i])
      else
        let tmp := (s.net.recv x 256 a.received).1
        let drop := (s.ats i).ringing || (s.ats i).connectPending
        let s := s.setNet (s.net.recv x 256 a.received).2
        let s := s.modPort i fun p => { p with lastRxTick := s.tick }
        (if drop then s else s.log (.received i x tmp), [.rx i x tmp drop, .recv i])

/-- The loop over the received bytes: each goes through the telnet parser and,
on an answered call, its output into the receive ring. -/
def pollRx (i : PortIdx) (x : SockId) (tmp : List UInt8) (drop : Bool) (a : Answer) (s : Sys) :
    Sys × List Block :=
  match tmp with
  | [] => (s, [])
  | b :: rest =>
      let r := telnetFilter (s.ports i) b
      let s := s.modPort i fun _ => r.port
      let s := match r.reply with
        | none => s
        | some buf => telnetSendRaw i buf a s
      let s :=
        if drop then s
        else
          let s := s.modPort i fun p =>
            { p with rx := p.rx.putAll (r.out.toList.map fun b => ⟨b, some x⟩) }
          if (s.ports i).iacHasPending then
            s.modPort i fun p =>
              { p with iacHasPending := false, rx := p.rx.put ⟨p.iacPending, some x⟩ }
          else s
      (s, [.rx i x rest drop])

/-- The keepalive NOP is due on a call that has been idle for two seconds, and
then about every three seconds. -/
def keepaliveDue (idle : Tick) : Bool :=
  36 < idle && idle - idle / 55 * 55 < 2

def nop : List UInt8 := [0xFF, 0xF1]

def pollKeepalive (i : PortIdx) (s : Sys) : List Block :=
  (if keepaliveDue (s.tick - (s.ports i).lastRxTick) then [.raw i nop] else []) ++ [.idle i s.tick]

/-- The idle timeout test, with the tick read before the keepalive. -/
def idleExpired (i : PortIdx) (now : Tick) (s : Sys) : Bool :=
  let limit := (s.ports i).idleTimeout.toUInt32 * 18
  0 < (s.ports i).idleTimeout && s.safe && limit < now - (s.ports i).lastTxTick &&
    limit < now - (s.ports i).lastRxTick

def pollIdle (i : PortIdx) (now : Tick) (s : Sys) : List Block :=
  if idleExpired i now s then
    [.raw i (bytes "\r\nClosing idle connection.\r\n"), .idleClose i]
  else [.disconnected i now]

/-- The end of an idle call. -/
def idleClose (i : PortIdx) (s : Sys) : Sys :=
  s |> closeSock i .idle |> clearRemote i |> clearRx i |> atSendNoCarrier i |> enterIdleMode i

/-- Disconnect detection: whether the call of the port is found to be over. -/
def remoteGone (i : PortIdx) (x : SockId) (now : Tick) (a : Answer) (s : Sys) : Bool :=
  s.safe &&
    (a.closed ||
      (182 < now - (s.ports i).connTick && a.remoteClosed && !s.net.recvDataWaiting x))

/-- The end of a call the remote side has closed. -/
def pollDisconnected (i : PortIdx) (now : Tick) (a : Answer) (s : Sys) : Sys :=
  match (s.ports i).sock with
  | none => s
  | some x =>
      if remoteGone i x now a s then
        s |> closeSock i .remote |> clearRemote i |> clearRx i |> atSendNoCarrier i |>
          enterIdleMode i
      else s

/-- The deferred connect of an external socket. -/
def extConnect (k : ExtIdx) (x : SockId) (a : Answer) (s : Sys) : Sys :=
  if (s.extSockets k).pendingConnect then
    let s := s.modExt k fun e => { e with pendingConnect := false }
    if a.succeeded then s.setNet (s.net.connect x)
    else s.modExt k fun e => { e with state := .error }
  else s

/-- The service of an external socket. -/
def pollExt (k : ExtIdx) (a : Answer) (s : Sys) : Sys :=
  match (s.extSockets k).sock with
  | none => s
  | some x =>
      let s := extConnect k x a s
      match (s.extSockets k).state with
      | .closing =>
          (sockCloseFast x s).modExt k fun e => { e with sock := none, state := .free }
      | .connecting =>
          if a.connectComplete then s.modExt k fun e => { e with state := .established }
          else if a.closed then s.modExt k fun e => { e with state := .error }
          else s
      | .established =>
          if a.closed then s.modExt k fun e => { e with state := .error }
          else if a.remoteClosed ∧ s.net.recvDataWaiting x = false then
            s.modExt k fun e => { e with state := .remoteClosed }
          else s
      | _ => s

end Vmodem
