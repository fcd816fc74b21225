import Vmodem.Driver.Poll

/-! The MUX_SOCK functions of `int2f_handler`: outgoing connections through the
resident stack. -/

namespace Vmodem

/-- `MUX_SOCK_ALLOC`. -/
def sockAlloc (a : Answer) (s : Sys) : Sys :=
  match (List.finRange 4).find? fun k =>
      (s.extSockets k).state = .free && (s.extSockets k).sock.isNone with
  | none => s.setResult 0xFF
  | some k =>
      match s.net.getSocket a.obtained with
      | none => s.setResult 0xFF
      | some (x, net) =>
          if a.succeeded then
            ((s.setNet net).modExt k fun e => { e with sock := some x, state := .free }).setResult
              k.val.toUInt16
          else (freeSocket x (s.setNet net)).setResult 0xFF

/-- `MUX_SOCK_CONNECT`: the connect itself is left to the poll cycle. -/
def sockConnect (k : ExtIdx) (ip : IpAddr) (port : UInt16) (s : Sys) : Sys :=
  if (s.extSockets k).sock = none then s.setResult 0xFF
  else
    (s.modExt k fun e =>
      { e with
        connIp := ip, connPort := port, pendingConnect := true, state := .connecting }).setResult 0

/-- The state `MUX_SOCK_STATUS` finds. -/
def observedState (k : ExtIdx) (x : SockId) (a : Answer) (s : Sys) : ExtState :=
  let st :=
    if a.connectComplete then ExtState.established
    else if a.closed then .error
    else (s.extSockets k).state
  if st = .established ∧ a.remoteClosed ∧ s.net.recvDataWaiting x = false then .remoteClosed else st

/-- `MUX_SOCK_STATUS`. -/
def sockStatus (k : ExtIdx) (a : Answer) (s : Sys) : Sys :=
  match (s.extSockets k).sock with
  | none => s.setResult ExtState.error.code
  | some x =>
      let st := observedState k x a s
      (s.modExt k fun e => { e with state := st }).setResult st.code

/-- `MUX_SOCK_SEND`: at most 256 bytes, only when connected. -/
def sockSend (k : ExtIdx) (data : List UInt8) (a : Answer) (s : Sys) : Sys :=
  match (s.extSockets k).sock with
  | none => s.setResult 0
  | some x =>
      if (s.extSockets k).state = .established then
        let out : List WireByte := (data.take 256).map fun b => ⟨b, .control⟩
        (s.setNet (s.net.send x out a.sent)).setResult (taken out a.sent).toUInt16
      else s.setResult 0

/-- `MUX_SOCK_RECV`: at most 256 bytes. -/
def sockRecv (k : ExtIdx) (size : UInt16) (a : Answer) (s : Sys) : Sys :=
  match (s.extSockets k).sock with
  | none => s.setResult 0
  | some x =>
      if s.net.recvDataWaiting x then
        let r := s.net.recv x (min size.toNat 256) a.received
        (s.setNet r.2).setResult r.1.length.toUInt16
      else s.setResult 0

/-- `MUX_SOCK_CLOSE`: the close itself is left to the poll cycle. -/
def sockClose (k : ExtIdx) (s : Sys) : Sys :=
  if (s.extSockets k).sock = none then s.setResult 0
  else (s.modExt k fun e => { e with state := .closing }).setResult 0

/-- `MUX_SOCK_RECV_READY`. -/
def sockRecvReady (k : ExtIdx) (s : Sys) : Sys :=
  match (s.extSockets k).sock with
  | none => s.setResult 0
  | some x => s.setResult (if s.net.recvDataWaiting x then 1 else 0)

/-- `int2f_handler`. -/
def mux (m : Mux) (a : Answer) (s : Sys) : Sys × List Block :=
  match m with
  | .listen i port => (cmdListen i port s, [])
  | .disconnect i => (cmdDisconnect i s, [])
  | .huntListen mask port => (cmdHuntListen mask port s, [])
  | .poll =>
      if s.busy then (s, [])
      else (s.setGuards true s.dosSafe s.int14Safe, pollCycle ++ [.pollDone])
  | .sockAlloc => (sockAlloc a s, [])
  | .sockConnect k ip port => (sockConnect k ip port s, [])
  | .sockStatus k => (sockStatus k a s, [])
  | .sockSend k data => (sockSend k data a s, [])
  | .sockRecv k size => (sockRecv k size a s, [])
  | .sockClose k => (sockClose k s, [])
  | .sockRecvReady k => (sockRecvReady k s, [])

end Vmodem
