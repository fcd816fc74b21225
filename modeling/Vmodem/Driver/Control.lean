import Vmodem.Driver.Blocks

/-! The control commands (`vmodem.c`) and the opening of listen sockets. -/

namespace Vmodem

/-- Record the sockets whose pointers in the port are about to be overwritten. -/
def logDropped (i : PortIdx) (s : Sys) : Sys :=
  let s := match (s.ports i).sock with
    | none => s
    | some x => s.log (.dropped x)
  match (s.ports i).listenSock with
    | none => s
    | some x => s.log (.dropped x)

/-- `cmd_listen`. -/
def cmdListen (i : PortIdx) (tcpPort : UInt16) (s : Sys) : Sys :=
  (logDropped i (cmdDisconnect i s)).modPort i fun p =>
    { p with
      listenSock := none
      sock := none
      localPort := tcpPort
      mode := .disc
      initialized := true
      rx := p.rx.reset }

/-- One round of the loop of `cmd_hunt_listen` over the member ports. -/
def joinGroup (g : GroupIdx) (tcpPort : UInt16) (i : PortIdx) (s : Sys) : Sys :=
  (logDropped i s).modPort i fun p =>
    { p with
      listenSock := none
      sock := none
      localPort := tcpPort
      mode := .disc
      initialized := true
      huntGroupIdx := some g
      rx := p.rx.reset }

/-- The free hunt group slot `cmd_hunt_listen` takes. -/
def freeGroup (s : Sys) : Option GroupIdx :=
  (List.finRange 2).find? fun g => !(s.huntGroups g).active

/-- `cmd_hunt_listen`. -/
def cmdHuntListen (mask : UInt8) (tcpPort : UInt16) (s : Sys) : Sys :=
  match freeGroup s with
  | none => s
  | some g =>
      let s := s.modHunt g fun _ => ⟨none, tcpPort, mask, true⟩
      ((List.finRange 4).filter (hasPort mask)).foldl (fun s i => joinGroup g tcpPort i s) s

/-- `getSocket()` followed by `listen()`; a socket that cannot listen is given
back. -/
def openListen (tcpPort : UInt16) (a : Answer) (s : Sys) : Sys × Option SockId :=
  match s.net.getSocket a.obtained with
  | none => (s, none)
  | some (x, net) =>
      if a.succeeded then (s.setNet (net.listen x tcpPort), some x)
      else (freeSocket x (s.setNet net), none)

/-- The listen socket `main` opens for a standalone port. -/
def preallocate (i : PortIdx) (eager : Bool) (a : Answer) (s : Sys) : Sys :=
  if (s.ports i).initialized ∧ (s.ports i).localPort ≠ 0 ∧ (s.ports i).listenSock = none ∧
      (s.ports i).huntGroupIdx = none then
    match openListen (s.ports i).localPort a s with
    | (s, none) => s
    | (s, some x) =>
        s.modPort i fun p =>
          { p with listenSock := some x, mode := if eager then .listen else p.mode }
  else s

/-- The listen socket `main` opens for a hunt group. -/
def preallocateHunt (g : GroupIdx) (eager : Bool) (a : Answer) (s : Sys) : Sys :=
  if (s.huntGroups g).active ∧ (s.huntGroups g).listenSock = none then
    match openListen (s.huntGroups g).tcpPort a s with
    | (s, none) => s
    | (s, some x) =>
        let s := s.modHunt g fun h => { h with listenSock := some x }
        if eager then
          { s with ports := fun j =>
              if hasPort (s.huntGroups g).portMask j then { s.ports j with mode := .listen }
              else s.ports j }
        else s
  else s

end Vmodem
