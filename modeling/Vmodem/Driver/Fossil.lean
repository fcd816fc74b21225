import Vmodem.Driver.Control

/-! The FOSSIL driver (`int14.c`): the transmit path, the status word and the
INT 14h functions. -/

namespace Vmodem

/-- Line status (AH): bit 5 THRE, bit 6 TSRE, bit 0 RDA, bit 1 OVRN. -/
def lineStatus (thre tsre rda ovrn : Bool) : UInt8 :=
  (if thre then 0x20 else 0) ||| (if tsre then 0x40 else 0) ||| (if rda then 0x01 else 0) |||
    (if ovrn then 0x02 else 0)

/-- Modem status (AL): CTS and DSR with their delta bits, then RI or DCD. -/
def modemStatus (ri dcd : Bool) : UInt8 :=
  0x31 ||| 0x02 ||| (if ri then 0x40 else if dcd then 0x88 else 0)

def threBit : UInt16 := 0x2000

def dcdBit : UInt16 := 0x0080

/-- Whether the shared buffer holds unsent bytes of the port. -/
def hasPending (i : PortIdx) (s : Sys) : Bool :=
  s.pend.port = some i && decide (s.pend.off < s.pend.data.length)

/-- Carrier as `fossil_status` decides it. -/
def carrier (i : PortIdx) (s : Sys) : Bool :=
  !(s.ats i).ringing && !(s.ats i).connectPending &&
    ((s.ports i).mode = .conn && (s.ports i).sock.isSome) &&
    (decide ((s.fossils i).purgeSeen < 3) || (s.ports i).dtrIgnore)

/-- The word `fossil_status` returns. -/
def statusWord (i : PortIdx) (s : Sys) : UInt16 :=
  let count := (s.fossils i).tx.count
  let lsr := lineStatus (decide (count < txRingSize) && !hasPending i s)
    (decide (count = 0) && !hasPending i s) (decide (0 < (s.ports i).rx.count))
      (s.fossils i).overrun
  let msr := modemStatus (s.ats i).ringing (carrier i s)
  lsr.toUInt16 <<< 8 ||| msr.toUInt16

/-- `fossil_status`: reading the word clears the overrun flag. -/
def fossilStatus (i : PortIdx) (s : Sys) : Sys :=
  (s.modFossil i fun f => { f with overrun := false }).log (.status i (statusWord i s))

/-- `fossil_clear_tx`. -/
def fossilClearTx (i : PortIdx) (s : Sys) : Sys :=
  let s := s.modFossil i fun f => { f with tx := f.tx.reset }
  if s.pend.port = some i then s.setPend ⟨[], 0, none⟩ else s

/-- One application byte as it goes on the wire: 0xFF is doubled. -/
def escape (b : TxByte) : List WireByte :=
  if b.val = 0xFF then [⟨0xFF, .escape b⟩, ⟨0xFF, .app b⟩] else [⟨b.val, .app b⟩]

/-- How many of the offered bytes a `send()` took. -/
def taken (offered : List WireByte) (rc : Int) : Nat := min rc.toNat offered.length

/-- The first half of `fossil_flush_tx`: offer the port's leftover bytes to its
socket again. -/
def flushLeftover (i : PortIdx) (x : SockId) (a : Answer) (s : Sys) : Sys :=
  if hasPending i s then
    let off := s.pend.off + taken s.leftover a.sent
    let s := s.setNet (s.net.send x s.leftover a.sent)
    if off < s.pend.data.length then s.setPend { s.pend with off := off }
    else s.setPend ⟨[], 0, none⟩
  else s

/-- The second half of `fossil_flush_tx`: move the whole transmit ring through
the shared buffer, whoever's bytes it still holds. -/
def flushRing (i : PortIdx) (x : SockId) (a : Answer) (s : Sys) : Sys :=
  let batch := (s.fossils i).tx.getMany (s.fossils i).tx.count
  let out := batch.1.flatMap escape
  let s := s.modFossil i fun f => { f with tx := batch.2 }
  if out = [] then s
  else
    let s := s.setNet (s.net.send x out a.sentBatch)
    if taken out a.sentBatch < out.length then s.setPend ⟨out, taken out a.sentBatch, some i⟩
    else s.setPend ⟨[], 0, none⟩

/-- `fossil_flush_tx`. -/
def fossilFlushTx (i : PortIdx) (a : Answer) (s : Sys) : Sys :=
  if (s.ats i).ringing || (s.ats i).connectPending then s
  else
    match (s.ports i).sock with
    | none => s
    | some x =>
        if a.closed then s
        else
          let s := flushLeftover i x a s
          if hasPending i s then s else flushRing i x a s

/-- `txring_put(&g_tx[port_idx], b)`, `none` when the ring is full. The byte is
marked with the connection `x` it is meant for. -/
def storeTx (i : PortIdx) (x : SockId) (b : UInt8) (s : Sys) : Option Sys :=
  match (s.fossils i).tx.put? ⟨b, i, x⟩ with
  | none => none
  | some tx => some ((s.modFossil i fun f => { f with tx := tx }).log (.stored i ⟨b, i, x⟩))

/-- The connection the application may write to: `p->mode == PORT_CONN &&
p->sock != NULL`. -/
def callSock (i : PortIdx) (s : Sys) : Option SockId :=
  if (s.ports i).mode = .conn then (s.ports i).sock else none

/-- Claim the poll guard for INT 14h, or do without the poll when it is taken. -/
def pollFrom14 (after : List Block) (s : Sys) : Sys × List Block :=
  if s.busy then (s, after)
  else (s.setGuards true s.dosSafe true, pollCycle ++ .pollDone :: after)

/-- AH=01h. -/
def transmit (i : PortIdx) (b : UInt8) (s : Sys) : Sys × List Block :=
  let r := atInput i b (s.modPort i fun p => { p with lastTxTick := s.tick })
  match r.2 with
  | .consumed => (r.1, [.status i])
  | .hangup => (r.1, [.flush i, .hangup i, .status i])
  | .pass =>
      if (r.1.ats i).ringing then (r.1, [.status i])
      else
        match callSock i r.1 with
        | none => (r.1, [.status i])
        | some x =>
            match storeTx i x b r.1 with
            | some s => (s, [.status i])
            | none => (r.1, [.flush i, .retryChar i b, .status i])

/-- AH=01h after the flush of a full ring: if it is still full the byte is
lost. -/
def retryChar (i : PortIdx) (b : UInt8) (s : Sys) : Sys :=
  match (s.ports i).sock with
  | none => s
  | some x => (storeTx i x b s).getD s

/-- AH=0Bh. -/
def transmitNoWait (i : PortIdx) (b : UInt8) (s : Sys) : Sys × List Block :=
  let r := atInput i b s
  match r.2 with
  | .consumed => (r.1, [.ret i 1])
  | .hangup => (r.1, [.flush i, .hangup i, .ret i 1])
  | .pass =>
      match callSock i r.1 with
      | none => (r.1, [.ret i 0])
      | some x =>
          match storeTx i x b r.1 with
          | some s => (s, [.ret i 1])
          | none => (r.1, [.ret i 0])

/-- The end of AH=19h: flush what was written, return the count. -/
def writeDone (i : PortIdx) (count : UInt16) : List Block :=
  if 0 < count then [.flush i, .ret i count] else [.ret i count]

/-- AH=19h. -/
def blockWrite (i : PortIdx) (data : List UInt8) (s : Sys) : Sys × List Block :=
  if (callSock i s).isSome then (s, [.write i data 0]) else (s, writeDone i 0)

/-- One round of the loop of AH=19h. -/
def writeNext (i : PortIdx) (data : List UInt8) (count : UInt16) (s : Sys) : Sys × List Block :=
  match data, (s.ports i).sock with
  | [], _ => (s, writeDone i count)
  | _ :: _, none => (s, writeDone i count)
  | b :: rest, some x =>
      match storeTx i x b s with
      | some s => (s, [.write i rest (count + 1)])
      | none => (s, [.flush i, .retryWrite i b rest count])

/-- The same round after the flush of a full ring. -/
def retryWrite (i : PortIdx) (b : UInt8) (rest : List UInt8) (count : UInt16) (s : Sys) :
    Sys × List Block :=
  match (s.ports i).sock with
  | none => (s, writeDone i count)
  | some x =>
      match storeTx i x b s with
      | some s => (s, [.write i rest (count + 1)])
      | none => (s, writeDone i count)

/-- Read up to `max` bytes of the receive ring for the application. -/
def readRx (i : PortIdx) (max : Nat) (s : Sys) : Sys :=
  let r := (s.ports i).rx.getMany max
  r.1.foldl (fun s b => s.log (.read i b)) (s.modPort i fun p => { p with rx := r.2 })

/-- AH=02h after its poll cycle. -/
def readChar (i : PortIdx) (s : Sys) : Sys :=
  match (s.ports i).rx.get? with
  | none => s.log (.returned i 0x8000)
  | some (b, _) => (readRx i 1 s).log (.returned i b.val.toUInt16)

/-- AH=18h after its poll cycles. -/
def readBlock (i : PortIdx) (max : UInt16) (s : Sys) : Sys :=
  (readRx i max.toNat s).log
    (.returned i (((s.ports i).rx.getMany max.toNat).1.length).toUInt16)

/-- AH=03h after its poll cycle and ring check: count status polls since a
purge of a live call. -/
def purgeStatus (i : PortIdx) (s : Sys) : Sys :=
  if (s.fossils i).purgeSeen ≠ 0 ∧ (callSock i s).isSome ∧ (s.ports i).dtrIgnore = false then
    s.modFossil i fun f => { f with purgeSeen := f.purgeSeen + 1 }
  else s

/-- AH=09h. A call older than ten seconds gets its carrier drop armed. -/
def purgeOutput (i : PortIdx) (s : Sys) : Sys :=
  let s := (fossilClearTx i s).log (.purged i)
  if (callSock i s).isSome ∧ (s.fossils i).purgeSeen < 3 ∧ (s.ports i).dtrIgnore = false ∧
      182 < s.tick - (s.ports i).connTick then
    (logRequest i s).modFossil i fun f => { f with purgeSeen := 1 }
  else s

/-- Mark the port's call for the next POLL-CLOSE. -/
def requestClose (i : PortIdx) (s : Sys) : Sys :=
  (logRequest i s).modPort i fun p => { p with pendingClose := 1 }

/-- AH=05h after its flush. -/
def deinit (i : PortIdx) (s : Sys) : Sys :=
  let s := s.modFossil i fun f => { f with init := false }
  if (s.ports i).dtrIgnore then s
  else if (s.fossils i).dtr ∧ (callSock i s).isSome then requestClose i s
  else s

/-- AH=06h. -/
def setDtr (i : PortIdx) (al : UInt8) (s : Sys) : Sys :=
  let s := s.modFossil i fun f => { f with dtr := al ≠ 0 }
  if al = 0 then
    if (s.ports i).dtrIgnore then s
    else if (callSock i s).isSome then requestClose i s
    else s
  else if (s.ats i).ringing ∧ (s.ports i).mode = .conn then atSendConnect i s
  else s

/-- AH=04h up to INIT-DISC. -/
def initStart (i : PortIdx) (s : Sys) : Sys × List Block :=
  let s := (fossilClearTx i (clearRx i s)).log (.purged i)
  if (s.ports i).pendingClose ≠ 0 ∨ ((callSock i s).isSome ∧ 3 ≤ (s.fossils i).purgeSeen) then
    (s.modPort i fun p => { p with pendingClose := 0, dtrIgnore := false },
      (if (s.ports i).sock.isSome then [.raw i (bytes "\r\nSession finished.\r\n")] else []) ++
        [.initDisc i, .initFinish i])
  else (s, [.initFinish i])

/-- INIT-DISC: close the old connection now. -/
def initDisc (i : PortIdx) (s : Sys) : Sys :=
  s |> closeSock i .initDisc |> clearRemote i |> enterIdleMode i

/-- AH=04h after INIT-DISC: reset the FOSSIL and the AT state. -/
def initReset (i : PortIdx) (s : Sys) : Sys :=
  let s := s.modFossil i fun f =>
    { f with init := true, flowCtrl := 0, overrun := false, dtr := true, purgeSeen := 0 }
  let s := s.modPort i fun p =>
    { p with lastTxTick := s.tick, lastRxTick := s.tick, idleTimeout := 0 }
  let wasRinging := (s.ats i).ringing
  let s := atInit i s
  if wasRinging ∧ (callSock i s).isSome ∧ (s.ports i).pendingClose = 0 then atSetRingingSilent i s
  else s

/-- The listening part of AH=04h. -/
def initListen (i : PortIdx) (a : Answer) (s : Sys) : Sys :=
  match (s.ports i).huntGroupIdx with
  | some g =>
      let s :=
        if (s.huntGroups g).active ∧ (s.huntGroups g).listenSock = none then
          match openListen (s.huntGroups g).tcpPort a s with
          | (s, none) => s
          | (s, some x) => s.modHunt g fun h => { h with listenSock := some x }
        else s
      if (s.ports i).mode = .conn then s else s.modPort i fun p => { p with mode := .listen }
  | none =>
      if (s.ports i).localPort ≠ 0 ∧ (s.ports i).mode ≠ .conn then
        if (s.ports i).listenSock = none then
          match openListen (s.ports i).localPort a s with
          | (s, none) => s
          | (s, some x) => s.modPort i fun p => { p with listenSock := some x, mode := .listen }
        else s.modPort i fun p => { p with mode := .listen }
      else s

/-- AH=04h after INIT-DISC. -/
def initFinish (i : PortIdx) (a : Answer) (s : Sys) : Sys :=
  (initListen i a (initReset i s)).log (.returned i 0x1954)

/-- AH=18h between its first poll cycle and the spin loop. -/
def spin (i : PortIdx) (a : Answer) (s : Sys) : List Block :=
  if (s.ports i).rx.count = 0 ∧ (s.ports i).sock.isSome ∧ a.closed = false then
    [.spinLoop i s.tick]
  else []

/-- The condition of the spin loop. -/
def spinLoop (i : PortIdx) (start : Tick) (s : Sys) : List Block :=
  if (s.ports i).rx.count = 0 then pollCycle ++ [.spinCheck i start] else []

/-- The end of a round of the spin loop. -/
def spinCheck (i : PortIdx) (start : Tick) (s : Sys) : List Block :=
  if 2 ≤ s.tick - start then [] else [.spinLoop i start]

/-- `int14_real_handler` for a port the driver manages; other ports are passed
on to the old handler. -/
def int14 (i : PortIdx) (f : Fossil) (s : Sys) : Sys × List Block :=
  if (s.ports i).initialized then
    match f with
    | .setBaud => (s, [.status i])
    | .transmit b => transmit i b s
    | .receive => pollFrom14 [.readChar i] s
    | .status => pollFrom14 [.checkRing i, .purgeStatus i, .status i] s
    | .init => initStart i s
    | .deinit => (s, [.flush i, .int14Deinit i, .ret i 0])
    | .dtr al => (setDtr i al s, [.ret i 0])
    | .flush => (s, [.flush i, .ret i 0])
    | .purgeOutput => (purgeOutput i s, [.ret i 0])
    | .purgeInput => (clearRx i s, [.ret i 0])
    | .transmitNoWait b => transmitNoWait i b s
    | .peek =>
        (s, [.ret i (if 0 < (s.ports i).rx.count then
          ((s.ports i).rx.data (s.ports i).rx.head).val.toUInt16 else 0xFFFF)])
    | .flowControl al => (s.modFossil i fun f => { f with flowCtrl := al }, [.ret i 0])
    | .blockRead max =>
        if s.busy then (s, [.readBlock i max])
        else (s.setGuards true s.dosSafe true,
          pollCycle ++ [.spin i, .pollDone, .readBlock i max])
    | .blockWrite data => blockWrite i data s
    | .passthrough => (s, [])
  else (s, [])

end Vmodem
