import Vmodem.Invariants.OwnPort
import Vmodem.Invariants.Modes

/-! The registers of a port: its AT state, its carrier-drop counter and the times
its timers start from. Few blocks write them, and those are named here; what they
write is said in the modules that use it. -/

namespace Vmodem

/-- What the status word, the AT interpreter and the timers of a port work with,
and the time. -/
structure Registers where
  modem : AtState
  purgeSeen : UInt8
  dtrIgnore : Bool
  idleTimeout : UInt16
  connTick : Tick
  lastRxTick : Tick
  lastTxTick : Tick
  tick : Tick

def Sys.registers (s : Sys) (j : PortIdx) : Registers where
  modem := s.ats j
  purgeSeen := (s.fossils j).purgeSeen
  dtrIgnore := (s.ports j).dtrIgnore
  idleTimeout := (s.ports j).idleTimeout
  connTick := (s.ports j).connTick
  lastRxTick := (s.ports j).lastRxTick
  lastTxTick := (s.ports j).lastTxTick
  tick := s.tick

/-- A call is accepted: its times start now. -/
def Registers.renew (r : Registers) : Registers :=
  { r with connTick := r.tick, lastRxTick := r.tick, lastTxTick := r.tick }

/-- The blocks that may write registers of a port. -/
def Block.steers : Block → PortIdx → Bool
  | .int14 _ (.transmit _), _ | .int14 _ (.transmitNoWait _), _ => true
  | .int14 i .init, j | .int14 i (.dtr _), j | .int14 i .purgeOutput, j => i = j
  | .ring i, j | .checkRing i, j | .pollClose i _, j | .idleClose i, j | .disconnected i _, j
  | .recv i, j | .purgeStatus i, j | .initFinish i, j => i = j
  | .hunt _, _ | .port _, _ => true
  | _, _ => false

section Time

variable (i : PortIdx) (x : SockId) (a : Answer) (s : Sys)

@[simp] theorem sockCloseFast_tick : (sockCloseFast x s).tick = s.tick := by
  unfold sockCloseFast
  split_ifs <;> rfl

@[simp] theorem closeSock_tick (why : CloseReason) : (closeSock i why s).tick = s.tick := by
  unfold closeSock
  cases (s.ports i).sock with
  | none => rfl
  | some x => exact sockCloseFast_tick x s

@[simp] theorem closingDrain_tick (n : Nat) : (closingDrain n a s).tick = s.tick := by
  unfold closingDrain
  cases s.closing[n]? with
  | none => rfl
  | some x =>
      dsimp only
      split_ifs <;> rfl

@[simp] theorem logDropped_tick : (logDropped i s).tick = s.tick := by
  unfold logDropped
  cases (s.ports i).sock with
  | none => cases hListen : (s.ports i).listenSock <;> simp [hListen]
  | some x => cases hListen : (s.ports i).listenSock <;> simp [hListen]

@[simp] theorem fossilClearTx_tick : (fossilClearTx i s).tick = s.tick := by
  unfold fossilClearTx
  dsimp only
  split_ifs <;> rfl

@[simp] theorem flushLeftover_tick : (flushLeftover i x a s).tick = s.tick := by
  unfold flushLeftover
  dsimp only
  split_ifs <;> rfl

@[simp] theorem flushRing_tick : (flushRing i x a s).tick = s.tick := by
  unfold flushRing
  dsimp only
  split_ifs <;> rfl

@[simp] theorem fossilFlushTx_tick : (fossilFlushTx i a s).tick = s.tick := by
  rcases fossilFlushTx_cases i a s with hNone | ⟨x, _, _, _, ⟨_, hLeft⟩ | ⟨_, hRing⟩⟩
  · rw [hNone]
  · simp [hLeft]
  · simp [hRing]

@[simp] theorem telnetSendRaw_tick (buf : List UInt8) :
    (telnetSendRaw i buf a s).tick = s.tick := by
  unfold telnetSendRaw
  cases (s.ports i).sock with
  | none => rfl
  | some x =>
      dsimp only
      split_ifs <;> rfl

@[simp] theorem readRx_tick (n : Nat) : (readRx i n s).tick = s.tick := by
  have hLog : ∀ (bs : List RxByte) (t : Sys),
      (bs.foldl (fun s b => s.log (.read i b)) t).tick = t.tick := by
    intro bs
    induction bs with
    | nil => exact fun _ => rfl
    | cons b bs ih => exact fun t => ih (t.log (.read i b))
  exact hLog _ _

@[simp] theorem replied_tick (v : UInt8) : (replied i v a s).tick = s.tick := by
  unfold replied
  cases (telnetFilter (s.ports i) v).reply <;> simp

@[simp] theorem pollRx_tick (tmp : List UInt8) (drop : Bool) :
    (pollRx i x tmp drop a s).1.tick = s.tick := by
  cases tmp with
  | nil => rfl
  | cons v rest =>
      rw [pollRx_cons]
      dsimp only
      split_ifs <;> simp

@[simp] theorem acceptCall_tick : (acceptCall i x s).1.tick = s.tick := by simp [acceptCall]

end Time

section Frames

variable (i : PortIdx) (a : Answer) (s : Sys) (j : PortIdx)

/-- The parser leaves the times of a call alone. -/
theorem telnetFilter_times (p : PortState) (v : UInt8) :
    (telnetFilter p v).port.dtrIgnore = p.dtrIgnore ∧
    (telnetFilter p v).port.idleTimeout = p.idleTimeout ∧
    (telnetFilter p v).port.connTick = p.connTick ∧
    (telnetFilter p v).port.lastRxTick = p.lastRxTick ∧
    (telnetFilter p v).port.lastTxTick = p.lastTxTick := by
  unfold telnetFilter
  cases p.iacState with
  | normal | sawFF =>
      dsimp only
      split_ifs <;> exact ⟨rfl, rfl, rfl, rfl, rfl⟩
  | sawCmd =>
      obtain ⟨_, _, _, _, _, hPort⟩ := telnetHandleOption_renegotiates p p.iacCmd v
      dsimp only
      rw [hPort]
      exact ⟨rfl, rfl, rfl, rfl, rfl⟩
  | inSB =>
      dsimp only
      unfold subnegotiationByte
      split_ifs <;> exact ⟨rfl, rfl, rfl, rfl, rfl⟩
  | sbIac =>
      dsimp only
      unfold subnegotiationDone
      split_ifs <;> exact ⟨rfl, rfl, rfl, rfl, rfl⟩

variable {i a s j}

@[simp] theorem log_registers (e : Event) : (s.log e).registers j = s.registers j := rfl
@[simp] theorem setNet_registers (net : Mtcp) : (s.setNet net).registers j = s.registers j := rfl
@[simp] theorem setPend_registers (p : TxPending) : (s.setPend p).registers j = s.registers j := rfl
@[simp] theorem setClosing_registers (l : List SockId) :
    (s.setClosing l).registers j = s.registers j := rfl
@[simp] theorem setResult_registers (r : UInt16) :
    (s.setResult r).registers j = s.registers j := rfl
@[simp] theorem setGuards_registers (b d f : Bool) :
    (s.setGuards b d f).registers j = s.registers j := rfl
@[simp] theorem modHunt_registers (g : GroupIdx) (f : HuntGroup → HuntGroup) :
    (s.modHunt g f).registers j = s.registers j := rfl
@[simp] theorem modExt_registers (k : ExtIdx) (f : ExtSocket → ExtSocket) :
    (s.modExt k f).registers j = s.registers j := rfl

/-- A change of port fields that are not registers. -/
theorem modPort_registers (f : PortState → PortState)
    (h : ∀ p, (f p).dtrIgnore = p.dtrIgnore ∧ (f p).idleTimeout = p.idleTimeout ∧
      (f p).connTick = p.connTick ∧ (f p).lastRxTick = p.lastRxTick ∧
      (f p).lastTxTick = p.lastTxTick) :
    (s.modPort i f).registers j = s.registers j := by
  by_cases hj : j = i <;> simp [Sys.registers, hj, h]

/-- A change of another port. -/
theorem modPort_registers_of_ne (f : PortState → PortState) (hj : j ≠ i) :
    (s.modPort i f).registers j = s.registers j := by
  simp [Sys.registers, hj]

/-- The interpreter of another port is not among the registers of this one. -/
theorem modAt_registers_of_ne (f : AtState → AtState) (hj : j ≠ i) :
    (s.modAt i f).registers j = s.registers j := by
  simp [Sys.registers, hj]

theorem modFossil_registers_of_ne (f : FossilState → FossilState) (hj : j ≠ i) :
    (s.modFossil i f).registers j = s.registers j := by
  simp [Sys.registers, hj]

/-- Of its own FOSSIL state only the count of a carrier drop is. -/
theorem modFossil_registers (f : FossilState → FossilState)
    (h : ∀ m, (f m).purgeSeen = m.purgeSeen) :
    (s.modFossil i f).registers j = s.registers j := by
  by_cases hj : j = i <;> simp [Sys.registers, hj, h]

@[simp] theorem freeSocket_registers (x : SockId) :
    (freeSocket x s).registers j = s.registers j := rfl

@[simp] theorem sockCloseFast_registers (x : SockId) :
    (sockCloseFast x s).registers j = s.registers j := by
  simp [Sys.registers]

@[simp] theorem closeSock_registers (why : CloseReason) :
    (closeSock i why s).registers j = s.registers j := by
  by_cases hj : j = i <;> simp [Sys.registers, hj]

@[simp] theorem clearRemote_registers : (clearRemote i s).registers j = s.registers j :=
  modPort_registers _ fun _ => ⟨rfl, rfl, rfl, rfl, rfl⟩

@[simp] theorem clearRx_registers : (clearRx i s).registers j = s.registers j :=
  modPort_registers _ fun _ => ⟨rfl, rfl, rfl, rfl, rfl⟩

@[simp] theorem enterIdleMode_registers : (enterIdleMode i s).registers j = s.registers j :=
  modPort_registers _ fun _ => ⟨rfl, rfl, rfl, rfl, rfl⟩

@[simp] theorem atSendStr_registers (text : List UInt8) :
    (atSendStr i text s).registers j = s.registers j :=
  modPort_registers _ fun _ => ⟨rfl, rfl, rfl, rfl, rfl⟩

@[simp] theorem atRespond_registers (text : List UInt8) :
    (atRespond i text s).registers j = s.registers j := by
  unfold atRespond
  split_ifs <;> simp

/-- A result code changes no register, whether it is given or suppressed. -/
@[simp] theorem atResult_registers (verbose numeric : String) :
    (atResult i verbose numeric s).registers j = s.registers j :=
  atRespond_registers _

@[simp] theorem atOk_registers : (atOk i s).registers j = s.registers j := atResult_registers _ _

@[simp] theorem atNoCarrier_registers : (atNoCarrier i s).registers j = s.registers j :=
  atResult_registers _ _

@[simp] theorem logRequest_registers : (logRequest i s).registers j = s.registers j := by
  unfold logRequest
  cases (s.ports i).sock <;> rfl

@[simp] theorem requestClose_registers : (requestClose i s).registers j = s.registers j := by
  refine Eq.trans ?_ (logRequest_registers (i := i))
  exact modPort_registers _ fun _ => ⟨rfl, rfl, rfl, rfl, rfl⟩

@[simp] theorem cmdDisconnect_registers : (cmdDisconnect i s).registers j = s.registers j := by
  unfold cmdDisconnect
  split_ifs
  · exact requestClose_registers
  · rfl

@[simp] theorem telnetSendRaw_registers (buf : List UInt8) :
    (telnetSendRaw i buf a s).registers j = s.registers j := by
  simp [Sys.registers]

@[simp] theorem fossilClearTx_registers : (fossilClearTx i s).registers j = s.registers j := by
  by_cases hj : j = i <;> simp [Sys.registers, hj]

@[simp] theorem fossilFlushTx_registers : (fossilFlushTx i a s).registers j = s.registers j := by
  simp [Sys.registers, fossilFlushTx_purgeSeen]

theorem storeTx_registers {x : SockId} {v : UInt8} {t : Sys} (h : storeTx i x v s = some t) :
    t.registers j = s.registers j := by
  obtain ⟨_, rfl⟩ := storeTx_eq_some h
  rw [log_registers]
  exact modFossil_registers _ fun _ => rfl

@[simp] theorem readRx_registers (n : Nat) : (readRx i n s).registers j = s.registers j := by
  by_cases hj : j = i <;> simp [Sys.registers, hj]

/-- Received bytes change no register; the time of receiving is noted with the chunk. -/
@[simp] theorem pollRx_registers (x : SockId) (tmp : List UInt8) (drop : Bool) :
    (pollRx i x tmp drop a s).1.registers j = s.registers j := by
  by_cases hj : j = i
  · subst hj
    cases tmp with
    | nil => rfl
    | cons v rest =>
        obtain ⟨hIgnore, hIdle, hConn, hRx, hTx⟩ := telnetFilter_times (s.ports j) v
        rw [pollRx_cons]
        dsimp only
        split_ifs <;> simp [Sys.registers, hIgnore, hIdle, hConn, hRx, hTx]
  · simp [Sys.registers, hj]

@[simp] theorem rejectCall_registers (x : SockId) (msg : List UInt8) :
    (rejectCall x msg a s).registers j = s.registers j := by
  simp [rejectCall]

@[simp] theorem closingDrain_registers (n : Nat) :
    (closingDrain n a s).registers j = s.registers j := by
  simp [Sys.registers]

@[simp] theorem logDropped_registers : (logDropped i s).registers j = s.registers j := by
  simp [Sys.registers]

end Frames

section Blocks

variable {i : PortIdx} {a : Answer} {s : Sys} {j : PortIdx}

@[simp] theorem fossilStatus_registers : (fossilStatus i s).registers j = s.registers j := by
  unfold fossilStatus
  rw [log_registers]
  exact modFossil_registers _ fun _ => rfl

theorem writeNext_registers (data : List UInt8) (count : UInt16) :
    (writeNext i data count s).1.registers j = s.registers j := by
  unfold writeNext
  split
  next => rfl
  next => rfl
  next b rest x _ =>
    cases hStore : storeTx i x b s with
    | none => rfl
    | some t => exact storeTx_registers hStore

theorem retryWrite_registers (v : UInt8) (rest : List UInt8) (count : UInt16) :
    (retryWrite i v rest count s).1.registers j = s.registers j := by
  unfold retryWrite
  cases (s.ports i).sock with
  | none => rfl
  | some x =>
      dsimp only
      cases hStore : storeTx i x v s with
      | none => rfl
      | some t => exact storeTx_registers hStore

/-- The second attempt of AH=01h does not ask the interpreter again. -/
theorem retryChar_registers (v : UInt8) : (retryChar i v s).registers j = s.registers j := by
  unfold retryChar
  cases (s.ports i).sock with
  | none => rfl
  | some x =>
      dsimp only
      cases hStore : storeTx i x v s with
      | none => rfl
      | some t => exact storeTx_registers hStore

theorem deinit_registers : (deinit i s).registers j = s.registers j := by
  unfold deinit
  extract_lets first
  have hFirst : first.registers j = s.registers j := modFossil_registers _ fun _ => rfl
  split_ifs
  · exact hFirst
  · exact requestClose_registers.trans hFirst
  · exact hFirst

theorem pollFrom14_registers (after : List Block) :
    (pollFrom14 after s).1.registers j = s.registers j := by
  unfold pollFrom14
  split_ifs <;> rfl

theorem readChar_registers : (readChar i s).registers j = s.registers j := by
  unfold readChar
  split <;> simp

/-- The service of a call changes no register by itself. -/
theorem answered_registers : (answered i s).1.registers j = s.registers j := by
  unfold answered
  split_ifs
  · rfl
  · exact enterIdleMode_registers
  · dsimp only
    exact modPort_registers _ fun _ => ⟨rfl, rfl, rfl, rfl, rfl⟩
  · rfl

theorem openListen_registers (tcpPort : UInt16) :
    (openListen tcpPort a s).1.registers j = s.registers j := by
  rcases openListen_cases tcpPort a s with hNone | ⟨x, net, _, hOpen | hFail⟩
  · rw [hNone]
  · rw [hOpen]
    rfl
  · rw [hFail]
    rfl

theorem preallocate_registers (eager : Bool) :
    (preallocate i eager a s).registers j = s.registers j := by
  unfold preallocate
  split
  · have hOpen := openListen_registers (a := a) (s := s) (j := j) (s.ports i).localPort
    rcases hRes : openListen (s.ports i).localPort a s with ⟨u, _ | x⟩
    · simpa [hRes] using hOpen
    · rw [hRes] at hOpen
      refine Eq.trans ?_ hOpen
      exact modPort_registers _ fun _ => ⟨rfl, rfl, rfl, rfl, rfl⟩
  · rfl

theorem preallocateHunt_registers (g : GroupIdx) (eager : Bool) :
    (preallocateHunt g eager a s).registers j = s.registers j := by
  unfold preallocateHunt
  split
  · have hOpen := openListen_registers (a := a) (s := s) (j := j) (s.huntGroups g).tcpPort
    rcases hRes : openListen (s.huntGroups g).tcpPort a s with ⟨u, _ | x⟩
    · simpa [hRes] using hOpen
    · rw [hRes] at hOpen
      refine Eq.trans ?_ hOpen
      cases eager with
      | false => rfl
      | true =>
          simp only [Sys.registers, ↓reduceIte]
          split_ifs <;> rfl
  · rfl

theorem cmdListen_registers (tcpPort : UInt16) :
    (cmdListen i tcpPort s).registers j = s.registers j := by
  unfold cmdListen
  refine Eq.trans ?_ ((logDropped_registers (i := i)).trans (cmdDisconnect_registers (i := i)))
  exact modPort_registers _ fun _ => ⟨rfl, rfl, rfl, rfl, rfl⟩

theorem cmdHuntListen_registers (mask : UInt8) (tcpPort : UInt16) :
    (cmdHuntListen mask tcpPort s).registers j = s.registers j := by
  unfold cmdHuntListen
  cases freeGroup s with
  | none => rfl
  | some g =>
      have hJoin : ∀ (members : List PortIdx) (t : Sys),
          (members.foldl (fun s i => joinGroup g tcpPort i s) t).registers j = t.registers j := by
        intro members
        induction members with
        | nil => exact fun _ => rfl
        | cons i members ih =>
            intro t
            rw [List.foldl_cons, ih]
            refine Eq.trans ?_ (logDropped_registers (i := i))
            exact modPort_registers _ fun _ => ⟨rfl, rfl, rfl, rfl, rfl⟩
      exact hJoin _ _

/-- No multiplex function steers a port's registers. One case for each function. -/
theorem mux_registers (m : Mux) : (mux m a s).1.registers j = s.registers j := by
  cases m with
  | listen i port => exact cmdListen_registers port
  | disconnect i => exact cmdDisconnect_registers
  | huntListen mask port => exact cmdHuntListen_registers mask port
  | poll =>
      unfold mux
      dsimp only
      split_ifs <;> rfl
  | sockAlloc =>
      show (sockAlloc a s).registers j = _
      unfold sockAlloc
      split
      next => rfl
      next =>
        split
        next => rfl
        next => split_ifs <;> rfl
  | sockConnect k ip port =>
      show (sockConnect k ip port s).registers j = _
      unfold sockConnect
      split_ifs <;> rfl
  | sockStatus k =>
      show (sockStatus k a s).registers j = _
      unfold sockStatus
      split <;> rfl
  | sockSend k data =>
      show (sockSend k data a s).registers j = _
      unfold sockSend
      split
      next => rfl
      next => split_ifs <;> rfl
  | sockRecv k size =>
      show (sockRecv k size a s).registers j = _
      unfold sockRecv
      split
      next => rfl
      next => split_ifs <;> rfl
  | sockClose k =>
      show (sockClose k s).registers j = _
      unfold sockClose
      split_ifs <;> rfl
  | sockRecvReady k =>
      show (sockRecvReady k s).registers j = _
      unfold sockRecvReady
      split <;> rfl

theorem extConnect_registers (k : ExtIdx) (x : SockId) :
    (extConnect k x a s).registers j = s.registers j := by
  unfold extConnect
  split_ifs <;> rfl

/-- The external sockets are no concern of a port. -/
theorem pollExt_registers (k : ExtIdx) : (pollExt k a s).registers j = s.registers j := by
  unfold pollExt
  cases (s.extSockets k).sock with
  | none => rfl
  | some x =>
      have hConnect := extConnect_registers (a := a) (s := s) (j := j) k x
      dsimp only
      split
      next => exact (modExt_registers k _).trans ((sockCloseFast_registers x).trans hConnect)
      next => split_ifs <;> exact hConnect
      next => split_ifs <;> exact hConnect
      next => exact hConnect

theorem initStart_registers_of_ne (hj : j ≠ i) : (initStart i s).1.registers j = s.registers j := by
  unfold initStart
  extract_lets cleared
  have hCleared : cleared.registers j = s.registers j :=
    fossilClearTx_registers.trans clearRx_registers
  split_ifs
  all_goals dsimp only
  · exact (modPort_registers_of_ne _ hj).trans hCleared
  · exact (modPort_registers_of_ne _ hj).trans hCleared
  · exact hCleared

theorem setDtr_registers_of_ne (al : UInt8) (hj : j ≠ i) :
    (setDtr i al s).registers j = s.registers j := by
  unfold setDtr
  extract_lets first
  have hFirst : first.registers j = s.registers j := modFossil_registers _ fun _ => rfl
  split_ifs
  · exact hFirst
  · exact requestClose_registers.trans hFirst
  · exact hFirst
  · exact (modAt_registers_of_ne _ hj).trans hFirst
  · exact hFirst

theorem purgeOutput_registers_of_ne (hj : j ≠ i) :
    (purgeOutput i s).registers j = s.registers j := by
  unfold purgeOutput
  extract_lets cleared
  have hCleared : cleared.registers j = s.registers j := fossilClearTx_registers
  split_ifs
  · exact (modFossil_registers_of_ne _ hj).trans (logRequest_registers.trans hCleared)
  · exact hCleared

/-- Of the INT 14h functions only those that steer a port change its registers. -/
theorem int14_registers (f : Fossil) (h : (Block.int14 i f).steers j = false) :
    (int14 i f s).1.registers j = s.registers j := by
  unfold int14
  by_cases hInit : (s.ports i).initialized
  · rw [if_pos hInit]
    cases f with
    | transmit b | transmitNoWait b => cases h
    | init => exact initStart_registers_of_ne fun hj => by simp [Block.steers, hj] at h
    | dtr al => exact setDtr_registers_of_ne al fun hj => by simp [Block.steers, hj] at h
    | purgeOutput => exact purgeOutput_registers_of_ne fun hj => by simp [Block.steers, hj] at h
    | receive | status => exact pollFrom14_registers _
    | purgeInput => exact clearRx_registers
    | flowControl al =>
        dsimp only
        exact modFossil_registers _ fun _ => rfl
    | blockRead max =>
        dsimp only
        split_ifs <;> rfl
    | blockWrite data =>
        show (blockWrite i data s).1.registers j = _
        unfold blockWrite
        split_ifs <;> rfl
    | _ => rfl
  · rw [if_neg hInit]

theorem atSendNoCarrier_registers_of_ne (hj : j ≠ i) :
    (atSendNoCarrier i s).registers j = s.registers j :=
  atNoCarrier_registers.trans (modAt_registers_of_ne _ hj)

/-- The ring check of one port leaves the others alone. -/
theorem atCheckRing_registers_of_ne (hj : j ≠ i) :
    (atCheckRing i s).1.registers j = s.registers j := by
  unfold atCheckRing
  extract_lets m
  split_ifs
  all_goals dsimp only
  · exact modAt_registers_of_ne _ hj
  · exact (modAt_registers_of_ne _ hj).trans (modAt_registers_of_ne _ hj)
  · exact modAt_registers_of_ne _ hj
  · exact (modAt_registers_of_ne _ hj).trans (atResult_registers _ _)

theorem initListen_registers : (initListen i a s).registers j = s.registers j := by
  unfold initListen
  cases (s.ports i).huntGroupIdx with
  | some g =>
      dsimp -zeta only
      extract_lets opened
      have hOpened : opened.registers j = s.registers j := by
        unfold opened
        split
        next =>
          have hOpen := openListen_registers (a := a) (s := s) (j := j) (s.huntGroups g).tcpPort
          rcases hRes : openListen (s.huntGroups g).tcpPort a s with ⟨u, _ | x⟩
          · simpa [hRes] using hOpen
          · rw [hRes] at hOpen
            exact hOpen
        next => rfl
      split_ifs
      · exact hOpened
      · refine Eq.trans ?_ hOpened
        exact modPort_registers _ fun _ => ⟨rfl, rfl, rfl, rfl, rfl⟩
  | none =>
      dsimp only
      split
      next =>
        split
        next =>
          have hOpen := openListen_registers (a := a) (s := s) (j := j) (s.ports i).localPort
          rcases hRes : openListen (s.ports i).localPort a s with ⟨u, _ | x⟩
          · simpa [hRes] using hOpen
          · rw [hRes] at hOpen
            refine Eq.trans ?_ hOpen
            exact modPort_registers _ fun _ => ⟨rfl, rfl, rfl, rfl, rfl⟩
        next => exact modPort_registers _ fun _ => ⟨rfl, rfl, rfl, rfl, rfl⟩
      next => rfl

theorem initReset_registers_of_ne (hj : j ≠ i) : (initReset i s).registers j = s.registers j := by
  unfold initReset
  extract_lets first second ringing third
  have hSecond : second.registers j = s.registers j :=
    (modPort_registers_of_ne _ hj).trans (modFossil_registers_of_ne _ hj)
  have hThird : third.registers j = s.registers j := (modAt_registers_of_ne _ hj).trans hSecond
  split_ifs
  · exact (modAt_registers_of_ne _ hj).trans hThird
  · exact hThird

/-- A block writes no registers of the ports it does not steer. -/
theorem exec_registers {b : Block} (h : b.steers j = false) :
    (exec b a s).1.registers j = s.registers j := by
  have hNe : ∀ i : PortIdx, decide (i = j) = false → j ≠ i := by
    intro i hi
    simpa [eq_comm] using hi
  cases b with
  | int14 i f => exact int14_registers f h
  | int28 =>
      show (if s.busy then (s, []) else _).1.registers j = _
      split_ifs <;> rfl
  | mux m => exact mux_registers m
  | preallocate i eager => exact preallocate_registers eager
  | preallocateHunt g eager => exact preallocateHunt_registers g eager
  | raw i buf => exact telnetSendRaw_registers buf
  | flush i => exact fossilFlushTx_registers
  | ring i => simp [exec, atSendRing, modAt_registers_of_ne _ (hNe i h)]
  | checkRing i => exact atCheckRing_registers_of_ne (hNe i h)
  | connectResult i => exact atResult_registers _ _
  | ringTimeout i => simp [exec, ringTimeout]
  | hangup i => exact atNoCarrier_registers.trans requestClose_registers
  | closing n =>
      cases n with
      | zero => rfl
      | succ n => exact closingDrain_registers n
  | answered i => exact answered_registers
  | pollClose i silent =>
      cases silent <;> simp [exec, pollClose, atSendNoCarrier_registers_of_ne (hNe i h)]
  | recv i =>
      show (pollRecv i a s).1.registers j = _
      rcases pollRecv_cases i a s with hNone | ⟨x, _, _, _, hSome⟩
      · rw [hNone]
      · rw [hSome]
        split_ifs <;> simp [modPort_registers_of_ne _ (hNe i h)]
  | rx i x tmp drop => exact pollRx_registers x tmp drop
  | idleClose i => simp [exec, idleClose, atSendNoCarrier_registers_of_ne (hNe i h)]
  | disconnected i now =>
      show (pollDisconnected i now a s).registers j = _
      unfold pollDisconnected
      cases (s.ports i).sock with
      | none => rfl
      | some x =>
          dsimp only
          split_ifs
          · simp [atSendNoCarrier_registers_of_ne (hNe i h)]
          · rfl
  | ext k => exact pollExt_registers k
  | status i => exact fossilStatus_registers
  | purgeStatus i =>
      show (purgeStatus i s).registers j = _
      unfold purgeStatus
      split_ifs
      · exact modFossil_registers_of_ne _ (hNe i h)
      · rfl
  | readChar i => exact readChar_registers
  | readBlock i max => simp [exec, readBlock]
  | retryChar i b => exact retryChar_registers b
  | write i rest count => exact writeNext_registers rest count
  | retryWrite i b rest count => exact retryWrite_registers b rest count
  | int14Deinit i => exact deinit_registers
  | initDisc i => simp [exec, initDisc]
  | initFinish i => exact initListen_registers.trans (initReset_registers_of_ne (hNe i h))
  | hunt _ | port _ => cases h
  | pollStart | keepalive _ | idle _ _ | pollDone | spin _ | spinLoop _ _ | spinCheck _ _
  | ret _ _ => rfl

end Blocks

section Accepting

variable {a : Answer} {s : Sys} {j : PortIdx}

/-- Accepting a call starts the times of its port anew and changes no other register. -/
theorem acceptCall_registers (i : PortIdx) (x : SockId) : (acceptCall i x s).1.registers j =
    if j = i then (s.registers j).renew else s.registers j := by
  by_cases hj : j = i <;> simp [Sys.registers, Registers.renew, hj, telnetReset]

/-- Taking a connection from `accept()` starts the times of a new call, or writes no
register. -/
theorem exec_accepts_registers {b : Block} (hb : b.accepts) (hModes : s.ModesAgree) :
    (exec b a s).1.registers j = s.registers j ∨
      (b.target s = some j ∧ ((exec b a s).1.ports j).sock.isSome ∧
        (exec b a s).1.registers j = (s.registers j).renew) := by
  cases b with
  | hunt g =>
      show (pollHunt g a s).1.registers j = _ ∨ _ ∧ ((pollHunt g a s).1.ports j).sock.isSome ∧
        (pollHunt g a s).1.registers j = _
      unfold pollHunt
      by_cases hOpen : (s.huntGroups g).active ∧ (s.huntGroups g).listenSock.isSome
      · rw [if_pos hOpen]
        cases s.net.accept a.accepted with
        | none => exact .inl rfl
        | some pair =>
            dsimp only
            cases hMember : freeMember (s.huntGroups g).portMask s with
            | none => exact .inl (rejectCall_registers _ _)
            | some i =>
                dsimp only
                rw [acceptCall_registers]
                by_cases hj : j = i
                · subst hj
                  rw [if_pos rfl]
                  exact .inr ⟨(if_pos hOpen).trans hMember, by simp [telnetReset], rfl⟩
                · exact .inl (if_neg hj)
      · rw [if_neg hOpen]
        exact .inl rfl
  | port i =>
      show (pollPort i a s).1.registers j = _ ∨ _ ∧ ((pollPort i a s).1.ports j).sock.isSome ∧
        (pollPort i a s).1.registers j = _
      unfold pollPort
      by_cases hInit : (s.ports i).initialized
      · rw [if_pos hInit]
        cases hMode : (s.ports i).mode with
        | disc => exact .inl rfl
        | listen =>
            dsimp only
            by_cases hHunt : (s.ports i).huntGroupIdx.isSome
            · rw [if_pos hHunt]
              exact .inl rfl
            · rw [if_neg hHunt]
              cases s.net.accept a.accepted with
              | none => exact .inl rfl
              | some pair =>
                  dsimp only
                  rw [acceptCall_registers]
                  by_cases hj : j = i
                  · subst hj
                    have hTarget : Block.target (.port j) s = some j :=
                      if_pos ⟨hInit, hMode, by simpa using hHunt⟩
                    rw [if_pos rfl]
                    exact .inr ⟨hTarget, by simp [telnetReset], by simp⟩
                  · rw [if_neg hj]
                    exact .inl (by simp)
        | conn =>
            dsimp only
            rw [if_neg (Option.isSome_iff_ne_none.mp ((hModes i).mp hMode))]
            refine .inl ?_
            dsimp only
            unfold rejectBusy
            split_ifs
            · cases s.net.accept a.accepted with
              | none => rfl
              | some pair => exact rejectCall_registers _ _
            · rfl
      · rw [if_neg hInit]
        exact .inl rfl
  | _ => cases hb

end Accepting

end Vmodem
