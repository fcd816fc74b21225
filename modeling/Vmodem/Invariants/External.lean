import Vmodem.Invariants.Registers

/-! The sockets of the MUX_SOCK functions. They are written by these functions and by
the service step of the poll cycle, and by nothing else in the driver. -/

namespace Vmodem

/-- The blocks that may write external sockets. -/
def Block.external : Block → Bool
  | .mux (.sockAlloc) | .mux (.sockConnect _ _ _) | .mux (.sockStatus _) => true
  | .mux (.sockClose _) | .ext _ => true
  | _ => false

section Frames

variable {i : PortIdx} {a : Answer} {s : Sys}

/-- A byte for the transmit ring does not reach the external sockets. -/
theorem storeTx_extSockets {x : SockId} {v : UInt8} {t : Sys} (h : storeTx i x v s = some t) :
    t.extSockets = s.extSockets := by
  obtain ⟨_, rfl⟩ := storeTx_eq_some h
  rfl

theorem transmit_extSockets (v : UInt8) : (transmit i v s).1.extSockets = s.extSockets := by
  unfold transmit
  extract_lets r
  have hInput : r.1.extSockets = s.extSockets :=
    ((stampTx_quiet s i).trans (atInput_quiet i _ v)).extSockets
  cases r.2 with
  | consumed | hangup => exact hInput
  | pass =>
      dsimp only
      split_ifs
      · exact hInput
      · split
        next => exact hInput
        next =>
          split
          next t hStore => exact (storeTx_extSockets hStore).trans hInput
          next => exact hInput

theorem transmitNoWait_extSockets (v : UInt8) :
    (transmitNoWait i v s).1.extSockets = s.extSockets := by
  unfold transmitNoWait
  extract_lets r
  have hInput : r.1.extSockets = s.extSockets := (atInput_quiet i s v).extSockets
  cases r.2 with
  | consumed | hangup => exact hInput
  | pass =>
      dsimp only
      split
      next => exact hInput
      next =>
        split
        next t hStore => exact (storeTx_extSockets hStore).trans hInput
        next => exact hInput

theorem initStart_extSockets : (initStart i s).1.extSockets = s.extSockets := by
  have hCleared : (fossilClearTx i (clearRx i s)).extSockets = s.extSockets := by simp
  unfold initStart
  extract_lets cleared
  split_ifs <;> exact hCleared

theorem purgeOutput_extSockets : (purgeOutput i s).extSockets = s.extSockets := by
  have hCleared : (fossilClearTx i s).extSockets = s.extSockets := by simp
  unfold purgeOutput
  extract_lets cleared
  split_ifs
  · exact (logRequest_quiet i _).extSockets.trans hCleared
  · exact hCleared

theorem pollFrom14_extSockets (after : List Block) :
    (pollFrom14 after s).1.extSockets = s.extSockets := by
  unfold pollFrom14
  split_ifs <;> rfl

/-- No function of INT 14h writes an external socket. -/
theorem int14_extSockets (f : Fossil) : (int14 i f s).1.extSockets = s.extSockets := by
  unfold int14
  by_cases hInit : (s.ports i).initialized
  · rw [if_pos hInit]
    cases f with
    | transmit v => exact transmit_extSockets v
    | transmitNoWait v => exact transmitNoWait_extSockets v
    | receive | status => exact pollFrom14_extSockets _
    | init => exact initStart_extSockets
    | dtr al => exact (setDtr_quiet i s al).extSockets
    | purgeOutput => exact purgeOutput_extSockets
    | blockRead max =>
        dsimp only
        split_ifs <;> rfl
    | blockWrite data =>
        dsimp only
        unfold blockWrite
        split_ifs <;> rfl
    | _ => rfl
  · rw [if_neg hInit]

/-- Opening a listen socket takes one from mTCP and none from a program. -/
theorem openListen_extSockets (tcpPort : UInt16) :
    (openListen tcpPort a s).1.extSockets = s.extSockets := by
  rcases openListen_cases tcpPort a s with hNone | ⟨x, net, _, hOpen | hFail⟩
  · rw [hNone]
  · rw [hOpen]
    rfl
  · rw [hFail]
    rfl

theorem preallocate_extSockets (eager : Bool) :
    (preallocate i eager a s).extSockets = s.extSockets := by
  unfold preallocate
  split
  · have hOpen := openListen_extSockets (a := a) (s := s) (s.ports i).localPort
    rcases hRes : openListen (s.ports i).localPort a s with ⟨u, _ | x⟩
    all_goals
      rw [hRes] at hOpen
      exact hOpen
  · rfl

theorem preallocateHunt_extSockets (g : GroupIdx) (eager : Bool) :
    (preallocateHunt g eager a s).extSockets = s.extSockets := by
  unfold preallocateHunt
  split
  · have hOpen := openListen_extSockets (a := a) (s := s) (s.huntGroups g).tcpPort
    rcases hRes : openListen (s.huntGroups g).tcpPort a s with ⟨u, _ | x⟩
    · simpa [hRes] using hOpen
    · rw [hRes] at hOpen
      cases eager <;> exact hOpen
  · rfl

theorem initListen_extSockets : (initListen i a s).extSockets = s.extSockets := by
  unfold initListen
  split
  next g _ =>
    extract_lets opened
    have hOpened : opened.extSockets = s.extSockets := by
      unfold opened
      split_ifs
      · have hOpen := openListen_extSockets (a := a) (s := s) (s.huntGroups g).tcpPort
        split
        all_goals next hRes =>
          rw [hRes] at hOpen
          exact hOpen
      · rfl
    split_ifs <;> exact hOpened
  next =>
    split_ifs
    · have hOpen := openListen_extSockets (a := a) (s := s) (s.ports i).localPort
      split
      all_goals next hRes =>
        rw [hRes] at hOpen
        exact hOpen
    · rfl
    · rfl

/-- Setting up the ports of a hunt group leaves the external sockets alone. The
induction is on the list. -/
theorem joinAll_extSockets (g : GroupIdx) (tcpPort : UInt16) (members : List PortIdx) (s : Sys) :
    (members.foldl (fun s i => joinGroup g tcpPort i s) s).extSockets = s.extSockets := by
  induction members generalizing s with
  | nil => rfl
  | cons i members ih =>
      have hDropped : (logDropped i s).extSockets = s.extSockets := by simp
      exact (ih (joinGroup g tcpPort i s)).trans hDropped

/-- A multiplex function that is not one of the socket calls leaves the external sockets
alone. -/
theorem mux_extSockets {m : Mux} (h : (Block.mux m).external = false) :
    (mux m a s).1.extSockets = s.extSockets := by
  cases m with
  | listen i port =>
      have hDropped : (logDropped i (cmdDisconnect i s)).extSockets =
        (cmdDisconnect i s).extSockets := by
        simp
      exact hDropped.trans (cmdDisconnect_quiet i s).extSockets
  | disconnect i => exact (cmdDisconnect_quiet i s).extSockets
  | huntListen mask port =>
      show (cmdHuntListen mask port s).extSockets = s.extSockets
      unfold cmdHuntListen
      split
      next => rfl
      next g hFree => exact joinAll_extSockets g port _ _
  | poll =>
      unfold mux
      dsimp only
      split_ifs <;> rfl
  | sockSend k data =>
      show (sockSend k data a s).extSockets = _
      unfold sockSend
      split
      next => rfl
      next => split_ifs <;> rfl
  | sockRecv k size =>
      show (sockRecv k size a s).extSockets = _
      unfold sockRecv
      split
      next => rfl
      next => split_ifs <;> rfl
  | sockRecvReady k =>
      show (sockRecvReady k s).extSockets = _
      unfold sockRecvReady
      split <;> rfl
  | _ => cases h

/-- An accepted call belongs to a port, not to a handle. -/
theorem acceptCall_extSockets (x : SockId) (net : Mtcp) :
    (acceptCall i x (s.setNet net)).1.extSockets = s.extSockets :=
  (acceptCall_frame i x (s.setNet net)).2.2.1

theorem rejectCall_extSockets (x : SockId) (msg : List UInt8) (net : Mtcp) :
    (rejectCall x msg a (s.setNet net)).extSockets = s.extSockets := by
  have hReject : (rejectCall x msg a (s.setNet net)).extSockets = (s.setNet net).extSockets := by
    simp
  exact hReject

/-- The poll of a hunt group does not write an external socket. -/
theorem pollHunt_extSockets (g : GroupIdx) : (pollHunt g a s).1.extSockets = s.extSockets := by
  unfold pollHunt
  split_ifs
  · split
    next => rfl
    next =>
      split
      next => exact acceptCall_extSockets _ _
      next => exact rejectCall_extSockets _ _ _
  · rfl

/-- The poll of a port does not write an external socket. -/
theorem pollPort_extSockets : (pollPort i a s).1.extSockets = s.extSockets := by
  unfold pollPort
  split
  next =>
    split
    next => rfl
    next =>
      split_ifs
      · rfl
      · split
        next => rfl
        next x net _ =>
          refine (acceptCall_frame i x _).2.2.1.trans ?_
          exact (closeSock_frame i (s.setNet net) .replaced).2.2.2.2
    next =>
      split_ifs
      · rfl
      · dsimp only
        unfold rejectBusy
        split_ifs
        · split
          next => rfl
          next => exact rejectCall_extSockets _ _ _
        · rfl
  next => rfl

/-- Receiving for a port does not write an external socket. -/
theorem pollRecv_extSockets : (pollRecv i a s).1.extSockets = s.extSockets := by
  rcases pollRecv_cases i a s with hNone | ⟨x, _, _, _, hSome⟩
  · rw [hNone]
  · rw [hSome]
    split_ifs <;> rfl

/-- Hanging up ends in the text for the application and the mode of an idle port. -/
theorem hungUp_extSockets {t : Sys} (hClosed : t.extSockets = s.extSockets) :
    (enterIdleMode i (atSendNoCarrier i t)).extSockets = s.extSockets :=
  (atSendNoCarrier_quiet i t).extSockets.trans hClosed

theorem closeSock_extSockets (why : CloseReason) :
    (closeSock i why s).extSockets = s.extSockets := (closeSock_frame i s why).2.2.2.2

theorem retryChar_extSockets (v : UInt8) : (retryChar i v s).extSockets = s.extSockets := by
  unfold retryChar
  cases (s.ports i).sock with
  | none => rfl
  | some x =>
      dsimp only
      cases hStore : storeTx i x v s with
      | none => rfl
      | some t => exact storeTx_extSockets hStore

theorem writeNext_extSockets (data : List UInt8) (count : UInt16) :
    (writeNext i data count s).1.extSockets = s.extSockets := by
  unfold writeNext
  split
  next => rfl
  next => rfl
  next b rest x _ =>
    cases hStore : storeTx i x b s with
    | none => rfl
    | some t => exact storeTx_extSockets hStore

theorem retryWrite_extSockets (v : UInt8) (rest : List UInt8) (count : UInt16) :
    (retryWrite i v rest count s).1.extSockets = s.extSockets := by
  unfold retryWrite
  cases (s.ports i).sock with
  | none => rfl
  | some x =>
      dsimp only
      cases hStore : storeTx i x v s with
      | none => rfl
      | some t => exact storeTx_extSockets hStore

/-- Whatever else the driver does, external sockets stay as they are. -/
theorem exec_extSockets {b : Block} (h : b.external = false) :
    (exec b a s).1.extSockets = s.extSockets := by
  cases b with
  | int14 i f => exact int14_extSockets f
  | int28 =>
      show (if s.busy then (s, []) else _).1.extSockets = _
      split_ifs <;> rfl
  | mux m => exact mux_extSockets h
  | preallocate i eager => exact preallocate_extSockets eager
  | preallocateHunt g eager => exact preallocateHunt_extSockets g eager
  | raw i buf => exact (telnetSendRaw_frame i a s buf).2.2.2.2.2.1
  | flush i => exact (fossilFlushTx_frame i a s).2.2.2.1
  | ring i => exact (atResult_quiet i s "RING" "2").extSockets
  | checkRing i => exact (atCheckRing_quiet i s).extSockets
  | connectResult i => exact (atResult_quiet i s _ _).extSockets
  | ringTimeout i =>
      exact (atNoCarrier_quiet i (clearRx i (closeSock i .ringTimeout s))).extSockets.trans
        (closeSock_extSockets _)
  | hangup i => exact (atNoCarrier_quiet i _).extSockets.trans (requestClose_quiet i s).extSockets
  | closing n =>
      cases n with
      | zero => rfl
      | succ n => exact (closingDrain_frame s n a).2.2.2.2.2
  | hunt g => exact pollHunt_extSockets g
  | port i => exact pollPort_extSockets
  | answered i =>
      show (answered i s).1.extSockets = _
      unfold answered
      split_ifs <;> rfl
  | pollClose i silent =>
      have hClosed := closeSock_extSockets (i := i) (s := s) .pollClose
      cases silent with
      | true => exact hClosed
      | false =>
          exact hungUp_extSockets
            (t := clearRx i (clearRemote i (closeSock i .pollClose s))) hClosed
  | recv i => exact pollRecv_extSockets
  | rx i x tmp drop => exact (pollRx_frame i a s x tmp drop).2.2.2.2.1
  | idleClose i =>
      exact hungUp_extSockets (t := clearRx i (clearRemote i (closeSock i .idle s)))
        (closeSock_extSockets _)
  | disconnected i now =>
      show (pollDisconnected i now a s).extSockets = _
      unfold pollDisconnected
      split
      next => rfl
      next =>
        split_ifs
        · exact hungUp_extSockets (t := clearRx i (clearRemote i (closeSock i .remote s)))
            (closeSock_extSockets _)
        · rfl
  | status i => exact (fossilStatus_quiet i s).extSockets
  | purgeStatus i => exact (purgeStatus_quiet i s).extSockets
  | readChar i =>
      show (readChar i s).extSockets = _
      unfold readChar
      split
      · rfl
      · exact (readRx_frame i s 1).2.2.2.2.1
  | readBlock i max => exact (readRx_frame i s _).2.2.2.2.1
  | retryChar i v => exact retryChar_extSockets v
  | write i rest count => exact writeNext_extSockets rest count
  | retryWrite i v rest count => exact retryWrite_extSockets v rest count
  | int14Deinit i => exact (deinit_quiet i s).extSockets
  | initDisc i => exact closeSock_extSockets (i := i) .initDisc
  | initFinish i => exact initListen_extSockets.trans (initReset_quiet i s).extSockets
  | ext k => cases h
  | _ => rfl

end Frames

end Vmodem
