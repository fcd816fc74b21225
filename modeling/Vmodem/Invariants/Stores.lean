import Vmodem.Invariants.Acceptance
import Vmodem.Invariants.LineSteps

/-! Which steps take bytes of the application into a transmit ring: the three write
functions, one byte a step. -/

namespace Vmodem

def Event.storedFor (x : SockId) : Event → Option TxByte
  | .stored _ v => if v.conn = x then some v else none
  | _ => none

/-- The bytes taken for a connection, in order. -/
def storedFor (x : SockId) (trace : List Event) : List TxByte :=
  trace.reverse.filterMap (Event.storedFor x)

/-- The port whose transmit ring a block may fill. -/
def Block.fills : Block → Option PortIdx
  | .int14 i (.transmit _) | .int14 i (.transmitNoWait _) | .retryChar i _ | .write i _ _
  | .retryWrite i _ _ _ => some i
  | _ => none

/-- No byte is taken between two states. -/
def Unstored (s t : Sys) : Prop := ∀ x, storedFor x t.trace = storedFor x s.trace

namespace Unstored

variable {s t u : Sys}

theorem refl (s : Sys) : Unstored s s := fun _ => rfl

/-- Two steps that take no byte take none together. -/
theorem trans (left : Unstored s t) (right : Unstored t u) : Unstored s u :=
  fun x => (right x).trans (left x)

theorem of_trace (h : t.trace = s.trace) : Unstored s t := fun x => congrArg (storedFor x) h

/-- A step whose new events store nothing takes no byte. -/
theorem of_newer (newer : List Event) (hTrace : t.trace = newer ++ s.trace)
    (h : ∀ e ∈ newer, ∀ x, e.storedFor x = none) : Unstored s t := by
  intro x
  have hNone : newer.reverse.filterMap (Event.storedFor x) = [] :=
    List.filterMap_eq_nil_iff.mpr fun e he => h e (List.mem_reverse.mp he) x
  rw [hTrace]
  unfold storedFor
  rw [List.reverse_append, List.filterMap_append, hNone, List.append_nil]

theorem log (s : Sys) {e : Event} (h : ∀ x, e.storedFor x = none) : Unstored s (s.log e) :=
  of_newer [e] rfl (by simpa using h)

/-- A quiet step takes no byte: what is typed at the interpreter goes elsewhere. -/
theorem of_quiet (h : Quiet s t) : Unstored s t := by
  obtain ⟨newer, hTrace, hMinor⟩ := h.trace
  refine of_newer _ hTrace fun e he x => ?_
  have hEvent := hMinor e he
  cases e <;> first | rfl | exact hEvent.elim

end Unstored

section Parts

variable {i : PortIdx} {a : Answer} {s : Sys}

theorem sockCloseFast_unstored (x : SockId) : Unstored s (sockCloseFast x s) := by
  obtain ⟨newer, hTrace, hNew⟩ := sockCloseFast_trace (s := s) x
  refine .of_newer _ hTrace fun e he y => ?_
  rcases hNew e he with rfl | ⟨rfl, _⟩ <;> rfl

theorem closeSock_unstored (why : CloseReason) : Unstored s (closeSock i why s) := by
  unfold closeSock
  cases (s.ports i).sock with
  | none => exact .refl s
  | some x =>
      dsimp only
      exact ((sockCloseFast_unstored x).trans (.log _ fun _ => rfl)).trans (.of_trace rfl)

theorem hungUp_unstored {why : CloseReason} :
    Unstored s
      (enterIdleMode i (atSendNoCarrier i (clearRx i (clearRemote i (closeSock i why s))))) := by
  have hClosed : Unstored s (clearRx i (clearRemote i (closeSock i why s))) :=
    (closeSock_unstored why).trans (.of_trace rfl)
  exact (hClosed.trans (.of_quiet (atSendNoCarrier_quiet i _))).trans (.of_trace rfl)

theorem logDropped_unstored : Unstored s (logDropped i s) := by
  refine .of_newer _ (logDropped_trace i s) fun e he x => ?_
  simp only [List.mem_append, List.mem_map] at he
  rcases he with ⟨y, _, rfl⟩ | ⟨y, _, rfl⟩ <;> rfl

theorem readRx_unstored (n : Nat) : Unstored s (readRx i n s) := by
  refine .of_newer _ (readRx_trace i s n) fun e he x => ?_
  obtain ⟨v, _, rfl⟩ := List.mem_map.mp he
  rfl

theorem acceptCall_unstored (x : SockId) : Unstored s (acceptCall i x s).1 :=
  .of_newer [.attached i x] (by simp) (by simp [Event.storedFor])

theorem rejectCall_unstored (x : SockId) (msg : List UInt8) :
    Unstored s (rejectCall x msg a s) := by
  unfold rejectCall
  refine Unstored.trans ?_ (sockCloseFast_unstored x)
  exact (Unstored.of_trace rfl).trans (.log _ fun _ => rfl)

theorem openListen_unstored (tcpPort : UInt16) : Unstored s (openListen tcpPort a s).1 := by
  rcases openListen_cases tcpPort a s with hNone | ⟨x, net, _, hOpen | hFail⟩
  · rw [hNone]
    exact .refl s
  · rw [hOpen]
    exact .of_trace rfl
  · rw [hFail]
    exact (Unstored.of_trace rfl).trans (.log _ fun _ => rfl)

end Parts

section Blocks

variable {i : PortIdx} {a : Answer} {s : Sys}

/-- Of the INT 14h functions only those that fill a transmit ring take a byte. -/
theorem int14_unstored (f : Fossil) (h : (Block.int14 i f).fills = none) :
    Unstored s (int14 i f s).1 := by
  unfold int14
  by_cases hInit : (s.ports i).initialized
  · rw [if_pos hInit]
    cases f with
    | transmit v | transmitNoWait v => cases h
    | receive | status =>
        dsimp only
        unfold pollFrom14
        split_ifs
        · exact .refl s
        · exact .of_trace rfl
    | init =>
        dsimp only
        unfold initStart
        extract_lets cleared
        have hCleared : Unstored s cleared :=
          .of_newer [.purged i] (by simp [cleared]) (by simp [Event.storedFor])
        split_ifs
        · exact hCleared.trans (.of_trace rfl)
        · exact hCleared.trans (.of_trace rfl)
        · exact hCleared
    | dtr al => exact .of_quiet (setDtr_quiet i s al)
    | purgeOutput =>
        dsimp only
        unfold purgeOutput
        extract_lets cleared
        have hCleared : Unstored s cleared :=
          .of_newer [.purged i] (by simp [cleared]) (by simp [Event.storedFor])
        split_ifs
        · exact (hCleared.trans (.of_quiet (logRequest_quiet i cleared))).trans (.of_trace rfl)
        · exact hCleared
    | blockRead max =>
        dsimp only
        split_ifs
        · exact .refl s
        · exact .of_trace rfl
    | blockWrite data =>
        dsimp only
        unfold blockWrite
        split_ifs <;> exact .refl s
    | _ => exact .of_trace rfl
  · rw [if_neg hInit]
    exact .refl s

theorem joinAll_unstored (g : GroupIdx) (tcpPort : UInt16) (members : List PortIdx) :
    Unstored s (members.foldl (fun s i => joinGroup g tcpPort i s) s) := by
  induction members generalizing s with
  | nil => exact .refl s
  | cons i rest ih => exact (logDropped_unstored.trans (.of_trace rfl)).trans ih

/-- No multiplex function takes a byte for a port. One case for each function. -/
theorem mux_unstored (m : Mux) : Unstored s (mux m a s).1 := by
  cases m with
  | listen i port =>
      exact ((Unstored.of_quiet (cmdDisconnect_quiet i s)).trans logDropped_unstored).trans
        (.of_trace rfl)
  | disconnect i => exact .of_quiet (cmdDisconnect_quiet i s)
  | huntListen mask port =>
      show Unstored s (cmdHuntListen mask port s)
      unfold cmdHuntListen
      cases freeGroup s with
      | none => exact .refl s
      | some g => exact (Unstored.of_trace rfl).trans (joinAll_unstored g port _)
  | poll =>
      unfold mux
      dsimp only
      split_ifs
      · exact .refl s
      · exact .of_trace rfl
  | sockAlloc =>
      show Unstored s (sockAlloc a s)
      unfold sockAlloc
      split
      next => exact .of_trace rfl
      next =>
        split
        next => exact .of_trace rfl
        next =>
          split_ifs
          · exact .of_trace rfl
          · exact ((Unstored.of_trace rfl).trans (.log _ fun _ => rfl)).trans (.of_trace rfl)
  | sockConnect k ip port =>
      show Unstored s (sockConnect k ip port s)
      unfold sockConnect
      split_ifs <;> exact .of_trace rfl
  | sockStatus k =>
      show Unstored s (sockStatus k a s)
      unfold sockStatus
      split <;> exact .of_trace rfl
  | sockSend k data =>
      show Unstored s (sockSend k data a s)
      unfold sockSend
      split
      next => exact .of_trace rfl
      next => split_ifs <;> exact .of_trace rfl
  | sockRecv k size =>
      show Unstored s (sockRecv k size a s)
      unfold sockRecv
      split
      next => exact .of_trace rfl
      next => split_ifs <;> exact .of_trace rfl
  | sockClose k =>
      show Unstored s (sockClose k s)
      unfold sockClose
      split_ifs <;> exact .of_trace rfl
  | sockRecvReady k =>
      show Unstored s (sockRecvReady k s)
      unfold sockRecvReady
      split <;> exact .of_trace rfl

theorem pollExt_unstored (k : ExtIdx) : Unstored s (pollExt k a s) := by
  unfold pollExt
  cases (s.extSockets k).sock with
  | none => exact .refl s
  | some x =>
      dsimp -zeta only
      extract_lets connected
      have hConnected : Unstored s connected := by
        unfold connected extConnect
        split_ifs <;> exact .of_trace rfl
      split
      next => exact (hConnected.trans (sockCloseFast_unstored x)).trans (.of_trace rfl)
      next => split_ifs <;> exact hConnected.trans (.of_trace rfl)
      next => split_ifs <;> exact hConnected.trans (.of_trace rfl)
      next => exact hConnected

theorem preallocate_unstored (eager : Bool) : Unstored s (preallocate i eager a s) := by
  unfold preallocate
  split
  · have hOpen := openListen_unstored (a := a) (s := s) (s.ports i).localPort
    rcases hRes : openListen (s.ports i).localPort a s with ⟨u, _ | x⟩
    · simpa [hRes] using hOpen
    · rw [hRes] at hOpen
      exact hOpen.trans (.of_trace rfl)
  · exact .refl s

theorem preallocateHunt_unstored (g : GroupIdx) (eager : Bool) :
    Unstored s (preallocateHunt g eager a s) := by
  unfold preallocateHunt
  split
  · have hOpen := openListen_unstored (a := a) (s := s) (s.huntGroups g).tcpPort
    rcases hRes : openListen (s.huntGroups g).tcpPort a s with ⟨u, _ | x⟩
    · simpa [hRes] using hOpen
    · rw [hRes] at hOpen
      cases eager <;> exact hOpen.trans (.of_trace rfl)
  · exact .refl s

theorem initListen_unstored : Unstored s (initListen i a s) := by
  unfold initListen
  cases (s.ports i).huntGroupIdx with
  | some g =>
      dsimp -zeta only
      extract_lets opened
      have hOpened : Unstored s opened := by
        unfold opened
        split
        next =>
          have hOpen := openListen_unstored (a := a) (s := s) (s.huntGroups g).tcpPort
          rcases hRes : openListen (s.huntGroups g).tcpPort a s with ⟨u, _ | x⟩
          · simpa [hRes] using hOpen
          · rw [hRes] at hOpen
            exact hOpen.trans (.of_trace rfl)
        next => exact .refl s
      split_ifs
      · exact hOpened
      · exact hOpened.trans (.of_trace rfl)
  | none =>
      dsimp only
      split
      next =>
        split
        next =>
          have hOpen := openListen_unstored (a := a) (s := s) (s.ports i).localPort
          rcases hRes : openListen (s.ports i).localPort a s with ⟨u, _ | x⟩
          · simpa [hRes] using hOpen
          · rw [hRes] at hOpen
            exact hOpen.trans (.of_trace rfl)
        next => exact .of_trace rfl
      next => exact .refl s

theorem setNet_unstored (net : Mtcp) : Unstored s (s.setNet net) := .of_trace rfl

/-- The poll of a group takes no byte for a port. -/
theorem pollHunt_unstored (g : GroupIdx) : Unstored s (pollHunt g a s).1 := by
  unfold pollHunt
  split_ifs
  · split
    next => exact .refl s
    next x net _ =>
      split
      next => exact (setNet_unstored net).trans (acceptCall_unstored x)
      next => exact (setNet_unstored net).trans (rejectCall_unstored x huntBusyMsg)
  · exact .refl s

theorem rejectBusy_unstored : Unstored s (rejectBusy i a s) := by
  unfold rejectBusy
  split_ifs
  · split
    next => exact .refl s
    next x net _ => exact (setNet_unstored net).trans (rejectCall_unstored x lineBusyMsg)
  · exact .refl s

theorem pollPort_unstored : Unstored s (pollPort i a s).1 := by
  unfold pollPort
  split
  next =>
    split
    next => exact .refl s
    next =>
      split_ifs
      · exact .refl s
      · split
        next => exact .refl s
        next x net _ =>
          exact ((setNet_unstored net).trans (closeSock_unstored .replaced)).trans
            (acceptCall_unstored x)
    next =>
      split_ifs
      · exact .of_trace rfl
      · exact rejectBusy_unstored
  next => exact .refl s

theorem pollRecv_unstored : Unstored s (pollRecv i a s).1 := by
  rcases pollRecv_cases i a s with hNone | ⟨x, _, _, _, hSome⟩
  · rw [hNone]
    exact .refl s
  · rw [hSome]
    split_ifs
    · exact .of_trace rfl
    · exact (Unstored.of_trace rfl).trans (.log _ fun _ => rfl)

/-- Only the write functions take bytes. -/
theorem exec_unstored {b : Block} (h : b.fills = none) (a : Answer) (s : Sys) :
    Unstored s (exec b a s).1 := by
  cases b with
  | int14 i f => exact int14_unstored f h
  | int28 =>
      show Unstored s (if s.busy then (s, []) else _).1
      split_ifs <;> exact .of_trace rfl
  | mux m => exact mux_unstored m
  | preallocate i eager => exact preallocate_unstored eager
  | preallocateHunt g eager => exact preallocateHunt_unstored g eager
  | raw i buf => exact .of_trace (by simp [exec])
  | flush i => exact .of_trace (by simp [exec])
  | ring i => exact (Unstored.of_quiet (atResult_quiet i s "RING" "2")).trans (.of_trace rfl)
  | checkRing i => exact .of_quiet (atCheckRing_quiet i s)
  | connectResult i => exact .of_quiet (atResult_quiet i s _ _)
  | ringTimeout i =>
      have hClosed : Unstored s (clearRx i (closeSock i .ringTimeout s)) :=
        (closeSock_unstored _).trans (.of_trace rfl)
      exact (hClosed.trans (.of_quiet (atNoCarrier_quiet i _))).trans (.of_trace rfl)
  | hangup i => exact .of_quiet ((requestClose_quiet i s).trans (atNoCarrier_quiet i _))
  | closing n =>
      cases n with
      | zero => exact .refl s
      | succ n =>
          show Unstored s (closingDrain n a s)
          unfold closingDrain
          split
          next => exact .refl s
          next x _ =>
            split_ifs
            · exact .of_newer [.freed x, .closeDone x] rfl (by simp [Event.storedFor])
            · exact .refl s
  | hunt g => exact pollHunt_unstored g
  | port i => exact pollPort_unstored
  | answered i =>
      show Unstored s (answered i s).1
      unfold answered
      split_ifs <;> exact .of_trace rfl
  | pollClose i silent =>
      have hClosed : Unstored s (clearRx i (clearRemote i (closeSock i .pollClose s))) :=
        (closeSock_unstored _).trans (.of_trace rfl)
      cases silent with
      | false => exact hungUp_unstored
      | true => exact hClosed.trans (.of_trace rfl)
  | recv i => exact pollRecv_unstored
  | rx i x tmp drop => exact .of_trace (by simp [exec])
  | idleClose i => exact hungUp_unstored
  | disconnected i now =>
      show Unstored s (pollDisconnected i now a s)
      unfold pollDisconnected
      split
      next => exact .refl s
      next =>
        split_ifs
        · exact hungUp_unstored
        · exact .refl s
  | ext k => exact pollExt_unstored k
  | pollDone => exact .of_trace rfl
  | status i => exact .of_quiet (fossilStatus_quiet i s)
  | purgeStatus i => exact .of_quiet (purgeStatus_quiet i s)
  | readChar i =>
      show Unstored s (readChar i s)
      unfold readChar
      split
      · exact .log _ fun _ => rfl
      · exact (readRx_unstored 1).trans (.log _ fun _ => rfl)
  | readBlock i max => exact (readRx_unstored _).trans (.log _ fun _ => rfl)
  | retryChar | write | retryWrite => cases h
  | int14Deinit i => exact .of_quiet (deinit_quiet i s)
  | initDisc i => exact (closeSock_unstored .initDisc).trans (.of_trace rfl)
  | initFinish i =>
      exact ((Unstored.of_quiet (initReset_quiet i s)).trans initListen_unstored).trans
        (.log _ fun _ => rfl)
  | ret i ax => exact .log _ fun _ => rfl
  | pollStart | keepalive _ | idle _ _ | spin _ | spinLoop _ _ | spinCheck _ _ => exact .refl s

end Blocks

section Writers

variable {i : PortIdx} {a : Answer} {s t : Sys} {b : Block}

/-- A byte is taken for the connection of port `i`. -/
def StoredOne (i : PortIdx) (s t : Sys) : Prop :=
  ∃ y v, (s.ports i).sock = some y ∧
    ∀ x, storedFor x t.trace = storedFor x s.trace ++ if y = x then [⟨v, i, y⟩] else []

/-- A byte the ring takes is taken for the connection of its port, behind a step that
took none. -/
theorem storeTx_stored {u : Sys} {y : SockId} {v : UInt8} (hSock : (s.ports i).sock = some y)
    (hBefore : Unstored s u) (h : storeTx i y v u = some t) : StoredOne i s t := by
  obtain ⟨_, rfl⟩ := storeTx_eq_some h
  refine ⟨y, v, hSock, fun x => ?_⟩
  rw [← hBefore x]
  by_cases hyx : y = x <;> simp [storedFor, Event.storedFor, hyx]

/-- A byte is taken for its port or not at all. -/
theorem storeNext_stored {y : SockId} {v : UInt8} (hSock : (s.ports i).sock = some y) :
    Unstored s ((storeTx i y v s).getD s) ∨ StoredOne i s ((storeTx i y v s).getD s) := by
  cases hStore : storeTx i y v s with
  | none => exact .inl (.refl s)
  | some t => exact .inr (storeTx_stored hSock (.refl s) hStore)

/-- In data mode the call is answered. -/
theorem atInput_pass_ringing {v : UInt8} (h : (atInput i v s).2 = .pass) :
    (s.ats i).ringing = false := by
  by_cases hData : dataMode i s
  · simp only [dataMode, Bool.and_eq_true, Bool.not_eq_true'] at hData
    exact hData.1.2
  · unfold atInput at h
    rw [if_neg hData] at h
    unfold atEdit at h
    dsimp only at h
    split_ifs at h

/-- A byte that AH=01h gets past the interpreter is written on a port that is not
ringing. -/
theorem atInput_pass_stamped {v : UInt8}
    (h : (atInput i v (s.modPort i fun p => { p with lastTxTick := s.tick })).2 = .pass) :
    (s.ats i).ringing = false :=
  atInput_pass_ringing (s := s.modPort i fun p => { p with lastTxTick := s.tick }) h

/-- AH=01h takes its byte or none, and none while the port is ringing. -/
theorem transmit_stored (v : UInt8) : Unstored s (transmit i v s).1 ∨
    (StoredOne i s (transmit i v s).1 ∧ (s.ats i).ringing = false) := by
  unfold transmit
  extract_lets r
  have hQuiet : Quiet s r.1 := (stampTx_quiet s i).trans (atInput_quiet i _ v)
  have hInput : Unstored s r.1 := .of_quiet hQuiet
  have hAnswered : r.2 = .pass → (s.ats i).ringing = false := atInput_pass_stamped
  cases hTaken : r.2 with
  | consumed | hangup => exact .inl hInput
  | pass =>
      dsimp only
      split_ifs
      · exact .inl hInput
      · cases hCall : callSock i r.1 with
        | none => exact .inl hInput
        | some y =>
            dsimp only
            cases hStore : storeTx i y v r.1 with
            | none => exact .inl hInput
            | some t =>
                have hSock : (s.ports i).sock = some y :=
                  (hQuiet.port i).sock.symm.trans (callSock_eq_some hCall).2
                exact .inr ⟨storeTx_stored hSock hInput hStore, hAnswered hTaken⟩

/-- AH=0Bh takes its byte or none, and none while the port is ringing. -/
theorem transmitNoWait_stored (v : UInt8) : Unstored s (transmitNoWait i v s).1 ∨
    (StoredOne i s (transmitNoWait i v s).1 ∧ (s.ats i).ringing = false) := by
  unfold transmitNoWait
  extract_lets r
  have hQuiet : Quiet s r.1 := atInput_quiet i s v
  have hInput : Unstored s r.1 := .of_quiet hQuiet
  cases hTaken : r.2 with
  | consumed | hangup => exact .inl hInput
  | pass =>
      dsimp only
      cases hCall : callSock i r.1 with
      | none => exact .inl hInput
      | some y =>
          dsimp only
          cases hStore : storeTx i y v r.1 with
          | none => exact .inl hInput
          | some t =>
              have hSock : (s.ports i).sock = some y :=
                (hQuiet.port i).sock.symm.trans (callSock_eq_some hCall).2
              exact .inr ⟨storeTx_stored hSock hInput hStore, atInput_pass_ringing hTaken⟩

/-- A write function takes at most one byte in a step. AH=01h and AH=0Bh take none for
a ringing call. -/
theorem exec_stored (h : b.fills = some i) (a : Answer) (s : Sys) : Unstored s (exec b a s).1 ∨
    (StoredOne i s (exec b a s).1 ∧ ∀ f, b = .int14 i f → (s.ats i).ringing = false) := by
  cases b with
  | int14 j f =>
      cases f with
      | transmit v =>
          obtain rfl : j = i := Option.some.inj h
          show Unstored s (int14 j _ s).1 ∨ (StoredOne j s (int14 j _ s).1 ∧ _)
          unfold int14
          by_cases hInit : (s.ports j).initialized
          · rw [if_pos hInit]
            exact (transmit_stored v).imp_right fun hStored => ⟨hStored.1, fun _ _ => hStored.2⟩
          · rw [if_neg hInit]
            exact .inl (.refl s)
      | transmitNoWait v =>
          obtain rfl : j = i := Option.some.inj h
          show Unstored s (int14 j _ s).1 ∨ (StoredOne j s (int14 j _ s).1 ∧ _)
          unfold int14
          by_cases hInit : (s.ports j).initialized
          · rw [if_pos hInit]
            exact (transmitNoWait_stored v).imp_right fun hStored =>
              ⟨hStored.1, fun _ _ => hStored.2⟩
          · rw [if_neg hInit]
            exact .inl (.refl s)
      | _ => cases h
  | retryChar j v =>
      obtain rfl : j = i := Option.some.inj h
      show Unstored s (retryChar j v s) ∨ (StoredOne j s (retryChar j v s) ∧ _)
      unfold retryChar
      cases hSock : (s.ports j).sock with
      | none => exact .inl (.refl s)
      | some y => exact (storeNext_stored hSock).imp_right fun hStored => ⟨hStored, by simp⟩
  | write j data count =>
      obtain rfl : j = i := Option.some.inj h
      show Unstored s (writeNext j data count s).1 ∨
        (StoredOne j s (writeNext j data count s).1 ∧ _)
      unfold writeNext
      split
      next => exact .inl (.refl s)
      next => exact .inl (.refl s)
      next v rest y hSock =>
        cases hStore : storeTx j y v s with
        | none => exact .inl (.refl s)
        | some t => exact .inr ⟨storeTx_stored hSock (.refl s) hStore, by simp⟩
  | retryWrite j v rest count =>
      obtain rfl : j = i := Option.some.inj h
      show Unstored s (retryWrite j v rest count s).1 ∨
        (StoredOne j s (retryWrite j v rest count s).1 ∧ _)
      unfold retryWrite
      cases hSock : (s.ports j).sock with
      | none => exact .inl (.refl s)
      | some y =>
          dsimp only
          cases hStore : storeTx j y v s with
          | none => exact .inl (.refl s)
          | some t => exact .inr ⟨storeTx_stored hSock (.refl s) hStore, by simp⟩
  | _ => cases h

end Writers

end Vmodem
