import Vmodem.Invariants.Stack

/-! What each operation leaves alone, as rewrite rules, and what it does to the
rest. -/

namespace Vmodem

section Network

variable (net : Mtcp) (x y : SockId)

@[simp] theorem send_queue (out : List WireByte) (rc : Int) :
    (net.send x out rc).pending = net.pending ∧ (net.send x out rc).next = net.next := ⟨rfl, rfl⟩

/-- Sending appends what was taken to the wire of one socket. -/
@[simp] theorem send_sockets (out : List WireByte) (rc : Int) :
    (net.send x out rc).sockets y =
      if y = x then
        { net.sockets y with wire := (net.sockets y).wire ++ out.take rc.toNat }
      else net.sockets y := by
  by_cases hy : y = x
  · subst hy
    simp [Mtcp.send, Mtcp.setSocket]
  · simp [Mtcp.send, Mtcp.setSocket, hy]

@[simp] theorem recv_queue (size : Nat) (rc : Int) :
    (net.recv x size rc).2.pending = net.pending ∧ (net.recv x size rc).2.next = net.next :=
  ⟨rfl, rfl⟩

/-- Receiving takes bytes from the front of one inbox. -/
@[simp] theorem recv_sockets (size : Nat) (rc : Int) : (net.recv x size rc).2.sockets y =
    if y = x then
      { net.sockets y with inbox := (net.sockets y).inbox.drop (min size rc.toNat) }
    else net.sockets y := by
  by_cases hy : y = x
  · subst hy
    simp [Mtcp.recv, Mtcp.setSocket]
  · simp [Mtcp.recv, Mtcp.setSocket, hy]

@[simp] theorem listen_queue (port : UInt16) :
    (net.listen x port).pending = net.pending ∧ (net.listen x port).next = net.next := ⟨rfl, rfl⟩

@[simp] theorem listen_sockets (port : UInt16) : (net.listen x port).sockets y =
    if y = x then { net.sockets y with listenPort := some port } else net.sockets y := by
  by_cases hy : y = x
  · subst hy
    simp [Mtcp.listen, Mtcp.setSocket]
  · simp [Mtcp.listen, Mtcp.setSocket, hy]

@[simp] theorem connect_queue :
    (net.connect x).pending = net.pending ∧ (net.connect x).next = net.next := ⟨rfl, rfl⟩

@[simp] theorem connect_sockets : (net.connect x).sockets y =
    if y = x then { net.sockets y with connected := true } else net.sockets y := by
  by_cases hy : y = x
  · subst hy
    simp [Mtcp.connect, Mtcp.setSocket]
  · simp [Mtcp.connect, Mtcp.setSocket, hy]

@[simp] theorem free_queue :
    (net.free x).pending = net.pending ∧ (net.free x).next = net.next := ⟨rfl, rfl⟩

/-- A freed socket does not listen any more, and is otherwise left as it was. -/
@[simp] theorem free_sockets : (net.free x).sockets y =
    if y = x then { net.sockets y with listenPort := none } else net.sockets y := by
  by_cases hy : y = x
  · subst hy
    simp [Mtcp.free, Mtcp.setSocket]
  · simp [Mtcp.free, Mtcp.setSocket, hy]

@[simp] theorem deliver_queue (bs : List UInt8) :
    (net.deliver x bs).pending = net.pending ∧ (net.deliver x bs).next = net.next := ⟨rfl, rfl⟩

@[simp] theorem deliver_sockets (bs : List UInt8) : (net.deliver x bs).sockets y =
    if y = x then { net.sockets y with inbox := (net.sockets y).inbox ++ bs }
    else net.sockets y := by
  by_cases hy : y = x
  · subst hy
    simp [Mtcp.deliver, Mtcp.setSocket]
  · simp [Mtcp.deliver, Mtcp.setSocket, hy]

variable {net x}

/-- A new socket is the first one not used yet, and empty. -/
theorem getSocket_eq_some {net' : Mtcp} {obtained : Bool}
    (h : net.getSocket obtained = some (x, net')) : x = net.next ∧
      net'.pending = net.pending ∧ net'.next = net.next + 1 ∧
        ∀ y, net'.sockets y = if y = net.next then .zero else net.sockets y := by
  unfold Mtcp.getSocket at h
  split_ifs at h
  obtain ⟨rfl, rfl⟩ := Prod.mk.inj (Option.some.inj h)
  exact ⟨rfl, rfl, rfl, fun _ => rfl⟩

/-- An accepted connection was waiting. -/
theorem accept_eq_some {net' : Mtcp} {which : Option Nat}
    (h : net.accept which = some (x, net')) :
    ∃ k, net.pending[k]? = some x ∧ net' = { net with pending := net.pending.eraseIdx k } := by
  unfold Mtcp.accept at h
  cases which with
  | none => cases h
  | some k =>
      cases hk : net.pending[k]? with
      | none => simp [hk] at h
      | some y =>
          simp only [hk] at h
          obtain ⟨rfl, rfl⟩ := Prod.mk.inj (Option.some.inj h)
          exact ⟨k, hk, rfl⟩

theorem accept_mem {net' : Mtcp} {which : Option Nat}
    (h : net.accept which = some (x, net')) : x ∈ net.pending := by
  obtain ⟨k, hk, _⟩ := accept_eq_some h
  exact List.mem_of_getElem? hk

end Network

section Closing

variable (i : PortIdx) (x : SockId) (s : Sys)

/-- Freeing a socket touches the network and the record only. -/
@[simp] theorem freeSocket_frame : (freeSocket x s).ports = s.ports ∧
    (freeSocket x s).ats = s.ats ∧ (freeSocket x s).fossils = s.fossils ∧
    (freeSocket x s).pend = s.pend ∧ (freeSocket x s).huntGroups = s.huntGroups ∧
    (freeSocket x s).extSockets = s.extSockets ∧ (freeSocket x s).closing = s.closing :=
  ⟨rfl, rfl, rfl, rfl, rfl, rfl, rfl⟩

@[simp] theorem freeSocket_net : (freeSocket x s).net = s.net.free x := rfl

@[simp] theorem freeSocket_trace : (freeSocket x s).trace = .freed x :: s.trace := rfl

/-- Closing fast touches the network, the queue of closing sockets and the record. -/
@[simp] theorem sockCloseFast_frame : (sockCloseFast x s).ports = s.ports ∧
    (sockCloseFast x s).ats = s.ats ∧ (sockCloseFast x s).fossils = s.fossils ∧
    (sockCloseFast x s).pend = s.pend ∧ (sockCloseFast x s).huntGroups = s.huntGroups ∧
    (sockCloseFast x s).extSockets = s.extSockets := by
  unfold sockCloseFast
  split_ifs <;> exact ⟨rfl, rfl, rfl, rfl, rfl, rfl⟩

@[simp] theorem closeSock_frame (why : CloseReason) : (closeSock i why s).ats = s.ats ∧
    (closeSock i why s).fossils = s.fossils ∧ (closeSock i why s).pend = s.pend ∧
    (closeSock i why s).huntGroups = s.huntGroups ∧
    (closeSock i why s).extSockets = s.extSockets := by
  unfold closeSock
  cases (s.ports i).sock with
  | none => exact ⟨rfl, rfl, rfl, rfl, rfl⟩
  | some x =>
      obtain ⟨_, hAts, hFossils, hPend, hHunt, hExt⟩ := sockCloseFast_frame x s
      exact ⟨hAts, hFossils, hPend, hHunt, hExt⟩

/-- The port that hangs up loses its connection, the other ports nothing. -/
@[simp] theorem closeSock_ports (why : CloseReason) (j : PortIdx) : (closeSock i why s).ports j =
    if j = i then { s.ports j with sock := none } else s.ports j := by
  unfold closeSock
  cases hSock : (s.ports i).sock with
  | none =>
      by_cases hj : j = i
      · subst hj
        have hSame : { s.ports j with sock := none } = s.ports j := by
          cases hPort : s.ports j
          simp_all
        simp [hSame]
      · simp [hj]
  | some x => simp

@[simp] theorem clearRemote_frame : (clearRemote i s).ats = s.ats ∧
    (clearRemote i s).fossils = s.fossils ∧ (clearRemote i s).pend = s.pend ∧
    (clearRemote i s).huntGroups = s.huntGroups ∧ (clearRemote i s).extSockets = s.extSockets ∧
    (clearRemote i s).closing = s.closing ∧ (clearRemote i s).net = s.net ∧
    (clearRemote i s).trace = s.trace :=
  ⟨rfl, rfl, rfl, rfl, rfl, rfl, rfl, rfl⟩

@[simp] theorem clearRemote_ports (j : PortIdx) : (clearRemote i s).ports j =
    if j = i then { s.ports j with remoteIP := 0, remotePort := 0 } else s.ports j := rfl

@[simp] theorem clearRx_frame : (clearRx i s).ats = s.ats ∧ (clearRx i s).fossils = s.fossils ∧
    (clearRx i s).pend = s.pend ∧ (clearRx i s).huntGroups = s.huntGroups ∧
    (clearRx i s).extSockets = s.extSockets ∧ (clearRx i s).closing = s.closing ∧
    (clearRx i s).net = s.net ∧ (clearRx i s).trace = s.trace :=
  ⟨rfl, rfl, rfl, rfl, rfl, rfl, rfl, rfl⟩

@[simp] theorem clearRx_ports (j : PortIdx) : (clearRx i s).ports j =
    if j = i then { s.ports j with rx := (s.ports j).rx.reset } else s.ports j := rfl

/-- Turning a caller away touches the network and the record. -/
@[simp] theorem rejectCall_frame (msg : List UInt8) (a : Answer) :
    (rejectCall x msg a s).ports = s.ports ∧ (rejectCall x msg a s).ats = s.ats ∧
    (rejectCall x msg a s).fossils = s.fossils ∧ (rejectCall x msg a s).pend = s.pend ∧
    (rejectCall x msg a s).huntGroups = s.huntGroups ∧
    (rejectCall x msg a s).extSockets = s.extSockets :=
  sockCloseFast_frame x _

/-- The drain of the closing queue touches the network, the queue and the record. -/
@[simp] theorem closingDrain_frame (n : Nat) (a : Answer) :
    (closingDrain n a s).ports = s.ports ∧ (closingDrain n a s).ats = s.ats ∧
    (closingDrain n a s).fossils = s.fossils ∧ (closingDrain n a s).pend = s.pend ∧
    (closingDrain n a s).huntGroups = s.huntGroups ∧
    (closingDrain n a s).extSockets = s.extSockets := by
  unfold closingDrain
  cases s.closing[n]? with
  | none => exact ⟨rfl, rfl, rfl, rfl, rfl, rfl⟩
  | some x =>
      dsimp only
      split_ifs
      · simp [Sys.setClosing, Sys.log]
      · simp

/-- A lost socket is noted in the record, for the proofs only. -/
@[simp] theorem logDropped_frame : (logDropped i s).ports = s.ports ∧
    (logDropped i s).ats = s.ats ∧ (logDropped i s).fossils = s.fossils ∧
    (logDropped i s).pend = s.pend ∧ (logDropped i s).huntGroups = s.huntGroups ∧
    (logDropped i s).extSockets = s.extSockets ∧ (logDropped i s).closing = s.closing ∧
    (logDropped i s).net = s.net := by
  unfold logDropped
  cases (s.ports i).sock with
  | none => cases hListen : (s.ports i).listenSock <;> simp [hListen, Sys.log]
  | some x => cases hListen : (s.ports i).listenSock <;> simp [hListen, Sys.log]

/-- The events of dropping the sockets of a port. -/
theorem logDropped_trace : (logDropped i s).trace =
    ((s.ports i).listenSock.toList.map .dropped) ++ ((s.ports i).sock.toList.map .dropped) ++
      s.trace := by
  unfold logDropped
  cases (s.ports i).sock with
  | none => cases hListen : (s.ports i).listenSock <;> simp [hListen]
  | some x => cases hListen : (s.ports i).listenSock <;> simp [hListen]

end Closing

section Transmitting

variable (i : PortIdx) (a : Answer) (s : Sys)

/-- What a successful store does. -/
theorem storeTx_eq_some {i : PortIdx} {x : SockId} {v : UInt8} {s t : Sys}
    (h : storeTx i x v s = some t) : (s.fossils i).tx.count < txRingSize ∧
      t = (s.modFossil i fun f => { f with tx := f.tx.put ⟨v, i, x⟩ }).log
        (.stored i ⟨v, i, x⟩) := by
  unfold storeTx at h
  by_cases hFull : (s.fossils i).tx.count < txRingSize
  · rw [CircularBuffer.put_of_lt hFull] at h
    refine ⟨hFull, (Option.some.inj h).symm.trans ?_⟩
    unfold Sys.modFossil
    congr 2
    funext j
    by_cases hj : j = i
    · subst hj
      simp
    · simp [hj]
  · rw [(CircularBuffer.put?_eq_none_iff _ _).mpr (by omega)] at h
    cases h

/-- The transmit ring takes a byte as long as it is not full. -/
theorem storeTx_isSome {i : PortIdx} {s : Sys} (x : SockId) (v : UInt8)
    (h : (s.fossils i).tx.count < txRingSize) : (storeTx i x v s).isSome := by
  unfold storeTx
  rw [CircularBuffer.put_of_lt h]
  rfl

/-- Clearing the output of a port touches its transmit ring and the shared buffer. -/
@[simp] theorem fossilClearTx_frame : (fossilClearTx i s).ports = s.ports ∧
    (fossilClearTx i s).ats = s.ats ∧ (fossilClearTx i s).huntGroups = s.huntGroups ∧
    (fossilClearTx i s).extSockets = s.extSockets ∧ (fossilClearTx i s).closing = s.closing ∧
    (fossilClearTx i s).net = s.net ∧ (fossilClearTx i s).trace = s.trace := by
  unfold fossilClearTx
  dsimp only
  split_ifs <;> exact ⟨rfl, rfl, rfl, rfl, rfl, rfl, rfl⟩

@[simp] theorem fossilClearTx_fossils (j : PortIdx) : (fossilClearTx i s).fossils j =
    if j = i then { s.fossils j with tx := (s.fossils j).tx.reset } else s.fossils j := by
  unfold fossilClearTx
  dsimp only
  split_ifs <;> simp_all

/-- Afterwards that port has nothing of its own in the shared buffer; what another port
has there stays. -/
theorem fossilClearTx_unsent (j : PortIdx) :
    (fossilClearTx i s).unsent j = if j = i then [] else s.unsent j := by
  unfold fossilClearTx Sys.unsent Sys.leftover
  by_cases hOwner : s.pend.port = some i
  · by_cases hj : j = i
    · simp [hOwner, hj]
    · have hOther : ¬ i = j := fun h => hj h.symm
      simp [hOwner, hj, hOther]
  · by_cases hj : j = i
    · subst hj
      simp [hOwner]
    · simp [hOwner, hj]

/-- Sending the rest of the shared buffer touches that buffer and the network. -/
@[simp] theorem flushLeftover_frame (x : SockId) :
    (flushLeftover i x a s).ports = s.ports ∧ (flushLeftover i x a s).ats = s.ats ∧
    (flushLeftover i x a s).fossils = s.fossils ∧
    (flushLeftover i x a s).huntGroups = s.huntGroups ∧
    (flushLeftover i x a s).extSockets = s.extSockets ∧
    (flushLeftover i x a s).closing = s.closing ∧ (flushLeftover i x a s).trace = s.trace := by
  unfold flushLeftover
  dsimp only
  split_ifs <;> exact ⟨rfl, rfl, rfl, rfl, rfl, rfl, rfl⟩

/-- Sending from the ring touches the ring, the shared buffer and the network. -/
@[simp] theorem flushRing_frame (x : SockId) :
    (flushRing i x a s).ports = s.ports ∧ (flushRing i x a s).ats = s.ats ∧
    (flushRing i x a s).huntGroups = s.huntGroups ∧
    (flushRing i x a s).extSockets = s.extSockets ∧
    (flushRing i x a s).closing = s.closing ∧ (flushRing i x a s).trace = s.trace := by
  unfold flushRing
  dsimp only
  split_ifs <;> exact ⟨rfl, rfl, rfl, rfl, rfl, rfl⟩

/-- A flush does nothing, or stops at the leftover bytes, or goes on to the
ring once they are gone. -/
theorem fossilFlushTx_cases : fossilFlushTx i a s = s ∨
    ∃ x, (s.ports i).sock = some x ∧ a.closed = false ∧
      ((s.ats i).ringing = false ∧ (s.ats i).connectPending = false) ∧
      ((hasPending i (flushLeftover i x a s) ∧ fossilFlushTx i a s = flushLeftover i x a s) ∨
        (hasPending i (flushLeftover i x a s) = false ∧
          fossilFlushTx i a s = flushRing i x a (flushLeftover i x a s))) := by
  unfold fossilFlushTx
  by_cases hCalling : (s.ats i).ringing || (s.ats i).connectPending
  · exact .inl (if_pos hCalling)
  · rw [if_neg hCalling]
    cases hSock : (s.ports i).sock with
    | none => exact .inl rfl
    | some x =>
        dsimp only
        by_cases hClosed : a.closed
        · exact .inl (if_pos hClosed)
        · rw [if_neg hClosed]
          refine .inr ⟨x, rfl, by simpa using hClosed, by simpa using hCalling, ?_⟩
          by_cases hPending : hasPending i (flushLeftover i x a s)
          · exact .inl ⟨hPending, if_pos hPending⟩
          · exact .inr ⟨by simpa using hPending, if_neg hPending⟩

/-- A flush touches the transmit path and the network. -/
@[simp] theorem fossilFlushTx_frame :
    (fossilFlushTx i a s).ports = s.ports ∧ (fossilFlushTx i a s).ats = s.ats ∧
    (fossilFlushTx i a s).huntGroups = s.huntGroups ∧
    (fossilFlushTx i a s).extSockets = s.extSockets ∧
    (fossilFlushTx i a s).closing = s.closing ∧ (fossilFlushTx i a s).trace = s.trace := by
  rcases fossilFlushTx_cases i a s with hNone | ⟨x, _, _, _, ⟨_, hLeft⟩ | ⟨_, hRing⟩⟩
  · simp [hNone]
  · simp [hLeft]
  · simp [hRing]

theorem flushRing_purgeSeen (x : SockId) (j : PortIdx) :
    ((flushRing i x a s).fossils j).purgeSeen = (s.fossils j).purgeSeen := by
  unfold flushRing
  dsimp only
  by_cases hj : j = i <;> split_ifs <;> simp [hj]

/-- A flush does not count as a status poll. -/
theorem fossilFlushTx_purgeSeen (j : PortIdx) :
    ((fossilFlushTx i a s).fossils j).purgeSeen = (s.fossils j).purgeSeen := by
  rcases fossilFlushTx_cases i a s with hNone | ⟨x, _, _, _, ⟨_, hLeft⟩ | ⟨_, hRing⟩⟩
  · rw [hNone]
  · rw [hLeft, (flushLeftover_frame i a s x).2.2.1]
  · rw [hRing, flushRing_purgeSeen, (flushLeftover_frame i a s x).2.2.1]

/-- Control bytes go straight to the network, past ring and buffer. -/
@[simp] theorem telnetSendRaw_frame (buf : List UInt8) :
    (telnetSendRaw i buf a s).ports = s.ports ∧ (telnetSendRaw i buf a s).ats = s.ats ∧
    (telnetSendRaw i buf a s).fossils = s.fossils ∧ (telnetSendRaw i buf a s).pend = s.pend ∧
    (telnetSendRaw i buf a s).huntGroups = s.huntGroups ∧
    (telnetSendRaw i buf a s).extSockets = s.extSockets ∧
    (telnetSendRaw i buf a s).closing = s.closing ∧
    (telnetSendRaw i buf a s).trace = s.trace := by
  unfold telnetSendRaw
  cases (s.ports i).sock with
  | none => exact ⟨rfl, rfl, rfl, rfl, rfl, rfl, rfl, rfl⟩
  | some x =>
      dsimp only
      split_ifs <;> exact ⟨rfl, rfl, rfl, rfl, rfl, rfl, rfl, rfl⟩

end Transmitting

section Receiving

variable (i : PortIdx) (a : Answer) (s : Sys)

/-- What negotiating an option makes of a port: only flags of the negotiation change. -/
def PortState.Renegotiates (p : PortState) (r : PortState × Option (List UInt8)) : Prop :=
  ∃ binary echo sga naws ttype,
    r.1 = { p with negBinary := binary, negEcho := echo, negSga := sga, negNaws := naws,
                   negTtype := ttype }

/-- Handling an option changes flags of the negotiation only. -/
theorem telnetHandleOption_renegotiates (p : PortState) (cmd opt : UInt8) :
    p.Renegotiates (telnetHandleOption p cmd opt) := by
  unfold telnetHandleOption
  repeat' refine iteInduction (motive := p.Renegotiates) (fun _ => ?_) fun _ => ?_
  all_goals exact ⟨_, _, _, _, _, rfl⟩

/-- The telnet parser only touches its own fields. -/
theorem telnetFilter_frame (p : PortState) (v : UInt8) :
    (telnetFilter p v).port.mode = p.mode ∧ (telnetFilter p v).port.sock = p.sock ∧
    (telnetFilter p v).port.listenSock = p.listenSock ∧ (telnetFilter p v).port.rx = p.rx ∧
    (telnetFilter p v).port.remoteIP = p.remoteIP ∧
    (telnetFilter p v).port.remotePort = p.remotePort ∧
    (telnetFilter p v).port.localPort = p.localPort ∧
    (telnetFilter p v).port.initialized = p.initialized ∧
    (telnetFilter p v).port.huntGroupIdx = p.huntGroupIdx ∧
    (telnetFilter p v).port.iacHasPending = p.iacHasPending ∧
    (telnetFilter p v).port.pendingClose = p.pendingClose := by
  unfold telnetFilter
  cases p.iacState with
  | normal | sawFF =>
      dsimp only
      split_ifs <;> exact ⟨rfl, rfl, rfl, rfl, rfl, rfl, rfl, rfl, rfl, rfl, rfl⟩
  | sawCmd =>
      obtain ⟨_, _, _, _, _, hPort⟩ := telnetHandleOption_renegotiates p p.iacCmd v
      dsimp only
      rw [hPort]
      exact ⟨rfl, rfl, rfl, rfl, rfl, rfl, rfl, rfl, rfl, rfl, rfl⟩
  | inSB =>
      dsimp only
      unfold subnegotiationByte
      split_ifs <;> exact ⟨rfl, rfl, rfl, rfl, rfl, rfl, rfl, rfl, rfl, rfl, rfl⟩
  | sbIac =>
      dsimp only
      unfold subnegotiationDone
      split_ifs <;> exact ⟨rfl, rfl, rfl, rfl, rfl, rfl, rfl, rfl, rfl, rfl, rfl⟩

/-- Reading notes every cell it takes, the first one first. -/
theorem readRx_trace (n : Nat) : (readRx i n s).trace =
    ((s.ports i).rx.getMany n).1.reverse.map (.read i) ++ s.trace := by
  have hLog : ∀ (bs : List RxByte) (t : Sys), (bs.foldl (fun s b => s.log (.read i b)) t).trace =
      bs.reverse.map (.read i) ++ t.trace := by
    intro bs
    induction bs with
    | nil => simp
    | cons b bs ih => simp [ih]
  unfold readRx
  exact hLog _ _

theorem foldl_log_frame (bs : List RxByte) :
    (bs.foldl (fun s b => s.log (.read i b)) s).ports = s.ports ∧
    (bs.foldl (fun s b => s.log (.read i b)) s).ats = s.ats ∧
    (bs.foldl (fun s b => s.log (.read i b)) s).fossils = s.fossils ∧
    (bs.foldl (fun s b => s.log (.read i b)) s).pend = s.pend ∧
    (bs.foldl (fun s b => s.log (.read i b)) s).huntGroups = s.huntGroups ∧
    (bs.foldl (fun s b => s.log (.read i b)) s).extSockets = s.extSockets ∧
    (bs.foldl (fun s b => s.log (.read i b)) s).closing = s.closing ∧
    (bs.foldl (fun s b => s.log (.read i b)) s).net = s.net := by
  induction bs generalizing s with
  | nil => exact ⟨rfl, rfl, rfl, rfl, rfl, rfl, rfl, rfl⟩
  | cons b bs ih => exact ih (s.log (.read i b))

@[simp] theorem readRx_frame (n : Nat) : (readRx i n s).ats = s.ats ∧
    (readRx i n s).fossils = s.fossils ∧ (readRx i n s).pend = s.pend ∧
    (readRx i n s).huntGroups = s.huntGroups ∧ (readRx i n s).extSockets = s.extSockets ∧
    (readRx i n s).closing = s.closing ∧ (readRx i n s).net = s.net := by
  obtain ⟨_, hAts, hFossils, hPend, hHunt, hExt, hClosing, hNet⟩ :=
    foldl_log_frame i (s.modPort i fun p => { p with rx := ((s.ports i).rx.getMany n).2 })
      ((s.ports i).rx.getMany n).1
  exact ⟨hAts, hFossils, hPend, hHunt, hExt, hClosing, hNet⟩

/-- The reader's port has its ring shortened from the front. -/
@[simp] theorem readRx_ports (n : Nat) (j : PortIdx) : (readRx i n s).ports j =
    if j = i then { s.ports j with rx := ((s.ports j).rx.getMany n).2 } else s.ports j := by
  unfold readRx
  rw [(foldl_log_frame i _ _).1]
  by_cases hj : j = i
  · subst hj
    simp
  · simp [hj]

/-- One round of the receive loop does nothing, or takes bytes of the port's
connection. -/
theorem pollRecv_cases : (pollRecv i a s).1 = s ∨
    ∃ x, (s.ports i).sock = some x ∧ (s.ports i).rx.count ≤ ringSize - 256 ∧
      (pollRecv i a s).2 = [.rx i x (s.net.recv x 256 a.received).1
        ((s.ats i).ringing || (s.ats i).connectPending), .recv i] ∧
      (pollRecv i a s).1 =
        if (s.ats i).ringing || (s.ats i).connectPending then
          (s.setNet (s.net.recv x 256 a.received).2).modPort i fun p =>
            { p with lastRxTick := s.tick }
        else
          ((s.setNet (s.net.recv x 256 a.received).2).modPort i fun p =>
            { p with lastRxTick := s.tick }).log
              (.received i x (s.net.recv x 256 a.received).1) := by
  unfold pollRecv
  cases hSock : (s.ports i).sock with
  | none => exact .inl rfl
  | some x =>
      dsimp only
      by_cases hStop : s.net.recvDataWaiting x = false ∨ ringSize - 256 < (s.ports i).rx.count ∨
          a.received ≤ 0
      · rw [if_pos hStop]
        exact .inl rfl
      · rw [if_neg hStop]
        exact .inr ⟨x, rfl, by omega, rfl, rfl⟩

/-- The state after the parser has seen a byte and its reply was offered to
the socket. -/
def replied (i : PortIdx) (v : UInt8) (a : Answer) (s : Sys) : Sys :=
  match (telnetFilter (s.ports i) v).reply with
  | none => s.modPort i fun _ => (telnetFilter (s.ports i) v).port
  | some buf => telnetSendRaw i buf a (s.modPort i fun _ => (telnetFilter (s.ports i) v).port)

/-- One byte of a received chunk: the parser sees it, a reply may go out, and what is
data goes into the ring unless the chunk is dropped. -/
theorem pollRx_cons (x : SockId) (v : UInt8) (rest : List UInt8) (drop : Bool) :
    (pollRx i x (v :: rest) drop a s).1 =
      if drop then replied i v a s
      else
        let t := (replied i v a s).modPort i fun p =>
          { p with rx := p.rx.putAll ((telnetFilter (s.ports i) v).out.toList.map
              fun b => ⟨b, some x⟩) }
        if (t.ports i).iacHasPending then
          t.modPort i fun p =>
            { p with iacHasPending := false, rx := p.rx.put ⟨p.iacPending, some x⟩ }
        else t := by
  cases hReply : (telnetFilter (s.ports i) v).reply <;> simp [pollRx, replied, hReply]

/-- The parser and its reply touch one port and the network. -/
@[simp] theorem replied_frame (v : UInt8) : (replied i v a s).ats = s.ats ∧
    (replied i v a s).fossils = s.fossils ∧ (replied i v a s).pend = s.pend ∧
    (replied i v a s).huntGroups = s.huntGroups ∧
    (replied i v a s).extSockets = s.extSockets ∧
    (replied i v a s).closing = s.closing ∧ (replied i v a s).trace = s.trace := by
  unfold replied
  cases (telnetFilter (s.ports i) v).reply with
  | none => exact ⟨rfl, rfl, rfl, rfl, rfl, rfl, rfl⟩
  | some buf =>
      obtain ⟨_, hAts, hFossils, hPend, hHunt, hExt, hClosing, hTrace⟩ :=
        telnetSendRaw_frame i a (s.modPort i fun _ => (telnetFilter (s.ports i) v).port) buf
      exact ⟨hAts, hFossils, hPend, hHunt, hExt, hClosing, hTrace⟩

/-- The port is left as the parser leaves it. -/
@[simp] theorem replied_ports (v : UInt8) (j : PortIdx) : (replied i v a s).ports j =
    if j = i then (telnetFilter (s.ports j) v).port else s.ports j := by
  unfold replied
  by_cases hj : j = i
  · subst hj
    cases (telnetFilter (s.ports j) v).reply <;> simp
  · cases (telnetFilter (s.ports i) v).reply <;> simp [hj]

/-- A received chunk touches one port, the network and the record. -/
@[simp] theorem pollRx_frame (x : SockId) (tmp : List UInt8) (drop : Bool) :
    (pollRx i x tmp drop a s).1.ats = s.ats ∧ (pollRx i x tmp drop a s).1.fossils = s.fossils ∧
    (pollRx i x tmp drop a s).1.pend = s.pend ∧
    (pollRx i x tmp drop a s).1.huntGroups = s.huntGroups ∧
    (pollRx i x tmp drop a s).1.extSockets = s.extSockets ∧
    (pollRx i x tmp drop a s).1.closing = s.closing ∧
    (pollRx i x tmp drop a s).1.trace = s.trace := by
  cases tmp with
  | nil => exact ⟨rfl, rfl, rfl, rfl, rfl, rfl, rfl⟩
  | cons v rest =>
      rw [pollRx_cons]
      dsimp only
      split_ifs <;> exact replied_frame i a s v

/-- A byte of a chunk reaches the network only through the parser's reply. -/
theorem pollRx_net (x : SockId) (v : UInt8) (rest : List UInt8) (drop : Bool) :
    (pollRx i x (v :: rest) drop a s).1.net = (replied i v a s).net := by
  rw [pollRx_cons]
  dsimp only
  split_ifs <;> rfl

@[simp] theorem pollRx_other (x : SockId) (tmp : List UInt8) (drop : Bool) {j : PortIdx}
    (hj : j ≠ i) : (pollRx i x tmp drop a s).1.ports j = s.ports j := by
  cases tmp with
  | nil => rfl
  | cons v rest =>
      rw [pollRx_cons]
      dsimp only
      split_ifs <;> simp [hj]

/-- A received byte leaves the call of the port alone. -/
theorem pollRx_call (x : SockId) (tmp : List UInt8) (drop : Bool) (j : PortIdx) :
    ((pollRx i x tmp drop a s).1.ports j).mode = (s.ports j).mode ∧
    ((pollRx i x tmp drop a s).1.ports j).sock = (s.ports j).sock ∧
    ((pollRx i x tmp drop a s).1.ports j).listenSock = (s.ports j).listenSock ∧
    ((pollRx i x tmp drop a s).1.ports j).remoteIP = (s.ports j).remoteIP ∧
    ((pollRx i x tmp drop a s).1.ports j).remotePort = (s.ports j).remotePort ∧
    ((pollRx i x tmp drop a s).1.ports j).localPort = (s.ports j).localPort ∧
    ((pollRx i x tmp drop a s).1.ports j).pendingClose = (s.ports j).pendingClose := by
  by_cases hj : j = i
  · subst hj
    cases tmp with
    | nil => exact ⟨rfl, rfl, rfl, rfl, rfl, rfl, rfl⟩
    | cons v rest =>
        obtain ⟨hMode, hSock, hListen, _, hIP, hPort, hLocal, _, _, _, hClose⟩ :=
          telnetFilter_frame (s.ports j) v
        rw [pollRx_cons]
        dsimp only
        split_ifs <;> simp [hMode, hSock, hListen, hIP, hPort, hLocal, hClose]
  · simp [hj]

end Receiving

section Accepting

variable (i : PortIdx) (x : SockId) (s : Sys)

/-- Accepting a call touches the ports, the transmit ring of its port and the record. -/
@[simp] theorem acceptCall_frame : (acceptCall i x s).1.ats = s.ats ∧
    (acceptCall i x s).1.huntGroups = s.huntGroups ∧
    (acceptCall i x s).1.extSockets = s.extSockets ∧
    (acceptCall i x s).1.closing = s.closing ∧ (acceptCall i x s).1.net = s.net ∧
    (acceptCall i x s).1.trace = .attached i x :: s.trace := by
  obtain ⟨_, hAts, hHunt, hExt, hClosing, hNet, hTrace⟩ := fossilClearTx_frame i
    ((s.modPort i fun p =>
      { p with
        sock := some x
        mode := .conn
        remotePort := (s.net.sockets x).dstPort
        remoteIP := (s.net.sockets x).dstHost
        connTick := s.tick
        lastRxTick := s.tick
        lastTxTick := s.tick
        rx := p.rx.reset }).log (.attached i x))
  exact ⟨hAts, hHunt, hExt, hClosing, hNet, hTrace⟩

/-- The transmit ring of a port starts empty in a new call. -/
@[simp] theorem acceptCall_fossils (j : PortIdx) : (acceptCall i x s).1.fossils j =
    if j = i then { s.fossils j with tx := (s.fossils j).tx.reset } else s.fossils j := by
  unfold acceptCall
  simp

/-- The port of an accepted call: the connection is its own, the parser starts anew and
the times begin now. -/
@[simp] theorem acceptCall_ports (j : PortIdx) : (acceptCall i x s).1.ports j =
    if j = i then
      telnetReset
        { s.ports j with
          sock := some x
          mode := .conn
          remotePort := (s.net.sockets x).dstPort
          remoteIP := (s.net.sockets x).dstHost
          connTick := s.tick
          lastRxTick := s.tick
          lastTxTick := s.tick
          rx := (s.ports j).rx.reset }
    else s.ports j := by
  unfold acceptCall
  by_cases hj : j = i <;> simp [hj]

/-- No byte of an earlier call is left for the new one. -/
theorem acceptCall_unsent (j : PortIdx) :
    (acceptCall i x s).1.unsent j = if j = i then [] else s.unsent j :=
  fossilClearTx_unsent i _ j

end Accepting

end Vmodem
