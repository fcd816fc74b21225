import Vmodem.Driver.Machine

/-! What most of the driver does not do. A quiet step may write text for the
application into a receive ring, move AT and FOSSIL bookkeeping, and ask for a
close; it leaves calls, sockets and output alone. The whole AT interpreter is
quiet, so no later proof looks inside a command line. -/

namespace Vmodem

/-- Cells the AT interpreter writes. -/
def modemText (text : List UInt8) : List RxByte := text.map fun b => ⟨b, none⟩

/-- What the parser has of a subnegotiation, with the terminal type it writes. -/
def PortState.gathered (p : PortState) : UInt8 × UInt8 × (Nat → UInt8) × (Nat → UInt8) :=
  (p.sbOpt, p.sbLen, p.sbBuf, p.ttype)

/-- The call of a port and the state of its telnet parser agree. -/
structure PortState.SameCall (p q : PortState) : Prop where
  mode : q.mode = p.mode
  sock : q.sock = p.sock
  listenSock : q.listenSock = p.listenSock
  remoteIP : q.remoteIP = p.remoteIP
  remotePort : q.remotePort = p.remotePort
  localPort : q.localPort = p.localPort
  initialized : q.initialized = p.initialized
  huntGroupIdx : q.huntGroupIdx = p.huntGroupIdx
  iacState : q.iacState = p.iacState
  gathered : q.gathered = p.gathered
  iacHasPending : q.iacHasPending = p.iacHasPending

theorem PortState.SameCall.refl (p : PortState) : p.SameCall p :=
  ⟨rfl, rfl, rfl, rfl, rfl, rfl, rfl, rfl, rfl, rfl, rfl⟩

/-- The call stays the same over two steps if it does over each. -/
theorem PortState.SameCall.trans {p q r : PortState} (left : p.SameCall q) (right : q.SameCall r) :
    p.SameCall r where
  mode := right.mode.trans left.mode
  sock := right.sock.trans left.sock
  listenSock := right.listenSock.trans left.listenSock
  remoteIP := right.remoteIP.trans left.remoteIP
  remotePort := right.remotePort.trans left.remotePort
  localPort := right.localPort.trans left.localPort
  initialized := right.initialized.trans left.initialized
  huntGroupIdx := right.huntGroupIdx.trans left.huntGroupIdx
  iacState := right.iacState.trans left.iacState
  gathered := right.gathered.trans left.gathered
  iacHasPending := right.iacHasPending.trans left.iacHasPending

/-- A teardown has been asked for during the port's present call, if it has
one. -/
def Sys.Requested (s : Sys) (i : PortIdx) : Prop :=
  ∀ x, (s.ports i).sock = some x → .request i x ∈ s.trace

/-- The AT layer is alerting the application to a call. -/
def AtState.Calling (m : AtState) : Prop := m.ringing ∨ m.connectPending

/-- Events of quiet steps. A status word only promises room that is there. -/
def Event.Minor (s : Sys) : Event → Prop
  | .request i x => (s.ports i).sock = some x
  | .status i word => word &&& threBit ≠ 0 → (s.fossils i).tx.count < txRingSize
  | .returned _ _ => True
  | _ => False

structure Quiet (s t : Sys) : Prop where
  port : ∀ j, (s.ports j).SameCall (t.ports j)
  rx : ∀ j, ∃ text, (t.ports j).rx = (s.ports j).rx.putAll (modemText text)
  pendingClose : ∀ j, (t.ports j).pendingClose = 0 ∨
    (t.ports j).pendingClose = (s.ports j).pendingClose ∨
      ((t.ports j).pendingClose = 1 ∧ t.Requested j)
  tx : ∀ j, (t.fossils j).tx = (s.fossils j).tx
  purgeSeen : ∀ j, (t.fossils j).purgeSeen ≠ 0 → (s.fossils j).purgeSeen ≠ 0 ∨ t.Requested j
  calling : ∀ j, (t.ats j).Calling → (s.ats j).Calling ∨ (s.ports j).mode = .conn
  pend : t.pend = s.pend
  huntGroups : t.huntGroups = s.huntGroups
  extSockets : t.extSockets = s.extSockets
  closing : t.closing = s.closing
  net : t.net = s.net
  trace : ∃ newer, t.trace = newer ++ s.trace ∧ ∀ e ∈ newer, e.Minor s

/-- Whether an event is minor depends on the connections and on the rooms of the rings.
-/
theorem Event.Minor.congr {s t : Sys} (hSock : ∀ j, (t.ports j).sock = (s.ports j).sock)
    (hTx : ∀ j, (t.fossils j).tx = (s.fossils j).tx) {e : Event} (h : e.Minor t) : e.Minor s := by
  cases e with
  | request i x => exact (hSock i).symm.trans h
  | status i word =>
      intro hThre
      rw [← hTx i]
      exact h hThre
  | returned i ax => trivial
  | _ => exact h.elim

namespace Quiet

variable {s t u : Sys}

theorem mem_trace (h : Quiet s t) {e : Event} (he : e ∈ s.trace) : e ∈ t.trace := by
  obtain ⟨newer, hTrace, _⟩ := h.trace
  rw [hTrace]
  exact List.mem_append_right _ he

/-- A teardown asked for stays asked for, as long as the call stays. -/
theorem requested (h : Quiet s t) {i : PortIdx} (hReq : s.Requested i) : t.Requested i := by
  intro x hSock
  exact h.mem_trace (hReq x ((h.port i).sock ▸ hSock))

theorem refl (s : Sys) : Quiet s s where
  port := fun _ => .refl _
  rx := fun _ => ⟨[], rfl⟩
  pendingClose := fun _ => .inr (.inl rfl)
  tx := fun _ => rfl
  purgeSeen := fun _ h => .inl h
  calling := fun _ h => .inl h
  pend := rfl
  huntGroups := rfl
  extSockets := rfl
  closing := rfl
  net := rfl
  trace := ⟨[], rfl, by simp⟩

/-- Two quiet steps are one. A byte of the modem written twice is text written twice. -/
theorem trans (left : Quiet s t) (right : Quiet t u) : Quiet s u where
  port j := (left.port j).trans (right.port j)
  rx j := by
    obtain ⟨first, hFirst⟩ := left.rx j
    obtain ⟨second, hSecond⟩ := right.rx j
    refine ⟨first ++ second, ?_⟩
    rw [hSecond, hFirst]
    simp [CircularBuffer.putAll, modemText]
  pendingClose j := by
    rcases right.pendingClose j with hZero | hSame | hSet
    · exact .inl hZero
    · rcases left.pendingClose j with hZero | hOld | ⟨hOne, hReq⟩
      · exact .inl (hSame.trans hZero)
      · exact .inr (.inl (hSame.trans hOld))
      · exact .inr (.inr ⟨hSame.trans hOne, right.requested hReq⟩)
    · exact .inr (.inr hSet)
  tx j := (right.tx j).trans (left.tx j)
  purgeSeen j h := by
    rcases right.purgeSeen j h with hOld | hReq
    · exact (left.purgeSeen j hOld).imp_right right.requested
    · exact .inr hReq
  calling j h := by
    rcases right.calling j h with hOld | hConn
    · exact left.calling j hOld
    · exact .inr ((left.port j).mode ▸ hConn)
  pend := right.pend.trans left.pend
  huntGroups := right.huntGroups.trans left.huntGroups
  extSockets := right.extSockets.trans left.extSockets
  closing := right.closing.trans left.closing
  net := right.net.trans left.net
  trace := by
    obtain ⟨first, hFirst, hMinor⟩ := left.trace
    obtain ⟨second, hSecond, hMinor'⟩ := right.trace
    refine ⟨second ++ first, by rw [hSecond, hFirst, List.append_assoc], fun e he => ?_⟩
    rcases List.mem_append.mp he with hNew | hOld
    · exact (hMinor' e hNew).congr (fun j => (left.port j).sock) left.tx
    · exact hMinor e hOld

/-- A write to an interpreter is quiet unless it alerts a port that has no call. -/
theorem modAt (s : Sys) (i : PortIdx) (f : AtState → AtState)
    (hCalling : (f (s.ats i)).Calling → (s.ats i).Calling ∨ (s.ports i).mode = .conn) :
    Quiet s (s.modAt i f) :=
  { refl s with
    calling := fun j h => by
      by_cases hj : j = i
      · subst hj
        exact hCalling (by simpa using h)
      · exact .inl (by simpa [hj] using h) }

/-- A write to a port is quiet if call, parser and output stay, the ring gets text at
most, and a teardown is only asked for. -/
theorem modPort (s : Sys) (i : PortIdx) (f : PortState → PortState)
    (hCall : (s.ports i).SameCall (f (s.ports i)))
    (hRx : ∃ text, (f (s.ports i)).rx = (s.ports i).rx.putAll (modemText text))
    (hClose : (f (s.ports i)).pendingClose = 0 ∨
      (f (s.ports i)).pendingClose = (s.ports i).pendingClose ∨
        ((f (s.ports i)).pendingClose = 1 ∧ s.Requested i)) : Quiet s (s.modPort i f) := by
  have hPort : ∀ j, (s.ports j).SameCall ((s.modPort i f).ports j) := by
    intro j
    by_cases hj : j = i
    · subst hj
      simpa using hCall
    · simpa [hj] using PortState.SameCall.refl _
  refine
    { refl s with
      port := hPort, rx := fun j => ?_, pendingClose := fun j => ?_
      purgeSeen := fun _ h => .inl h }
  · by_cases hj : j = i
    · subst hj
      simpa using hRx
    · exact ⟨[], by simp [hj, modemText, CircularBuffer.putAll]⟩
  · by_cases hj : j = i
    · subst hj
      rcases hClose with hZero | hSame | ⟨hOne, hReq⟩
      · exact .inl (by simpa using hZero)
      · exact .inr (.inl (by simpa using hSame))
      · exact .inr (.inr ⟨by simpa using hOne, fun x hSock => hReq x ((hPort j).sock ▸ hSock)⟩)
    · exact .inr (.inl (by simp [hj]))

/-- A write to the FOSSIL state is quiet if the transmit ring stays and a drop is armed
on request only. -/
theorem modFossil (s : Sys) (i : PortIdx) (f : FossilState → FossilState)
    (hTx : (f (s.fossils i)).tx = (s.fossils i).tx)
    (hPurge : (f (s.fossils i)).purgeSeen ≠ 0 → (s.fossils i).purgeSeen ≠ 0 ∨ s.Requested i) :
    Quiet s (s.modFossil i f) :=
  { refl s with
    tx := fun j => by
      by_cases hj : j = i
      · subst hj
        simpa using hTx
      · simp [hj]
    purgeSeen := fun j h => by
      by_cases hj : j = i
      · subst hj
        exact hPurge (by simpa using h)
      · exact .inl (by simpa [hj] using h) }

theorem log (s : Sys) (e : Event) (h : e.Minor s) : Quiet s (s.log e) :=
  { refl s with
    pendingClose := fun _ => .inr (.inl rfl)
    purgeSeen := fun _ h => .inl h
    trace := ⟨[e], rfl, by simpa using h⟩ }

/-- The guards of the poll are no part of a call. -/
theorem setGuards (s : Sys) (busy dosSafe int14Safe : Bool) :
    Quiet s (s.setGuards busy dosSafe int14Safe) :=
  { refl s with }

theorem setResult (s : Sys) (result : UInt16) : Quiet s (s.setResult result) :=
  { refl s with }

end Quiet

end Vmodem
