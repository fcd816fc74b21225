import Vmodem.Invariants.Network

/-! The transmit path sees five kinds of effect: a byte is stored, the output is
purged, it is flushed, a new call empties it, or it is not concerned. -/

namespace Vmodem

/-- Events that do not concern the output of a port. -/
def Event.OffLine : Event → Prop
  | .attached _ _ | .stored _ _ | .purged _ => False
  | _ => True

/-- The transmit path is left alone; only control bytes are sent. -/
structure LineIdle (s t : Sys) : Prop where
  pend : t.pend = s.pend
  tx : ∀ j, (t.fossils j).tx = (s.fossils j).tx
  sock : ∀ j, (t.ports j).sock = (s.ports j).sock ∨ (t.ports j).sock = none
  trace : ∃ newer, t.trace = newer ++ s.trace ∧ ∀ e ∈ newer, e.OffLine

/-- The state after the transmit ring has taken a byte. -/
def Sys.stored (i : PortIdx) (x : SockId) (v : UInt8) (s : Sys) : Sys :=
  (s.modFossil i fun f => { f with tx := f.tx.put ⟨v, i, x⟩ }).log (.stored i ⟨v, i, x⟩)

/-- The state after the output of a port has been discarded on request. -/
def Sys.purged (i : PortIdx) (s : Sys) : Sys := (fossilClearTx i s).log (.purged i)

inductive Transmit (b : Block) (a : Answer) (s t : Sys) : Prop where
  | idle (h : LineIdle s t)
  | store (i : PortIdx) (x : SockId) (v : UInt8) (hSock : (s.ports i).sock = some x)
      (hRoom : (s.fossils i).tx.count < txRingSize)
      (h : t = s.stored i x v)
  | purge (i : PortIdx) (hb : b.purges = some i) (h : t = s.purged i)
  | flush (i : PortIdx) (hb : b = .flush i) (h : t = fossilFlushTx i a s)
  | attach (i : PortIdx) (x : SockId) (net : Mtcp) (hb : b.target s = some i)
      (hSock : (s.ports i).sock = none) (hAccept : s.net.accept a.accepted = some (x, net))
      (h : t = (acceptCall i x (s.setNet net)).1)

section Moves

variable {b : Block} {a : Answer} {s t : Sys}

/-- A byte the ring takes goes behind the output of its port, escaped. -/
theorem stored_output {i : PortIdx} (hTx : (s.fossils i).tx.WellFormed)
    (hRoom : (s.fossils i).tx.count < txRingSize) (x : SockId) (v : UInt8) (j : PortIdx) :
    (s.stored i x v).output j = if j = i then s.output j ++ escape ⟨v, i, x⟩ else s.output j := by
  by_cases hj : j = i
  · subst hj
    have hContents := CircularBuffer.contents_put hTx hRoom (b := ⟨v, j, x⟩)
    have hUnsent : (s.stored j x v).unsent j = s.unsent j := Sys.unsent_congr rfl j
    have hCell : ((s.stored j x v).fossils j).tx = (s.fossils j).tx.put ⟨v, j, x⟩ := by
      simp [Sys.stored]
    rw [if_pos rfl, Sys.output, hUnsent, hCell, hContents]
    simp [Sys.output]
  · rw [if_neg hj]
    exact Sys.output_congr rfl (by simp [Sys.stored, hj])

/-- A discard leaves its port nothing to send and the others everything. -/
theorem purged_output (i j : PortIdx) :
    (s.purged i).output j = if j = i then [] else s.output j := by
  have hUnsent : (s.purged i).unsent j = if j = i then [] else s.unsent j :=
    fossilClearTx_unsent i s j
  rw [Sys.output, hUnsent]
  by_cases hj : j = i <;> simp [hj, Sys.output, Sys.purged]

theorem acceptCall_output (i : PortIdx) (x : SockId) (net : Mtcp) (j : PortIdx) :
    (acceptCall i x (s.setNet net)).1.output j = if j = i then [] else s.output j := by
  unfold Sys.output
  rw [acceptCall_unsent]
  by_cases hj : j = i
  · simp [hj]
  · simp [hj, Sys.unsent, Sys.leftover]

/-- While the transmit path is idle the output of every port stays. -/
theorem LineIdle.output (h : LineIdle s t) (i : PortIdx) : t.output i = s.output i :=
  Sys.output_congr h.pend (h.tx i)

theorem LineIdle.unsent (h : LineIdle s t) (i : PortIdx) : t.unsent i = s.unsent i :=
  Sys.unsent_congr h.pend i

/-- When no output moves, only control bytes reach the sockets. -/
theorem Traffic.control {y : SockId} (h : Traffic b s t y)
    (hOutput : ∀ i, t.output i = s.output i) :
    ∃ out, (t.net.sockets y).wire = (s.net.sockets y).wire ++ out ∧ AllControl out := by
  obtain ⟨out, hWire, hSent⟩ := h.wire
  refine ⟨out, hWire, ?_⟩
  cases hSent with
  | nothing => simp [AllControl]
  | flush i out hb hSock hOut =>
      have hLength := congrArg List.length hOut
      rw [hOutput i, List.length_append] at hLength
      have hNil : out = [] := List.eq_nil_of_length_eq_zero (by omega)
      simp [hNil, AllControl]
  | write i out hb hSock hControl => exact hControl
  | reject out _ _ hControl => exact hControl
  | ext k out _ hControl => exact hControl

/-- While the transmit path is idle only control bytes go on the wire. -/
theorem LineIdle.wire (h : LineIdle s t) (hEffect : Effect b a s t) (hRegular : s.Regular)
    {y : SockId} (hy : y < s.net.next) :
    ∃ out, (t.net.sockets y).wire = (s.net.sockets y).wire ++ out ∧ AllControl out :=
  (hEffect.traffic hRegular.ledger hRegular.rings hy).control h.output

/-- Closing a socket does not concern the output of a port. -/
theorem sockCloseFast_offLine (x : SockId) : ∃ newer, (sockCloseFast x s).trace = newer ++ s.trace ∧
    ∀ e ∈ newer, e.OffLine := by
  obtain ⟨newer, hTrace, hNew⟩ := sockCloseFast_trace (s := s) x
  refine ⟨newer, hTrace, fun e he => ?_⟩
  rcases hNew e he with rfl | ⟨rfl, _⟩ <;> trivial

/-- What an effect does to the transmit path: it takes a byte, flushes, discards,
accepts a call, or leaves the path idle. -/
theorem Effect.transmit (h : Effect b a s t) : Transmit b a s t := by
  cases h with
  | quiet h =>
      obtain ⟨newer, hTrace, hMinor⟩ := h.trace
      refine .idle ⟨h.pend, h.tx, fun j => .inl (h.port j).sock, newer, hTrace, fun e he => ?_⟩
      have hEvent := hMinor e he
      cases e <;> trivial
  | store i x v hSock h => exact .store i x v hSock (storeTx_eq_some h).1 (storeTx_eq_some h).2
  | purge i hb => exact .purge i hb rfl
  | flush i hb => exact .flush i hb rfl
  | attach i x net hb hSock hAccept => exact .attach i x net hb hSock hAccept rfl
  | filter i x tmp drop hb hSock =>
      exact .idle ⟨by simp, by simp, fun j => .inl (pollRx_call i a s x tmp drop j).2.1, [],
        by simp, by simp⟩
  | receive i hb =>
      rcases pollRecv_cases i a s with hNone | ⟨x, _, _, _, hSome⟩
      · rw [hNone]
        exact .idle ⟨rfl, fun _ => rfl, fun _ => .inl rfl, [], rfl, by simp⟩
      · rw [hSome]
        split_ifs
        · exact .idle ⟨rfl, fun _ => rfl, fun j => .inl (by by_cases hj : j = i <;> simp [hj]),
            [], rfl, by simp⟩
        · exact .idle ⟨rfl, fun _ => rfl, fun j => .inl (by by_cases hj : j = i <;> simp [hj]),
            [.received i x _], rfl, by simp [Event.OffLine]⟩
  | read i n =>
      refine .idle ⟨by simp, by simp, fun j => .inl (by by_cases hj : j = i <;> simp [hj]), _,
        readRx_trace i s n, fun e he => ?_⟩
      obtain ⟨v, _, rfl⟩ := List.mem_map.mp he
      trivial
  | close i why hb =>
      refine .idle ⟨by simp, by simp, fun j => by by_cases hj : j = i <;> simp [hj], ?_⟩
      unfold closeSock
      cases (s.ports i).sock with
      | none => exact ⟨[], rfl, by simp⟩
      | some x =>
          obtain ⟨newer, hTrace, hNew⟩ := sockCloseFast_offLine (s := s) x
          exact ⟨.closed i x why :: newer, by simp [hTrace],
            List.forall_mem_cons.mpr ⟨trivial, hNew⟩⟩
  | reject x net msg hb hAccept =>
      obtain ⟨newer, hTrace, hNew⟩ := sockCloseFast_offLine
        (s := ((s.setNet net).setNet (net.send x (msg.map fun b => ⟨b, .control⟩) a.sent)).log
          (.rejected x (freePorts (net.sockets x).srcPort (s.setNet net)))) x
      refine .idle ⟨by simp, by simp, fun j => .inl (by simp),
        newer ++ [.rejected x (freePorts (net.sockets x).srcPort (s.setNet net))],
        by simpa [rejectCall] using hTrace, fun e he => ?_⟩
      rcases List.mem_append.mp he with hOld | hReject
      · exact hNew e hOld
      · obtain rfl := List.mem_singleton.mp hReject
        trivial
  | reconfigure i f hb hf =>
      refine .idle ⟨by simp, by simp, fun j => ?_, _, logDropped_trace i s, fun e he => ?_⟩
      · by_cases hj : j = i <;> simp [hj, (hf _).sock]
      · simp only [List.mem_append, List.mem_map] at he
        rcases he with ⟨x, _, rfl⟩ | ⟨x, _, rfl⟩ <;> trivial
  | waste x net hGet =>
      exact .idle ⟨rfl, fun _ => rfl, fun _ => .inl rfl, [.freed x], rfl, by simp [Event.OffLine]⟩
  | drain n =>
      refine .idle ⟨by simp, by simp, fun j => .inl (by simp), ?_⟩
      unfold closingDrain
      cases s.closing[n]? with
      | none => exact ⟨[], rfl, by simp⟩
      | some x =>
          dsimp only
          split_ifs
          · exact ⟨[.freed x, .closeDone x], rfl, by simp [Event.OffLine]⟩
          · exact ⟨[], rfl, by simp⟩
  | extClose k x hSock =>
      exact .idle ⟨by simp, by simp, fun j => .inl (by simp), sockCloseFast_offLine x⟩
  | clearRx i hb | clearRemote i hb | listenPort i tcpPort x net hb hFree hGet =>
      exact .idle ⟨by simp, by simp, fun j => .inl (by by_cases hj : j = i <;> simp [hj]), [],
        by simp, by simp⟩
  | _ => exact .idle ⟨by simp, by simp, fun j => .inl (by simp), [], by simp, by simp⟩

end Moves

end Vmodem
