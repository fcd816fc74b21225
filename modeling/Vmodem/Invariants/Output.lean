import Vmodem.Invariants.Rings

/-! The transmit path of a port as one queue: the unsent bytes in the shared
buffer, then the transmit ring. A flush moves a prefix of it to the socket. -/

namespace Vmodem

/-- What is still to be sent for a port, as it will go on the wire. -/
def Sys.output (s : Sys) (i : PortIdx) : List WireByte :=
  s.unsent i ++ (s.fossils i).tx.contents.flatMap escape

/-- The port may send: its call is answered and its socket is open. -/
def maySend (i : PortIdx) (a : Answer) (s : Sys) : Bool :=
  !(s.ats i).ringing && !(s.ats i).connectPending && (s.ports i).sock.isSome && !a.closed

/-- A flush of the port is about to put its own bytes into the shared buffer
while another port's are still there. -/
def displaces (i j : PortIdx) (a : Answer) (s : Sys) : Bool :=
  maySend i a s && decide (0 < (s.fossils i).tx.count) && decide (j ≠ i) && !(s.unsent j).isEmpty

/-- What a port has in the shared buffer is read off the buffer alone. -/
theorem Sys.unsent_congr {s t : Sys} (h : t.pend = s.pend) (i : PortIdx) :
    t.unsent i = s.unsent i := by
  simp [Sys.unsent, Sys.leftover, h]

/-- The output of a port is read off the shared buffer and its transmit ring. -/
theorem Sys.output_congr {s t : Sys} {i : PortIdx} (hPend : t.pend = s.pend)
    (hTx : (t.fossils i).tx = (s.fossils i).tx) : t.output i = s.output i := by
  simp [Sys.output, Sys.unsent_congr hPend, hTx]

section Flush

variable {i : PortIdx} {x : SockId} {a : Answer} {s : Sys}

/-- The driver's test for pending bytes asks whether the port has any in the shared
buffer. -/
theorem hasPending_iff : hasPending i s ↔ s.unsent i ≠ [] := by
  by_cases hOwner : s.pend.port = some i
  · simp [hasPending, Sys.unsent, Sys.leftover, hOwner]
  · simp [hasPending, Sys.unsent, hOwner]

theorem hasPending_eq_false : hasPending i s = false ↔ s.unsent i = [] := by
  rw [← Bool.not_eq_true, hasPending_iff, not_not]

/-- A port with bytes in the shared buffer owns the buffer, and they are all that is in
it. -/
theorem leftover_of_unsent (h : s.unsent i ≠ []) :
    s.pend.port = some i ∧ s.leftover = s.unsent i := by
  by_cases hOwner : s.pend.port = some i
  · simp [Sys.unsent, hOwner]
  · simp [Sys.unsent, hOwner] at h

theorem escape_ne_nil (b : TxByte) : escape b ≠ [] := by
  unfold escape
  split_ifs <;> simp

/-- Escaping loses no byte: only an empty list is escaped to nothing. -/
theorem flatMap_escape_eq_nil {bs : List TxByte} : bs.flatMap escape = [] ↔ bs = [] := by
  cases bs <;> simp [escape_ne_nil]

/-- Taking as many cells as there are empties the ring. -/
theorem getMany_all_contents {r : TxRing} (h : r.WellFormed) :
    (r.getMany r.count).1 = r.contents ∧ (r.getMany r.count).2.contents = [] := by
  refine ⟨CircularBuffer.getMany_count_fst h, ?_⟩
  rw [← List.length_eq_zero_iff, CircularBuffer.contents_length]
  exact CircularBuffer.getMany_of_count_le (Nat.le_refl _)

/-- The first half of a flush moves bytes of the port from the shared buffer to
the socket. -/
theorem flushLeftover_spec (i : PortIdx) (x : SockId) (a : Answer) (s : Sys) : ∃ sent,
    sent ++ (flushLeftover i x a s).unsent i = s.unsent i ∧
    (∀ j, j ≠ i → (flushLeftover i x a s).unsent j = s.unsent j) ∧
    ∀ y, ((flushLeftover i x a s).net.sockets y).wire =
      (s.net.sockets y).wire ++ if y = x then sent else [] := by
  unfold flushLeftover
  by_cases hPending : hasPending i s
  · rw [if_pos hPending]
    obtain ⟨hOwner, hLeft⟩ := leftover_of_unsent (hasPending_iff.mp hPending)
    have hTaken : s.leftover.take (taken s.leftover a.sent) = s.leftover.take a.sent.toNat := by
      unfold taken
      rw [List.take_eq_take_iff]
      omega
    have hRest : ∀ n, s.pend.data.drop (s.pend.off + n) = s.leftover.drop n := fun n => by
      rw [Sys.leftover, List.drop_drop]
    refine ⟨s.leftover.take (taken s.leftover a.sent), ?_, fun j hj => ?_, fun y => ?_⟩
    · dsimp only
      rw [← hLeft]
      split_ifs with hMore
      · show s.leftover.take _ ++ (if s.pend.port = some i then
          s.pend.data.drop (s.pend.off + taken s.leftover a.sent) else []) = s.leftover
        rw [if_pos hOwner, hRest, List.take_append_drop]
      · have hAll : s.leftover.drop (taken s.leftover a.sent) = [] := by
          rw [← hRest]
          exact List.drop_eq_nil_of_le (Nat.le_of_not_lt hMore)
        simp only [Sys.unsent, Sys.setPend_pend, reduceCtorEq, ↓reduceIte]
        rw [List.append_nil, ← List.append_nil (s.leftover.take _), ← hAll,
          List.take_append_drop]
    · have hOther : ¬ i = j := fun h => hj h.symm
      dsimp only
      split_ifs <;> simp [Sys.unsent, hOwner, hOther]
    · dsimp only
      rw [hTaken]
      by_cases hy : y = x <;> split_ifs <;> simp [hy]
  · rw [if_neg hPending]
    exact ⟨[], rfl, fun _ _ => rfl, fun y => by simp⟩

/-- The second half of a flush sends the ring, and keeps what was not taken. -/
theorem flushRing_spec (h : (s.fossils i).tx.WellFormed) (hEmpty : s.unsent i = []) (x : SockId)
    (a : Answer) : ∃ sent, sent ++ (flushRing i x a s).output i = s.output i ∧
      (∀ j, j ≠ i → (s.fossils i).tx.count = 0 →
        (flushRing i x a s).unsent j = s.unsent j) ∧
      (∀ j, j ≠ i → 0 < (s.fossils i).tx.count → (flushRing i x a s).unsent j = []) ∧
      ∀ y, ((flushRing i x a s).net.sockets y).wire =
        (s.net.sockets y).wire ++ if y = x then sent else [] := by
  obtain ⟨hAll, hNone⟩ := getMany_all_contents h
  have hRing : ((flushRing i x a s).fossils i).tx.contents = [] := by
    rw [flushRing_tx, if_pos rfl]
    exact hNone
  unfold Sys.output
  rw [hRing, hEmpty]
  unfold flushRing
  dsimp only
  rw [hAll]
  simp only [List.flatMap_nil, List.append_nil, List.nil_append]
  generalize hOut : (s.fossils i).tx.contents.flatMap escape = out
  have hCount : (s.fossils i).tx.count = 0 ↔ out = [] := by
    rw [← hOut, flatMap_escape_eq_nil, ← List.length_eq_zero_iff, CircularBuffer.contents_length]
  by_cases hNil : out = []
  · rw [if_pos hNil]
    refine ⟨[], ?_, fun j _ _ => rfl, fun j _ hPos => ?_, fun y => by simp⟩
    · rw [hNil]
      exact hEmpty
    · have hZero := hCount.mpr hNil
      omega
  · rw [if_neg hNil]
    have hTaken : out.take (taken out a.sentBatch) = out.take a.sentBatch.toNat := by
      unfold taken
      rw [List.take_eq_take_iff]
      omega
    have hOthers : ∀ j, j ≠ i → ¬ i = j := fun j hj h => hj h.symm
    refine ⟨out.take (taken out a.sentBatch), ?_, fun j hj hZero => ?_, fun j hj _ => ?_,
      fun y => ?_⟩
    · split_ifs with hMore
      · simp [Sys.unsent, Sys.leftover]
      · have hLen : taken out a.sentBatch = out.length := by
          have hLe : taken out a.sentBatch ≤ out.length := Nat.min_le_right _ _
          omega
        simp [Sys.unsent, hLen]
    · exact absurd (hCount.mp hZero) hNil
    · split_ifs <;> simp [Sys.unsent, hOthers j hj]
    · rw [hTaken]
      by_cases hy : y = x <;> split_ifs <;> simp [hy]

/-- A flush takes bytes out of its own port's ring only. -/
theorem fossilFlushTx_tx_other (i : PortIdx) (a : Answer) (s : Sys) {j : PortIdx} (hj : j ≠ i) :
    ((fossilFlushTx i a s).fossils j).tx = (s.fossils j).tx := by
  rcases fossilFlushTx_cases i a s with hNone | ⟨x, _, _, _, ⟨_, hOnly⟩ | ⟨_, hBoth⟩⟩
  · rw [hNone]
  · rw [hOnly]
    simp
  · rw [hBoth, flushRing_tx, if_neg hj]
    simp

/-- A flush moves a prefix of the port's output to its socket. Other ports are
not concerned, unless their unsent bytes are in the way. -/
theorem fossilFlushTx_spec (h : s.RingsOk) (i : PortIdx) (a : Answer) : ∃ sent,
    sent ++ (fossilFlushTx i a s).output i = s.output i ∧
    (sent ≠ [] → maySend i a s) ∧
    (∀ j, j ≠ i → (fossilFlushTx i a s).output j = s.output j ∨
      (displaces i j a s ∧ (fossilFlushTx i a s).unsent j = [])) ∧
    ∀ y, ((fossilFlushTx i a s).net.sockets y).wire =
      (s.net.sockets y).wire ++ if (s.ports i).sock = some y then sent else [] := by
  rcases fossilFlushTx_cases i a s with hNone | ⟨x, hSock, hOpen, hCalling, hStops⟩
  · rw [hNone]
    exact ⟨[], rfl, fun hNe => absurd rfl hNe, fun _ _ => .inl rfl, fun y => by simp⟩
  have hMay : maySend i a s := by simp [maySend, hSock, hOpen, hCalling.1, hCalling.2]
  obtain ⟨left, hLeft, hOthers, hWire⟩ := flushLeftover_spec i x a s
  obtain ⟨_, _, hFossils, _⟩ := flushLeftover_frame i a s x
  have hOwn : ∀ y, (if (s.ports i).sock = some y then left else []) = if y =
    x then left else [] := by
    intro y
    by_cases hy : y = x
    · simp [hSock, hy]
    · have hNe : ¬ x = y := fun h => hy h.symm
      simp [hSock, hy, hNe]
  rcases hStops with ⟨_, hOnly⟩ | ⟨hGone, hBoth⟩
  · rw [hOnly]
    refine ⟨left, ?_, fun _ => hMay, fun j hj => .inl ?_, fun y => by rw [hWire, hOwn]⟩
    · unfold Sys.output
      rw [hFossils, ← List.append_assoc, hLeft]
    · unfold Sys.output
      rw [hFossils, hOthers j hj]
  · have hEmpty := hasPending_eq_false.mp hGone
    have hTx : ((flushLeftover i x a s).fossils i).tx.WellFormed := hFossils ▸ h.tx i
    obtain ⟨ring, hRing, hQuiet, hOver, hWire'⟩ := flushRing_spec hTx hEmpty x a
    rw [hBoth]
    refine ⟨left ++ ring, ?_, fun _ => hMay, fun j hj => ?_, fun y => ?_⟩
    · rw [List.append_assoc, hRing]
      unfold Sys.output
      rw [hFossils, ← List.append_assoc, hLeft]
    · have hTxj : ((flushRing i x a (flushLeftover i x a s)).fossils j).tx = (s.fossils j).tx := by
        rw [flushRing_tx, if_neg hj, hFossils]
      by_cases hCount : (s.fossils i).tx.count = 0
      · refine .inl ?_
        unfold Sys.output
        rw [hQuiet j hj (by rw [hFossils]; exact hCount), hOthers j hj, hTxj]
      · have hNow := hOver j hj (by rw [hFossils]; omega)
        by_cases hUnsent : s.unsent j = []
        · refine .inl ?_
          unfold Sys.output
          rw [hNow, hUnsent, hTxj]
        · refine .inr ⟨?_, hNow⟩
          have hPos : 0 < (s.fossils i).tx.count := by omega
          simp [displaces, hMay, hPos, hj, hUnsent]
    · rw [hWire', hWire, ← hOwn]
      split_ifs with hBoth' hEq hEq
      · simp
      · simp_all
      · simp_all
      · simp

end Flush

end Vmodem
