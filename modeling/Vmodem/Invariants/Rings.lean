import Vmodem.Invariants.Runs

/-! The rings stay well formed, and the parser never leaves a byte pending. -/

namespace Vmodem

structure Sys.RingsOk (s : Sys) : Prop where
  rx : ∀ j, (s.ports j).rx.WellFormed
  tx : ∀ j, (s.fossils j).tx.WellFormed
  pending : ∀ j, (s.ports j).iacHasPending = false

/-- The invariant is about the rings and the parser's pending byte, and nothing else. -/
theorem Sys.RingsOk.congr {s t : Sys} (h : s.RingsOk)
    (hRx : ∀ j, (t.ports j).rx = (s.ports j).rx) (hTx : ∀ j, (t.fossils j).tx = (s.fossils j).tx)
    (hPending : ∀ j, (t.ports j).iacHasPending = (s.ports j).iacHasPending) : t.RingsOk :=
  ⟨fun j => hRx j ▸ h.rx j, fun j => hTx j ▸ h.tx j, fun j => hPending j ▸ h.pending j⟩

section Parts

variable {i : PortIdx} {a : Answer} {s : Sys}

/-- A flush empties the transmit ring of its port, whatever it could send. -/
theorem flushRing_tx (x : SockId) (j : PortIdx) : ((flushRing i x a s).fossils j).tx =
    if j = i then ((s.fossils j).tx.getMany (s.fossils j).tx.count).2 else (s.fossils j).tx := by
  unfold flushRing
  dsimp only
  by_cases hj : j = i
  · subst hj
    split_ifs <;> simp_all
  · split_ifs <;> simp_all

theorem fossilFlushTx_tx_wellFormed (h : s.RingsOk) (j : PortIdx) :
    ((fossilFlushTx i a s).fossils j).tx.WellFormed := by
  rcases fossilFlushTx_cases i a s with hNone | ⟨x, _, _, _, ⟨_, hLeft⟩ | ⟨_, hRing⟩⟩
  · rw [hNone]
    exact h.tx j
  · rw [hLeft]
    simpa using h.tx j
  · rw [hRing, flushRing_tx]
    split_ifs
    · simpa using (h.tx j).getMany _
    · simpa using h.tx j

/-- Without a pending byte a parsed byte adds at most one cell. -/
theorem pollRx_port (h : s.RingsOk) (x : SockId) (v : UInt8) (rest : List UInt8) (drop : Bool) :
    (pollRx i x (v :: rest) drop a s).1.ports i =
      if drop then (telnetFilter (s.ports i) v).port
      else
        { (telnetFilter (s.ports i) v).port with
          rx := (s.ports i).rx.putAll ((telnetFilter (s.ports i) v).out.toList.map
            fun b => ⟨b, some x⟩) } := by
  obtain ⟨_, _, _, hRx, _, _, _, _, _, hPending, _⟩ := telnetFilter_frame (s.ports i) v
  rw [pollRx_cons]
  cases drop with
  | true => simp
  | false =>
      have hNone : (telnetFilter (s.ports i) v).port.iacHasPending = false :=
        hPending.trans (h.pending i)
      simp [hNone, hRx]

end Parts

/-- The rings are well formed in every reachable state. -/
theorem Sys.RingsOk.stable : Stable Sys.RingsOk where
  start tick := by
    have hRx : (0 : Nat) < ringSize := by decide
    have hTx : (0 : Nat) < txRingSize := by decide
    exact ⟨fun _ => ⟨hRx, hRx, Nat.zero_le _, rfl⟩, fun _ => ⟨hTx, hTx, Nat.zero_le _, rfl⟩,
      fun _ => rfl⟩
  effect {b a s t} hEffect h := by
    have hRxSize : (0 : Nat) < ringSize := by decide
    have hTxSize : (0 : Nat) < txRingSize := by decide
    cases hEffect with
    | quiet hQuiet =>
        refine ⟨fun j => ?_, fun j => hQuiet.tx j ▸ h.tx j, fun j => ?_⟩
        · obtain ⟨text, hRx⟩ := hQuiet.rx j
          rw [hRx]
          exact (h.rx j).putAll _
        · exact (hQuiet.port j).iacHasPending.trans (h.pending j)
    | store i x v hSock hStore =>
        obtain ⟨_, rfl⟩ := storeTx_eq_some hStore
        refine ⟨fun j => by simpa using h.rx j, fun j => ?_, fun j => by simpa using h.pending j⟩
        by_cases hj : j = i
        · simpa [hj] using (h.tx i).put _
        · simpa [hj] using h.tx j
    | purge i hb =>
        refine ⟨fun j => by simpa using h.rx j, fun j => ?_, fun j => by simpa using h.pending j⟩
        by_cases hj : j = i
        · simpa [hj] using CircularBuffer.WellFormed.reset _ hTxSize
        · simpa [hj] using h.tx j
    | flush i hb =>
        exact ⟨fun j => by simpa using h.rx j, fossilFlushTx_tx_wellFormed h,
          fun j => by simpa using h.pending j⟩
    | filter i x tmp drop hb =>
        cases tmp with
        | nil => exact h
        | cons v rest =>
            obtain ⟨_, _, _, hRx, _, _, _, _, _, hPending, _⟩ := telnetFilter_frame (s.ports i) v
            refine ⟨fun j => ?_, fun j => by simpa using h.tx j, fun j => ?_⟩
            · by_cases hj : j = i
              · subst hj
                rw [pollRx_port h]
                cases drop with
                | true => simpa [hRx] using h.rx j
                | false => simpa using (h.rx j).putAll _
              · simpa [hj] using h.rx j
            · by_cases hj : j = i
              · subst hj
                rw [pollRx_port h]
                split_ifs <;> simpa [hPending] using h.pending j
              · simpa [hj] using h.pending j
    | receive i hb =>
        rcases pollRecv_cases i a s with hNone | ⟨x, _, _, _, hSome⟩
        · rwa [hNone]
        · rw [hSome]
          refine h.congr (fun j => ?_) (fun j => ?_) fun j => ?_ <;> by_cases hj : j = i <;>
            split_ifs <;> simp [hj]
    | read i n =>
        refine ⟨fun j => ?_, fun j => by simpa using h.tx j, fun j => ?_⟩ <;> by_cases hj : j = i
        · simpa [hj] using (h.rx i).getMany n
        · simpa [hj] using h.rx j
        · simpa [hj] using h.pending i
        · simpa [hj] using h.pending j
    | clearRx i hb =>
        refine ⟨fun j => ?_, fun j => by simpa using h.tx j, fun j => ?_⟩ <;> by_cases hj : j = i
        · simpa [hj] using CircularBuffer.WellFormed.reset _ hRxSize
        · simpa [hj] using h.rx j
        · simpa [hj] using h.pending i
        · simpa [hj] using h.pending j
    | attach i x net hb hSock hAccept =>
        refine ⟨fun j => ?_, fun j => ?_, fun j => ?_⟩ <;> by_cases hj : j = i
        · simpa [hj, telnetReset] using CircularBuffer.WellFormed.reset _ hRxSize
        · simpa [hj] using h.rx j
        · simpa [hj] using CircularBuffer.WellFormed.reset _ hTxSize
        · simpa [hj] using h.tx j
        · simp [hj, telnetReset]
        · simpa [hj] using h.pending j
    | reconfigure i f hb hf =>
        refine ⟨fun j => ?_, fun j => by simpa using h.tx j, fun j => ?_⟩ <;> by_cases hj : j = i
        · simpa [hj, (hf _).rx] using CircularBuffer.WellFormed.reset _ hRxSize
        · simpa [hj] using h.rx j
        · simpa [hj, (hf _).iacHasPending] using h.pending i
        · simpa [hj] using h.pending j
    | clearRemote i hb | close i why hb | listenPort i tcpPort x net hb =>
        refine h.congr (fun j => ?_) (fun j => ?_) fun j => ?_ <;> by_cases hj : j = i <;> simp [hj]
    | _ => exact h.congr (fun j => by simp) (fun j => by simp) fun j => by simp
  out {e s t} hOut h := by
    rcases outside_cases hOut with ⟨tick, rfl⟩ | ⟨port, host, remote, rfl⟩ | ⟨x, bs, _, rfl⟩ <;>
      exact h.congr (fun _ => rfl) (fun _ => rfl) fun _ => rfl

end Vmodem
