import Vmodem.Invariants.Ledger
import Vmodem.Library.History

/-! What each event in the history says about the state it was logged in. -/

namespace Vmodem

/-- The circumstances in which block `b` logs an event, on the way from state
`s` to state `t`. -/
def Event.From (b : Block) (s t : Sys) : Event → Prop
  | .attached i x =>
      b.target s = some i ∧ (s.ports i).sock = none ∧ x ∈ s.net.pending ∧ (t.ports i).sock = some x
  | .rejected x free =>
      b.refuses s ∧ x ∈ s.net.pending ∧ free = freePorts (s.net.sockets x).srcPort s
  | .delivered _ _ => False
  | .request i x => (s.ports i).sock = some x
  | .closed i x why => b.ends = some (i, why) ∧ (s.ports i).sock = some x
  | .dropped x => b.reconfigures ∧ ∃ i, (s.ports i).sock = some x ∨ (s.ports i).listenSock = some x
  | .closeDone x => x ∈ s.closing
  | .queueFull _ => maxClosingSockets ≤ s.closing.length
  | .freed _ => True
  | .stored i v => (s.ports i).sock = some v.conn ∧ v.port = i
  | .purged i => b.purges = some i
  | .received i x _ => b = .recv i ∧ (s.ports i).sock = some x
  | .read i v => v ∈ (s.ports i).rx.contents ∧ ∃ n, t = readRx i n s
  | .status i word => word &&& threBit ≠ 0 → (s.fossils i).tx.count < txRingSize
  | .returned _ _ => True

/-- A minor event needs no particular block to be logged. -/
theorem Event.Minor.from {b : Block} {s t : Sys} {e : Event} (h : e.Minor s) : e.From b s t := by
  cases e <;> first | exact h | exact h.elim

section Traces

variable {s : Sys} (i : PortIdx) (x : SockId)

/-- Closing fast puts the socket into the queue, or notes that the queue is full and
frees it. -/
theorem sockCloseFast_trace : ∃ newer, (sockCloseFast x s).trace = newer ++ s.trace ∧
    ∀ e ∈ newer, e = .freed x ∨ (e = .queueFull x ∧ maxClosingSockets ≤ s.closing.length) := by
  unfold sockCloseFast
  by_cases hRoom : s.closing.length < maxClosingSockets
  · rw [if_pos hRoom]
    exact ⟨[], rfl, by simp⟩
  · rw [if_neg hRoom]
    exact ⟨[.freed x, .queueFull x], rfl, by simp; omega⟩

/-- What is taken out of a ring was in it. -/
theorem mem_getMany {r : RingBuf} (h : r.WellFormed) {n : Nat} {v : RxByte}
    (hv : v ∈ (r.getMany n).1) : v ∈ r.contents := by
  rw [CircularBuffer.contents_getMany h n]
  exact List.mem_append_left _ hv

end Traces

/-- An effect adds events to the history, each in its own circumstances. -/
theorem Effect.logged {b : Block} {a : Answer} {s t : Sys} (h : Effect b a s t)
    (hRings : s.RingsOk) :
    ∃ newer, t.trace = newer ++ s.trace ∧ ∀ e ∈ newer, e.From b s t := by
  cases h with
  | quiet h =>
      obtain ⟨newer, hTrace, hMinor⟩ := h.trace
      exact ⟨newer, hTrace, fun e he => (hMinor e he).from⟩
  | store i x v hSock h =>
      obtain ⟨_, rfl⟩ := storeTx_eq_some h
      exact ⟨[.stored i ⟨v, i, x⟩], rfl, by simpa [Event.From] using hSock⟩
  | purge i hb => exact ⟨[.purged i], by simp, by simpa [Event.From] using hb⟩
  | receive i hb =>
      rcases pollRecv_cases i a s with hNone | ⟨x, hSock, _, _, hSome⟩
      · exact ⟨[], by rw [hNone]; rfl, by simp⟩
      · rw [hSome]
        split_ifs
        · exact ⟨[], rfl, by simp⟩
        · exact ⟨[.received i x _], rfl, by simpa [Event.From] using ⟨hb, hSock⟩⟩
  | read i n =>
      refine ⟨_, readRx_trace i s n, fun e he => ?_⟩
      obtain ⟨v, hv, rfl⟩ := List.mem_map.mp he
      exact ⟨mem_getMany (hRings.rx i) (List.mem_reverse.mp hv), n, rfl⟩
  | close i why hb =>
      unfold closeSock
      cases hSock : (s.ports i).sock with
      | none => exact ⟨[], rfl, by simp⟩
      | some x =>
          obtain ⟨newer, hTrace, hNew⟩ := sockCloseFast_trace (s := s) x
          refine ⟨.closed i x why :: newer, by simp [hTrace], fun e he => ?_⟩
          rcases List.mem_cons.mp he with rfl | hOld
          · exact ⟨hb, hSock⟩
          · rcases hNew e hOld with rfl | ⟨rfl, hFull⟩
            · trivial
            · exact hFull
  | attach i x net hb hSock hAccept =>
      exact ⟨[.attached i x], by simp,
        by simpa [Event.From, telnetReset] using ⟨hb, hSock, accept_mem hAccept⟩⟩
  | reject x net msg hb hAccept =>
      obtain ⟨newer, hTrace, hNew⟩ := sockCloseFast_trace
        (s := ((s.setNet net).setNet (net.send x (msg.map fun b => ⟨b, .control⟩) a.sent)).log
          (.rejected x (freePorts (net.sockets x).srcPort (s.setNet net)))) x
      refine ⟨newer ++ [.rejected x (freePorts (net.sockets x).srcPort (s.setNet net))],
        by simpa [rejectCall] using hTrace, fun e he => ?_⟩
      have hMem := accept_mem hAccept
      obtain ⟨_, _, rfl⟩ := accept_eq_some hAccept
      rcases List.mem_append.mp he with hOld | hReject
      · rcases hNew e hOld with rfl | ⟨rfl, hFull⟩
        · trivial
        · exact hFull
      · obtain rfl := List.mem_singleton.mp hReject
        exact ⟨hb, hMem, rfl⟩
  | reconfigure i f hb hf =>
      refine ⟨_, logDropped_trace i s, fun e he => ?_⟩
      simp only [List.mem_append, List.mem_map, Option.mem_toList] at he
      rcases he with ⟨x, hListen, rfl⟩ | ⟨x, hSock, rfl⟩
      · exact ⟨Block.reconfigures_of_renews hb, i, .inr hListen⟩
      · exact ⟨Block.reconfigures_of_renews hb, i, .inl hSock⟩
  | waste x net hGet => exact ⟨[.freed x], rfl, by simp [Event.From]⟩
  | drain n =>
      unfold closingDrain
      cases hEntry : s.closing[n]? with
      | none => exact ⟨[], rfl, by simp⟩
      | some x =>
          have hMem := List.mem_of_getElem? hEntry
          dsimp only
          split_ifs
          · exact ⟨[.freed x, .closeDone x], rfl, by simpa [Event.From] using hMem⟩
          · exact ⟨[], rfl, by simp⟩
  | extClose k x hSock =>
      obtain ⟨newer, hTrace, hNew⟩ := sockCloseFast_trace (s := s) x
      refine ⟨newer, hTrace, fun e he => ?_⟩
      rcases hNew e he with rfl | ⟨rfl, hFull⟩
      · trivial
      · exact hFull
  | _ => exact ⟨[], by simp, by simp⟩

end Vmodem
