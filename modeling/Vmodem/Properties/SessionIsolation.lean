import Vmodem.Invariants.Sessions
import Vmodem.Driver.Script

/-! Session isolation: no byte of one call is sent or read in another one. -/

namespace Vmodem

/-- Every application byte queued on a connection was written on its port while
that connection was the latest one accepted there; every byte of TCP origin read
from a port came from the latest connection accepted there; and the buffers of a
port hold bytes of that connection only. -/
theorem session_isolation {c : Config} (h : Reachable c) :
    (∀ x, x < c.sys.net.next → ∀ w ∈ (c.sys.net.sockets x).wire, ∀ b, w.byte? = some b →
      ∃ newer older, c.sys.trace = newer ++ .stored b.port b :: older ∧
        lastAttached b.port older = some x) ∧
    (∀ newer i v x older, c.sys.trace = newer ++ .read i ⟨v, some x⟩ :: older →
      lastAttached i older = some x) ∧
    (∀ i, ∀ w ∈ c.sys.output i, ∀ b, w.byte? = some b →
      b.port = i ∧ lastAttached i c.sys.trace = some b.conn) ∧
    (∀ i, ∀ cell ∈ (c.sys.ports i).rx.contents, ∀ x, cell.src = some x →
      lastAttached i c.sys.trace = some x) ∧
    (∀ i x, (c.sys.ports i).sock = some x → lastAttached i c.sys.trace = some x) := by
  obtain ⟨_, hSessions⟩ := Sys.Sessions.stable.reachable h
  refine ⟨fun x hx w hw b hb => ?_, fun newer i v x older hTrace => ?_, fun i w hw b hb => ?_,
    hSessions.rx, hSessions.sock⟩
  · obtain ⟨rfl, newer, older, hTrace, hLast⟩ := hSessions.wire x hx w hw b hb
    exact ⟨newer, older, hTrace, hLast⟩
  · exact hSessions.reads newer (.read i ⟨v, some x⟩) older hTrace x rfl
  · obtain ⟨hPort, hLast, _⟩ := hSessions.output i w hw b hb
    exact ⟨hPort, hLast⟩

/-- Two callers one after the other on one port. The first hangs up while a byte
of the application waits in the transmit ring; the second is sent another. -/
def twoCallers : List Move :=
  answeredCall ++
    [.call (.int14 0 (.transmitNoWait 0x41)) {},
      .call .int28 { closed := true },
      .outside (.arrive 0 0x0A000002 5001), .call (.mux .poll) { accepted := some 0 },
      .call (.int14 0 (.dtr 1)) {}, .outside (.ticks 40), .call (.mux .poll) {},
      .outside (.deliver 2 [0x48]), .call (.int14 0 (.blockRead 100)) { received := 1 },
      .call (.int14 0 (.transmitNoWait 0x42)) {}, .call (.int14 0 .flush) { sentBatch := 1 }]

/-- Both callers have their byte, each on its own connection. -/
theorem twoCallers_play :
    ((install [.listen 0 2323] true 0).play anyStep twoCallers).any (fun c =>
      decide (2 < c.sys.net.next) &&
        decide ((⟨0x42, .app ⟨0x42, 0, 2⟩⟩ : WireByte) ∈ (c.sys.net.sockets 2).wire) &&
        decide (Event.read 0 ⟨0x48, some 2⟩ ∈ c.sys.trace)) = true := by
  decide +kernel

theorem session_isolation_two_callers : ∃ c, Reachable c ∧
    (∃ newer older, c.sys.trace = newer ++ .stored 0 ⟨0x42, 0, 2⟩ :: older ∧
      lastAttached 0 older = some 2) ∧
    ∃ newer older, c.sys.trace = newer ++ .read 0 ⟨0x48, some 2⟩ :: older ∧
      lastAttached 0 older = some 2 := by
  obtain ⟨c, hReach, hc⟩ := exists_reachable twoCallers_play
  simp only [Bool.and_eq_true, decide_eq_true_eq] at hc
  obtain ⟨⟨hNext, hWire⟩, hRead⟩ := hc
  obtain ⟨hSent, hReads, _⟩ := session_isolation hReach
  obtain ⟨newer, older, hTrace⟩ := List.append_of_mem hRead
  exact ⟨c, hReach, hSent 2 hNext _ hWire _ rfl, newer, older, hTrace, hReads _ _ _ _ _ hTrace⟩

end Vmodem
