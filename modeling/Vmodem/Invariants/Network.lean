import Vmodem.Invariants.Events
import Vmodem.Invariants.Output

/-! What an effect does to the TCP sockets: who may write to a socket, who may
read from it, and what never changes. -/

namespace Vmodem

/-- The port a block sends control bytes for. -/
def Block.writes : Block → Option PortIdx
  | .raw i _ | .rx i _ _ _ => some i
  | _ => none

def AllControl (out : List WireByte) : Prop := ∀ w ∈ out, w.origin = .control

/-- Where bytes queued on socket `y` may come from. -/
inductive Sent (b : Block) (s t : Sys) (y : SockId) : List WireByte → Prop where
  | nothing : Sent b s t y []
  | flush (i : PortIdx) (out : List WireByte) (hb : b = .flush i)
      (hSock : (s.ports i).sock = some y) (h : out ++ t.output i = s.output i) : Sent b s t y out
  | write (i : PortIdx) (out : List WireByte) (hb : b.writes = some i)
      (hSock : (s.ports i).sock = some y) (h : AllControl out) : Sent b s t y out
  | reject (out : List WireByte) (hPending : y ∈ s.net.pending) (hTaken : y ∉ t.net.pending)
      (h : AllControl out) : Sent b s t y out
  | ext (k : ExtIdx) (out : List WireByte) (hSock : (s.extSockets k).sock = some y)
      (h : AllControl out) (hb : ∃ data, b = .mux (.sockSend k data)) : Sent b s t y out

/-- The change of an existing socket. -/
structure Traffic (b : Block) (s t : Sys) (y : SockId) : Prop where
  srcPort : (t.net.sockets y).srcPort = (s.net.sockets y).srcPort
  connected : (t.net.sockets y).connected = (s.net.sockets y).connected ∨
    ∃ k, (s.extSockets k).sock = some y
  inbox : (t.net.sockets y).inbox = (s.net.sockets y).inbox ∨
    (∃ i, b = .recv i ∧ (s.ports i).sock = some y) ∨
    ∃ k, (s.extSockets k).sock = some y ∧ ∃ max, b = .mux (.sockRecv k max)
  wire : ∃ out, (t.net.sockets y).wire = (s.net.sockets y).wire ++ out ∧ Sent b s t y out

section Rules

variable {b : Block} {a : Answer} {s t : Sys} {y : SockId}

/-- Only the listening state of the socket may differ. -/
theorem Traffic.untouched (hPort : (t.net.sockets y).srcPort = (s.net.sockets y).srcPort)
    (hConnected : (t.net.sockets y).connected = (s.net.sockets y).connected)
    (hInbox : (t.net.sockets y).inbox = (s.net.sockets y).inbox)
    (hWire : (t.net.sockets y).wire = (s.net.sockets y).wire) : Traffic b s t y :=
  ⟨hPort, .inl hConnected, .inl hInbox, [], by simpa using hWire, .nothing⟩

/-- A socket that did not change had no traffic. -/
theorem Traffic.of_eq (h : t.net.sockets y = s.net.sockets y) : Traffic b s t y :=
  .untouched (by rw [h]) (by rw [h]) (by rw [h]) (by rw [h])

/-- Where queued bytes come from does not depend on the rest of the state. -/
theorem Sent.congr {u : Sys} {out : List WireByte} (h : Sent b s t y out) (hNet : u.net = t.net)
    (hb : ∀ i, b ≠ .flush i) : Sent b s u y out := by
  cases h with
  | nothing => exact .nothing
  | flush i _ hFlush _ _ => exact absurd hFlush (hb i)
  | write i _ hb hSock h => exact .write i _ hb hSock h
  | reject _ hPending hTaken h => exact .reject _ hPending (hNet ▸ hTaken) h
  | ext k _ hSock h hb => exact .ext k _ hSock h hb

theorem Traffic.congr {u : Sys} (h : Traffic b s t y) (hNet : u.net = t.net)
    (hb : ∀ i, b ≠ .flush i) : Traffic b s u y := by
  obtain ⟨out, hWire, hSent⟩ := h.wire
  exact ⟨hNet ▸ h.srcPort, hNet ▸ h.connected, hNet ▸ h.inbox, out, hNet ▸ hWire,
    hSent.congr hNet hb⟩

/-- Bytes are queued on the socket. -/
theorem Traffic.of_send {x : SockId} {out : List WireByte} {rc : Int}
    (h : t.net.sockets y = (s.net.send x out rc).sockets y)
    (hSent : y = x → Sent b s t y (out.take rc.toNat)) : Traffic b s t y := by
  by_cases hy : y = x
  · refine ⟨?_, .inl ?_, .inl ?_, out.take rc.toNat, ?_, hSent hy⟩ <;> rw [h] <;> simp [hy]
  · exact .of_eq (by rw [h]; simp [hy])

/-- The bytes of a control write are control bytes, also when only a part was taken. -/
theorem allControl_map (bs : List UInt8) (n : Nat) :
    AllControl ((bs.map fun b => (⟨b, .control⟩ : WireByte)).take n) := by
  intro w hw
  obtain ⟨v, _, rfl⟩ := List.mem_map.mp (List.mem_of_mem_take hw)
  rfl

/-- A close keeps what a socket has sent and what it has yet to read. -/
theorem sockCloseFast_sockets (x : SockId) : ((sockCloseFast x s).net.sockets y).srcPort =
      (s.net.sockets y).srcPort ∧
    ((sockCloseFast x s).net.sockets y).connected = (s.net.sockets y).connected ∧
    ((sockCloseFast x s).net.sockets y).inbox = (s.net.sockets y).inbox ∧
    ((sockCloseFast x s).net.sockets y).wire = (s.net.sockets y).wire := by
  unfold sockCloseFast
  split_ifs
  · exact ⟨rfl, rfl, rfl, rfl⟩
  · by_cases hy : y = x <;> simp [hy]

/-- A control write queues its bytes on the connection of its port and nowhere else. -/
theorem telnetSendRaw_traffic (i : PortIdx) (buf : List UInt8) (hb : b.writes = some i) :
    Traffic b s (telnetSendRaw i buf a s) y := by
  unfold telnetSendRaw
  cases hSock : (s.ports i).sock with
  | none => exact .of_eq rfl
  | some x =>
      dsimp only
      split_ifs
      · exact .of_eq rfl
      · refine .of_send rfl fun hy => .write i _ hb (by rw [hSock, hy]) (allControl_map _ _)

theorem flush_sockets (i : PortIdx) : ((fossilFlushTx i a s).net.sockets y).srcPort =
      (s.net.sockets y).srcPort ∧
    ((fossilFlushTx i a s).net.sockets y).connected = (s.net.sockets y).connected ∧
    ((fossilFlushTx i a s).net.sockets y).inbox = (s.net.sockets y).inbox := by
  have hLeft : ∀ x, ((flushLeftover i x a s).net.sockets y).srcPort = (s.net.sockets y).srcPort ∧
      ((flushLeftover i x a s).net.sockets y).connected = (s.net.sockets y).connected ∧
      ((flushLeftover i x a s).net.sockets y).inbox = (s.net.sockets y).inbox := by
    intro x
    unfold flushLeftover
    dsimp only
    by_cases hy : y = x <;> split_ifs <;> simp [hy]
  have hRing : ∀ (x : SockId) (u : Sys),
      ((flushRing i x a u).net.sockets y).srcPort = (u.net.sockets y).srcPort ∧
      ((flushRing i x a u).net.sockets y).connected = (u.net.sockets y).connected ∧
      ((flushRing i x a u).net.sockets y).inbox = (u.net.sockets y).inbox := by
    intro x u
    unfold flushRing
    dsimp only
    by_cases hy : y = x <;> split_ifs <;> simp [hy]
  rcases fossilFlushTx_cases i a s with hNone | ⟨x, _, _, _, ⟨_, hOnly⟩ | ⟨_, hBoth⟩⟩
  · rw [hNone]
    exact ⟨rfl, rfl, rfl⟩
  · rw [hOnly]
    exact hLeft x
  · rw [hBoth]
    obtain ⟨hPort, hConnected, hInbox⟩ := hRing x (flushLeftover i x a s)
    obtain ⟨hPort', hConnected', hInbox'⟩ := hLeft x
    exact ⟨hPort.trans hPort', hConnected.trans hConnected', hInbox.trans hInbox'⟩

/-- What a flush queues is the front of the output of its port. -/
theorem fossilFlushTx_traffic (h : s.RingsOk) (i : PortIdx) :
    Traffic (.flush i) s (fossilFlushTx i a s) y := by
  obtain ⟨hPort, hConnected, hInbox⟩ := flush_sockets (a := a) (s := s) (y := y) i
  obtain ⟨sent, hSent, _, _, hWire⟩ := fossilFlushTx_spec h i a
  refine ⟨hPort, .inl hConnected, .inl hInbox, _, hWire y, ?_⟩
  by_cases hSock : (s.ports i).sock = some y
  · rw [if_pos hSock]
    exact .flush i sent rfl hSock hSent
  · rw [if_neg hSock]
    exact .nothing

/-- A chunk handed to the parser causes its replies to be sent and nothing else. -/
theorem pollRx_traffic (i : PortIdx) (x : SockId) (tmp : List UInt8) (drop : Bool) :
    Traffic (.rx i x tmp drop) s (pollRx i x tmp drop a s).1 y := by
  cases tmp with
  | nil => exact .of_eq rfl
  | cons v rest =>
      have hReplied : Traffic (.rx i x (v :: rest) drop) s (replied i v a s) y := by
        unfold replied
        obtain ⟨_, hSame, _⟩ := telnetFilter_frame (s.ports i) v
        cases (telnetFilter (s.ports i) v).reply with
        | none => exact .of_eq rfl
        | some buf =>
            unfold telnetSendRaw
            cases hSock : (s.ports i).sock with
            | none =>
                simp only [Sys.modPort_ports, ↓reduceIte, hSame, hSock]
                exact .of_eq rfl
            | some z =>
                simp only [Sys.modPort_ports, ↓reduceIte, hSame, hSock]
                split_ifs
                · exact .of_eq rfl
                · exact .of_send rfl fun hy =>
                    .write i _ rfl (by rw [hSock, hy]) (allControl_map _ _)
      exact hReplied.congr (pollRx_net i a s x v rest drop) (by simp)

/-- A connection waits for `accept()` only once. -/
theorem accept_not_mem {x : SockId} {net : Mtcp} {which : Option Nat} (h : s.Ledger)
    (hAccept : s.net.accept which = some (x, net)) : x ∉ net.pending := by
  have hMem := accept_mem hAccept
  obtain ⟨k, hk, rfl⟩ := accept_eq_some hAccept
  have hErase := Accounting.count_eraseIdx hk x
  have hBalance := h.balance x
  have hLt := h.lt_next (x := x) (by have := List.count_pos_iff.mpr hMem; omega)
  rw [if_pos hLt] at hBalance
  unfold Sys.tally at hBalance
  rw [if_pos rfl] at hErase
  rw [← List.count_eq_zero]
  show (s.net.pending.eraseIdx k).count x = 0
  omega

/-- Effects add nothing to the queue of waiting connections. -/
theorem Effect.pending (h : Effect b a s t) (hy : y ∈ t.net.pending) : y ∈ s.net.pending := by
  cases h with
  | quiet h => rwa [h.net] at hy
  | store i x v hSock h =>
      obtain ⟨_, rfl⟩ := storeTx_eq_some h
      exact hy
  | purge i hb => simpa using hy
  | flush i hb => rwa [(fossilFlushTx_next i a).2] at hy
  | write i buf hb => rwa [(telnetSendRaw_next i buf a).2] at hy
  | filter i x tmp drop hb => rwa [(pollRx_next i x tmp drop a).2] at hy
  | receive i hb =>
      rcases pollRecv_cases i a s with hNone | ⟨x, _, _, _, hSome⟩
      · rwa [hNone] at hy
      · rw [hSome] at hy
        split_ifs at hy <;> simpa using hy
  | close i why hb => rwa [(closeSock_next i why).2] at hy
  | attach i x net hb hSock hAccept =>
      obtain ⟨k, _, rfl⟩ := accept_eq_some hAccept
      simp only [acceptCall_frame, Sys.setNet_net] at hy
      exact List.mem_of_mem_eraseIdx hy
  | reject x net msg hb hAccept =>
      obtain ⟨k, _, rfl⟩ := accept_eq_some hAccept
      unfold rejectCall at hy
      rw [(sockCloseFast_next x).2] at hy
      exact List.mem_of_mem_eraseIdx (by simpa using hy)
  | listenPort i tcpPort x net hb hFree hGet | listenHunt g tcpPort x net hb hFree hActive hGet
  | waste x net hGet | extAlloc k x net hFree hGet =>
      obtain ⟨_, hPending, _, _⟩ := getSocket_eq_some hGet
      simpa [hPending] using hy
  | drain n =>
      unfold closingDrain at hy
      split at hy
      next => exact hy
      next => split_ifs at hy <;> simpa using hy
  | extClose k x hSock => simpa [(sockCloseFast_next x).2] using hy
  | reconfigure i f hb hf => simpa using hy
  | read i n => simpa using hy
  | _ => exact hy

/-- What an effect does to a socket that exists already. -/
theorem Effect.traffic (h : Effect b a s t) (hLedger : s.Ledger) (hRings : s.RingsOk)
    (hy : y < s.net.next) : Traffic b s t y := by
  have hFresh : ∀ {x : SockId} {net : Mtcp}, s.net.getSocket a.obtained = some (x, net) →
      net.sockets y = s.net.sockets y ∧ y ≠ x := by
    intro x net hGet
    obtain ⟨rfl, _, _, hSockets⟩ := getSocket_eq_some hGet
    have hNe : y ≠ s.net.next := Nat.ne_of_lt hy
    exact ⟨by rw [hSockets, if_neg hNe], hNe⟩
  cases h with
  | quiet h => exact .of_eq (by rw [h.net])
  | store i x v hSock h =>
      obtain ⟨_, rfl⟩ := storeTx_eq_some h
      exact .of_eq rfl
  | purge i hb => exact .of_eq (by simp)
  | flush i hb =>
      subst hb
      exact fossilFlushTx_traffic hRings i
  | write i buf hb => exact telnetSendRaw_traffic i buf (by rw [hb]; rfl)
  | filter i x tmp drop hb =>
      subst hb
      exact pollRx_traffic i x tmp drop
  | receive i hb =>
      rcases pollRecv_cases i a s with hNone | ⟨x, hSock, _, _, hSome⟩
      · exact .of_eq (by rw [hNone])
      · rw [hSome]
        by_cases hyx : y = x
        · subst hyx
          refine ⟨?_, .inl ?_, .inr (.inl ⟨i, hb, hSock⟩), [], ?_, .nothing⟩ <;> split_ifs <;> simp
        · exact .of_eq (by split_ifs <;> simp [hyx])
  | read i n => exact .of_eq (by simp)
  | clearRx i hb | clearRemote i hb | modes f hb => exact .of_eq rfl
  | close i why hb =>
      unfold closeSock
      cases (s.ports i).sock with
      | none => exact .of_eq rfl
      | some x =>
          obtain ⟨hPort, hConnected, hInbox, hWire⟩ := sockCloseFast_sockets (s := s) (y := y) x
          exact .untouched hPort hConnected hInbox hWire
  | attach i x net hb hSock hAccept =>
      obtain ⟨k, _, rfl⟩ := accept_eq_some hAccept
      exact .of_eq (by simp)
  | reject x net msg hb hAccept =>
      have hMem := accept_mem hAccept
      have hTaken : x ∉ net.pending := accept_not_mem hLedger hAccept
      obtain ⟨k, _, rfl⟩ := accept_eq_some hAccept
      obtain ⟨hPort, hConnected, hInbox, hWire⟩ := sockCloseFast_sockets (y := y) x
        (s := ((s.setNet { s.net with pending := s.net.pending.eraseIdx k }).setNet
          (Mtcp.send { s.net with pending := s.net.pending.eraseIdx k } x
            (msg.map fun b => ⟨b, .control⟩) a.sent)).log
          (.rejected x (freePorts (s.net.sockets x).srcPort
            (s.setNet { s.net with pending := s.net.pending.eraseIdx k }))))
      by_cases hyx : y = x
      · subst hyx
        refine ⟨?_, .inl ?_, .inl ?_, (msg.map fun b => ⟨b, .control⟩).take a.sent.toNat, ?_,
          .reject _ hMem ?_ (allControl_map _ _)⟩
        · exact hPort.trans (by simp)
        · exact hConnected.trans (by simp)
        · exact hInbox.trans (by simp)
        · exact hWire.trans (by simp)
        · intro hIn
          unfold rejectCall at hIn
          rw [(sockCloseFast_next y).2] at hIn
          exact hTaken hIn
      · exact .untouched (hPort.trans (by simp [hyx])) (hConnected.trans (by simp [hyx]))
          (hInbox.trans (by simp [hyx])) (hWire.trans (by simp [hyx]))
  | reconfigure i f hb hf => exact .of_eq (by simp)
  | group g tcpPort mask hb hFree => exact .of_eq rfl
  | listenPort i tcpPort x net hb hFree hGet =>
      obtain ⟨hSame, hNe⟩ := hFresh hGet
      exact .of_eq (by simp [hNe, hSame])
  | listenHunt g tcpPort x net hb hFree hActive hGet =>
      obtain ⟨hSame, hNe⟩ := hFresh hGet
      exact .of_eq (by simp [hNe, hSame])
  | waste x net hGet =>
      obtain ⟨hSame, hNe⟩ := hFresh hGet
      exact .of_eq (by simp [hNe, hSame])
  | drain n =>
      unfold closingDrain
      cases s.closing[n]? with
      | none => exact .of_eq rfl
      | some x =>
          dsimp only
          split_ifs
          · by_cases hyx : y = x <;> refine .untouched ?_ ?_ ?_ ?_ <;> simp [hyx]
          · exact .of_eq rfl
  | extTouch k f hf => exact .of_eq rfl
  | extAlloc k x net hFree hGet =>
      obtain ⟨hSame, _⟩ := hFresh hGet
      exact .of_eq (by simp [hSame])
  | extConnect k x hSock =>
      by_cases hyx : y = x
      · subst hyx
        exact ⟨by simp, .inr ⟨k, hSock⟩, .inl (by simp), [], by simp, .nothing⟩
      · exact .of_eq (by simp [hyx])
  | extClose k x hSock =>
      obtain ⟨hPort, hConnected, hInbox, hWire⟩ := sockCloseFast_sockets (s := s) (y := y) x
      exact .untouched hPort hConnected hInbox hWire
  | extSend k x hSock out rc hb =>
      exact .of_send rfl fun hy => .ext k _ (hy ▸ hSock) (allControl_map _ _) hb
  | extRecv k x hSock size rc hb =>
      by_cases hyx : y = x
      · subst hyx
        exact ⟨by simp, .inl (by simp), .inr (.inr ⟨k, hSock, hb⟩), [], by simp, .nothing⟩
      · exact .of_eq (by simp [hyx])

/-- The connection of a port was its connection before, or has just been taken
from the queue; its configuration is the same. -/
theorem Effect.call_source {i : PortIdx} {x : SockId} (h : Effect b a s t)
    (hSock : (t.ports i).sock = some x) :
    (t.ports i).localPort = (s.ports i).localPort ∧
      ((s.ports i).sock = some x ∨
        (b.target s = some i ∧ ∃ net, s.net.accept a.accepted = some (x, net))) := by
  cases h with
  | quiet h => exact ⟨(h.port i).localPort, .inl ((h.port i).sock ▸ hSock)⟩
  | store j y v hSock' h =>
      obtain ⟨_, rfl⟩ := storeTx_eq_some h
      exact ⟨rfl, .inl hSock⟩
  | filter j y tmp drop hb hSock' =>
      obtain ⟨_, hSame, _, _, _, hLocal, _⟩ := pollRx_call j a s y tmp drop i
      exact ⟨hLocal, .inl (hSame ▸ hSock)⟩
  | receive j hb =>
      rcases pollRecv_cases j a s with hNone | ⟨y, _, _, _, hSome⟩
      · rw [hNone] at hSock ⊢
        exact ⟨rfl, .inl hSock⟩
      · rw [hSome] at hSock ⊢
        by_cases hj : i = j <;> split_ifs at hSock ⊢ <;> simp [hj] at hSock ⊢ <;> exact .inl hSock
  | read j n | clearRx j hb | clearRemote j hb | listenPort j tcpPort y net hb hFree hGet =>
      by_cases hj : i = j <;> simp [hj] at hSock ⊢ <;> exact .inl hSock
  | close j why hb =>
      by_cases hj : i = j
      · simp [hj] at hSock
      · exact ⟨by simp [hj], .inl (by simpa [hj] using hSock)⟩
  | attach j y net hb hNone hAccept =>
      by_cases hj : i = j
      · obtain rfl : y = x := by simpa [hj, telnetReset] using hSock
        exact ⟨by simp [hj, telnetReset], .inr ⟨hj ▸ hb, net, hAccept⟩⟩
      · exact ⟨by simp [hj], .inl (by simpa [hj] using hSock)⟩
  | reconfigure j f hb hf =>
      by_cases hj : i = j
      · simp [hj, (hf _).sock] at hSock
      · exact ⟨by simp [hj], .inl (by simpa [hj] using hSock)⟩
  | _ => exact ⟨by simp, .inl (by simpa using hSock)⟩

end Rules

/-- A waiting connection has been sent nothing. -/
def Sys.Unsent (s : Sys) : Prop := ∀ y ∈ s.net.pending, (s.net.sockets y).wire = []

section Holding

variable {s : Sys} {x : SockId}

theorem port_held {i : PortIdx} (h : (s.ports i).sock = some x) : 0 < (s.ports i).held x := by
  simp only [PortState.held, h, Accounting.holds_some, ↓reduceIte]
  omega

theorem held_of_sock {i : PortIdx} (h : (s.ports i).sock = some x) : 0 < s.held x := by
  have hPort := port_held h
  have hSum := Accounting.le_sum i fun j => (s.ports j).held x
  unfold Sys.held
  omega

theorem held_of_ext {k : ExtIdx} (h : (s.extSockets k).sock = some x) : 0 < s.held x := by
  have hSum := Accounting.le_sum k fun j => Accounting.holds (s.extSockets j).sock x
  simp only [h, Accounting.holds_some, ↓reduceIte] at hSum
  unfold Sys.held
  omega

namespace Sys.Ledger

/-- The connection of a port has been handed out. -/
theorem sock_lt (h : s.Ledger) {i : PortIdx} (hSock : (s.ports i).sock = some x) :
    x < s.net.next := h.lt_next (by have := held_of_sock hSock; omega)

/-- A socket in use is not waiting to be accepted. -/
theorem not_pending (h : s.Ledger) (hHeld : 0 < s.held x) : x ∉ s.net.pending := by
  intro hMem
  have hCount := List.count_pos_iff.mpr hMem
  have hBalance := h.balance x
  unfold Sys.tally at hBalance
  split_ifs at hBalance <;> omega

/-- A socket in use has not been given back. -/
theorem not_gone (h : s.Ledger) (hHeld : 0 < s.held x) : gone s.trace x = 0 := by
  have hBalance := h.balance x
  unfold Sys.tally at hBalance
  split_ifs at hBalance <;> omega

/-- Two ports never share a connection. -/
theorem sock_inj (h : s.Ledger) {i j : PortIdx} (hi : (s.ports i).sock = some x)
    (hj : (s.ports j).sock = some x) : i = j := by
  by_contra hNe
  have hPair := Accounting.add_le_sum hNe fun j => (s.ports j).held x
  have hLe := h.held_le x
  have hFirst := port_held hi
  have hSecond := port_held hj
  unfold Sys.held at hLe
  omega

/-- A port and a handle never share a connection. -/
theorem sock_ne_ext (h : s.Ledger) {i : PortIdx} {k : ExtIdx} (hi : (s.ports i).sock = some x) :
    (s.extSockets k).sock ≠ some x := by
  intro hk
  have hPort := port_held hi
  have hPorts := Accounting.le_sum i fun j => (s.ports j).held x
  have hExts := Accounting.le_sum k fun j => Accounting.holds (s.extSockets j).sock x
  simp only [hk, Accounting.holds_some, ↓reduceIte] at hExts
  have hLe := h.held_le x
  unfold Sys.held at hLe
  omega

/-- Nothing outside the driver puts bytes on the wire of a call. -/
theorem outside_wire (h : s.Ledger) {t : Sys} {e : Outside} (hOut : outside e s = some t)
    {i : PortIdx} (hSock : (s.ports i).sock = some x) :
    (t.net.sockets x).wire = (s.net.sockets x).wire := by
  rcases outside_cases hOut with ⟨tick, rfl⟩ | ⟨port, host, remote, rfl⟩ | ⟨y, bs, _, rfl⟩
  · rfl
  · have hNe : x ≠ s.net.next := Nat.ne_of_lt (h.sock_lt hSock)
    simp [Mtcp.arrive, hNe]
  · by_cases hx : x = y <;> simp [hx]

end Sys.Ledger

end Holding

/-- What holds of every reachable state and what most further invariants are
proved over. -/
structure Sys.Regular (s : Sys) : Prop where
  ledger : s.Ledger
  rings : s.RingsOk
  unsent : s.Unsent

theorem Sys.Ledger.lt_next_of_pending {s : Sys} (h : s.Ledger) {y : SockId}
    (hy : y ∈ s.net.pending) : y < s.net.next :=
  h.lt_next (by have := List.count_pos_iff.mpr hy; omega)

/-- Nothing is queued on a waiting connection: nobody refers to it. -/
theorem Sys.Unsent.effect {b : Block} {a : Answer} {s t : Sys} (hEffect : Effect b a s t)
    (hLedger : s.Ledger) (hRings : s.RingsOk) (h : s.Unsent) : t.Unsent := by
  intro y hy
  have hMem := hEffect.pending hy
  have hLt := hLedger.lt_next_of_pending hMem
  obtain ⟨out, hWire, hSent⟩ := (hEffect.traffic hLedger hRings hLt).wire
  rw [hWire, h y hMem]
  cases hSent with
  | nothing => rfl
  | flush i _ hb hSock _ | write i _ hb hSock _ =>
      exact absurd hMem (hLedger.not_pending (held_of_sock hSock))
  | reject _ _ hTaken _ => exact absurd hy hTaken
  | ext k _ hSock _ => exact absurd hMem (hLedger.not_pending (held_of_ext hSock))

theorem Sys.Unsent.out {e : Outside} {s t : Sys} (hOut : outside e s = some t) (h : s.Unsent) :
    t.Unsent := by
  intro y hy
  rcases outside_cases hOut with ⟨tick, rfl⟩ | ⟨port, host, remote, rfl⟩ | ⟨x, bs, _, rfl⟩
  · exact h y hy
  · by_cases hNew : y = s.net.next
    · simp [Mtcp.arrive, hNew, TcpSocket.zero]
    · have hMem : y ∈ s.net.pending := by simpa [Mtcp.arrive, hNew] using hy
      simpa [Mtcp.arrive, hNew] using h y hMem
  · have hMem : y ∈ s.net.pending := by simpa using hy
    by_cases hyx : y = x <;> simpa [hyx] using h y hMem

/-- Ledger, rings and unsent connections are kept together, as each needs the others. -/
theorem Sys.Regular.stable : Stable Sys.Regular where
  start tick := ⟨Sys.Ledger.stable.start tick, Sys.RingsOk.stable.start tick,
    fun y hy => by simp [Sys.zero, Mtcp.zero] at hy⟩
  effect h hs := ⟨Sys.Ledger.stable.effect h hs.ledger, Sys.RingsOk.stable.effect h hs.rings,
    Sys.Unsent.effect h hs.ledger hs.rings hs.unsent⟩
  out h hs := ⟨Sys.Ledger.stable.out h hs.ledger, Sys.RingsOk.stable.out h hs.rings,
    Sys.Unsent.out h hs.unsent⟩

end Vmodem
