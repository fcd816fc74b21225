import Vmodem.Invariants.Transmit

/-! The receive path of an answered call: from TCP through the telnet parser and
the receive ring to the application. Between two points of a call nothing else
empties the ring or moves the parser. -/

namespace Vmodem

/-- The bytes of TCP origin among cells of a receive ring. -/
def tcpBytes (cells : List RxByte) : List UInt8 :=
  (cells.filter fun c => c.src.isSome).map RxByte.val

def Event.readOn (i : PortIdx) : Event → Option RxByte
  | .read j c => if j = i then some c else none
  | _ => none

def Event.receivedOn (i : PortIdx) : Event → List UInt8
  | .received j _ bs => if j = i then bs else []
  | _ => []

def Event.deliveredTo (x : SockId) : Event → List UInt8
  | .delivered y bs => if y = x then bs else []
  | _ => []

/-- The cells the application read from a port, in order. -/
def reads (i : PortIdx) (trace : List Event) : List RxByte :=
  trace.reverse.filterMap (Event.readOn i)

/-- The bytes taken from TCP on answered calls of a port, in order. -/
def received (i : PortIdx) (trace : List Event) : List UInt8 :=
  trace.reverse.flatMap (Event.receivedOn i)

/-- The bytes TCP delivered on a connection, in order. -/
def delivered (x : SockId) (trace : List Event) : List UInt8 :=
  trace.reverse.flatMap (Event.deliveredTo x)

/-- The connection is the answered call of the port: no ringing, and CONNECT has
been given. -/
structure Sys.Live (s : Sys) (i : PortIdx) (x : SockId) : Prop where
  sock : (s.ports i).sock = some x
  ringing : (s.ats i).ringing = false
  connectPending : (s.ats i).connectPending = false

/-- The received bytes the drain loop still holds for a port. -/
def Config.inFlight (c : Config) (i : PortIdx) : List UInt8 :=
  match c.todo with
  | .rx j _ tmp false :: _ => if j = i then tmp else []
  | _ => []

section Lists

variable {i : PortIdx} {x : SockId}

/-- The bytes of TCP origin of two lists of cells are those of the first and then those
of the second. -/
theorem tcpBytes_append (left right : List RxByte) :
    tcpBytes (left ++ right) = tcpBytes left ++ tcpBytes right := by
  simp [tcpBytes]

/-- Text of the modem has no bytes of TCP origin, also when the ring dropped part of it.
-/
theorem tcpBytes_modemText {cells : List RxByte} {text : List UInt8}
    (h : cells.Sublist (modemText text)) : tcpBytes cells = [] := by
  unfold tcpBytes
  rw [List.map_eq_nil_iff, List.filter_eq_nil_iff]
  intro c hc
  obtain ⟨v, _, rfl⟩ := List.mem_map.mp (h.subset hc)
  simp

/-- Cells filled from a connection carry exactly its bytes. -/
theorem tcpBytes_map (bs : List UInt8) : tcpBytes (bs.map fun b => ⟨b, some x⟩) = bs := by
  induction bs with
  | nil => rfl
  | cons b bs ih => simpa [tcpBytes] using ih

/-- Newer events add what they read behind what was read before. -/
theorem reads_append (newer older : List Event) :
    reads i (newer ++ older) = reads i older ++ reads i newer := by
  simp [reads]

/-- Newer events add what they received behind what was received before. -/
theorem received_append (newer older : List Event) :
    received i (newer ++ older) = received i older ++ received i newer := by
  simp [received]

/-- Newer events add what they delivered behind what was delivered before. -/
theorem delivered_append (newer older : List Event) :
    delivered x (newer ++ older) = delivered x older ++ delivered x newer := by
  simp [delivered]

theorem reads_eq_nil {newer : List Event} (h : ∀ e ∈ newer, e.readOn i = none) :
    reads i newer = [] := by
  unfold reads
  rw [List.filterMap_eq_nil_iff]
  exact fun e he => h e (List.mem_reverse.mp he)

theorem received_eq_nil {newer : List Event} (h : ∀ e ∈ newer, e.receivedOn i = []) :
    received i newer = [] := by
  unfold received
  rw [List.flatMap_eq_nil_iff]
  exact fun e he => h e (List.mem_reverse.mp he)

theorem delivered_eq_nil {newer : List Event} (h : ∀ e ∈ newer, e.deliveredTo x = []) :
    delivered x newer = [] := by
  unfold delivered
  rw [List.flatMap_eq_nil_iff]
  exact fun e he => h e (List.mem_reverse.mp he)

/-- Taking cells out of the ring one by one reads them in their order. -/
theorem reads_map (cells : List RxByte) : reads i (cells.reverse.map (.read i)) = cells := by
  unfold reads
  rw [← List.map_reverse, List.reverse_reverse, List.filterMap_map]
  simp [Function.comp_def, Event.readOn]

end Lists

section Parser

variable {p q : PortState}

/-- What the parser passes on depends on its state alone. -/
theorem telnetFilter_agree (h : p.iacState = q.iacState) (b : UInt8) :
    (telnetFilter p b).out = (telnetFilter q b).out ∧
      (telnetFilter p b).port.iacState = (telnetFilter q b).port.iacState := by
  have hSub : ∀ r : PortState, (subnegotiationByte r b).iacState = r.iacState := by
    intro r
    unfold subnegotiationByte
    dsimp only
    split_ifs <;> rfl
  unfold telnetFilter
  rw [h]
  cases hState : q.iacState with
  | normal => by_cases hIac : b = telIac <;> simp [hIac, h, hState]
  | sawFF =>
      dsimp only
      split_ifs <;> exact ⟨rfl, rfl⟩
  | sawCmd => exact ⟨rfl, rfl⟩
  | inSB => by_cases hIac : b = telIac <;> simp [hIac, hSub, h, hState]
  | sbIac => by_cases hSE : b = telSE <;> simp [hSE]

/-- The parser's output depends on its state in the stream alone, not on what it has
gathered or negotiated. -/
theorem telnetFilterAll_agree (h : p.iacState = q.iacState) (bs : List UInt8) :
    (telnetFilterAll p bs).2 = (telnetFilterAll q bs).2 ∧
      (telnetFilterAll p bs).1.iacState = (telnetFilterAll q bs).1.iacState := by
  induction bs generalizing p q with
  | nil => exact ⟨rfl, h⟩
  | cons b bs ih =>
      obtain ⟨hOut, hState⟩ := telnetFilter_agree h b
      obtain ⟨hRest, hLast⟩ := ih hState
      exact ⟨by simp only [telnetFilterAll, hOut, hRest], hLast⟩

/-- The parser takes a stream in two parts as it takes the whole. -/
theorem telnetFilterAll_append (p : PortState) (bs cs : List UInt8) :
    telnetFilterAll p (bs ++ cs) =
      ((telnetFilterAll (telnetFilterAll p bs).1 cs).1,
        (telnetFilterAll p bs).2 ++ (telnetFilterAll (telnetFilterAll p bs).1 cs).2) := by
  induction bs generalizing p with
  | nil => rfl
  | cons b bs ih => simp [telnetFilterAll, ih]

end Parser

/-- Between two states of a call only the application has taken bytes from the
receive ring, and nothing has moved between TCP and the parser. -/
structure Kept (i : PortIdx) (x : SockId) (s t : Sys) : Prop where
  state : (t.ports i).iacState = (s.ports i).iacState
  inbox : (t.net.sockets x).inbox = (s.net.sockets x).inbox
  trace : ∃ newer, t.trace = newer ++ s.trace ∧
    tcpBytes (reads i newer) ++ tcpBytes (t.ports i).rx.contents =
      tcpBytes (s.ports i).rx.contents ∧ received i newer = [] ∧ delivered x newer = []

section Kept

variable {b : Block} {a : Answer} {s t u : Sys} {i : PortIdx} {x : SockId}

theorem Kept.refl (s : Sys) : Kept i x s s := ⟨rfl, rfl, [], rfl, rfl, rfl, rfl⟩

/-- What one stretch keeps and the next keeps, both keep together. -/
theorem Kept.trans (left : Kept i x s t) (right : Kept i x t u) : Kept i x s u := by
  obtain ⟨first, hFirst, hReads, hReceived, hDelivered⟩ := left.trace
  obtain ⟨second, hSecond, hReads', hReceived', hDelivered'⟩ := right.trace
  refine ⟨right.state.trans left.state, right.inbox.trans left.inbox, second ++ first,
    by rw [hSecond, hFirst, List.append_assoc], ?_, ?_, ?_⟩
  · rw [reads_append, tcpBytes_append, List.append_assoc, hReads', hReads]
  · rw [received_append, hReceived, hReceived', List.append_nil]
  · rw [delivered_append, hDelivered, hDelivered', List.append_nil]

/-- A connection that is current afterwards and was not waiting was current
before. -/
theorem Effect.sock_back (h : Effect b a s t) (hPending : x ∉ s.net.pending)
    (hSock : (t.ports i).sock = some x) : (s.ports i).sock = some x := by
  cases h.transmit with
  | idle h =>
      rcases h.sock i with hSame | hNone
      · exact hSame.symm.trans hSock
      · rw [hNone] at hSock
        cases hSock
  | store j y v _ _ ht =>
      subst ht
      exact hSock
  | purge j hb ht =>
      subst ht
      simpa [Sys.purged] using hSock
  | flush j hb ht =>
      subst ht
      simpa using hSock
  | attach j y net hb hFree hAccept ht =>
      subst ht
      by_cases hj : i = j
      · have hxy : y = x := by simpa [hj, telnetReset] using hSock
        exact absurd (accept_mem hAccept) (hxy ▸ hPending)
      · simpa [hj] using hSock

/-- While a call lasts, its receive ring and its parser are left alone by all
blocks but the receive loop and the two calls that empty the ring. -/
theorem Effect.ring_kept (h : Effect b a s t) (hRings : s.RingsOk)
    (hBefore : (s.ports i).sock = some x) (hAfter : (t.ports i).sock = some x)
    (hRecv : b ≠ .recv i) (hRx : ∀ y tmp drop, b ≠ .rx i y tmp drop)
    (hDiscards : b.discards ≠ some i) (hRead : ¬ ∃ j n, t = readRx j n s) :
    (t.ports i).iacState = (s.ports i).iacState ∧
      tcpBytes (t.ports i).rx.contents = tcpBytes (s.ports i).rx.contents := by
  cases h with
  | quiet h =>
      obtain ⟨text, hText⟩ := h.rx i
      obtain ⟨kept, hSub, hContents⟩ :=
        CircularBuffer.contents_putAll (hRings.rx i) (modemText text)
      refine ⟨(h.port i).iacState, ?_⟩
      rw [hText, hContents, tcpBytes_append, tcpBytes_modemText hSub, List.append_nil]
  | store j y v hSock h =>
      obtain ⟨_, rfl⟩ := storeTx_eq_some h
      exact ⟨rfl, rfl⟩
  | filter j y tmp drop hb hSock =>
      have hj : i ≠ j := by
        rintro rfl
        exact hRx y tmp drop hb
      simp [hj]
  | receive j hb =>
      have hj : i ≠ j := by
        rintro rfl
        exact hRecv hb
      rcases pollRecv_cases j a s with hNone | ⟨y, _, _, _, hSome⟩
      · simp [hNone]
      · rw [hSome]
        split_ifs <;> simp [hj]
  | read j n => exact absurd ⟨j, n, rfl⟩ hRead
  | clearRx j hb =>
      by_cases hj : i = j
      · subst hj
        rcases hb with hAsked | hNone
        · exact absurd hAsked hDiscards
        · simp [hNone] at hBefore
      · simp [hj]
  | attach j y net hb hSock hAccept =>
      by_cases hj : i = j
      · subst hj
        simp [hSock] at hBefore
      · simp [hj]
  | reconfigure j f hb hf =>
      by_cases hj : i = j
      · simp [hj, (hf _).sock] at hAfter
      · simp [hj]
  | clearRemote j hb | close j why hb | listenPort j tcpPort y net hb hFree hGet =>
      by_cases hj : i = j <;> simp [hj]
  | _ => simp

/-- Only the receive block of a port takes bytes from its connection. -/
theorem Effect.inbox_kept (h : Effect b a s t) (hRegular : s.Regular)
    (hSock : (s.ports i).sock = some x) (hRecv : b ≠ .recv i) :
    (t.net.sockets x).inbox = (s.net.sockets x).inbox := by
  rcases (h.traffic hRegular.ledger hRegular.rings (hRegular.ledger.sock_lt hSock)).inbox with
    hSame | ⟨j, hb, hOther⟩ | ⟨k, hExt, _⟩
  · exact hSame
  · exact absurd hb (hRegular.ledger.sock_inj hSock hOther ▸ hRecv)
  · exact absurd hExt (hRegular.ledger.sock_ne_ext hSock)

/-- An effect of any block but the receive path and a discard leaves the received bytes
of a call alone. -/
theorem Effect.kept (h : Effect b a s t) (hRegular : s.Regular)
    (hBefore : (s.ports i).sock = some x) (hAfter : (t.ports i).sock = some x)
    (hRecv : b ≠ .recv i) (hRx : ∀ y tmp drop, b ≠ .rx i y tmp drop)
    (hDiscards : b.discards ≠ some i) : Kept i x s t := by
  have hInbox := h.inbox_kept hRegular hBefore hRecv
  by_cases hRead : ∃ j n, t = readRx j n s
  · obtain ⟨j, n, rfl⟩ := hRead
    refine ⟨by by_cases hj : i = j <;> simp [hj], hInbox, _, readRx_trace j s n, ?_, ?_, ?_⟩
    · by_cases hj : i = j
      · subst hj
        rw [reads_map, ← tcpBytes_append]
        simp only [readRx_ports, ↓reduceIte]
        rw [← CircularBuffer.contents_getMany (hRegular.rings.rx i)]
      · have hOther : ¬ j = i := fun hEq => hj hEq.symm
        rw [reads_eq_nil fun e he => ?_]
        · simp [hj, tcpBytes]
        · obtain ⟨c, _, rfl⟩ := List.mem_map.mp he
          simp [Event.readOn, hOther]
    · refine received_eq_nil fun e he => ?_
      obtain ⟨c, _, rfl⟩ := List.mem_map.mp he
      rfl
    · refine delivered_eq_nil fun e he => ?_
      obtain ⟨c, _, rfl⟩ := List.mem_map.mp he
      rfl
  · obtain ⟨hState, hRing⟩ := h.ring_kept hRegular.rings hBefore hAfter hRecv hRx hDiscards hRead
    obtain ⟨newer, hTrace, hFrom⟩ := h.logged hRegular.rings
    refine ⟨hState, hInbox, newer, hTrace, ?_, received_eq_nil fun e he => ?_,
      delivered_eq_nil fun e he => ?_⟩
    · rw [reads_eq_nil fun e he => ?_]
      · exact hRing
      · have hOrigin := hFrom e he
        cases e with
        | read j c => exact absurd ⟨j, hOrigin.2⟩ hRead
        | _ => rfl
    · have hOrigin := hFrom e he
      cases e with
      | received j y bs =>
          have hNe : j ≠ i := by
            rintro rfl
            exact hRecv hOrigin.1
          simp [Event.receivedOn, hNe]
      | _ => rfl
    · have hOrigin := hFrom e he
      cases e with
      | delivered y bs => exact hOrigin.elim
      | _ => rfl

/-- So do all effects of the block together. The induction is on the effects, and the
call is up before and after each of them. -/
theorem Effects.kept (h : Effects b a s t) (hRegular : s.Regular)
    (hBefore : (s.ports i).sock = some x) (hAfter : (t.ports i).sock = some x)
    (hRecv : b ≠ .recv i) (hRx : ∀ y tmp drop, b ≠ .rx i y tmp drop)
    (hDiscards : b.discards ≠ some i) : Kept i x s t := by
  have hWaits : x ∉ s.net.pending := hRegular.ledger.not_pending (held_of_sock hBefore)
  suffices hAll : t.Regular ∧ x ∉ t.net.pending ∧
      ((t.ports i).sock = some x → Kept i x s t) from hAll.2.2 hAfter
  clear hAfter
  induction h with
  | refl => exact ⟨hRegular, hWaits, fun _ => .refl s⟩
  | tail _ last ih =>
      obtain ⟨hMiddle, hNot, hKept⟩ := ih
      refine ⟨Sys.Regular.stable.effect last hMiddle, fun hMem => hNot (last.pending hMem), ?_⟩
      intro hSock
      have hBack := last.sock_back hNot hSock
      exact (hKept hBack).trans (last.kept hMiddle hBack hSock hRecv hRx hDiscards)

end Kept

section Loop

variable {b : Block} {a : Answer} {s : Sys} {rest : List Block} {i : PortIdx} {x : SockId}

/-- The receive loop gets its bytes from `recv()` or from its last round. -/
theorem head_rx (h : Config.Sound ⟨s, b :: rest⟩) {tmp : List UInt8} {drop : Bool}
    {later : List Block} (hHead : (exec b a s).2 ++ rest = .rx i x tmp drop :: later) :
    b = .recv i ∨ ∃ v, b = .rx i x (v :: tmp) drop := by
  cases hNew : (exec b a s).2 with
  | nil =>
      have hOld : rest = .rx i x tmp drop :: later := by simpa [hNew] using hHead
      exact ((List.pairwise_cons.mp h.stack).1 (.rx i x tmp drop) (by simp [hOld])).elim
  | cons first others =>
      have hFirst : first = .rx i x tmp drop := by
        rw [hNew] at hHead
        exact (List.cons.inj hHead).1
      rcases (exec_pushed a s b).mem (c := .rx i x tmp drop) (by simp [hNew, hFirst]) with hPlain |
        ⟨j, _, hEq⟩ | ⟨j, silent, _, hEq⟩ | ⟨j, _, hEq | hEq⟩ | ⟨j, y, bs, drop', hEq, hFrom⟩
      · cases hPlain
      · cases hEq
      · cases hEq
      · cases hEq
      · cases hEq
      · obtain ⟨rfl, rfl, rfl, rfl⟩ := Block.rx.inj hEq
        exact hFrom

/-- Outside the drain loop no received byte is held by the driver itself. -/
theorem inFlight_of_ne (h : ∀ y tmp rest', rest ≠ .rx i y tmp false :: rest') :
    Config.inFlight ⟨s, rest⟩ i = [] := by
  unfold Config.inFlight
  split
  next j y tmp later hTodo =>
    have hj : j ≠ i := by
      rintro rfl
      exact h y tmp later hTodo
    exact if_neg hj
  next => rfl

/-- What one round of the receive loop does for the port's connection. -/
theorem pollRecv_of_sock (hSock : (s.ports i).sock = some x) :
    pollRecv i a s = (s, [.keepalive i]) ∨
      ((s.ports i).rx.count ≤ ringSize - 256 ∧
        (pollRecv i a s).2 = [.rx i x (s.net.recv x 256 a.received).1
          ((s.ats i).ringing || (s.ats i).connectPending), .recv i] ∧
        (pollRecv i a s).1 =
          if (s.ats i).ringing || (s.ats i).connectPending then
            (s.setNet (s.net.recv x 256 a.received).2).modPort i fun p =>
              { p with lastRxTick := s.tick }
          else
            ((s.setNet (s.net.recv x 256 a.received).2).modPort i fun p =>
              { p with lastRxTick := s.tick }).log
                (.received i x (s.net.recv x 256 a.received).1)) := by
  unfold pollRecv
  simp only [hSock]
  by_cases hStop : s.net.recvDataWaiting x = false ∨ ringSize - 256 < (s.ports i).rx.count ∨
      a.received ≤ 0
  · rw [if_pos hStop]
    exact .inl rfl
  · rw [if_neg hStop]
    exact .inr ⟨by omega, rfl, rfl⟩

/-- Receiving does not change which connection a port has. -/
theorem pollRecv_sock (i : PortIdx) (a : Answer) (s : Sys) (j : PortIdx) :
    ((pollRecv i a s).1.ports j).sock = (s.ports j).sock := by
  rcases pollRecv_cases i a s with hNone | ⟨x, _, _, _, hSome⟩
  · rw [hNone]
  · rw [hSome]
    by_cases hj : j = i <;> split_ifs <;> simp [hj]

theorem recv_length_le (rc : Int) : (s.net.recv x 256 rc).1.length ≤ 256 := by
  simp only [Mtcp.recv, List.length_take]
  omega

/-- What `recv()` takes is the front of what was waiting. -/
theorem recv_inbox (rc : Int) : (s.net.recv x 256 rc).1 ++
    ((s.net.recv x 256 rc).2.sockets x).inbox = (s.net.sockets x).inbox := by
  rw [recv_sockets, if_pos rfl]
  exact List.take_append_drop _ _

/-- The ring fills by at most one cell for each byte offered. -/
theorem count_putAll_le (r : RingBuf) (cells : List RxByte) :
    (r.putAll cells).count ≤ r.count + cells.length := by
  induction cells generalizing r with
  | nil => exact Nat.le_refl _
  | cons c cells ih =>
      have hPut : (r.put c).count ≤ r.count + 1 := by
        rcases Nat.lt_or_ge r.count ringSize with hRoom | hFull
        · have hSome := CircularBuffer.put_of_lt hRoom (b := c)
          unfold CircularBuffer.put? at hSome
          rw [if_neg (by omega)] at hSome
          rw [← Option.some.inj hSome]
        · rw [CircularBuffer.put_of_full hFull]
          omega
      have hRest := ih (r.put c)
      have hStep : r.putAll (c :: cells) = (r.put c).putAll cells := rfl
      rw [hStep, List.length_cons]
      omega

theorem toList_length_le (out : Option UInt8) : out.toList.length ≤ 1 := by
  cases out <;> simp

/-- The drain loop never starts a chunk the ring has no room for. -/
theorem rx_room {c : Config} (h : Reachable c) {tmp : List UInt8} {later : List Block}
    (hTodo : c.todo = .rx i x tmp false :: later) :
    (c.sys.ports i).rx.count + tmp.length ≤ ringSize := by
  revert i x tmp later
  refine h.induct (P := fun c => ∀ {i x tmp later}, c.todo = .rx i x tmp false :: later →
    (c.sys.ports i).rx.count + tmp.length ≤ ringSize) ?_ ?_ ?_ ?_
  · intro args eager tick i x tmp later hTodo
    have hSock := (install_sound args eager tick).rx i x tmp false later hTodo
    simp [install, Sys.zero, PortState.zero] at hSock
  · intro s b hEntry _ i x tmp later hTodo
    obtain ⟨rfl, _⟩ := List.cons.inj hTodo
    cases hEntry
  · intro s b rest a hReach _ ih i x tmp later hTodo
    have hRings := Sys.RingsOk.stable.reachable hReach.reachable
    rcases head_rx hReach.sound hTodo with rfl | ⟨v, rfl⟩
    · have hAfter := (run_sound hReach.sound a).rx i x tmp false later hTodo
      have hSock : (s.ports i).sock = some x := (pollRecv_sock i a s i).symm.trans hAfter
      rcases pollRecv_of_sock (a := a) hSock with hStop | ⟨hRoom, hPush, hSys⟩
      · simp [exec, hStop] at hTodo
      · simp only [exec, hPush, List.cons_append, List.cons.injEq, Block.rx.injEq] at hTodo
        obtain ⟨⟨_, _, rfl, _⟩, _⟩ := hTodo
        have hLength := recv_length_le (s := s) (x := x) a.received
        have hCount : (((exec (.recv i) a s).1.ports i).rx).count = (s.ports i).rx.count := by
          show ((pollRecv i a s).1.ports i).rx.count = _
          rw [hSys]
          split_ifs <;> simp
        rw [hCount]
        unfold ringSize at hRoom ⊢
        omega
    · have hOld : (s.ports i).rx.count + (v :: tmp).length ≤ ringSize := ih rfl
      have hCount : ((pollRx i x (v :: tmp) false a s).1.ports i).rx.count ≤
          (s.ports i).rx.count + 1 := by
        rw [pollRx_port hRings]
        have hPut := count_putAll_le (s.ports i).rx
          ((telnetFilter (s.ports i) v).out.toList.map fun b => ⟨b, some x⟩)
        have hOne := toList_length_le (telnetFilter (s.ports i) v).out
        rw [List.length_map] at hPut
        simp only [Bool.false_eq_true, ↓reduceIte]
        omega
      show ((pollRx i x (v :: tmp) false a s).1.ports i).rx.count + tmp.length ≤ ringSize
      rw [List.length_cons] at hOld
      omega
  · intro s t e todo hOut ih i x tmp later hTodo
    show (t.ports i).rx.count + tmp.length ≤ ringSize
    rw [outside_ports hOut]
    exact ih hTodo

end Loop

instance (s : Sys) (i : PortIdx) (x : SockId) : Decidable (s.Live i x) :=
  decidable_of_iff ((s.ports i).sock = some x ∧ (s.ats i).ringing = false ∧
      (s.ats i).connectPending = false)
    ⟨fun h => ⟨h.1, h.2.1, h.2.2⟩, fun h => ⟨h.sock, h.ringing, h.connectPending⟩⟩

/-- The call stays up and answered, and neither AH=0Ah nor AH=04h is executed on
its port. -/
def undisturbed (i : PortIdx) (x : SockId) (c : Config) (_ : Action) : Bool :=
  decide (c.sys.Live i x) && c.todo.head?.all fun b => decide (b.discards ≠ some i)

/-- What a stretch of an answered call does to its received bytes. -/
structure Segment (i : PortIdx) (x : SockId) (c₀ c : Config) : Prop where
  noDrop : ∀ y tmp rest, c.todo ≠ .rx i y tmp true :: rest
  flow : ∃ newer, c.sys.trace = newer ++ c₀.sys.trace ∧
    tcpBytes (reads i newer) ++ tcpBytes (c.sys.ports i).rx.contents ++
        (telnetFilterAll (c.sys.ports i) (c.inFlight i)).2 =
      tcpBytes (c₀.sys.ports i).rx.contents ++
        (telnetFilterAll (c₀.sys.ports i) (received i newer)).2 ∧
    (telnetFilterAll (c.sys.ports i) (c.inFlight i)).1.iacState =
      (telnetFilterAll (c₀.sys.ports i) (received i newer)).1.iacState ∧
    (c₀.sys.net.sockets x).inbox ++ delivered x newer =
      received i newer ++ (c.sys.net.sockets x).inbox

section Segment

variable {b : Block} {a : Answer} {s t : Sys} {rest todo todo' : List Block} {i : PortIdx}
  {x : SockId} {c₀ c : Config}

/-- A block that keeps the received bytes continues the stretch, wherever the drain loop
is not at work. -/
theorem Segment.kept (h : Segment i x c₀ ⟨s, todo⟩) (hKept : Kept i x s t)
    (hBefore : Config.inFlight ⟨s, todo⟩ i = [])
    (hAfter : ∀ y tmp drop rest, todo' ≠ .rx i y tmp drop :: rest) :
    Segment i x c₀ ⟨t, todo'⟩ := by
  obtain ⟨newer, hTrace, hFlow, hState, hInbox⟩ := h.flow
  obtain ⟨latest, hLatest, hReads, hReceived, hDelivered⟩ := hKept.trace
  refine ⟨fun y tmp rest => hAfter y tmp true rest, latest ++ newer,
    by rw [hLatest, hTrace, List.append_assoc], ?_, ?_, ?_⟩
  · rw [inFlight_of_ne fun y tmp rest => hAfter y tmp false rest]
    rw [hBefore] at hFlow
    simp only [telnetFilterAll, List.append_nil] at hFlow ⊢
    rw [reads_append, tcpBytes_append, List.append_assoc, hReads, received_append, hReceived,
      List.append_nil, hFlow]
  · rw [inFlight_of_ne fun y tmp rest => hAfter y tmp false rest, received_append, hReceived,
      List.append_nil]
    rw [hBefore] at hState
    exact hKept.state.trans hState
  · rw [delivered_append, hDelivered, List.append_nil, received_append, hReceived,
      List.append_nil, hInbox, hKept.inbox]

/-- What happens outside the driver only adds delivered bytes to the stretch. -/
theorem Segment.out {e : Outside} (h : Segment i x c₀ ⟨s, todo⟩) (hOut : outside e s = some t)
    (hx : x < s.net.next) : Segment i x c₀ ⟨t, todo⟩ := by
  obtain ⟨newer, hTrace, hFlow, hState, hInbox⟩ := h.flow
  rcases outside_cases hOut with ⟨tick, rfl⟩ | ⟨port, host, remote, rfl⟩ | ⟨y, bs, _, rfl⟩
  · exact ⟨h.noDrop, newer, hTrace, hFlow, hState, hInbox⟩
  · have hNe : x ≠ s.net.next := Nat.ne_of_lt hx
    exact ⟨h.noDrop, newer, hTrace, hFlow, hState, by simpa [Mtcp.arrive, hNe] using hInbox⟩
  · have hReads : reads i (.delivered y bs :: newer) = reads i newer := by
      simp [reads, Event.readOn]
    have hReceived : received i (.delivered y bs :: newer) = received i newer := by
      simp [received, Event.receivedOn]
    refine ⟨h.noDrop, .delivered y bs :: newer, congrArg (List.cons _) hTrace,
      by rw [hReads, hReceived]; exact hFlow, by rw [hReceived]; exact hState, ?_⟩
    rw [hReceived, ← List.singleton_append, delivered_append, ← List.append_assoc, hInbox]
    by_cases hyx : y = x
    · simp [hyx, delivered, Event.deliveredTo]
    · have hNe : ¬ x = y := fun hEq => hyx hEq.symm
      simp [hyx, hNe, delivered, Event.deliveredTo]

/-- A chunk is taken from TCP. -/
theorem Segment.recv (h : Segment i x c₀ ⟨s, .recv i :: rest⟩) (hLive : s.Live i x) :
    Segment i x c₀ ⟨(exec (.recv i) a s).1, (exec (.recv i) a s).2 ++ rest⟩ := by
  have hNone : Config.inFlight ⟨s, .recv i :: rest⟩ i = [] := rfl
  rcases pollRecv_of_sock (a := a) hLive.sock with hStop | ⟨_, hPush, hSys⟩
  · simp only [exec, hStop]
    exact h.kept (.refl s) hNone (by simp)
  · obtain ⟨newer, hTrace, hFlow, hState, hInbox⟩ := h.flow
    simp only [hLive.ringing, hLive.connectPending, Bool.or_false, Bool.false_eq_true,
      ↓reduceIte] at hPush hSys
    have hTaken := recv_inbox (s := s) (x := x) a.received
    have hParser : ((pollRecv i a s).1.ports i).iacState = (s.ports i).iacState := by
      rw [hSys]
      simp
    have hRing : ((pollRecv i a s).1.ports i).rx = (s.ports i).rx := by
      rw [hSys]
      simp
    have hLog : (pollRecv i a s).1.trace =
        .received i x (s.net.recv x 256 a.received).1 :: newer ++ c₀.sys.trace := by
      rw [hSys]
      exact congrArg (List.cons _) hTrace
    have hNet : (pollRecv i a s).1.net = (s.net.recv x 256 a.received).2 := by
      rw [hSys]
      rfl
    rw [← hNet] at hTaken
    simp only [exec, hPush]
    generalize (pollRecv i a s).1 = t at *
    generalize (s.net.recv x 256 a.received).1 = chunk at *
    have hReads : reads i (.received i x chunk :: newer) = reads i newer := by
      simp [reads, Event.readOn]
    have hReceived : received i (.received i x chunk :: newer) = received i newer ++ chunk := by
      simp [received, Event.receivedOn]
    have hDelivered : delivered x (.received i x chunk :: newer) = delivered x newer := by
      simp [delivered, Event.deliveredTo]
    have hFlight : Config.inFlight ⟨t, [.rx i x chunk false, .recv i] ++ rest⟩ i = chunk :=
      if_pos rfl
    rw [hNone] at hFlow hState
    simp only [telnetFilterAll, List.append_nil] at hFlow hState
    have hAgree := telnetFilterAll_agree (hParser.trans hState) chunk
    refine ⟨by simp, .received i x chunk :: newer, hLog, ?_, ?_, ?_⟩
    · rw [hFlight, hReads, hReceived, telnetFilterAll_append, ← List.append_assoc, ← hFlow,
        hAgree.1, hRing]
    · rw [hFlight, hReceived, telnetFilterAll_append, hAgree.2]
    · rw [hReceived, hDelivered, hInbox, List.append_assoc, hTaken]

/-- A byte of the chunk goes through the parser into the ring. -/
theorem Segment.rx {v : UInt8} {tmp : List UInt8} (hRings : s.RingsOk)
    (h : Segment i x c₀ ⟨s, .rx i x (v :: tmp) false :: rest⟩)
    (hRoom : (s.ports i).rx.count + (v :: tmp).length ≤ ringSize)
    (hInboxKept : ((pollRx i x (v :: tmp) false a s).1.net.sockets x).inbox =
      (s.net.sockets x).inbox) :
    Segment i x c₀ ⟨(pollRx i x (v :: tmp) false a s).1, .rx i x tmp false :: rest⟩ := by
  obtain ⟨newer, hTrace, hFlow, hState, hInbox⟩ := h.flow
  have hBefore : Config.inFlight ⟨s, .rx i x (v :: tmp) false :: rest⟩ i = v :: tmp := if_pos rfl
  have hAfter : Config.inFlight ⟨(pollRx i x (v :: tmp) false a s).1, .rx i x tmp false :: rest⟩ i =
      tmp := if_pos rfl
  rw [hBefore] at hFlow hState
  generalize hFiltered : telnetFilter (s.ports i) v = r at *
  have hPort := pollRx_port (i := i) (a := a) hRings x v tmp false
  rw [hFiltered] at hPort
  simp only [Bool.false_eq_true, ↓reduceIte] at hPort
  have hSame : ((pollRx i x (v :: tmp) false a s).1.ports i).iacState = r.port.iacState := by
    rw [hPort]
  have hAgree := telnetFilterAll_agree hSame tmp
  have hContents : ((pollRx i x (v :: tmp) false a s).1.ports i).rx.contents =
      (s.ports i).rx.contents ++ r.out.toList.map fun b => ⟨b, some x⟩ := by
    rw [hPort]
    cases r.out with
    | none => simp [CircularBuffer.putAll]
    | some u =>
        have hLt : (s.ports i).rx.count < ringSize := by
          rw [List.length_cons] at hRoom
          omega
        exact CircularBuffer.contents_put (hRings.rx i) hLt
  refine ⟨by simp, newer, by simpa using hTrace, ?_, ?_, by rw [hInboxKept]; exact hInbox⟩
  · rw [hAfter, hContents, tcpBytes_append, tcpBytes_map, hAgree.1, ← hFlow]
    simp only [telnetFilterAll, hFiltered, List.append_assoc]
  · rw [hAfter, hAgree.2, ← hState]
    simp only [telnetFilterAll, hFiltered]

/-- A stretch of an answered call, from any point outside the drain loop. -/
theorem delivery_run (hReach : Reachable c₀)
    (hStart : ∀ y tmp drop later, c₀.todo ≠ .rx i y tmp drop :: later)
    (run : Transition.Run step (fun c act => undisturbed i x c act) c₀ c)
    (hLive : c.sys.Live i x) : Segment i x c₀ c := by
  induction run with
  | refl =>
      refine ⟨fun y tmp rest => hStart y tmp true rest, [], rfl, ?_⟩
      rw [show c₀.inFlight i = [] from inFlight_of_ne fun y tmp rest => hStart y tmp false rest]
      simp [reads, received, delivered, tcpBytes, telnetFilterAll]
  | @tail c d act prior ok last ih =>
      simp only [undisturbed, Bool.and_eq_true, decide_eq_true_eq] at ok
      obtain ⟨hBefore, hHead⟩ := ok
      have hPrior := ih hBefore
      have hHere := hReach.extend prior
      have hRegular := Sys.Regular.stable.reachable hHere
      have hLt := hRegular.ledger.sock_lt hBefore.sock
      obtain ⟨s, todo⟩ := c
      rcases step_cases last with ⟨b, _, hEntry, rfl, rfl⟩ | ⟨a, b, rest, _, rfl, rfl⟩ |
        ⟨e, t, _, hOut, rfl⟩
      · refine hPrior.kept (.refl s) rfl fun y tmp drop rest hEq => ?_
        obtain ⟨rfl, _⟩ := List.cons.inj hEq
        cases hEntry
      · have hSound := hHere.sound
        have hRest : ∀ y tmp drop later, rest ≠ .rx i y tmp drop :: later := by
          intro y tmp drop later hEq
          exact ((List.pairwise_cons.mp hSound.stack).1 (.rx i y tmp drop) (by simp [hEq])).elim
        by_cases hRecv : b = .recv i
        · subst hRecv
          exact hPrior.recv hBefore
        by_cases hRx : ∃ y tmp drop, b = .rx i y tmp drop
        · obtain ⟨y, tmp, drop, rfl⟩ := hRx
          obtain rfl : y = x :=
            Option.some.inj ((hSound.rx i y tmp drop rest rfl).symm.trans hBefore.sock)
          cases drop with
          | true => exact absurd rfl (hPrior.noDrop y tmp rest)
          | false =>
              cases tmp with
              | nil => exact hPrior.kept (.refl s) (if_pos rfl) hRest
              | cons v tmp =>
                  have hEffect : Effect (.rx i y (v :: tmp) false) a s
                      (pollRx i y (v :: tmp) false a s).1 := .filter i y _ _ rfl hBefore.sock
                  exact hPrior.rx hRegular.rings (rx_room hHere rfl)
                    (hEffect.inbox_kept hRegular hBefore.sock (by simp))
        · have hRx' : ∀ y tmp drop, b ≠ .rx i y tmp drop := fun y tmp drop hEq =>
            hRx ⟨y, tmp, drop, hEq⟩
          have hDiscards : b.discards ≠ some i := by simpa using hHead
          refine hPrior.kept ((hSound.effects a).kept hRegular hBefore.sock hLive.sock hRecv hRx'
            hDiscards) (inFlight_of_ne fun y tmp later hEq => ?_) fun y tmp drop later hEq => ?_
          · exact hRx' y tmp false (List.cons.inj hEq).1
          · rcases head_rx hSound hEq with hOther | ⟨v, hOther⟩
            · exact hRecv hOther
            · exact hRx' y (v :: tmp) drop hOther
      · exact hPrior.out hOut hLt

end Segment

end Vmodem
