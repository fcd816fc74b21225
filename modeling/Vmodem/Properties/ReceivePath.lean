import Vmodem.Invariants.Delivery
import Vmodem.Driver.Script

/-! The receive path of an answered call: lossless and in order while the call is
up, and what its end does to bytes that were received and not yet read. -/

namespace Vmodem

/-- Not inside the drain loop of the port. -/
def Config.betweenChunks (c : Config) (i : PortIdx) : Prop :=
  ∀ y tmp drop later, c.todo ≠ .rx i y tmp drop :: later

/-- Between two entries into the driver no chunk is being parsed. -/
theorem Config.between.betweenChunks {c : Config} (h : c.between) (i : PortIdx) :
    c.betweenChunks i := by
  intro y tmp drop later hEq
  unfold Config.between at h
  rw [h] at hEq
  cases hEq

/-- Lossless first-in first-out delivery. The receive rings stay in bounds, the
drain loop never finds its ring full, and on any stretch of an answered call the
bytes of TCP origin that were read, followed by those in the ring, are what was
in the ring before followed by what the telnet parser made of the bytes received
since; and these are what TCP delivered, in order, up to what still waits there. -/
theorem receive_lossless {c₀ : Config} (hReach : Reachable c₀) :
    (∀ i, (c₀.sys.ports i).rx.head < ringSize ∧ (c₀.sys.ports i).rx.tail < ringSize ∧
      (c₀.sys.ports i).rx.count ≤ ringSize) ∧
    (∀ i x v rest later, c₀.todo = .rx i x (v :: rest) false :: later →
      (∀ cell, ((c₀.sys.ports i).rx.put? cell).isSome) ∧
        (telnetFilter (c₀.sys.ports i) v).port.iacHasPending = false) ∧
    (∀ i x c, Transition.Run step (fun c act => undisturbed i x c act) c₀ c →
      c.sys.Live i x → c₀.betweenChunks i → c.betweenChunks i →
      ∃ newer, c.sys.trace = newer ++ c₀.sys.trace ∧
        tcpBytes (reads i newer) ++ tcpBytes (c.sys.ports i).rx.contents =
          tcpBytes (c₀.sys.ports i).rx.contents ++
            (telnetFilterAll (c₀.sys.ports i) (received i newer)).2 ∧
        received i newer ++ (c.sys.net.sockets x).inbox =
          (c₀.sys.net.sockets x).inbox ++ delivered x newer) := by
  have hRings := Sys.RingsOk.stable.reachable hReach
  refine ⟨fun i => ⟨(hRings.rx i).head_lt, (hRings.rx i).tail_lt, (hRings.rx i).count_le⟩,
    fun i x v rest later hTodo => ⟨fun cell => ?_, ?_⟩, fun i x c run hLive hStart hEnd => ?_⟩
  · have hRoom := rx_room hReach hTodo
    rw [List.length_cons] at hRoom
    rw [CircularBuffer.put_of_lt (by omega)]
    rfl
  · obtain ⟨_, _, _, _, _, _, _, _, _, hPending, _⟩ := telnetFilter_frame (c₀.sys.ports i) v
    exact hPending.trans (hRings.pending i)
  · obtain ⟨newer, hTrace, hFlow, _, hInbox⟩ := (delivery_run hReach hStart run hLive).flow
    rw [inFlight_of_ne fun y tmp rest => hEnd y tmp false rest] at hFlow
    simp only [telnetFilterAll, List.append_nil] at hFlow
    exact ⟨newer, hTrace, hFlow, hInbox.symm⟩

/-- On an answered call, three chunks arrive and the application reads between
them, all with an escaped 0xFF on a chunk border. -/
def threeChunks : List Move :=
  [.outside (.deliver 1 [0x48, 0xFF]), .call (.mux .poll) { received := 2 },
    .call (.int14 0 .receive) {}, .outside (.deliver 1 [0xFF, 0x49]),
    .call (.mux .poll) { received := 1 }, .call (.int14 0 (.transmitNoWait 0x41)) {},
    .call (.mux .poll) { received := 256 }]

/-- A call that receives three chunks, with an escaped 0xFF cut in two. -/
theorem threeChunks_play :
    ((install [.listen 0 2323] true 0).play (fun _ _ => true) answeredCall).any (fun c =>
      (c.play (undisturbed 0 1) threeChunks).any fun d =>
        decide (c.todo = []) && decide (d.todo = []) && decide (d.sys.Live 0 1) &&
          decide (tcpBytes (d.sys.ports 0).rx.contents = [0x48, 0xFF, 0x49])) = true := by
  decide +kernel

/-- What was read is what was sent in those chunks. -/
theorem receive_lossless_three_chunks : ∃ (c d : Config) (newer : List Event), Reachable c ∧
    d.sys.trace = newer ++ c.sys.trace ∧
    tcpBytes (reads 0 newer) ++ [0x48, 0xFF, 0x49] =
      tcpBytes (c.sys.ports 0).rx.contents ++
        (telnetFilterAll (c.sys.ports 0) (received 0 newer)).2 := by
  obtain ⟨c, d, hReach, hRun, hp⟩ := exists_segment
    (P := fun c act => undisturbed 0 1 c act) (fun _ _ h => h) threeChunks_play
  simp only [Bool.and_eq_true, decide_eq_true_eq] at hp
  obtain ⟨⟨⟨hStart, hEnd⟩, hLive⟩, hRing⟩ := hp
  obtain ⟨newer, hTrace, hFlow, _⟩ := (receive_lossless hReach).2.2 0 1 d hRun hLive
    (Config.between.betweenChunks hStart 0) (Config.between.betweenChunks hEnd 0)
  exact ⟨c, d, newer, hReach, hTrace, hRing ▸ hFlow⟩

section Hangup

variable {i : PortIdx} {x : SockId} {a : Answer} {s : Sys} {c₀ c d : Config}

/-- The next block finds that the remote side has closed the call. -/
def detectsHangup (i : PortIdx) (x : SockId) (a : Answer) (c : Config) : Bool :=
  match c.todo with
  | .disconnected j now :: _ => decide (j = i) && remoteGone i x now a c.sys
  | _ => false

/-- Everything TCP delivered on the call since `c₀`, as the parser passes it on,
has been read or can still be read. -/
def AllReadable (i : PortIdx) (x : SockId) (c₀ d : Config) : Prop :=
  ∃ newer, d.sys.trace = newer ++ c₀.sys.trace ∧
    tcpBytes (reads i newer) ++ tcpBytes (d.sys.ports i).rx.contents =
      tcpBytes (c₀.sys.ports i).rx.contents ++
        (telnetFilterAll (c₀.sys.ports i)
          ((c₀.sys.net.sockets x).inbox ++ delivered x newer)).2

/-- The bytes received on the call that the application has not read: those in
the ring and those the parser would pass on from what still waits in TCP. -/
def unreadBytes (i : PortIdx) (x : SockId) (s : Sys) : List UInt8 :=
  tcpBytes (s.ports i).rx.contents ++ (telnetFilterAll (s.ports i) (s.net.sockets x).inbox).2

/-- The end of a call leaves nothing but text of the modem in the ring. -/
theorem pollDisconnected_spec {now : Tick} (hSock : (s.ports i).sock = some x)
    (hGone : remoteGone i x now a s) :
    tcpBytes ((pollDisconnected i now a s).ports i).rx.contents = [] ∧
      ∃ newer, (pollDisconnected i now a s).trace = newer ++ s.trace ∧ reads i newer = [] ∧
        delivered x newer = [] := by
  have hEq : pollDisconnected i now a s = enterIdleMode i
      (atSendNoCarrier i (clearRx i (clearRemote i (closeSock i .remote s)))) := by
    simp only [pollDisconnected, hSock, hGone, ↓reduceIte]
  have hQuiet := atSendNoCarrier_quiet i (clearRx i (clearRemote i (closeSock i .remote s)))
  rw [hEq]
  generalize atSendNoCarrier i (clearRx i (clearRemote i (closeSock i .remote s))) = t at hQuiet ⊢
  constructor
  · obtain ⟨text, hRx⟩ := hQuiet.rx i
    have hEmpty : ((clearRx i (clearRemote i (closeSock i .remote s))).ports i).rx =
        (s.ports i).rx.reset := by simp
    have hWell := CircularBuffer.WellFormed.reset (s.ports i).rx (by decide : 0 < ringSize)
    rw [hEmpty] at hRx
    obtain ⟨kept, hSub, hContents⟩ := CircularBuffer.contents_putAll hWell (modemText text)
    have hRing : ((enterIdleMode i t).ports i).rx = (t.ports i).rx := by simp [enterIdleMode]
    rw [hRing, hRx, hContents, CircularBuffer.contents_reset, List.nil_append]
    exact tcpBytes_modemText hSub
  · obtain ⟨minor, hMinorTrace, hMinor⟩ := hQuiet.trace
    obtain ⟨freed, hFreedTrace, hFreed⟩ := sockCloseFast_trace (s := s) x
    -- Neither the close nor the text of the modem is traffic.
    have hSilent : ∀ e ∈ minor ++ .closed i x .remote :: freed,
        e.readOn i = none ∧ e.deliveredTo x = [] := by
      intro e he
      rcases List.mem_append.mp he with hMin | hClose
      · have hEvent := hMinor e hMin
        cases e <;> first | exact ⟨rfl, rfl⟩ | exact hEvent.elim
      · rcases List.mem_cons.mp hClose with rfl | hFree
        · exact ⟨rfl, rfl⟩
        · rcases hFreed e hFree with rfl | ⟨rfl, _⟩ <;> exact ⟨rfl, rfl⟩
    refine ⟨minor ++ .closed i x .remote :: freed, ?_, reads_eq_nil fun e he => (hSilent e he).1,
      delivered_eq_nil fun e he => (hSilent e he).2⟩
    show t.trace = _
    rw [hMinorTrace, clearRx_frame i _ |>.2.2.2.2.2.2.2, clearRemote_frame i _ |>.2.2.2.2.2.2.2]
    simp [closeSock, hSock, hFreedTrace]

/-- At the moment a hangup is detected, what was delivered is what was read and
what is unread; after it the ring holds nothing of the call. -/
theorem hangup_balance (hReach : Reachable c₀) (hStart : c₀.betweenChunks i)
    (run : Transition.Run step (fun c act => undisturbed i x c act) c₀ c)
    (hLive : c.sys.Live i x) (hDetect : detectsHangup i x a c) (hStep : step (.run a) c = some d) :
    tcpBytes (d.sys.ports i).rx.contents = [] ∧
      ∃ newer, d.sys.trace = newer ++ c₀.sys.trace ∧
        tcpBytes (reads i newer) ++ unreadBytes i x c.sys =
          tcpBytes (c₀.sys.ports i).rx.contents ++
            (telnetFilterAll (c₀.sys.ports i)
              ((c₀.sys.net.sockets x).inbox ++ delivered x newer)).2 := by
  obtain ⟨s, todo⟩ := c
  obtain ⟨now, rest, rfl, hGone⟩ : ∃ now rest, todo = .disconnected i now :: rest ∧
      remoteGone i x now a s := by
    unfold detectsHangup at hDetect
    split at hDetect
    next j now rest hTodo =>
      simp only [Bool.and_eq_true, decide_eq_true_eq] at hDetect
      obtain ⟨rfl, hGone⟩ := hDetect
      exact ⟨now, rest, hTodo, hGone⟩
    next => cases hDetect
  obtain rfl := Option.some.inj hStep
  obtain ⟨newer, hTrace, hFlow, hState, hInbox⟩ := (delivery_run hReach hStart run hLive).flow
  obtain ⟨hRing, latest, hLatest, hReads, hDelivered⟩ := pollDisconnected_spec hLive.sock hGone
  have hNone : Config.inFlight ⟨s, .disconnected i now :: rest⟩ i = [] := rfl
  rw [hNone] at hFlow hState
  simp only [telnetFilterAll, List.append_nil] at hFlow hState
  refine ⟨hRing, latest ++ newer, ?_, ?_⟩
  · show (pollDisconnected i now a s).trace = _
    rw [hLatest, List.append_assoc]
    exact congrArg (latest ++ ·) hTrace
  · have hAgree := telnetFilterAll_agree hState (s.net.sockets x).inbox
    rw [reads_append, hReads, List.append_nil, delivered_append, hDelivered, List.append_nil,
      hInbox, telnetFilterAll_append, ← hAgree.1, unreadBytes, ← List.append_assoc,
      ← List.append_assoc, hFlow]

/-- A hangup loses nothing exactly when, at the moment it is detected, nothing
is unread: the receive ring holds no byte of the call and TCP none the parser
would pass on. -/
theorem hangup_readable_iff (hReach : Reachable c₀) (hStart : c₀.betweenChunks i)
    (run : Transition.Run step (fun c act => undisturbed i x c act) c₀ c)
    (hLive : c.sys.Live i x) (hDetect : detectsHangup i x a c) (hStep : step (.run a) c = some d) :
    AllReadable i x c₀ d ↔ unreadBytes i x c.sys = [] := by
  obtain ⟨hRing, newer, hTrace, hBalance⟩ := hangup_balance hReach hStart run hLive hDetect hStep
  constructor
  · rintro ⟨newer', hTrace', hAll⟩
    obtain rfl := List.append_cancel_right (hTrace'.symm.trans hTrace)
    rw [hRing, List.append_nil, ← hBalance, List.self_eq_append_right] at hAll
    exact hAll
  · intro hNone
    refine ⟨newer, hTrace, ?_⟩
    rw [hRing, ← hBalance, hNone]

end Hangup

/-- The remote side sends a byte and closes; one poll cycle takes the byte into
the ring and goes on to the disconnect test. -/
def byteThenClose : List Move :=
  [.outside (.deliver 1 [0x48]), .enter .int28] ++ List.replicate 15 (.run { received := 1 })

/-- The same, but the application empties the ring with AH=18h before the close is seen. -/
def byteReadThenClose : List Move :=
  [.outside (.deliver 1 [0x48]), .call .int28 { received := 1 },
    .call (.int14 0 (.blockRead 256)) {}, .enter .int28] ++ List.replicate 12 (.run {})

/-- A byte that was not read when the peer closed. -/
theorem byteThenClose_play :
    ((install [.listen 0 2323] true 0).play (fun _ _ => true) answeredCall).any (fun c =>
      (c.play (undisturbed 0 1) byteThenClose).any fun d =>
        decide (c.todo = []) && decide (d.sys.Live 0 1) && detectsHangup 0 1 { closed := true } d &&
          decide (unreadBytes 0 1 d.sys ≠ [])) = true := by
  decide +kernel

/-- A byte that was read before the peer closed. -/
theorem byteReadThenClose_play :
    ((install [.listen 0 2323] true 0).play (fun _ _ => true) answeredCall).any (fun c =>
      (c.play (undisturbed 0 1) byteReadThenClose).any fun d =>
        decide (c.todo = []) && decide (d.sys.Live 0 1) && detectsHangup 0 1 { closed := true } d &&
          decide (unreadBytes 0 1 d.sys = []) &&
          decide (.received 0 1 [0x48] ∈ d.sys.trace ∧ .read 0 ⟨0x48, some 1⟩ ∈ d.sys.trace)) =
            true := by
  decide +kernel

/-- A detection of the hangup is a step of the machine. -/
theorem detectsHangup_step {i : PortIdx} {x : SockId} {a : Answer} {c : Config}
    (h : detectsHangup i x a c) : ∃ d, step (.run a) c = some d := by
  unfold detectsHangup at h
  split at h
  next j now rest hTodo => simp [step, hTodo]
  next => cases h

/-- The byte is discarded with the ring before the application could read it. -/
theorem hangup_discards_unread : ¬ ∀ i x a (c₀ c d : Config), Reachable c₀ → c₀.between →
    Transition.Run step (fun c act => undisturbed i x c act) c₀ c → c.sys.Live i x →
    detectsHangup i x a c → step (.run a) c = some d → AllReadable i x c₀ d := by
  intro hAll
  obtain ⟨c₀, c, hReach, hRun, hp⟩ := exists_segment
    (P := fun c act => undisturbed 0 1 c act) (fun _ _ h => h) byteThenClose_play
  simp only [Bool.and_eq_true, decide_eq_true_eq] at hp
  obtain ⟨⟨⟨hStart, hLive⟩, hDetect⟩, hUnread⟩ := hp
  obtain ⟨d, hStep⟩ := detectsHangup_step hDetect
  obtain ⟨newer, hTrace, hReadable⟩ := hAll 0 1 _ c₀ c d hReach hStart hRun hLive hDetect hStep
  obtain ⟨hRing, newer', hTrace', hBalance⟩ := hangup_balance hReach
    (Config.between.betweenChunks hStart 0) hRun hLive hDetect hStep
  obtain rfl := List.append_cancel_right (hTrace.symm.trans hTrace')
  rw [hRing, List.append_nil, ← hBalance, List.self_eq_append_right] at hReadable
  exact hUnread hReadable

/-- A byte that arrived and was read before the close is not lost. -/
theorem hangup_readable_byte_read : ∃ c₀ c d : Config, Reachable c₀ ∧
    (.received 0 1 [0x48] ∈ c.sys.trace ∧ .read 0 ⟨0x48, some 1⟩ ∈ c.sys.trace) ∧
    step (.run { closed := true }) c = some d ∧ AllReadable 0 1 c₀ d := by
  obtain ⟨c₀, c, hReach, hRun, hp⟩ := exists_segment
    (P := fun c act => undisturbed 0 1 c act) (fun _ _ h => h) byteReadThenClose_play
  simp only [Bool.and_eq_true, decide_eq_true_eq] at hp
  obtain ⟨⟨⟨⟨hStart, hLive⟩, hDetect⟩, hNone⟩, hRead⟩ := hp
  obtain ⟨d, hStep⟩ := detectsHangup_step hDetect
  exact ⟨c₀, c, d, hReach, hRead, hStep,
    (hangup_readable_iff hReach (Config.between.betweenChunks hStart 0) hRun hLive hDetect
      hStep).mpr hNone⟩

end Vmodem
