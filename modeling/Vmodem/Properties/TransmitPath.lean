import Vmodem.Invariants.Acceptance
import Vmodem.Driver.Script

/-! The transmit path. What is queued on the socket of a call, what waits in the
shared buffer and what waits in the transmit ring make up the bytes accepted for
it, as long as no other port's flush takes the shared buffer away. -/

namespace Vmodem

/-- The application's part of the bytes queued on a socket. -/
def dataBytes (wire : List WireByte) : List WireByte :=
  wire.filter fun w => decide (w.origin ≠ .control)

/-- No port's flush fills the shared buffer while it holds unsent bytes of
another port's call. -/
def keepsLeftovers (c : Config) : Action → Bool
  | .run a =>
      (List.finRange 4).all fun i => (List.finRange 4).all fun j =>
        !decide (c.todo.head? = some (.flush i)) || !displaces i j a c.sys ||
          (c.sys.ports j).sock.isNone
  | _ => true

/-- Nothing accepted for a call in progress is lost, doubled or reordered. -/
def Sys.Lossless (s : Sys) : Prop :=
  ∀ i x bs, (s.ports i).sock = some x → accepted i s.trace = some bs →
    dataBytes (s.net.sockets x).wire ++ s.output i = bs.flatMap escape

section Lossless

variable {b : Block} {a : Answer} {s t : Sys} {i : PortIdx}

theorem dataBytes_append (left right : List WireByte) :
    dataBytes (left ++ right) = dataBytes left ++ dataBytes right :=
  List.filter_append ..

theorem dataBytes_control {out : List WireByte} (h : AllControl out) : dataBytes out = [] :=
  List.filter_eq_nil_iff.mpr fun w hw => by simp [h w hw]

theorem dataBytes_escape {bs : List TxByte} {out : List WireByte}
    (h : ∀ w ∈ out, w ∈ bs.flatMap escape) : dataBytes out = out := by
  refine List.filter_eq_self.mpr fun w hw => ?_
  obtain ⟨v, _, hv⟩ := List.mem_flatMap.mp (h w hw)
  unfold escape at hv
  split_ifs at hv <;> simp only [List.mem_cons, List.not_mem_nil, or_false] at hv
  · rcases hv with rfl | rfl <;> rfl
  · subst hv
    rfl

/-- A flush moves accepted bytes along. -/
theorem Sys.Lossless.flush (hs : s.Lossless) (hRegular : s.Regular)
    (hKeeps : ∀ j, displaces i j a s → (s.ports j).sock = none) :
    (fossilFlushTx i a s).Lossless := by
  obtain ⟨sent, hOwn, _, hOthers, hWire⟩ := fossilFlushTx_spec hRegular.rings i a
  intro j y bs hAttached hAccepted
  have hSock : (s.ports j).sock = some y := by simpa using hAttached
  have hOld := hs j y bs hSock (by simpa using hAccepted)
  rw [hWire y]
  by_cases hj : j = i
  · subst hj
    rw [if_pos hSock, dataBytes_append]
    rw [← hOwn] at hOld
    have hData : dataBytes sent = sent :=
      dataBytes_escape fun w hw => hOld ▸ List.mem_append_right _ (List.mem_append_left _ hw)
    rw [hData, List.append_assoc, hOld]
  · have hOther : (s.ports i).sock ≠ some y := fun hi => hj (hRegular.ledger.sock_inj hSock hi)
    rw [if_neg hOther, List.append_nil]
    rcases hOthers j hj with hSame | ⟨hLost, _⟩
    · rw [hSame]
      exact hOld
    · simp [hKeeps j hLost] at hSock

/-- An effect loses no byte, unless a flush displaces those of a port in a call. -/
theorem Effect.lossless (h : Effect b a s t) (hRegular : s.Regular)
    (hKeeps : ∀ i j, b = .flush i → displaces i j a s → (s.ports j).sock = none)
    (hs : s.Lossless) : t.Lossless := by
  cases h.transmit with
  | idle hIdle =>
      intro i x bs hSock hAccepted
      have hOld : (s.ports i).sock = some x := by
        rcases hIdle.sock i with hSame | hNone
        · rwa [hSame] at hSock
        · simp [hNone] at hSock
      obtain ⟨out, hWire, hControl⟩ := hIdle.wire h hRegular (hRegular.ledger.sock_lt hOld)
      rw [hWire, dataBytes_append, dataBytes_control hControl, List.append_nil, hIdle.output]
      exact hs i x bs hOld (hIdle.accepted ▸ hAccepted)
  | store i x v hSock hRoom ht =>
      subst ht
      intro j y bs hSock' hAccepted
      have hSock' : (s.ports j).sock = some y := hSock'
      rw [stored_output (hRegular.rings.tx i) hRoom]
      have hAccepted : accepted j (.stored i ⟨v, i, x⟩ :: s.trace) = some bs := hAccepted
      by_cases hj : j = i
      · subst hj
        simp only [accepted, ↓reduceIte, Option.map_eq_some_iff] at hAccepted
        obtain ⟨older, hBefore, rfl⟩ := hAccepted
        rw [if_pos rfl, ← List.append_assoc]
        have hOld : dataBytes ((s.stored j x v).net.sockets y).wire ++ s.output j =
            older.flatMap escape := hs j y older hSock' hBefore
        rw [hOld]
        simp
      · have hNe : ¬ i = j := fun hEq => hj hEq.symm
        rw [if_neg hj]
        exact hs j y bs hSock' (by simpa [accepted, hNe] using hAccepted)
  | purge i hb ht =>
      subst ht
      intro j y bs hSock hAccepted
      have hAccepted : accepted j (.purged i :: s.trace) = some bs := by
        simpa [Sys.purged] using hAccepted
      rw [purged_output]
      by_cases hj : j = i
      · simp [accepted, hj] at hAccepted
      · have hNe : ¬ i = j := fun hEq => hj hEq.symm
        rw [if_neg hj]
        have hOld := hs j y bs (by simpa [Sys.purged] using hSock)
          (by simpa [accepted, hNe] using hAccepted)
        simpa [Sys.purged] using hOld
  | flush i hb ht =>
      subst ht
      exact hs.flush hRegular fun j => hKeeps i j hb
  | attach i x net hb hNone hAccept ht =>
      subst ht
      have hPending := accept_mem hAccept
      obtain ⟨k, _, rfl⟩ := accept_eq_some hAccept
      intro j y bs hSock hAccepted
      rw [acceptCall_output]
      have hAccepted : accepted j (.attached i x :: s.trace) = some bs := by
        simpa using hAccepted
      by_cases hj : j = i
      · subst hj
        obtain rfl : x = y := by simpa [telnetReset] using hSock
        obtain rfl : [] = bs := by simpa [accepted] using hAccepted
        simp [hRegular.unsent x hPending, dataBytes]
      · have hNe : ¬ i = j := fun hEq => hj hEq.symm
        rw [if_neg hj]
        have hOld := hs j y bs (by simpa [hj] using hSock)
          (by simpa [accepted, hNe] using hAccepted)
        simpa using hOld

/-- Blocks that do not flush lose none. The induction is on their effects. -/
theorem Effects.lossless (h : Effects b a s t) (hRegular : s.Regular) (hb : ∀ i, b ≠ .flush i)
    (hs : s.Lossless) : t.Lossless := by
  suffices hBoth : t.Regular ∧ t.Lossless from hBoth.2
  induction h with
  | refl => exact ⟨hRegular, hs⟩
  | tail _ last ih =>
      exact ⟨Sys.Regular.stable.effect last ih.1,
        last.lossless ih.1 (fun i j hFlush => absurd hFlush (hb i)) ih.2⟩

theorem Sys.Lossless.out {e : Outside} (hOut : outside e s = some t) (hRegular : s.Regular)
    (hs : s.Lossless) : t.Lossless := by
  intro i x bs hSock hAccepted
  have hOld : (s.ports i).sock = some x := by rwa [outside_ports hOut] at hSock
  rw [hRegular.ledger.outside_wire hOut hOld]
  rcases outside_cases hOut with ⟨tick, rfl⟩ | ⟨port, host, remote, rfl⟩ | ⟨y, cs, _, rfl⟩
  all_goals exact hs i x bs hOld hAccepted

theorem lossless_of_reachable {c : Config}
    (h : ReachableBy (fun c act => keepsLeftovers c act) c) : c.sys.Lossless := by
  suffices hBoth : c.sys.Regular ∧ c.sys.Lossless from hBoth.2
  refine h.induct (P := fun c => c.sys.Regular ∧ c.sys.Lossless) (fun args eager tick => ?_)
    (fun s b _ hs => hs) (fun s b rest a hReach ok hs => ?_)
    fun s t e todo hOut hs => ⟨Sys.Regular.stable.out hOut hs.1, hs.2.out hOut hs.1⟩
  · refine ⟨Sys.Regular.stable.start tick, fun i x bs hSock => ?_⟩
    simp [install, Sys.zero, PortState.zero] at hSock
  · obtain ⟨hRegular, hLossless⟩ := hs
    have hEffects := hReach.sound.effects a
    refine ⟨Sys.Regular.stable.effects hEffects hRegular, ?_⟩
    by_cases hb : ∃ i, b = .flush i
    · obtain ⟨i, rfl⟩ := hb
      refine hLossless.flush hRegular fun j hLost => ?_
      have hKept := List.all_eq_true.mp
        (List.all_eq_true.mp ok i (List.mem_finRange i)) j (List.mem_finRange j)
      simpa [hLost] using hKept
    · exact hEffects.lossless hRegular (fun i hFlush => hb ⟨i, hFlush⟩) hLossless

end Lossless

/-- How the application knows which of its bytes were accepted. -/
structure Config.Acknowledges (c : Config) : Prop where
  /-- AH=01h in data mode, directly after a status word with THRE set. -/
  transmit : ∀ i v a, (c.sys.ports i).initialized → Ready i c.sys.trace →
    (atInput i v (c.sys.modPort i fun p => { p with lastTxTick := c.sys.tick })).2 = .pass →
    Accepts i v c.sys (exec (.int14 i (.transmit v)) a c.sys).1
  /-- AH=0Bh in data mode returns 1 for an accepted byte and 0 for any other. -/
  transmitNoWait : ∀ i v a, (c.sys.ports i).initialized → (atInput i v c.sys).2 = .pass →
    ((exec (.int14 i (.transmitNoWait v)) a c.sys).2 = [.ret i 1] ∧
      Accepts i v c.sys (exec (.int14 i (.transmitNoWait v)) a c.sys).1) ∨
    ((exec (.int14 i (.transmitNoWait v)) a c.sys).2 = [.ret i 0] ∧
      accepted i (exec (.int14 i (.transmitNoWait v)) a c.sys).1.trace = accepted i c.sys.trace)
  /-- AH=19h returns the number of bytes accepted from the front of its buffer. -/
  blockWrite : ∀ i x data d n, c.todo = [.int14 i (.blockWrite data)] →
    (c.sys.ports i).initialized → (c.sys.ports i).sock = some x →
    Transition.Run step (fun c act => sameCall c act) c d → d.todo = [.ret i n] →
    ∃ k, k ≤ data.length ∧ n = .ofNat k ∧
      accepted i d.sys.trace =
        (accepted i c.sys.trace).map (· ++ (data.take k).map fun v => ⟨v, i, x⟩)

/-- In every reachable state a byte the application was told to be taken is in the ring.
-/
theorem acknowledges_of_reachable {c : Config} (h : Reachable c) : c.Acknowledges where
  transmit i v a hInit hReady hPass := by
    have hPromises := (Sys.KeepsPromises.stable.reachable h).2
    show Accepts i v c.sys (int14 i (.transmit v) c.sys).1
    unfold int14
    rw [if_pos hInit]
    exact transmit_accepts (hPromises i hReady) hPass
  transmitNoWait i v a hInit hPass := by
    have hExec : exec (.int14 i (.transmitNoWait v)) a c.sys = transmitNoWait i v c.sys := by
      show int14 i (.transmitNoWait v) c.sys = _
      unfold int14
      rw [if_pos hInit]
    rw [hExec]
    exact transmitNoWait_accepts hPass
  blockWrite i x data d n hTodo hInit hSock run hRet := by
    have hMode : (c.sys.ports i).mode = .conn := (h.sound.modes i).mpr (by rw [hSock]; rfl)
    have hCall : callSock i c.sys = some x := by
      unfold callSock
      rw [if_pos hMode, hSock]
    obtain ⟨k, hWriting⟩ := blockWrite_counts hTodo hInit hCall run
    have hLeft := hWriting.todo
    rw [hRet] at hLeft
    cases hLeft with
    | ret k => exact ⟨k, hWriting.bound, rfl, hWriting.told⟩

/-- No output is lost, doubled or reordered, in every run in which no flush takes
the shared buffer from another call: the data queued on the socket of a call, its
unsent bytes and its transmit ring make up the bytes accepted for it. -/
theorem output_lossless {c : Config} (h : ReachableBy (fun c act => keepsLeftovers c act) c) :
    (∀ i x bs, (c.sys.ports i).sock = some x → accepted i c.sys.trace = some bs →
      dataBytes (c.sys.net.sockets x).wire ++
        (c.sys.unsent i ++ (c.sys.fossils i).tx.contents.flatMap escape) = bs.flatMap escape) ∧
    c.Acknowledges :=
  ⟨lossless_of_reachable h, acknowledges_of_reachable h.reachable⟩

/-- Two callers on two standalone ports, both answered. -/
def twoLines : List Move :=
  [.finish {}, .call (.int14 0 .init) {}, .call (.int14 1 .init) {},
    .outside (.arrive 0 0x0A000001 5000), .outside (.arrive 1 0x0A000002 5001),
    .call (.mux .poll) { accepted := some 0 },
    .call (.int14 0 (.dtr 1)) {}, .call (.int14 1 (.dtr 1)) {}, .outside (.ticks 40),
    .call (.mux .poll) {}]

/-- Both ports send; the socket of the first takes one byte of two. -/
def firstSendsPart : List Move :=
  [.call (.int14 0 (.blockWrite [0x41, 0x42])) { sentBatch := 1 },
    .call (.int14 1 (.transmitNoWait 0x43)) {}]

/-- The flush of the second line throws the rest of the first one's bytes away. -/
theorem displaced_play :
    ((install [.listen 0 2323, .listen 1 2324] true 0).play anyStep
      (twoLines ++ firstSendsPart ++ [.call (.int14 1 .flush) { sentBatch := 1 }])).any (fun c =>
        decide (c.todo = []) && decide ((c.sys.ports 0).sock = some 2) &&
          decide (accepted 0 c.sys.trace = some [⟨0x41, 0, 2⟩, ⟨0x42, 0, 2⟩]) &&
          decide (dataBytes (c.sys.net.sockets 2).wire = [⟨0x41, .app ⟨0x41, 0, 2⟩⟩]) &&
          decide (c.sys.output 0 = [])) = true := by
  decide +kernel

/-- The first line's rest is sent before the second line is flushed. -/
theorem resumed_play :
    ((install [.listen 0 2323, .listen 1 2324] true 0).play keepsLeftovers
      (twoLines ++ firstSendsPart ++ [.call (.int14 0 .flush) { sent := 1 },
        .call (.int14 1 .flush) { sentBatch := 1 }])).any (fun c =>
        decide ((c.sys.ports 0).sock = some 2) && decide ((c.sys.ports 1).sock = some 3) &&
          decide (accepted 0 c.sys.trace = some [⟨0x41, 0, 2⟩, ⟨0x42, 0, 2⟩]) &&
          decide (accepted 1 c.sys.trace = some [⟨0x43, 1, 3⟩])) = true := by
  decide +kernel

/-- The second byte of port 0 is lost when port 1 is flushed. -/
theorem output_lossless_displaced :
    ¬ ∀ c, Reachable c → c.between → ∀ i x bs, (c.sys.ports i).sock = some x →
      accepted i c.sys.trace = some bs →
      dataBytes (c.sys.net.sockets x).wire ++
        (c.sys.unsent i ++ (c.sys.fossils i).tx.contents.flatMap escape) = bs.flatMap escape := by
  intro hAll
  obtain ⟨c, hReach, hc⟩ := exists_reachable displaced_play
  simp only [Bool.and_eq_true, decide_eq_true_eq] at hc
  obtain ⟨⟨⟨⟨hTodo, hSock⟩, hAccepted⟩, hWire⟩, hOutput⟩ := hc
  have hEqual := hAll c hReach hTodo 0 2 _ hSock hAccepted
  rw [hWire, show c.sys.unsent 0 ++ (c.sys.fossils 0).tx.contents.flatMap escape = [] from hOutput]
    at hEqual
  exact absurd hEqual (by decide)

theorem output_lossless_resumed : ∃ c : Config,
    dataBytes (c.sys.net.sockets 2).wire ++
        (c.sys.unsent 0 ++ (c.sys.fossils 0).tx.contents.flatMap escape) =
      [⟨0x41, .app ⟨0x41, 0, 2⟩⟩, ⟨0x42, .app ⟨0x42, 0, 2⟩⟩] ∧
    dataBytes (c.sys.net.sockets 3).wire ++
        (c.sys.unsent 1 ++ (c.sys.fossils 1).tx.contents.flatMap escape) =
      [⟨0x43, .app ⟨0x43, 1, 3⟩⟩] := by
  obtain ⟨c, hReach, hc⟩ := exists_of_play (P := fun c act => keepsLeftovers c act)
    (fun _ _ h => h) resumed_play
  simp only [Bool.and_eq_true, decide_eq_true_eq] at hc
  obtain ⟨⟨⟨hFirst, hSecond⟩, hAcceptedFirst⟩, hAcceptedSecond⟩ := hc
  obtain ⟨hLossless, _⟩ := output_lossless hReach
  exact ⟨c, hLossless 0 2 _ hFirst hAcceptedFirst, hLossless 1 3 _ hSecond hAcceptedSecond⟩

end Vmodem
