import Vmodem.Client.Sockets
import Vmodem.Invariants.Handles

/-! `send` and `recv` of `vsocket.c` move bytes faithfully: what `send` reports is what
was queued on the connection, and what `recv` returns is what TCP delivered. -/

namespace Vmodem

section Interludes

variable {ok : Config → Action → Bool} {others : Block → ExtIdx → Bool} {moves : List Move}
  {a : Answer} {s t : Sys} {k : ExtIdx} {x : SockId}

/-- A state between two calls of a program whose handle refers to this connection. -/
structure Sys.Serves (s : Sys) (k : ExtIdx) (x : SockId) : Prop where
  reach : Reachable ⟨s, []⟩
  held : s.HeldBy k x
  current : s.Current k x

/-- What happens between two calls of the library is a run of the driver. -/
theorem interlude_run (h : interlude ok moves s = some t) :
    Transition.Run step (fun c act => ok c act) ⟨s, []⟩ ⟨t, []⟩ := by
  obtain ⟨⟨u, todo⟩, hPlay, hEnd⟩ := Option.bind_eq_some_iff.mp h
  split_ifs at hEnd with hDone
  obtain rfl := Option.some.inj hEnd
  obtain rfl : todo = [] := hDone
  exact Config.play_run (fun _ _ hOk => hOk) hPlay

/-- In between nobody else touches a connection that is used exclusively. -/
theorem Sys.Serves.interlude (h : s.Serves k x)
    (hInterlude : interlude (exclusive k others) moves s = some t) :
    t.Serves k x ∧ ((∀ b, b.sendsOn k → others b k) → SameWire x s t) ∧
      ((∀ b, b.receivesOn k → others b k) → InboxGrew x s t) := by
  have hRun := interlude_run hInterlude
  obtain ⟨hHeld, hWire, hInbox⟩ := h.reach.rests hRun h.held
  exact ⟨⟨h.reach.extend hRun, hHeld, h.reach.current hRun h.current⟩, hWire, hInbox⟩

/-- A function of the driver that is done at once. -/
theorem reachable_mux (h : Reachable ⟨s, []⟩) {m : Mux} (hDone : (mux m a s).2 = []) :
    Reachable ⟨(mux m a s).1, []⟩ := by
  have hCall : step (.call (.mux m)) ⟨s, []⟩ = some ⟨s, [.mux m]⟩ := by simp [step, Block.entry]
  have hRun : step (.run a) ⟨s, [.mux m]⟩ = some ⟨(mux m a s).1, []⟩ := by
    simp [step, exec, hDone]
  have run : Transition.Run step (fun _ _ => True) ⟨s, []⟩ ⟨(mux m a s).1, []⟩ :=
    ((Transition.Run.refl _).tail trivial hCall).tail trivial hRun
  exact h.extend run

/-- A call of its own handle touches it only as a send or a receive does. -/
theorem Sys.Serves.called (h : s.Serves k x) {m : Mux} (hDone : (mux m a s).2 = [])
    (hAlloc : m ≠ .sockAlloc) :
    (mux m a s).1.Serves k x ∧ ((Block.mux m).sendsOn k = false → SameWire x s (mux m a s).1) ∧
      ((Block.mux m).receivesOn k = false → InboxGrew x s (mux m a s).1) := by
  have hEffects := mux_effects m a s
  have hRests := hEffects.rests (Sys.Regular.stable.reachable h.reach) h.held
  refine ⟨⟨reachable_mux h.reach hDone, hRests.held, hEffects.current ?_ h.current⟩,
    hRests.wire, hRests.inbox⟩
  simpa using hAlloc

end Interludes

section Send

/-- Bytes as the functions of the driver queue them. -/
def controls (bytes : List UInt8) : List WireByte := bytes.map fun b => ⟨b, .control⟩

variable {a : Answer} {s : Sys} {k : ExtIdx} {x : SockId}

/-- The driver queues a prefix of at most 256 bytes and reports its length. -/
theorem Sys.Serves.sockSend (h : s.Serves k x) (data : List UInt8) :
    let t := (mux (.sockSend k data) a s).1
    t.Serves k x ∧ t.muxSockResult.toNat ≤ data.length ∧
      (t.net.sockets x).wire =
        (s.net.sockets x).wire ++ controls (data.take t.muxSockResult.toNat) := by
  intro t
  refine ⟨(h.called rfl (by simp)).1, ?_⟩
  show (Vmodem.sockSend k data a s).muxSockResult.toNat ≤ data.length ∧
    ((Vmodem.sockSend k data a s).net.sockets x).wire = (s.net.sockets x).wire ++
      controls (data.take (Vmodem.sockSend k data a s).muxSockResult.toNat)
  unfold Vmodem.sockSend
  split
  next => simp [controls]
  next y hSock =>
    obtain rfl := h.current y hSock
    split_ifs
    · have hOffered : (controls (data.take 256)).length = min 256 data.length := by
        simp [controls]
      have hTaken : ((taken (controls (data.take 256)) a.sent).toUInt16).toNat =
          taken (controls (data.take 256)) a.sent := by
        have hSize : taken (controls (data.take 256)) a.sent < UInt16.size := by
          have hLe : taken (controls (data.take 256)) a.sent ≤ 256 := by
            unfold taken
            omega
          exact Nat.lt_of_le_of_lt hLe (by decide)
        exact UInt16.toNat_ofNat_of_lt' hSize
      have hQueued : (controls (data.take 256)).take a.sent.toNat =
          controls (data.take (taken (controls (data.take 256)) a.sent)) := by
        simp only [controls, taken, ← List.map_take, List.take_take, List.length_map,
          List.length_take]
        congr 1
        rw [List.take_eq_take_iff]
        omega
      show ((taken (controls (data.take 256)) a.sent).toUInt16).toNat ≤ data.length ∧
        ((s.net.send y (controls (data.take 256)) a.sent).sockets y).wire = _ ++ controls (data.take
          ((taken (controls (data.take 256)) a.sent).toUInt16).toNat)
      rw [hTaken, ← hQueued]
      refine ⟨?_, by simp⟩
      unfold taken
      omega
    · simp [controls]

/-- A count cut to 16 bits does not exceed what was asked for. -/
theorem min_toUInt16_le (m : Nat) (c : UInt16) : (min m.toUInt16 c).toNat ≤ m := by
  have hMod : m.toUInt16.toNat ≤ m := by simpa using Nat.mod_le m _
  show (if m.toUInt16 ≤ c then m.toUInt16 else c).toNat ≤ m
  split_ifs with hLe
  · exact hMod
  · exact (Nat.le_of_not_le (UInt16.le_iff_toNat_le.not.mp hLe)).trans hMod

/-- Staged bytes are read back from the staging buffer. -/
theorem stage_take (v : Client) {bytes : List UInt8} {n : Nat} (h : bytes.length = n) :
    (v.stage bytes).staging.take n = bytes := by
  simp [Client.stage, ← h]

/-- The rule for the loop of `send`: an invariant of the bytes sent so far holds at the
end for the bytes that `send` reports. -/
theorem sendLoop_rule {ok : Config → Action → Bool} {len : Nat} {buf : List UInt8}
    {I : Nat → Sys → Prop} (hBuf : len ≤ buf.length)
    (hInterlude : ∀ {total moves s t}, I total s → interlude ok moves s = some t → I total t)
    (hSend : ∀ {total s a} (size : Nat), total + size ≤ len → I total s →
      let t := (mux (.sockSend k ((buf.drop total).take size)) a s).1
      total + t.muxSockResult.toNat ≤ len ∧ I (total + t.muxSockResult.toNat) t)
    (hStatus : ∀ {total s a}, I total s → I total (mux (.sockStatus k) a s).1)
    {passes : List SendPass} {total retries : Nat} {v w : Client} {s t : Sys} {n : Int}
    (hTotal : total ≤ len) (hStart : I total s)
    (h : sendLoop ok k len passes (buf.drop total) total retries v s = some (n, w, t)) :
    ∃ sent, I sent t ∧ sent ≤ len ∧ (n = sent ∨ (n = -1 ∧ sent = 0)) := by
  have hPartial : ∀ {total : Nat}, partialTotal total = total ∨
    (partialTotal total = -1 ∧ total = 0) := by
    intro total
    unfold partialTotal
    split_ifs with hPos
    · exact .inl rfl
    · exact .inr ⟨rfl, Nat.eq_zero_of_not_pos hPos⟩
  induction passes generalizing total retries v s with
  | nil => cases h
  | cons pass later ih =>
      unfold sendLoop at h
      by_cases hMore : total < len
      · rw [if_pos hMore] at h
        obtain ⟨s₁, hBefore, h⟩ := Option.bind_eq_some_iff.mp h
        have hReady := hInterlude hStart hBefore
        have hSize := min_toUInt16_le (len - total) 1024
        generalize (min ((len - total).toUInt16) 1024).toNat = size at hSize h
        have hStaged : (v.stage ((buf.drop total).take size)).staging.take size =
            (buf.drop total).take size := by
          refine stage_take v ?_
          rw [List.length_take, List.length_drop]
          omega
        simp only [hStaged] at h
        obtain ⟨hSent, hQueued⟩ := hSend (a := pass.sent) size (by omega) hReady
        generalize (mux (.sockSend k ((buf.drop total).take size)) pass.sent s₁).1 = s₂ at *
        generalize v.stage ((buf.drop total).take size) = staged at h
        by_cases hPos : 0 < s₂.muxSockResult.toNat
        · rw [if_pos hPos, List.drop_drop] at h
          exact ih hSent hQueued h
        · rw [if_neg hPos] at h
          obtain ⟨s₃, hBetween, h⟩ := Option.bind_eq_some_iff.mp h
          have hNone : total + s₂.muxSockResult.toNat = total := by omega
          rw [hNone] at hQueued
          have hLooked := hStatus (a := pass.status) (hInterlude hQueued hBetween)
          generalize (mux (.sockStatus k) pass.status s₃).1 = s₄ at *
          by_cases hBroken : broken s₄.muxSockResult
          · rw [if_pos hBroken] at h
            obtain ⟨rfl, rfl, rfl⟩ := Option.some.inj h
            exact ⟨total, hLooked, hTotal, hPartial⟩
          · rw [if_neg hBroken] at h
            obtain ⟨s₅, hPoll, h⟩ := Option.bind_eq_some_iff.mp h
            have hPolled := hInterlude hLooked hPoll
            by_cases hSlow : 200 < retries + 1
            · rw [if_pos hSlow] at h
              obtain ⟨s₆, hIdle, h⟩ := Option.bind_eq_some_iff.mp h
              have hRested := hInterlude hPolled hIdle
              by_cases hGiveUp : 2000 < retries + 1
              · rw [if_pos hGiveUp] at h
                obtain ⟨rfl, rfl, rfl⟩ := Option.some.inj h
                exact ⟨total, hRested, hTotal, hPartial⟩
              · rw [if_neg hGiveUp] at h
                exact ih hTotal hRested h
            · rw [if_neg hSlow] at h
              exact ih hTotal hPolled h
      · rw [if_neg hMore] at h
        obtain ⟨s₁, hPoll, hEnd⟩ := Option.map_eq_some_iff.mp h
        obtain ⟨rfl, rfl, rfl⟩ := hEnd
        exact ⟨total, hInterlude hStart hPoll, hTotal, .inl rfl⟩

/-- The prefix of the buffer that is on the connection. -/
structure Queued (k : ExtIdx) (x : SockId) (buf : List UInt8) (start : Sys) (total : Nat)
    (s : Sys) : Prop where
  serves : s.Serves k x
  wire : (s.net.sockets x).wire = (start.net.sockets x).wire ++ controls (buf.take total)

theorem controls_append (left right : List UInt8) :
    controls (left ++ right) = controls left ++ controls right := List.map_append

/-- `send` queues exactly the bytes it reports, in order. The induction is on its
passes. -/
theorem send_queued {start t : Sys} {len : Nat} {buf : List UInt8} {passes : List SendPass}
    {v w : Client} {n : Int} (hStart : start.Serves k x) (hBuf : len ≤ buf.length)
    (h : sendLoop (exclusive k Block.sendsOn) k len passes buf 0 0 v start = some (n, w, t)) :
    ∃ sent, Queued k x buf start sent t ∧ sent ≤ len ∧ (n = sent ∨ (n = -1 ∧ sent = 0)) := by
  refine sendLoop_rule (I := Queued k x buf start) hBuf ?_ ?_ ?_ (Nat.zero_le _)
    ⟨hStart, by simp [controls]⟩ (by simpa using h)
  · intro total moves s t hQueued hMoves
    obtain ⟨hServes, hWire, _⟩ := hQueued.serves.interlude hMoves
    exact ⟨hServes, (hWire fun _ hSends => hSends).trans hQueued.wire⟩
  · intro total s a size hSize hQueued
    obtain ⟨hServes, hCount, hWire⟩ :=
      hQueued.serves.sockSend (a := a) ((buf.drop total).take size)
    dsimp only
    generalize (mux (.sockSend k ((buf.drop total).take size)) a s).1 = u at *
    rw [List.length_take, List.length_drop] at hCount
    refine ⟨by omega, hServes, ?_⟩
    rw [hWire, hQueued.wire, List.append_assoc, ← controls_append, List.take_take,
      Nat.min_eq_left (by omega), ← List.take_add]
  · intro total s a hQueued
    obtain ⟨hServes, hWire, _⟩ :=
      hQueued.serves.called (m := .sockStatus k) (a := a) rfl (by simp)
    exact ⟨hServes, (hWire rfl).trans hQueued.wire⟩

/-- A handle without a connection sends nothing. -/
theorem send_nothing {start t : Sys} {len : Nat} {buf : List UInt8} {passes : List SendPass}
    {v w : Client} {n : Int} (hReach : Reachable ⟨start, []⟩)
    (hNone : (start.extSockets k).sock = none) (hBuf : len ≤ buf.length)
    (h : sendLoop (exclusive k Block.sendsOn) k len passes buf 0 0 v start = some (n, w, t)) :
    n ≤ 0 := by
  have hAny : ∀ {s : Sys}, (∀ y, s.Current k y) → (s.extSockets k).sock = none := by
    intro s hCurrent
    cases hSock : (s.extSockets k).sock with
    | none => rfl
    | some y => exact absurd (hCurrent (y + 1) y hSock) (Nat.ne_of_lt (Nat.lt_succ_self y))
  suffices hRule : ∃ sent, (sent = 0 ∧ Reachable ⟨t, []⟩ ∧ ∀ y, t.Current k y) ∧ sent ≤ len ∧
      (n = sent ∨ (n = -1 ∧ sent = 0)) by
    obtain ⟨sent, hIdle, _, hRet⟩ := hRule
    have hZero := hIdle.1
    omega
  refine sendLoop_rule (I := fun total s => total = 0 ∧ Reachable ⟨s, []⟩ ∧ ∀ y, s.Current k y)
    hBuf ?_ ?_ ?_ (Nat.zero_le _) ⟨rfl, hReach, fun y z hSock => by simp [hNone] at hSock⟩
    (by simpa using h)
  · intro total moves s t hIdle hMoves
    have hRun := interlude_run hMoves
    exact ⟨hIdle.1, hIdle.2.1.extend hRun, fun y => hIdle.2.1.current hRun (hIdle.2.2 y)⟩
  · intro total s a size hSize hIdle
    have hResult : (mux (.sockSend k ((buf.drop total).take size)) a s).1.muxSockResult.toNat =
      0 := by
      show (Vmodem.sockSend k ((buf.drop total).take size) a s).muxSockResult.toNat = 0
      unfold Vmodem.sockSend
      rw [hAny hIdle.2.2]
      rfl
    dsimp only
    rw [hResult]
    exact ⟨by omega, hIdle.1, reachable_mux hIdle.2.1 rfl,
      fun y => (mux_effects _ a s).current (by simp) (hIdle.2.2 y)⟩
  · intro total s a hIdle
    exact ⟨hIdle.1, reachable_mux hIdle.2.1 rfl,
      fun y => (mux_effects _ a s).current (by simp) (hIdle.2.2 y)⟩

/-- A descriptor is the number of its handle, if that is given out. -/
theorem fdToHandle_base (k : ExtIdx) (v : Client) :
    v.fdToHandle (vsockFdBase + k.val) = if v.allocated k then some k else none := by
  have hRange : 0 ≤ vsockFdBase + (k.val : Int) - vsockFdBase ∧
      vsockFdBase + (k.val : Int) - vsockFdBase < 4 := by omega
  have hIndex : (vsockFdBase + (k.val : Int) - vsockFdBase).toNat = k.val := by omega
  unfold Client.fdToHandle
  simp only [hRange, and_self, ↓reduceDIte, hIndex]

end Send

section Recv

variable {a : Answer} {s t u : Sys} {k : ExtIdx} {x : SockId}

/-- These bytes were read from a connection, in front of everything TCP delivered. -/
def Took (x : SockId) (bytes : List UInt8) (s t : Sys) : Prop :=
  ∃ newer, t.trace = newer ++ s.trace ∧
    bytes ++ (t.net.sockets x).inbox = (s.net.sockets x).inbox ++ delivered x newer

/-- Bytes taken in two steps are taken in order. -/
theorem Took.trans {first second : List UInt8} (left : Took x first s t)
    (right : Took x second t u) : Took x (first ++ second) s u := by
  obtain ⟨old, hOld, hFirst⟩ := left
  obtain ⟨new, hNew, hSecond⟩ := right
  refine ⟨new ++ old, ?_, ?_⟩
  · rw [hNew, hOld, List.append_assoc]
  · rw [List.append_assoc, hSecond, delivered_append, ← List.append_assoc, hFirst,
      List.append_assoc]

theorem InboxGrew.took (h : InboxGrew x s t) : Took x [] s t := h

/-- The driver hands out the next bytes of the connection, at most 256 and at most as
many as asked for. -/
theorem Sys.Serves.sockRecv (h : s.Serves k x) (size : UInt16) :
    let t := (mux (.sockRecv k size) a s).1
    let bytes := sockRecvBytes k size a s
    t.Serves k x ∧ t.muxSockResult.toNat = bytes.length ∧ bytes.length ≤ size.toNat ∧
      Took x bytes s t := by
  intro t bytes
  refine ⟨(h.called rfl (by simp)).1, ?_⟩
  show (Vmodem.sockRecv k size a s).muxSockResult.toNat = (sockRecvBytes k size a s).length ∧
    (sockRecvBytes k size a s).length ≤ size.toNat ∧
    Took x (sockRecvBytes k size a s) s (Vmodem.sockRecv k size a s)
  have hNothing : Took x [] s (s.setResult 0) := ⟨[], rfl, (List.append_nil _).symm⟩
  unfold Vmodem.sockRecv sockRecvBytes
  cases hSock : (s.extSockets k).sock with
  | none => exact ⟨rfl, Nat.zero_le _, hNothing⟩
  | some y =>
      obtain rfl := h.current y hSock
      dsimp only
      by_cases hWaiting : s.net.recvDataWaiting y
      · rw [if_pos hWaiting, if_pos hWaiting]
        have hLength : (s.net.recv y (min size.toNat 256) a.received).1.length ≤
            min size.toNat 256 := by
          simp only [Mtcp.recv, List.length_take]
          omega
        refine ⟨?_, by omega, [], rfl, ?_⟩
        · have hSize : (s.net.recv y (min size.toNat 256) a.received).1.length < UInt16.size :=
            Nat.lt_of_le_of_lt (hLength.trans (Nat.min_le_right _ _)) (by decide)
          exact UInt16.toNat_ofNat_of_lt' hSize
        · show (s.net.recv y (min size.toNat 256) a.received).1 ++
            ((s.net.recv y (min size.toNat 256) a.received).2.sockets y).inbox = _ ++ []
          rw [recv_sockets, if_pos rfl, List.append_nil]
          exact List.take_append_drop _ _
      · rw [if_neg hWaiting, if_neg hWaiting]
        exact ⟨rfl, Nat.zero_le _, hNothing⟩

/-- `recv` takes what it returns from the front of the stream. -/
theorem recv_took {start t : Sys} {len : Nat} {pass : RecvPass} {v w : Client}
    {r : Int × List UInt8} (h : start.Serves k x)
    (hRecv : recv (exclusive k Block.receivesOn) (vsockFdBase + k.val) len pass v start =
      some (r, w, t)) :
    t.Serves k x ∧ r.2.length ≤ len ∧ (r.1 = r.2.length ∨ (r.1 = -1 ∧ r.2 = [])) ∧
      Took x r.2 start t := by
  unfold recv at hRecv
  rw [fdToHandle_base] at hRecv
  by_cases hOpen : v.allocated k
  · simp only [hOpen, ↓reduceIte] at hRecv
    obtain ⟨s₁, hPoll, hRecv⟩ := Option.bind_eq_some_iff.mp hRecv
    obtain ⟨hPolled, _, hFirst⟩ := h.interlude hPoll
    obtain ⟨s₂, hBefore, hRecv⟩ := Option.bind_eq_some_iff.mp hRecv
    obtain ⟨hReady, _, hSecond⟩ := hPolled.interlude hBefore
    obtain ⟨hServes, hCount, hLength, hTook⟩ :=
      hReady.sockRecv (a := pass.received) (min len.toUInt16 256)
    have hWhole := (((hFirst fun _ hOn => hOn).trans (hSecond fun _ hOn => hOn)).took).trans hTook
    have hSize := min_toUInt16_le len 256
    generalize sockRecvBytes k (min len.toUInt16 256) pass.received s₂ = bytes at *
    generalize (mux (.sockRecv k (min len.toUInt16 256)) pass.received s₂).1 = s₃ at *
    rw [hCount] at hRecv
    by_cases hSome : 0 < bytes.length
    · rw [if_pos hSome, stage_take v rfl] at hRecv
      obtain ⟨⟨rfl, rfl⟩, rfl, rfl⟩ := Option.some.inj hRecv
      exact ⟨hServes, hLength.trans hSize, .inl rfl, hWhole⟩
    · rw [if_neg hSome] at hRecv
      obtain ⟨s₄, hBetween, hRecv⟩ := Option.bind_eq_some_iff.mp hRecv
      obtain ⟨hLater, _, hThird⟩ := hServes.interlude hBetween
      obtain ⟨hStatus, _, hFourth⟩ :=
        hLater.called (m := .sockStatus k) (a := pass.status) rfl (by simp)
      have hEmpty : bytes = [] := List.length_eq_zero_iff.mp (Nat.eq_zero_of_not_pos hSome)
      have hNone : Took x [] start (mux (.sockStatus k) pass.status s₄).1 := by
        rw [hEmpty] at hWhole
        exact (hWhole.trans (hThird fun _ hOn => hOn).took).trans (hFourth rfl).took
      split_ifs at hRecv
      · obtain ⟨rfl, rfl, rfl⟩ := Option.some.inj hRecv
        exact ⟨hStatus, Nat.zero_le _, .inr ⟨rfl, rfl⟩, hNone⟩
      · obtain ⟨rfl, rfl, rfl⟩ := Option.some.inj hRecv
        exact ⟨hStatus, Nat.zero_le _, .inl rfl, hNone⟩
  · simp only [hOpen, Bool.false_eq_true, ↓reduceIte] at hRecv
    obtain ⟨rfl, rfl, rfl⟩ := Option.some.inj hRecv
    exact ⟨h, Nat.zero_le _, .inr ⟨rfl, rfl⟩, [], rfl, (List.append_nil _).symm⟩

/-- Successive calls return the stream in order. -/
theorem recvAll_took {calls : List RecvCall} {results : List (Int × List UInt8)} {start t : Sys}
    (h : start.Serves k x)
    (hAll : recvAll (exclusive k Block.receivesOn) (vsockFdBase + k.val) calls start =
      some (results, t)) :
    List.Forall₂ (fun call r => r.2.length ≤ call.len ∧
      (r.1 = r.2.length ∨ (r.1 = -1 ∧ r.2 = []))) calls results ∧
      Took x (results.flatMap Prod.snd) start t := by
  induction calls generalizing start results with
  | nil =>
      obtain ⟨rfl, rfl⟩ := Option.some.inj hAll
      exact ⟨.nil, [], rfl, (List.append_nil _).symm⟩
  | cons call calls ih =>
      obtain ⟨s₁, hEarlier, hAll⟩ := Option.bind_eq_some_iff.mp hAll
      obtain ⟨hReady, _, hGrew⟩ := h.interlude hEarlier
      obtain ⟨⟨r, w, s₂⟩, hRecv, hAll⟩ := Option.bind_eq_some_iff.mp hAll
      obtain ⟨hServes, hLength, hRet, hTook⟩ := recv_took hReady hRecv
      obtain ⟨⟨rest, s₃⟩, hRest, hEnd⟩ := Option.map_eq_some_iff.mp hAll
      obtain ⟨rfl, rfl⟩ := hEnd
      obtain ⟨hLater, hStream⟩ := ih hServes hRest
      refine ⟨.cons ⟨hLength, hRet⟩ hLater, ?_⟩
      rw [List.flatMap_cons]
      exact ((hGrew fun _ hOn => hOn).took.trans hTook).trans hStream

end Recv

/-- For every reachable state and everything the driver, its timer and the network do in
between: a positive result of `send` is the length of the prefix that was queued, and
successive calls of `recv` return what is received, in order and once each. -/
theorem socket_streams :
    (∀ (k : ExtIdx) (buf : List UInt8) (len : Nat) (passes : List SendPass) (v w : Client)
        (s t : Sys) (n : Int), Reachable ⟨s, []⟩ → len ≤ buf.length →
        send (exclusive k Block.sendsOn) (vsockFdBase + k.val) buf len passes v s = some (n, w, t) →
        0 < n → ∃ x, (s.extSockets k).sock = some x ∧ n ≤ len ∧
          (t.net.sockets x).wire = (s.net.sockets x).wire ++ controls (buf.take n.toNat)) ∧
      ∀ (k : ExtIdx) (x : SockId) (calls : List RecvCall) (s t : Sys)
        (results : List (Int × List UInt8)), Reachable ⟨s, []⟩ → (s.extSockets k).sock = some x →
        recvAll (exclusive k Block.receivesOn) (vsockFdBase + k.val) calls s = some (results, t) →
        List.Forall₂ (fun call r => r.2.length ≤ call.len ∧
            (r.1 = r.2.length ∨ (r.1 = -1 ∧ r.2 = []))) calls results ∧
          ∃ newer, t.trace = newer ++ s.trace ∧ results.flatMap Prod.snd ++
            (t.net.sockets x).inbox = (s.net.sockets x).inbox ++ delivered x newer := by
  have hServes : ∀ {s : Sys} {k : ExtIdx} {x : SockId}, Reachable ⟨s, []⟩ →
      (s.extSockets k).sock = some x → s.Serves k x := by
    intro s k x hReach hSock
    exact ⟨hReach, (Sys.Regular.stable.reachable hReach).heldBy hSock,
      fun y hOther => Option.some.inj (hOther.symm.trans hSock)⟩
  refine ⟨?_, ?_⟩
  · intro k buf len passes v w s t n hReach hBuf hSend hPos
    unfold send at hSend
    rw [fdToHandle_base] at hSend
    by_cases hOpen : v.allocated k
    · simp only [hOpen, ↓reduceIte] at hSend
      cases hSock : (s.extSockets k).sock with
      | none => exact absurd (send_nothing hReach hSock hBuf hSend) (Int.not_le.mpr hPos)
      | some x =>
          obtain ⟨sent, hQueued, hLe, hRet⟩ := send_queued (hServes hReach hSock) hBuf hSend
          have hSent : n = sent := by omega
          refine ⟨x, rfl, by omega, ?_⟩
          rw [hQueued.wire, hSent, Int.toNat_natCast]
    · simp only [hOpen, Bool.false_eq_true, ↓reduceIte] at hSend
      obtain ⟨rfl, _⟩ := Option.some.inj hSend
      omega
  · intro k x calls s t results hReach hSock hAll
    exact recvAll_took (hServes hReach hSock) hAll

/-- A socket that has been opened and connected: `socket()` and `connect()`. -/
def openedSocket : List Move :=
  [.finish {}, .call (.mux .sockAlloc) {}, .call (.mux (.sockConnect 0 0x0A000001 23)) {},
    .call (.mux .poll) {}, .call (.mux (.sockStatus 0)) { connectComplete := true }]

def openClient : Client := ⟨fun k => decide (k = 0), [], 0⟩

/-- Three bytes that TCP takes in two parts. -/
def twoParts : List SendPass :=
  [{ sent := { sent := 2 } }, { sent := { sent := 1 } }, { poll := [.finish {}] }]

/-- Five bytes that are returned in two parts. -/
def twoReads : List RecvCall :=
  [{ earlier := [.outside (.deliver 0 [1, 2, 3, 4, 5])], client := openClient, len := 3,
      pass := { poll := [.finish {}], received := { received := 3 } } },
    { client := openClient, len := 300,
      pass := { poll := [.finish {}], received := { received := 256 } } }]

theorem twoParts_play :
    ((install [] false 0).play anyStep openedSocket).any (fun c =>
      decide (c.todo = []) && decide ((c.sys.extSockets 0).sock = some 0) &&
      ((send (exclusive 0 Block.sendsOn) 128 [0x61, 0x62, 0x63] 3 twoParts openClient c.sys).any
        fun r => decide (r.1 = 3)) &&
      ((recvAll (exclusive 0 Block.receivesOn) 128 twoReads c.sys).any
        fun r => decide (r.1 = [(3, [1, 2, 3]), (2, [4, 5])]))) = true := by
  decide +kernel

/-- The run with these parts, and five bytes received. -/
theorem socket_streams_parts : ∃ (s t u : Sys) (x : SockId) (newer : List Event),
    (t.net.sockets x).wire = (s.net.sockets x).wire ++ controls [0x61, 0x62, 0x63] ∧
      u.trace = newer ++ s.trace ∧
      [1, 2, 3, 4, 5] ++ (u.net.sockets 0).inbox =
        (s.net.sockets 0).inbox ++ delivered 0 newer := by
  obtain ⟨⟨s, todo⟩, hReach, hc⟩ := exists_reachable twoParts_play
  simp only [Bool.and_eq_true, decide_eq_true_eq] at hc
  obtain ⟨⟨⟨rfl, hSock⟩, hSend⟩, hRecv⟩ := hc
  obtain ⟨⟨n, w, t⟩, hSend, hn⟩ := (Option.any_eq_true _ _).mp hSend
  obtain ⟨⟨results, u⟩, hRecv, hr⟩ := (Option.any_eq_true _ _).mp hRecv
  obtain rfl : n = 3 := by simpa using hn
  obtain rfl : results = [(3, [1, 2, 3]), (2, [4, 5])] := by simpa using hr
  obtain ⟨x, _, _, hWire⟩ := socket_streams.1 0 [0x61, 0x62, 0x63] 3 twoParts openClient w s t 3
    hReach (by decide) hSend (by decide)
  obtain ⟨_, newer, hTrace, hInbox⟩ := socket_streams.2 0 0 twoReads s u
    [(3, [1, 2, 3]), (2, [4, 5])] hReach hSock hRecv
  exact ⟨s, t, u, x, newer, hWire, hTrace, hInbox⟩

end Vmodem
