import Vmodem.Invariants.Frames

/-! Mode and socket of every port agree at all times, between driver calls and
inside them. This and the order of the stack make every block of a run a
sequence of effects, and so give invariants of runs from invariants of
effects. -/

namespace Vmodem

/-- A port is in a call exactly when it has the socket of one. -/
def Sys.ModesAgree (s : Sys) : Prop :=
  ∀ j, (s.ports j).mode = .conn ↔ (s.ports j).sock.isSome

theorem Sys.ModesAgree.sock_eq_none {s : Sys} (h : s.ModesAgree) {i : PortIdx}
    (hMode : (s.ports i).mode ≠ .conn) : (s.ports i).sock = none := by
  by_contra hSock
  exact hMode ((h i).mpr (Option.isSome_iff_ne_none.mpr hSock))

/-- The agreement is about modes and connections of ports and nothing else. -/
theorem Sys.ModesAgree.congr {s t : Sys} (h : s.ModesAgree)
    (hCalls : ∀ j, (t.ports j).mode = (s.ports j).mode ∧ (t.ports j).sock = (s.ports j).sock) :
    t.ModesAgree := by
  intro j
  rw [(hCalls j).1, (hCalls j).2]
  exact h j

/-- A block that may end a call may change modes. -/
theorem Block.setsMode_of_ends {b : Block} {i : PortIdx} {why : CloseReason}
    (h : b.ends = some (i, why)) : b.setsMode := by
  cases b <;> simp_all [Block.ends, Block.setsMode]

/-- The idle mode is never that of a call. -/
theorem PortState.idleMode_ne_conn (p : PortState) : p.idleMode ≠ .conn := by
  unfold PortState.idleMode
  split_ifs <;> simp

section Calls

variable {b : Block} {a : Answer} {s t : Sys}

/-- The effects of a block that neither accepts nor ends a call. -/
theorem Effect.calls (h : Effect b a s t) (hMode : b.setsMode = false)
    (hAccepts : b.accepts = false) (j : PortIdx) :
    ((t.ports j).mode = (s.ports j).mode ∧ (t.ports j).sock = (s.ports j).sock) ∨
      (b.renews j ∧ (t.ports j).mode = .disc ∧ (t.ports j).sock = none) := by
  cases h with
  | quiet h => exact .inl ⟨(h.port j).mode, (h.port j).sock⟩
  | store i x v hSock h => simp [(storeTx_eq_some h).2]
  | filter i x tmp drop hb =>
      obtain ⟨hSame, hSock, _⟩ := pollRx_call i a s x tmp drop j
      exact .inl ⟨hSame, hSock⟩
  | receive i hb =>
      rcases pollRecv_cases i a s with hNone | ⟨x, _, _, _, hSome⟩
      · simp [hNone]
      · rw [hSome]
        by_cases hj : j = i <;> split_ifs <;> simp [hj]
  | read i n => by_cases hj : j = i <;> simp [hj]
  | clearRx i hb => by_cases hj : j = i <;> simp [hj]
  | clearRemote i hb | modes f hb => simp [hMode] at hb
  | close i why hb => simp [Block.setsMode_of_ends hb] at hMode
  | attach i x net hb => simp [Block.accepts_of_target hb] at hAccepts
  | reject x net msg hb => simp [Block.accepts_of_refuses hb] at hAccepts
  | reconfigure i f hb hf =>
      by_cases hj : j = i
      · exact .inr ⟨hj ▸ hb, by simp [hj, (hf _).mode], by simp [hj, (hf _).sock]⟩
      · simp [hj]
  | listenPort i tcpPort x net hb => by_cases hj : j = i <;> simp [hj]
  | _ => simp

/-- Blocks that neither change modes nor accept nor configure leave every call as it is.
-/
theorem Effects.calls (h : Effects b a s t) (hMode : b.setsMode = false)
    (hAccepts : b.accepts = false) (j : PortIdx) (hRenews : b.renews j = false) :
    (t.ports j).mode = (s.ports j).mode ∧ (t.ports j).sock = (s.ports j).sock := by
  induction h with
  | refl => exact ⟨rfl, rfl⟩
  | tail _ last ih =>
      rcases last.calls hMode hAccepts j with ⟨hSame, hSock⟩ | ⟨hb, _⟩
      · exact ⟨hSame.trans ih.1, hSock.trans ih.2⟩
      · simp [hRenews] at hb

/-- Such a block keeps modes and connections in agreement, effect by effect. -/
theorem Effect.modesAgree (h : Effect b a s t) (hMode : b.setsMode = false)
    (hAccepts : b.accepts = false) (hs : s.ModesAgree) : t.ModesAgree := by
  intro j
  rcases h.calls hMode hAccepts j with ⟨hSame, hSock⟩ | ⟨_, hDisc, hNone⟩
  · rw [hSame, hSock]
    exact hs j
  · simp [hDisc, hNone]

theorem Effects.modesAgree (h : Effects b a s t) (hMode : b.setsMode = false)
    (hAccepts : b.accepts = false) (hs : s.ModesAgree) : t.ModesAgree := by
  induction h with
  | refl => exact hs
  | tail _ last ih => exact last.modesAgree hMode hAccepts ih

/-- Going idle after the socket is gone. -/
theorem enterIdleMode_modes {u : Sys} (i : PortIdx) (h : s.ModesAgree)
    (hMode : ∀ j, (u.ports j).mode = (s.ports j).mode)
    (hSock : ∀ j, (u.ports j).sock = if j = i then none else (s.ports j).sock) :
    (enterIdleMode i u).ModesAgree := by
  intro j
  by_cases hj : j = i
  · subst hj
    simp [enterIdleMode, hSock, PortState.idleMode_ne_conn]
  · simpa [enterIdleMode, hj, hMode, hSock] using h j

/-- Hanging up: the socket is closed, quiet work follows, the port goes idle. -/
theorem hangUp_modes {d u : Sys} (i : PortIdx) (h : s.ModesAgree)
    (hClosed : ∀ j, (d.ports j).mode = (s.ports j).mode ∧
      (d.ports j).sock = if j = i then none else (s.ports j).sock)
    (hQuiet : Quiet d u) : (enterIdleMode i u).ModesAgree :=
  enterIdleMode_modes i h (fun j => ((hQuiet.port j).mode).trans (hClosed j).1)
    fun j => ((hQuiet.port j).sock).trans (hClosed j).2

/-- The three steps of hanging up take the connection of one port and leave the modes
for the step behind them. -/
theorem closed_calls (i : PortIdx) (why : CloseReason) (j : PortIdx) :
    ((clearRx i (clearRemote i (closeSock i why s))).ports j).mode = (s.ports j).mode ∧
    ((clearRx i (clearRemote i (closeSock i why s))).ports j).sock =
      if j = i then none else (s.ports j).sock := by
  by_cases hj : j = i <;> simp [hj]

/-- An accepted call gives its port mode and connection together. -/
theorem acceptCall_modes (i : PortIdx) (x : SockId) (h : s.ModesAgree) :
    (acceptCall i x s).1.ModesAgree := by
  intro j
  by_cases hj : j = i
  · simp [hj, telnetReset]
  · simpa [hj] using h j

/-- A caller of a hunt group goes to a member without a call, so nothing is overwritten.
-/
theorem pollHunt_modes (g : GroupIdx) (h : s.ModesAgree) : (pollHunt g a s).1.ModesAgree := by
  unfold pollHunt
  split_ifs
  · split
    next => exact h
    next =>
      split
      next j _ => exact acceptCall_modes j _ h
      next => exact h.congr fun j => by simp
  · exact h

/-- A caller of a standalone port is taken only while the port has no call. -/
theorem pollPort_modes (i : PortIdx) (h : s.ModesAgree) : (pollPort i a s).1.ModesAgree := by
  unfold pollPort
  by_cases hInit : (s.ports i).initialized
  · rw [if_pos hInit]
    cases hMode : (s.ports i).mode with
    | disc => exact h
    | listen =>
        have hSock := h.sock_eq_none (i := i) (by simp [hMode])
        dsimp only
        by_cases hHunt : (s.ports i).huntGroupIdx.isSome
        · rw [if_pos hHunt]
          exact h
        · rw [if_neg hHunt]
          split
          next => exact h
          next x net _ =>
            rw [closeSock_of_none (s := s.setNet net) i hSock]
            exact acceptCall_modes i x h
    | conn =>
        dsimp only
        have hSock := (h i).mp hMode
        rw [if_neg (Option.isSome_iff_ne_none.mp hSock)]
        have hReject : (rejectBusy i a s).ports = s.ports := by
          unfold rejectBusy
          split_ifs
          · split
            next => rfl
            next x net _ => exact (rejectCall_frame x (s.setNet net) lineBusyMsg a).1
          · rfl
        exact h.congr fun j => by simp [hReject]
  · rw [if_neg hInit]
    exact h

/-- A port found without a connection goes back to its idle mode. -/
theorem answered_modes (i : PortIdx) (h : s.ModesAgree) : (answered i s).1.ModesAgree := by
  unfold answered
  by_cases hSock : (s.ports i).sock = none
  · rw [if_pos hSock]
    dsimp only
    split_ifs
    · exact h
    · refine enterIdleMode_modes i h (fun _ => rfl) fun j => ?_
      by_cases hj : j = i <;> simp [hj, hSock]
  · rw [if_neg hSock]
    by_cases hClose : (s.ports i).pendingClose ≠ 0 ∧ s.safe
    · rw [if_pos hClose]
      refine h.congr fun j => ?_
      by_cases hj : j = i <;> simp [hj]
    · rw [if_neg hClose]
      exact h

/-- Opening a listen socket writes no port by itself. -/
theorem openListen_ports (tcpPort : UInt16) : (openListen tcpPort a s).1.ports = s.ports := by
  rcases openListen_cases tcpPort a s with hNone | ⟨x, net, _, hOpen | hFail⟩
  · rw [hNone]
  · rw [hOpen]
    rfl
  · rw [hFail]
    rfl

/-- A change of mode that neither enters nor leaves a call. -/
theorem Sys.ModesAgree.relist (h : s.ModesAgree)
    (hSock : ∀ j, (t.ports j).sock = (s.ports j).sock)
    (hMode : ∀ j, (t.ports j).mode = (s.ports j).mode ∨
      ((s.ports j).mode ≠ .conn ∧ (t.ports j).mode ≠ .conn)) : t.ModesAgree := by
  intro j
  rw [hSock j, ← h j]
  rcases hMode j with hSame | ⟨hOld, hNew⟩
  · rw [hSame]
  · simp [hOld, hNew]

/-- AH=04h changes the mode of a port that has no call. -/
theorem initListen_modes (i : PortIdx) (h : s.ModesAgree) : (initListen i a s).ModesAgree := by
  unfold initListen
  cases (s.ports i).huntGroupIdx with
  | some g =>
      dsimp -zeta only
      extract_lets opened
      have hPorts : ∀ j, opened.ports j = s.ports j := by
        intro j
        unfold opened
        split
        next =>
          have hOpen := openListen_ports (a := a) (s := s) (s.huntGroups g).tcpPort
          rcases hRes : openListen (s.huntGroups g).tcpPort a s with ⟨u, _ | x⟩ <;>
            simp_all
        next => rfl
      have hOpened : opened.ModesAgree := h.congr fun j => by simp [hPorts]
      split_ifs with hConn
      · exact hOpened
      · refine hOpened.relist (fun j => ?_) fun j => ?_ <;> by_cases hj : j = i <;> simp [hj, hConn]
  | none =>
      dsimp only
      split
      next hListen =>
        split
        next =>
          have hOpen := openListen_ports (a := a) (s := s) (s.ports i).localPort
          rcases hRes : openListen (s.ports i).localPort a s with ⟨u, _ | x⟩
          · refine h.congr fun j => ?_
            simp_all
          · simp only [hRes] at hOpen
            refine h.relist (fun j => ?_) fun j => ?_ <;> by_cases hj : j = i <;>
              simp [hj, hOpen, hListen.2]
        next =>
          refine h.relist (fun j => ?_) fun j => ?_ <;> by_cases hj : j = i <;>
            simp [hj, hListen.2]
      next => exact h

/-- While no port has a call, opening the first listen sockets is harmless. -/
theorem preallocate_modes (i : PortIdx) (eager : Bool) (hFree : ∀ j, (s.ports j).sock = none)
    (h : s.ModesAgree) : (preallocate i eager a s).ModesAgree := by
  have hDisc : ∀ j, (s.ports j).mode ≠ .conn := by
    intro j hConn
    simpa [hFree j] using (h j).mp hConn
  unfold preallocate
  split
  next =>
    have hOpen := openListen_ports (a := a) (s := s) (s.ports i).localPort
    rcases hRes : openListen (s.ports i).localPort a s with ⟨u, _ | x⟩
    · refine h.congr fun j => ?_
      simp_all
    · simp only [hRes] at hOpen
      refine h.relist (fun j => ?_) fun j => ?_ <;> by_cases hj : j = i <;> cases eager <;>
        simp [hj, hOpen, hDisc]
  next => exact h

/-- Before the first call every member may be set to listen. -/
theorem preallocateHunt_modes (g : GroupIdx) (eager : Bool) (hFree : ∀ j, (s.ports j).sock = none)
    (h : s.ModesAgree) : (preallocateHunt g eager a s).ModesAgree := by
  have hDisc : ∀ j, (s.ports j).mode ≠ .conn := by
    intro j hConn
    simpa [hFree j] using (h j).mp hConn
  unfold preallocateHunt
  split
  next =>
    have hOpen := openListen_ports (a := a) (s := s) (s.huntGroups g).tcpPort
    rcases hRes : openListen (s.huntGroups g).tcpPort a s with ⟨u, _ | x⟩
    · refine h.congr fun j => ?_
      simp_all
    · simp only [hRes] at hOpen
      cases eager with
      | false => exact h.congr fun j => by simp [hOpen]
      | true =>
          refine h.relist (fun j => ?_) fun j => ?_
          all_goals
            simp only [↓reduceIte]
            split_ifs <;> simp [hOpen, hDisc]
  next => exact h

/-- Every block keeps mode and socket of every port in agreement. -/
theorem exec_modes (h : s.ModesAgree) (hRing : ∀ i, b = .ring i → (s.ports i).mode = .conn)
    (hRx : ∀ i x tmp drop, b = .rx i x tmp drop → (s.ports i).sock = some x)
    (hFree : b.preallocates → ∀ j, (s.ports j).sock = none) : (exec b a s).1.ModesAgree := by
  have hIdle : ∀ i, (s.ports i).mode = .listen → (s.ports i).sock = none :=
    fun i hMode => h.sock_eq_none (by simp [hMode])
  have hEffects := exec_effects b a s hIdle hRing hRx
  cases b with
  | preallocate i eager => exact preallocate_modes i eager (hFree rfl) h
  | preallocateHunt g eager => exact preallocateHunt_modes g eager (hFree rfl) h
  | ringTimeout i =>
      refine hangUp_modes (d := clearRx i (closeSock i .ringTimeout s)) i h (fun j => ?_)
        (atNoCarrier_quiet i _)
      by_cases hj : j = i <;> simp [hj]
  | hunt g => exact pollHunt_modes g h
  | port i => exact pollPort_modes i h
  | answered i => exact answered_modes i h
  | pollClose i silent =>
      cases silent with
      | true => exact hangUp_modes i h (closed_calls i .pollClose) (.refl _)
      | false => exact hangUp_modes i h (closed_calls i .pollClose) (atSendNoCarrier_quiet i _)
  | idleClose i => exact hangUp_modes i h (closed_calls i .idle) (atSendNoCarrier_quiet i _)
  | disconnected i now =>
      show (pollDisconnected i now a s).ModesAgree
      unfold pollDisconnected
      cases (s.ports i).sock with
      | none => exact h
      | some x =>
          dsimp only
          split_ifs
          · exact hangUp_modes i h (closed_calls i .remote) (atSendNoCarrier_quiet i _)
          · exact h
  | initDisc i =>
      refine hangUp_modes (d := clearRemote i (closeSock i .initDisc s)) i h (fun j => ?_)
        (.refl _)
      by_cases hj : j = i <;> simp [hj]
  | initFinish i =>
      have hReset := initReset_quiet i s
      exact (initListen_modes i (h.congr fun j =>
        ⟨(hReset.port j).mode, (hReset.port j).sock⟩)).congr
        fun _ => ⟨rfl, rfl⟩
  | _ => exact hEffects.modesAgree rfl rfl h

end Calls

end Vmodem
