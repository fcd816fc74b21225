import Vmodem.Invariants.Effects

/-! Every block of the driver is a sequence of effects. -/

namespace Vmodem

section Bookkeeping

variable (i : PortIdx) (s : Sys)

/-- THRE in a status word means that the transmit ring has room for a byte. -/
theorem statusWord_thre (h : statusWord i s &&& threBit ≠ 0) :
    (s.fossils i).tx.count < txRingSize := by
  by_contra hFull
  have hBit : ∀ tsre rda ovrn ri dcd : Bool,
      ((lineStatus false tsre rda ovrn).toUInt16 <<< 8 ||| (modemStatus ri dcd).toUInt16) &&&
        threBit = 0 := by decide
  apply h
  unfold statusWord
  simp only [hFull, decide_false, Bool.false_and]
  exact hBit _ _ _ _ _

theorem fossilStatus_quiet : Quiet s (fossilStatus i s) := by
  have hClear := Quiet.modFossil s i (fun f => { f with overrun := false }) rfl .inl
  refine hClear.trans (Quiet.log _ _ fun hThre => ?_)
  simpa using statusWord_thre i s hThre

theorem purgeStatus_quiet : Quiet s (purgeStatus i s) := by
  unfold purgeStatus
  split_ifs with h
  · exact Quiet.modFossil s i _ rfl fun _ => .inl h.1
  · exact .refl s

theorem deinit_quiet : Quiet s (deinit i s) := by
  unfold deinit
  extract_lets first
  have hFirst : Quiet s first := Quiet.modFossil s i _ rfl .inl
  split_ifs
  · exact hFirst
  · exact hFirst.trans (requestClose_quiet i first)
  · exact hFirst

theorem setDtr_quiet (al : UInt8) : Quiet s (setDtr i al s) := by
  unfold setDtr
  extract_lets first
  have hFirst : Quiet s first := Quiet.modFossil s i _ rfl .inl
  split_ifs with _ _ _ hRinging
  · exact hFirst
  · exact hFirst.trans (requestClose_quiet i first)
  · exact hFirst
  · exact hFirst.trans (atSendConnect_quiet (.inl hRinging.2))
  · exact hFirst

/-- Only a port in a call has a connection to write on. -/
theorem callSock_isSome {i : PortIdx} {s : Sys} (h : (callSock i s).isSome) :
    (s.ports i).mode = .conn := by
  unfold callSock at h
  split_ifs at h with hMode
  · exact hMode
  · simp at h

/-- The connection a byte is written on is that of the call. -/
theorem callSock_eq_some {i : PortIdx} {s : Sys} {x : SockId} (h : callSock i s = some x) :
    (s.ports i).mode = .conn ∧ (s.ports i).sock = some x := by
  unfold callSock at h
  split_ifs at h with hMode
  exact ⟨hMode, h⟩

/-- The second half of AH=04h, `at_init` included, touches its own port only. -/
theorem initReset_quiet : Quiet s (initReset i s) := by
  unfold initReset
  extract_lets first second ringing third
  have hFirst : Quiet s first := Quiet.modFossil s i _ rfl fun h => absurd rfl h
  have hSecond : Quiet first second :=
    touch_quiet first i _ (fun _ => ⟨rfl, rfl, rfl, rfl, rfl, rfl, rfl, rfl, rfl, rfl, rfl⟩)
      (fun _ => rfl) (fun _ => rfl)
  have hThird : Quiet second third := atInit_quiet i second
  have hAll := (hFirst.trans hSecond).trans hThird
  split_ifs with h
  · exact hAll.trans (atSetRingingSilent_quiet (callSock_isSome h.2.1))
  · exact hAll

theorem modAt_modAt (f g : AtState → AtState) :
    (s.modAt i f).modAt i g = s.modAt i fun m => g (f m) := by
  unfold Sys.modAt
  congr 1
  funext j
  by_cases hj : j = i <;> simp [hj]

theorem modPort_modPort (f g : PortState → PortState) :
    (s.modPort i f).modPort i g = s.modPort i fun p => g (f p) := by
  unfold Sys.modPort
  congr 1
  funext j
  by_cases hj : j = i <;> simp [hj]

/-- The ring check alerts the application and counts; it neither connects nor hangs up.
-/
theorem atCheckRing_quiet : Quiet s (atCheckRing i s).1 := by
  unfold atCheckRing
  extract_lets m
  split_ifs with hPending _ hRinging
  all_goals dsimp only
  · exact setting_quiet s i _ fun m h => .inl (by simpa [AtState.Calling] using h)
  · exact .refl s
  · exact .refl s
  · exact .refl s
  · have hCalling : (s.ats i).Calling := .inl (by simpa using hRinging)
    rw [atSendConnect, modAt_modAt]
    exact Quiet.modAt s i _ fun _ => .inl hCalling
  · exact setting_quiet s i _ fun m h => .inr (by simpa [AtState.Calling] using h)
  · exact (atResult_quiet i s "RING" "2").trans (setting_quiet _ i _ fun _ h => h)

end Bookkeeping

section Paths

variable {b : Block} {a : Answer} {s t u : Sys} (i : PortIdx)

/-- A quiet step is one effect of any block. -/
theorem Quiet.effects (h : Quiet s t) : Effects b a s t := .single (.quiet h)

/-- Quiet steps may follow the effects of a block. -/
theorem Effects.thenQuiet (h : Effects b a s t) (hQuiet : Quiet t u) : Effects b a s u :=
  h.tail (.quiet hQuiet)

/-- A byte the transmit ring takes is one effect, on the connection of its port. -/
theorem storeTx_effects {x : SockId} {v : UInt8} (hSock : (s.ports i).sock = some x)
    (h : storeTx i x v s = some t) : Effects b a s t := .single (.store i x v hSock h)

theorem ite_mode (c : Prop) [Decidable c] (p : PortState) (m : PortMode) :
    (if c then { p with mode := m } else p) = { p with mode := if c then m else p.mode } := by
  split_ifs <;> rfl

/-- A block that may change modes changes that of a port and nothing else of it. -/
theorem setMode_effect (m : PortState → PortMode) (hb : b.setsMode) :
    Effect b a s (s.modPort i fun p => { p with mode := m p }) := by
  unfold Sys.modPort
  simp only [ite_mode]
  exact .modes _ hb

/-- Going back to the idle mode, listening or idle, is a change of mode. -/
theorem enterIdleMode_effect (hb : b.setsMode) : Effect b a s (enterIdleMode i s) :=
  setMode_effect i PortState.idleMode hb

theorem enterIdleMode_effects (hb : b.setsMode) : Effects b a s (enterIdleMode i s) :=
  .single (enterIdleMode_effect i hb)

/-- AH=01h stores a byte or leaves it to the interpreter. -/
theorem transmit_effects (v : UInt8) : Effects b a s (transmit i v s).1 := by
  unfold transmit
  extract_lets r
  have hInput : Quiet s r.1 := (stampTx_quiet s i).trans (atInput_quiet i _ v)
  cases r.2 with
  | consumed | hangup => exact hInput.effects
  | pass =>
      dsimp only
      split_ifs
      · exact hInput.effects
      · cases hCall : callSock i r.1 with
        | none => exact hInput.effects
        | some x =>
            cases hStore : storeTx i x v r.1 with
            | none => simpa [hStore] using hInput.effects
            | some t =>
                simp only [hStore]
                exact (hInput.effects).trans (storeTx_effects i (callSock_eq_some hCall).2 hStore)

/-- AH=0Bh stores a byte, hands it to the interpreter or refuses it. -/
theorem transmitNoWait_effects (v : UInt8) : Effects b a s (transmitNoWait i v s).1 := by
  unfold transmitNoWait
  extract_lets r
  have hInput : Quiet s r.1 := atInput_quiet i s v
  cases r.2 with
  | consumed | hangup => exact hInput.effects
  | pass =>
      cases hCall : callSock i r.1 with
      | none => exact hInput.effects
      | some x =>
          cases hStore : storeTx i x v r.1 with
          | none => simpa [hStore] using hInput.effects
          | some t =>
              simp only [hStore]
              exact (hInput.effects).trans (storeTx_effects i (callSock_eq_some hCall).2 hStore)

/-- The second attempt of AH=01h stores its byte if the poll in between made room. -/
theorem retryChar_effects (v : UInt8) : Effects b a s (retryChar i v s) := by
  unfold retryChar
  cases hSock : (s.ports i).sock with
  | none => exact .refl
  | some x =>
      cases hStore : storeTx i x v s with
      | none => simpa [hStore] using Relation.ReflTransGen.refl
      | some t => simpa [hStore] using storeTx_effects i hSock hStore

/-- A pass of AH=19h stores the next byte or stops. -/
theorem writeNext_effects (data : List UInt8) (count : UInt16) :
    Effects b a s (writeNext i data count s).1 := by
  unfold writeNext
  cases data with
  | nil => exact .refl
  | cons v rest =>
      cases hSock : (s.ports i).sock with
      | none => exact .refl
      | some x =>
          cases hStore : storeTx i x v s with
          | none => simpa [hStore] using Relation.ReflTransGen.refl
          | some t => simpa [hStore] using storeTx_effects i hSock hStore

/-- The second attempt of AH=19h stores its byte, or gives up the rest. -/
theorem retryWrite_effects (v : UInt8) (rest : List UInt8) (count : UInt16) :
    Effects b a s (retryWrite i v rest count s).1 := by
  unfold retryWrite
  cases hSock : (s.ports i).sock with
  | none => exact .refl
  | some x =>
      cases hStore : storeTx i x v s with
      | none => simpa [hStore] using Relation.ReflTransGen.refl
      | some t => simpa [hStore] using storeTx_effects i hSock hStore

theorem blockWrite_effects (data : List UInt8) : Effects b a s (blockWrite i data s).1 := by
  unfold blockWrite
  split_ifs <;> exact .refl

/-- Entering the poll from INT 14h only sets the guards. -/
theorem pollFrom14_effects (after : List Block) : Effects b a s (pollFrom14 after s).1 := by
  unfold pollFrom14
  split_ifs
  · exact .refl
  · exact (Quiet.setGuards s _ _ _).effects

theorem purgeOutput_effects (hb : b.purges = some i) : Effects b a s (purgeOutput i s) := by
  unfold purgeOutput
  extract_lets first
  have hFirst : Effects b a s first := .single (.purge i hb)
  split_ifs
  · refine (hFirst.thenQuiet (logRequest_quiet i first)).thenQuiet ?_
    exact Quiet.modFossil _ i _ rfl fun _ => .inr (logRequest_requested i first)
  · exact hFirst

/-- The first half of AH=04h empties both rings of its port. -/
theorem initStart_effects (hp : b.purges = some i) (hd : b.discards = some i) :
    Effects b a s (initStart i s).1 := by
  unfold initStart
  extract_lets first
  have hFirst : Effects b a s first := .tail (.single (.clearRx i (.inl hd))) (.purge i hp)
  by_cases hDisc : (first.ports i).pendingClose ≠ 0 ∨
      (callSock i first).isSome ∧ 3 ≤ (first.fossils i).purgeSeen
  · rw [if_pos hDisc]
    dsimp only
    exact hFirst.thenQuiet
      (Quiet.modPort first i _ ⟨rfl, rfl, rfl, rfl, rfl, rfl, rfl, rfl, rfl, rfl, rfl⟩
        ⟨[], rfl⟩ (.inl rfl))
  · rw [if_neg hDisc]
    exact hFirst

theorem readBlock_effects (max : UInt16) : Effects b a s (readBlock i max s) :=
  Effects.thenQuiet (.single (.read i max.toNat)) (Quiet.log _ _ trivial)

/-- AH=02h takes one cell out of the receive ring, if there is one. -/
theorem readChar_effects : Effects b a s (readChar i s) := by
  unfold readChar
  split
  · exact (Quiet.log s (.returned i 0x8000) trivial).effects
  · exact Effects.thenQuiet (.single (.read i 1)) (Quiet.log _ _ trivial)

/-- What an INT 14h function does, apart from the blocks it leaves behind. One case for
each function. -/
theorem int14_effects (f : Fossil) : Effects (.int14 i f) a s (int14 i f s).1 := by
  unfold int14
  by_cases hInit : (s.ports i).initialized
  · rw [if_pos hInit]
    cases f with
    | setBaud | deinit | flush | peek | passthrough => exact .refl
    | transmit v => exact transmit_effects i v
    | receive | status => exact pollFrom14_effects _
    | init => exact initStart_effects i rfl rfl
    | dtr al => exact (setDtr_quiet i s al).effects
    | purgeOutput => exact purgeOutput_effects i rfl
    | purgeInput => exact .single (.clearRx i (.inl rfl))
    | transmitNoWait v => exact transmitNoWait_effects i v
    | flowControl al =>
        exact (Quiet.modFossil s i (fun f => { f with flowCtrl := al }) rfl .inl).effects
    | blockRead max =>
        dsimp only
        split_ifs
        · exact .refl
        · exact (Quiet.setGuards s _ _ _).effects
    | blockWrite data => exact blockWrite_effects i data
  · rw [if_neg hInit]

end Paths

section Closing

variable {b : Block} {a : Answer} {s : Sys} (i : PortIdx)

theorem closeSock_sock (why : CloseReason) : ((closeSock i why s).ports i).sock = none := by
  unfold closeSock
  cases hSock : (s.ports i).sock with
  | none => exact hSock
  | some x => simp

/-- What most ends of a call begin with. -/
theorem hungUp_effects (why : CloseReason) (hEnds : b.ends = some (i, why)) (hMode : b.setsMode) :
    Effects b a s (clearRx i (clearRemote i (closeSock i why s))) := by
  have hSock : ((clearRemote i (closeSock i why s)).ports i).sock = none := by
    simpa [clearRemote] using closeSock_sock i why
  exact .tail (.tail (.single (.close i why hEnds)) (.clearRemote i hMode))
    (.clearRx i (.inr hSock))

/-- The ring time-out closes the call, resets the port and says NO CARRIER. -/
theorem ringTimeout_effects : Effects (.ringTimeout i) a s (ringTimeout i s) := by
  have hClosed : Effects (.ringTimeout i) a s (clearRx i (closeSock i .ringTimeout s)) :=
    .tail (.single (.close i .ringTimeout rfl)) (.clearRx i (.inr (closeSock_sock i _)))
  exact (hClosed.thenQuiet (atNoCarrier_quiet i _)).trans (enterIdleMode_effects i rfl)

/-- A requested teardown closes the call and empties the receive ring. -/
theorem pollClose_effects (silent : Bool) :
    Effects (.pollClose i silent) a s (pollClose i silent s) := by
  unfold pollClose
  extract_lets closed
  have hClosed : Effects (.pollClose i silent) a s closed := hungUp_effects i .pollClose rfl rfl
  split_ifs
  · exact hClosed.trans (enterIdleMode_effects i rfl)
  · exact (hClosed.thenQuiet (atSendNoCarrier_quiet i closed)).trans (enterIdleMode_effects i rfl)

/-- The idle disconnect closes the call as the teardown does. -/
theorem idleClose_effects : Effects (.idleClose i) a s (idleClose i s) :=
  ((hungUp_effects i .idle rfl rfl).thenQuiet (atSendNoCarrier_quiet i _)).trans
    (enterIdleMode_effects i rfl)

/-- A call whose peer is gone is closed; a call that is up has nothing done to it. -/
theorem pollDisconnected_effects (now : Tick) :
    Effects (.disconnected i now) a s (pollDisconnected i now a s) := by
  unfold pollDisconnected
  cases (s.ports i).sock with
  | none => exact .refl
  | some x =>
      dsimp only
      split_ifs
      · exact ((hungUp_effects i .remote rfl rfl).thenQuiet (atSendNoCarrier_quiet i _)).trans
          (enterIdleMode_effects i rfl)
      · exact .refl

/-- AH=04h hangs up the call its port is in. -/
theorem initDisc_effects : Effects (.initDisc i) a s (initDisc i s) :=
  (Relation.ReflTransGen.tail (.single (.close i .initDisc rfl)) (.clearRemote i rfl)).trans
    (enterIdleMode_effects i rfl)

end Closing

section Accepting

variable {b : Block} {a : Answer} {s : Sys} (i : PortIdx)

/-- The member a hunt group picks is in its list, listening, and without a call. -/
theorem freeMember_spec {mask : UInt8} {j : PortIdx} (h : freeMember mask s = some j) :
    hasPort mask j ∧ (s.ports j).mode = .listen ∧ (s.ports j).sock = none := by
  have hFound := List.find?_some h
  simp only [Bool.and_eq_true, decide_eq_true_eq, Option.isNone_iff_eq_none] at hFound
  exact ⟨hFound.1.1, hFound.1.2, hFound.2⟩

/-- A hunt group takes one caller, turns one away, or finds none. -/
theorem pollHunt_effect (g : GroupIdx) :
    Relation.ReflGen (Effect (.hunt g) a) s (pollHunt g a s).1 := by
  unfold pollHunt
  by_cases hOpen : (s.huntGroups g).active ∧ (s.huntGroups g).listenSock.isSome
  · rw [if_pos hOpen]
    cases hAccept : s.net.accept a.accepted with
    | none => exact .refl
    | some pair =>
        dsimp only
        cases hMember : freeMember (s.huntGroups g).portMask s with
        | none =>
            have hRefuses : Block.refuses (.hunt g) s := by
              simp [Block.refuses, hOpen.1, hOpen.2, hMember]
            exact .single (.reject pair.1 pair.2 _ hRefuses hAccept)
        | some j =>
            have hTarget : Block.target (.hunt g) s = some j := (if_pos hOpen).trans hMember
            exact .single (.attach j pair.1 pair.2 hTarget (freeMember_spec hMember).2.2 hAccept)
  · rw [if_neg hOpen]

/-- There is nothing to close on a port without a connection. -/
theorem closeSock_of_none {why : CloseReason} (h : (s.ports i).sock = none) :
    closeSock i why s = s := by
  simp [closeSock, h]

/-- A second caller of a busy port is turned away and nothing else changes. -/
theorem rejectBusy_effect (hInit : (s.ports i).initialized) (hMode : (s.ports i).mode = .conn)
    (hSock : (s.ports i).sock ≠ none) :
    Relation.ReflGen (Effect (.port i) a) s (rejectBusy i a s) := by
  unfold rejectBusy
  by_cases hBusy : (s.ports i).huntGroupIdx = none ∧ (s.ports i).listenSock.isSome ∧
      s.net.pending ≠ []
  · rw [if_pos hBusy]
    cases hAccept : s.net.accept a.accepted with
    | none => exact .refl
    | some pair =>
        have hRefuses : Block.refuses (.port i) s := by
          simp [Block.refuses, hInit, hMode, hBusy.1, hBusy.2.1, Option.isSome_iff_ne_none, hSock]
        exact .single (.reject pair.1 pair.2 _ hRefuses hAccept)
  · rw [if_neg hBusy]

/-- A listening port holds no call, so nothing is replaced on accept. -/
theorem pollPort_effect (hIdle : (s.ports i).mode = .listen → (s.ports i).sock = none) :
    Relation.ReflGen (Effect (.port i) a) s (pollPort i a s).1 := by
  unfold pollPort
  by_cases hInit : (s.ports i).initialized
  · rw [if_pos hInit]
    cases hMode : (s.ports i).mode with
    | disc => exact .refl
    | listen =>
        dsimp only
        by_cases hHunt : (s.ports i).huntGroupIdx.isSome
        · rw [if_pos hHunt]
        · rw [if_neg hHunt]
          have hTarget : Block.target (.port i) s = some i :=
            if_pos ⟨hInit, hMode, by simpa using hHunt⟩
          cases hAccept : s.net.accept a.accepted with
          | none => exact .refl
          | some pair =>
              dsimp only
              rw [closeSock_of_none (s := s.setNet pair.2) i (hIdle hMode)]
              exact .single (.attach i pair.1 pair.2 hTarget (hIdle hMode) hAccept)
    | conn =>
        dsimp only
        by_cases hSock : (s.ports i).sock = none
        · rw [if_pos hSock]
          exact .single (enterIdleMode_effect i rfl)
        · rw [if_neg hSock]
          exact rejectBusy_effect i hInit hMode hSock
  · rw [if_neg hInit]

/-- The service of a call begins a requested teardown, or finds a port without a
connection and gives it its idle mode back. -/
theorem answered_effects : Effects (.answered i) a s (answered i s).1 := by
  unfold answered
  by_cases hSock : (s.ports i).sock = none
  · rw [if_pos hSock]
    dsimp only
    split_ifs
    · exact .refl
    · exact enterIdleMode_effects i rfl
  · rw [if_neg hSock]
    by_cases hClose : (s.ports i).pendingClose ≠ 0 ∧ s.safe
    · rw [if_pos hClose]
      dsimp only
      exact (Quiet.modPort s i _ ⟨rfl, rfl, rfl, rfl, rfl, rfl, rfl, rfl, rfl, rfl, rfl⟩ ⟨[], rfl⟩
        (.inl rfl)).effects
    · rw [if_neg hClose]

end Accepting

section Listening

variable {b : Block} {a : Answer} {s : Sys} (i : PortIdx)

/-- The three outcomes of opening a listen socket. -/
theorem openListen_cases (tcpPort : UInt16) (a : Answer) (s : Sys) :
    openListen tcpPort a s = (s, none) ∨
      ∃ x net, s.net.getSocket a.obtained = some (x, net) ∧
        (openListen tcpPort a s = (s.setNet (net.listen x tcpPort), some x) ∨
          openListen tcpPort a s = (freeSocket x (s.setNet net), none)) := by
  unfold openListen
  cases hGet : s.net.getSocket a.obtained with
  | none => exact .inl rfl
  | some pair =>
      refine .inr ⟨pair.1, pair.2, rfl, ?_⟩
      dsimp only
      split_ifs
      · exact .inl rfl
      · exact .inr rfl

/-- Opening the listen socket of a port while the driver is installed. -/
theorem preallocate_effects (eager : Bool) :
    Effects (.preallocate i eager) a s (preallocate i eager a s) := by
  unfold preallocate
  split
  next h =>
    rcases openListen_cases (s.ports i).localPort a s with hNone | ⟨x, net, hGet, hOpen | hFail⟩
    · simpa [hNone] using Relation.ReflTransGen.refl
    · simp only [hOpen]
      have hListen : Effects (.preallocate i eager) a s _ :=
        .single (.listenPort i (s.ports i).localPort x net rfl h.2.2.1 hGet rfl)
      have hMode := hListen.trans
        (.single <| setMode_effect i (fun p => if eager then .listen else p.mode) rfl)
      rw [modPort_modPort] at hMode
      exact hMode
    · simpa only [hFail] using Relation.ReflTransGen.single (.waste x net hGet)
  next => exact .refl

theorem preallocateHunt_effects (g : GroupIdx) (eager : Bool) :
    Effects (.preallocateHunt g eager) a s (preallocateHunt g eager a s) := by
  unfold preallocateHunt
  split
  next h =>
    rcases openListen_cases (s.huntGroups g).tcpPort a s with hNone | ⟨x, net, hGet, hOpen | hFail⟩
    · simpa [hNone] using Relation.ReflTransGen.refl
    · simp only [hOpen]
      have hListen : Effects (.preallocateHunt g eager) a s _ :=
        .single (.listenHunt g (s.huntGroups g).tcpPort x net rfl h.2 h.1 hGet rfl)
      cases eager with
      | true =>
          simp only [ite_mode, ↓reduceIte]
          exact hListen.tail (.modes _ rfl)
      | false => exact hListen
    · simpa only [hFail] using Relation.ReflTransGen.single (.waste x net hGet)
  next => exact .refl

/-- AH=04h opens a listen socket where a listening port has none. -/
theorem initListen_effects : Effects (.initFinish i) a s (initListen i a s) := by
  unfold initListen
  cases (s.ports i).huntGroupIdx with
  | some g =>
      dsimp -zeta only
      extract_lets opened
      have hOpened : Effects (.initFinish i) a s opened := by
        unfold opened
        split
        next h =>
          rcases openListen_cases (s.huntGroups g).tcpPort a s with
            hNone | ⟨x, net, hGet, hOpen | hFail⟩
          · simpa [hNone] using Relation.ReflTransGen.refl
          · simpa only [hOpen] using
              Relation.ReflTransGen.single
                (.listenHunt g (s.huntGroups g).tcpPort x net rfl h.2 h.1 hGet rfl)
          · simpa only [hFail] using Relation.ReflTransGen.single (.waste x net hGet)
        next => exact .refl
      split_ifs
      · exact hOpened
      · exact hOpened.trans (.single <| setMode_effect i (fun _ => .listen) rfl)
  | none =>
      dsimp only
      split_ifs with _ hFree
      · rcases openListen_cases (s.ports i).localPort a s with hNone | ⟨x, net, hGet, hOpen | hFail⟩
        · simpa [hNone] using Relation.ReflTransGen.refl
        · simp only [hOpen]
          have hListen : Effects (.initFinish i) a s _ :=
            .single (.listenPort i (s.ports i).localPort x net rfl hFree hGet rfl)
          have hMode := hListen.trans (.single <| setMode_effect i (fun _ => .listen) rfl)
          rw [modPort_modPort] at hMode
          exact hMode
        · simpa only [hFail] using Relation.ReflTransGen.single (.waste x net hGet)
      · exact .single <| setMode_effect i (fun _ => .listen) rfl
      · exact .refl

/-- The last part of AH=04h resets the port and lets it listen. -/
theorem initFinish_effects : Effects (.initFinish i) a s (initFinish i a s) :=
  Effects.thenQuiet (((initReset_quiet i s).effects).trans (initListen_effects i))
    (Quiet.log _ _ trivial)

end Listening

section Control

variable {b : Block} {a : Answer} {s : Sys} (i : PortIdx)

/-- MUX_LISTEN drops a listen socket, asks for a teardown and sets up the port. -/
theorem cmdListen_effects (tcpPort : UInt16) :
    Effects (.mux (.listen i tcpPort)) a s (cmdListen i tcpPort s) := by
  refine (cmdDisconnect_quiet i s).effects.tail
    (.reconfigure i _ (by simp [Block.renews]) fun p => ?_)
  exact ⟨rfl, rfl, rfl, rfl, rfl, rfl, rfl, rfl, rfl, rfl⟩

/-- Joining a hunt group sets up one port of the list. -/
theorem joinGroup_effects (g : GroupIdx) (tcpPort : UInt16) (hb : b.renews i) :
    Effects b a s (joinGroup g tcpPort i s) := by
  refine .single (.reconfigure i _ hb fun p => ?_)
  exact ⟨rfl, rfl, rfl, rfl, rfl, rfl, rfl, rfl, rfl, rfl⟩

/-- All ports of the list are set up. The induction is on the list. -/
theorem joinAll_effects (g : GroupIdx) (tcpPort : UInt16) (members : List PortIdx)
    (hb : ∀ i ∈ members, b.renews i) :
    Effects b a s (members.foldl (fun s i => joinGroup g tcpPort i s) s) := by
  induction members generalizing s with
  | nil => exact .refl
  | cons i rest ih =>
      exact (joinGroup_effects i g tcpPort (hb i (by simp))).trans
        (ih fun j hj => hb j (by simp [hj]))

/-- MUX_HUNT_LISTEN sets up the group and then every port in its list. -/
theorem cmdHuntListen_effects (mask : UInt8) (tcpPort : UInt16) :
    Effects (.mux (.huntListen mask tcpPort)) a s (cmdHuntListen mask tcpPort s) := by
  unfold cmdHuntListen
  cases hGroup : freeGroup s with
  | none => exact .refl
  | some g =>
      have hFree : (s.huntGroups g).active = false := by simpa using List.find?_some hGroup
      exact (Relation.ReflTransGen.single (.group g tcpPort mask rfl hFree)).trans
        (joinAll_effects g tcpPort _ fun j hj => (List.mem_filter.mp hj).2)

end Control

section External

variable {b : Block} {a : Answer} {s : Sys} (k : ExtIdx)

/-- A write to a handle that leaves its connection alone. -/
theorem extTouch_effects (f : ExtSocket → ExtSocket)
    (hf : ∀ e : ExtSocket, (f e).sock = e.sock) :
    Effects b a s (s.modExt k f) := .single (.extTouch k f hf)

theorem sockAlloc_effects : Effects (.mux .sockAlloc) a s (sockAlloc a s) := by
  unfold sockAlloc
  split
  next => exact (Quiet.setResult s _).effects
  next k hFound =>
    have hFree : (s.extSockets k).sock = none := by
      have hBoth := List.find?_some hFound
      simp only [Bool.and_eq_true, Option.isNone_iff_eq_none] at hBoth
      exact hBoth.2
    cases hGet : s.net.getSocket a.obtained with
    | none => exact (Quiet.setResult s _).effects
    | some pair =>
        dsimp only
        split_ifs
        · exact Effects.thenQuiet (.single (.extAlloc k pair.1 pair.2 hFree hGet rfl))
            (Quiet.setResult _ _)
        · exact Effects.thenQuiet (.single (.waste pair.1 pair.2 hGet)) (Quiet.setResult _ _)

theorem sockConnect_effects (ip : IpAddr) (port : UInt16) :
    Effects b a s (sockConnect k ip port s) := by
  unfold sockConnect
  split_ifs
  · exact (Quiet.setResult s _).effects
  · refine Effects.thenQuiet ?_ (Quiet.setResult _ _)
    exact extTouch_effects k _ fun _ => rfl

theorem sockStatus_effects : Effects b a s (sockStatus k a s) := by
  unfold sockStatus
  cases (s.extSockets k).sock with
  | none => exact (Quiet.setResult s _).effects
  | some x =>
      refine Effects.thenQuiet ?_ (Quiet.setResult _ _)
      exact extTouch_effects k _ fun _ => rfl

/-- MUX_SOCK_SEND queues what TCP takes on the connection of its handle. -/
theorem sockSend_effects (data : List UInt8) :
    Effects (.mux (.sockSend k data)) a s (sockSend k data a s) := by
  unfold sockSend
  cases hSock : (s.extSockets k).sock with
  | none => exact (Quiet.setResult s _).effects
  | some x =>
      dsimp only
      split_ifs
      · exact Effects.thenQuiet (.single (.extSend k x hSock _ _ ⟨data, rfl⟩)) (Quiet.setResult _ _)
      · exact (Quiet.setResult s _).effects

/-- MUX_SOCK_RECV takes what TCP has on the connection of its handle. -/
theorem sockRecv_effects (size : UInt16) :
    Effects (.mux (.sockRecv k size)) a s (sockRecv k size a s) := by
  unfold sockRecv
  cases hSock : (s.extSockets k).sock with
  | none => exact (Quiet.setResult s _).effects
  | some x =>
      dsimp only
      split_ifs
      · exact Effects.thenQuiet (.single (.extRecv k x hSock _ _ ⟨size, rfl⟩)) (Quiet.setResult _ _)
      · exact (Quiet.setResult s _).effects

theorem sockClose_effects : Effects b a s (sockClose k s) := by
  unfold sockClose
  split_ifs
  · exact (Quiet.setResult s _).effects
  · refine Effects.thenQuiet ?_ (Quiet.setResult _ _)
    exact extTouch_effects k _ fun _ => rfl

theorem sockRecvReady_effects : Effects b a s (sockRecvReady k s) := by
  unfold sockRecvReady
  cases (s.extSockets k).sock with
  | none => exact (Quiet.setResult s _).effects
  | some x => exact (Quiet.setResult s _).effects

/-- The poll carries out a connect that was asked for. -/
theorem extConnect_effects {x : SockId} (hSock : (s.extSockets k).sock = some x) :
    Effects b a s (extConnect k x a s) := by
  unfold extConnect
  split
  next =>
    extract_lets started
    have hStarted : Effects b a s started := extTouch_effects k _ fun _ => rfl
    split_ifs
    · refine hStarted.tail (.extConnect k x ?_)
      simpa [started] using hSock
    · exact hStarted.trans (extTouch_effects k _ fun _ => rfl)
  next => exact .refl

theorem extConnect_sock (x : SockId) :
    ((extConnect k x a s).extSockets k).sock = (s.extSockets k).sock := by
  unfold extConnect
  split_ifs <;> simp

/-- The poll of a handle connects it or closes it, as was asked for. -/
theorem pollExt_effects : Effects b a s (pollExt k a s) := by
  unfold pollExt
  cases hSock : (s.extSockets k).sock with
  | none => exact .refl
  | some x =>
      dsimp -zeta only
      extract_lets connected
      have hConnected : Effects b a s connected := extConnect_effects k hSock
      have hSame : (connected.extSockets k).sock = some x := (extConnect_sock k x).trans hSock
      split
      next => exact hConnected.tail (.extClose k x hSame)
      next =>
        split_ifs
        · exact hConnected.trans (extTouch_effects k _ fun _ => rfl)
        · exact hConnected.trans (extTouch_effects k _ fun _ => rfl)
        · exact hConnected
      next =>
        split_ifs
        · exact hConnected.trans (extTouch_effects k _ fun _ => rfl)
        · exact hConnected.trans (extTouch_effects k _ fun _ => rfl)
        · exact hConnected
      next => exact hConnected

end External

/-- What a multiplex function does. One case for each function. -/
theorem mux_effects (m : Mux) (a : Answer) (s : Sys) : Effects (.mux m) a s (mux m a s).1 := by
  cases m with
  | listen i port => exact cmdListen_effects i port
  | disconnect i => exact (cmdDisconnect_quiet i s).effects
  | huntListen mask port => exact cmdHuntListen_effects mask port
  | poll =>
      unfold mux
      dsimp only
      split_ifs
      · exact .refl
      · exact (Quiet.setGuards s _ _ _).effects
  | sockAlloc => exact sockAlloc_effects
  | sockConnect k ip port => exact sockConnect_effects k ip port
  | sockStatus k => exact sockStatus_effects k
  | sockSend k data => exact sockSend_effects k data
  | sockRecv k size => exact sockRecv_effects k size
  | sockClose k => exact sockClose_effects k
  | sockRecvReady k => exact sockRecvReady_effects k

/-- What a block does, from any state in which listening ports hold no call, a
port about to ring has one, and received bytes belong to the port's call. -/
theorem exec_effects (b : Block) (a : Answer) (s : Sys)
    (hIdle : ∀ i, (s.ports i).mode = .listen → (s.ports i).sock = none)
    (hRing : ∀ i, b = .ring i → (s.ports i).mode = .conn)
    (hRx : ∀ i x tmp drop, b = .rx i x tmp drop → (s.ports i).sock = some x) :
    Effects b a s (exec b a s).1 := by
  cases b with
  | int14 i f => exact int14_effects i f
  | int28 =>
      unfold exec
      dsimp only
      split_ifs
      · exact .refl
      · exact (Quiet.setGuards s _ _ _).effects
  | mux m => exact mux_effects m a s
  | preallocate i eager => exact preallocate_effects i eager
  | preallocateHunt g eager => exact preallocateHunt_effects g eager
  | raw i buf => exact .single (.write i buf rfl)
  | flush i => exact .single (.flush i rfl)
  | ring i => exact (atSendRing_quiet (hRing i rfl)).effects
  | checkRing i => exact (atCheckRing_quiet i s).effects
  | connectResult i => exact (atResult_quiet i s _ _).effects
  | ringTimeout i => exact ringTimeout_effects i
  | hangup i => exact ((requestClose_quiet i s).trans (atNoCarrier_quiet i _)).effects
  | closing n =>
      cases n with
      | zero => exact .refl
      | succ n => exact .single (.drain n)
  | hunt g => exact (pollHunt_effect g).to_reflTransGen
  | port i => exact (pollPort_effect i (hIdle i)).to_reflTransGen
  | answered i => exact answered_effects i
  | pollClose i silent => exact pollClose_effects i silent
  | recv i => exact .single (.receive i rfl)
  | rx i x tmp drop => exact .single (.filter i x tmp drop rfl (hRx i x tmp drop rfl))
  | idleClose i => exact idleClose_effects i
  | disconnected i now => exact pollDisconnected_effects i now
  | ext k => exact pollExt_effects k
  | pollDone => exact (Quiet.setGuards s _ _ _).effects
  | status i => exact (fossilStatus_quiet i s).effects
  | purgeStatus i => exact (purgeStatus_quiet i s).effects
  | readChar i => exact readChar_effects i
  | readBlock i max => exact readBlock_effects i max
  | retryChar i v => exact retryChar_effects i v
  | write i rest count => exact writeNext_effects i rest count
  | retryWrite i v rest count => exact retryWrite_effects i v rest count
  | int14Deinit i => exact (deinit_quiet i s).effects
  | initDisc i => exact initDisc_effects i
  | initFinish i => exact initFinish_effects i
  | ret i ax => exact (Quiet.log s (.returned i ax) trivial).effects
  | pollStart | keepalive _ | idle _ _ | spin _ | spinLoop _ _ | spinCheck _ _ => exact .refl

/-- A block that takes a connection from `accept()` does nothing else. -/
theorem exec_accepts {b : Block} (a : Answer) (s : Sys) (hb : b.accepts)
    (hIdle : ∀ i, (s.ports i).mode = .listen → (s.ports i).sock = none) :
    Relation.ReflGen (Effect b a) s (exec b a s).1 := by
  cases b with
  | hunt g => exact pollHunt_effect g
  | port i => exact pollPort_effect i (hIdle i)
  | _ => cases hb

end Vmodem
