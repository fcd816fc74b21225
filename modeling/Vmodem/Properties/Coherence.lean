import Vmodem.Invariants.Requests
import Vmodem.Driver.Script

/-! Coherence of the state of a port: its mode, its socket, the address of its
caller and the ringing state of its AT interpreter agree whenever no driver call
is in progress. -/

namespace Vmodem

structure Sys.PortsCoherent (s : Sys) : Prop where
  modes : ∀ i, (s.ports i).mode = .conn ↔ (s.ports i).sock.isSome
  remote : ∀ i, (s.ports i).mode ≠ .conn →
    (s.ports i).remoteIP = 0 ∧ (s.ports i).remotePort = 0
  calling : ∀ i, (s.ats i).ringing ∨ (s.ats i).connectPending → (s.ports i).mode = .conn

/-- The ports a block leaves without their call, but not without the traces of
it: the ring timeout, and the control commands that set ports up anew. -/
def Block.forgets (b : Block) (s : Sys) (i : PortIdx) : Bool :=
  match b with
  | .ringTimeout j => decide (j = i)
  | .mux (.listen j _) => decide (j = i)
  | .mux (.huntListen mask _) => (freeGroup s).isSome && hasPort mask i
  | _ => false

/-- No call ends by ring timeout, and ports are set up anew only while they are
not in a call. -/
def keepsCoherence (c : Config) : Action → Bool
  | .run _ =>
      c.todo.head?.all fun b => (List.finRange 4).all fun i =>
        !b.forgets c.sys i || (c.sys.ports i).sock.isNone
  | _ => true

/-- The part of coherence kept inside driver calls: between INIT-DISC and the end
of AH=04h a port may still be marked as ringing. -/
structure Sys.CallState (s : Sys) (todo : List Block) : Prop where
  remote : ∀ i, (s.ports i).sock = none → (s.ports i).remoteIP = 0 ∧ (s.ports i).remotePort = 0
  calling : ∀ i, (s.ats i).Calling → (s.ports i).sock.isSome ∨ .initFinish i ∈ todo

section CallState

variable {b : Block} {a : Answer} {s t : Sys} {todo rest : List Block} {i : PortIdx}

/-- The call state is about interpreters, connections and remote addresses. -/
theorem Sys.CallState.congr (h : s.CallState todo) (hAts : t.ats = s.ats)
    (hPorts : ∀ j, (t.ports j).sock = (s.ports j).sock ∧
      (t.ports j).remoteIP = (s.ports j).remoteIP ∧
      (t.ports j).remotePort = (s.ports j).remotePort) : t.CallState todo := by
  refine ⟨fun j hNone => ?_, fun j hCalling => ?_⟩
  · obtain ⟨hSock, hIP, hPort⟩ := hPorts j
    rw [hIP, hPort]
    exact h.remote j (hSock ▸ hNone)
  · rw [(hPorts j).1]
    exact h.calling j (hAts ▸ hCalling)

/-- Blocks that are gone from the stack without finishing an AH=04h are not missed. -/
theorem Sys.CallState.mono (h : s.CallState todo)
    (hTodo : ∀ i, .initFinish i ∈ todo → .initFinish i ∈ rest) : s.CallState rest :=
  ⟨h.remote, fun i hCalling => (h.calling i hCalling).imp_right (hTodo i)⟩

/-- A quiet step keeps the call state: alerting needs a call. -/
theorem Quiet.callState (h : Quiet s t) (hModes : s.ModesAgree) (hs : s.CallState todo) :
    t.CallState todo := by
  refine ⟨fun j hNone => ?_, fun j hCalling => ?_⟩
  · rw [(h.port j).remoteIP, (h.port j).remotePort]
    exact hs.remote j ((h.port j).sock ▸ hNone)
  · rw [(h.port j).sock]
    rcases h.calling j hCalling with hOld | hConn
    · exact hs.calling j hOld
    · exact .inl ((hModes j).mp hConn)

/-- One effect, unless it ends a call or sets up a port in one. -/
theorem Effect.callState (h : Effect b a s t) (hModes : s.ModesAgree) (hEnds : b.ends = none)
    (hRenews : ∀ i, b.renews i → (s.ports i).sock = none) (hs : s.CallState todo) :
    t.CallState todo := by
  cases h with
  | quiet h => exact h.callState hModes hs
  | store j y v hSock h =>
      obtain ⟨_, rfl⟩ := storeTx_eq_some h
      exact hs.congr rfl fun _ => ⟨rfl, rfl, rfl⟩
  | filter j y tmp drop hb hSock =>
      refine hs.congr (by simp) fun k => ?_
      obtain ⟨_, hSame, _, hIP, hPort, _⟩ := pollRx_call j a s y tmp drop k
      exact ⟨hSame, hIP, hPort⟩
  | receive j hb =>
      rcases pollRecv_cases j a s with hNone | ⟨y, _, _, _, hSome⟩
      · rwa [hNone]
      · rw [hSome]
        refine hs.congr (by split_ifs <;> rfl) fun k => ?_
        by_cases hk : k = j <;> split_ifs <;> simp [hk]
  | clearRemote j hb =>
      refine ⟨fun k hNone => ?_, fun k hCalling => ?_⟩
      · by_cases hk : k = j
        · simp [hk]
        · simpa [hk] using hs.remote k (by simpa [hk] using hNone)
      · by_cases hk : k = j
        · simpa [hk] using hs.calling j (hk ▸ hCalling)
        · simpa [hk] using hs.calling k hCalling
  | close j why hb => simp [hEnds] at hb
  | attach j y net hb hNone hAccept =>
      refine ⟨fun k hk' => ?_, fun k hCalling => ?_⟩
      · by_cases hk : k = j
        · simp [hk, telnetReset] at hk'
        · simpa [hk] using hs.remote k (by simpa [hk] using hk')
      · by_cases hk : k = j
        · exact .inl (by simp [hk, telnetReset])
        · simpa [hk] using hs.calling k (by simpa using hCalling)
  | reconfigure j f hb hf =>
      have hNone := hRenews j hb
      refine ⟨fun k hk' => ?_, fun k hCalling => ?_⟩
      · by_cases hk : k = j
        · simpa [hk, (hf _).remoteIP, (hf _).remotePort] using hs.remote j hNone
        · simpa [hk] using hs.remote k (by simpa [hk] using hk')
      · have hOld := hs.calling k (by simpa using hCalling)
        by_cases hk : k = j
        · exact .inr (hOld.resolve_left (by simp [hk, hNone]))
        · simpa [hk] using hOld
  | read j n =>
      refine hs.congr (by simp) fun k => ?_
      by_cases hk : k = j <;> simp [hk]
  | clearRx j hb | listenPort j tcpPort y net hb hFree hGet =>
      refine hs.congr rfl fun k => ?_
      by_cases hk : k = j <;> simp [hk]
  | flush j hb | write j buf hb | drain n => exact hs.congr (by simp) fun _ => by simp
  | extClose k y hSock =>
      exact hs.congr (sockCloseFast_frame y s).2.1 fun _ => by simp
  | reject y net msg hb hAccept =>
      exact hs.congr (rejectCall_frame y (s.setNet net) msg a).2.1 fun _ => by simp
  | purge j hb => exact hs.congr (fossilClearTx_frame j s).2.1 fun _ => by simp
  | _ => exact hs.congr rfl fun _ => ⟨rfl, rfl, rfl⟩

/-- Blocks that neither change modes nor accept keep the call state, unless they set up
a port in a call. -/
theorem Effects.callState (h : Effects b a s t) (hMode : b.setsMode = false)
    (hAccepts : b.accepts = false) (hModes : s.ModesAgree)
    (hRenews : ∀ i, b.renews i → (s.ports i).sock = none) (hs : s.CallState todo) :
    t.CallState todo := by
  have hEnds : b.ends = none := by
    cases hb : b.ends with
    | none => rfl
    | some pair =>
        obtain ⟨j, w⟩ := pair
        simp [Block.setsMode_of_ends hb] at hMode
  suffices hAll : t.ModesAgree ∧ (∀ i, b.renews i → (t.ports i).sock = none) ∧ t.CallState todo from
    hAll.2.2
  induction h with
  | refl => exact ⟨hModes, hRenews, hs⟩
  | tail _ last ih =>
      obtain ⟨hMiddle, hFree, hState⟩ := ih
      refine ⟨last.modesAgree hMode hAccepts hMiddle, fun i hb => ?_,
        last.callState hMiddle hEnds hFree hState⟩
      exact (last.sock_mono hAccepts i).elim (fun hSame => hSame.trans (hFree i hb)) id

end CallState

section Blocks

variable {a : Answer} {s : Sys} {todo rest : List Block} (i : PortIdx)

theorem atRespond_ats (text : List UInt8) (s : Sys) : (atRespond i text s).ats = s.ats := by
  unfold atRespond
  split_ifs <;> rfl

/-- After NO CARRIER its own port is not alerting, and the others are as before. -/
theorem atSendNoCarrier_ats (j : PortIdx) (h : ((atSendNoCarrier i s).ats j).Calling) :
    j ≠ i ∧ (s.ats j).Calling := by
  unfold atSendNoCarrier atNoCarrier atResult at h
  rw [atRespond_ats] at h
  by_cases hj : j = i
  · simp [AtState.Calling, hj] at h
  · simpa [hj] using h

/-- What most ends of a call come to. -/
theorem hungUp_callState (why : CloseReason) (hs : s.CallState todo) :
    (enterIdleMode i (atSendNoCarrier i (clearRx i (clearRemote i (closeSock i why s))))).CallState
      todo := by
  have hQuiet := atSendNoCarrier_quiet i (clearRx i (clearRemote i (closeSock i why s)))
  have hCalling := atSendNoCarrier_ats i (s := clearRx i (clearRemote i (closeSock i why s)))
  generalize atSendNoCarrier i (clearRx i (clearRemote i (closeSock i why s))) = t at *
  refine Sys.CallState.congr (s := t) ⟨fun j hNone => ?_, fun j hj => ?_⟩ rfl fun j => ?_
  · rw [(hQuiet.port j).sock] at hNone
    rw [(hQuiet.port j).remoteIP, (hQuiet.port j).remotePort]
    by_cases hj : j = i
    · simp [hj]
    · simpa [hj] using hs.remote j (by simpa [hj] using hNone)
  · obtain ⟨hNe, hOld⟩ := hCalling j hj
    rw [(hQuiet.port j).sock]
    simpa [hNe] using hs.calling j (by simpa using hOld)
  · by_cases hj : j = i <;> simp [enterIdleMode, hj]

/-- AH=04h hangs up before its second half has reset the interpreter, which is still to
come. -/
theorem initDisc_callState (hFollows : .initFinish i ∈ todo) (hs : s.CallState todo) :
    (initDisc i s).CallState todo := by
  refine ⟨fun j hNone => ?_, fun j hCalling => ?_⟩
  · by_cases hj : j = i
    · simp [initDisc, enterIdleMode, hj]
    · simpa [initDisc, enterIdleMode, hj] using
        hs.remote j (by simpa [initDisc, enterIdleMode, hj] using hNone)
  · by_cases hj : j = i
    · exact .inr (hj ▸ hFollows)
    · simpa [initDisc, enterIdleMode, hj] using
        hs.calling j (by simpa [initDisc, enterIdleMode] using hCalling)

/-- A ring timeout after the call is gone only tells the application. -/
theorem ringTimeout_callState (hModes : s.ModesAgree) (hNone : (s.ports i).sock = none)
    (hs : s.CallState todo) : (ringTimeout i s).CallState todo := by
  unfold ringTimeout
  rw [closeSock_of_none i hNone]
  have hCleared : (clearRx i s).CallState todo := hs.congr rfl fun j => by
    by_cases hj : j = i <;> simp [hj]
  have hAgree : (clearRx i s).ModesAgree := hModes.congr fun j => by
    by_cases hj : j = i <;> simp [hj]
  refine ((atNoCarrier_quiet i _).callState hAgree hCleared).congr rfl fun j => ?_
  by_cases hj : j = i <;> simp [enterIdleMode, hj]

theorem openListen_ats (tcpPort : UInt16) (a : Answer) (s : Sys) :
    (openListen tcpPort a s).1.ats = s.ats := by
  rcases openListen_cases tcpPort a s with hNone | ⟨x, net, _, hOpen | hFail⟩
  · rw [hNone]
  · rw [hOpen]
    rfl
  · rw [hFail]
    rfl

theorem openListen_callState (tcpPort : UInt16) (a : Answer) (hs : s.CallState todo) :
    (openListen tcpPort a s).1.CallState todo :=
  hs.congr (openListen_ats tcpPort a s) fun j => by simp [openListen_ports]

theorem preallocate_callState (eager : Bool) (hs : s.CallState todo) :
    (preallocate i eager a s).CallState todo := by
  unfold preallocate
  split
  next =>
    have hOpen := openListen_callState (s.ports i).localPort a hs
    rcases hRes : openListen (s.ports i).localPort a s with ⟨u, _ | x⟩
    · rw [hRes] at hOpen
      exact hOpen
    · rw [hRes] at hOpen
      refine hOpen.congr rfl fun j => ?_
      by_cases hj : j = i <;> simp [hj]
  next => exact hs

theorem preallocateHunt_callState (g : GroupIdx) (eager : Bool) (hs : s.CallState todo) :
    (preallocateHunt g eager a s).CallState todo := by
  unfold preallocateHunt
  split
  next =>
    have hOpen := openListen_callState (s.huntGroups g).tcpPort a hs
    rcases hRes : openListen (s.huntGroups g).tcpPort a s with ⟨u, _ | x⟩
    · rw [hRes] at hOpen
      exact hOpen
    · rw [hRes] at hOpen
      cases eager with
      | false => exact hOpen.congr rfl fun j => by simp
      | true =>
          refine hOpen.congr rfl fun j => ?_
          simp only [↓reduceIte]
          split_ifs <;> simp
  next => exact hs

/-- The listening part of AH=04h keeps the call state. -/
theorem initListen_callState (hs : s.CallState todo) : (initListen i a s).CallState todo := by
  unfold initListen
  cases (s.ports i).huntGroupIdx with
  | some g =>
      dsimp -zeta only
      extract_lets opened
      have hOpened : opened.CallState todo := by
        unfold opened
        split
        next =>
          have hOpen := openListen_callState (s.huntGroups g).tcpPort a hs
          rcases hRes : openListen (s.huntGroups g).tcpPort a s with ⟨u, _ | x⟩
          · rw [hRes] at hOpen
            exact hOpen
          · rw [hRes] at hOpen
            exact hOpen.congr rfl fun j => by simp
        next => exact hs
      split_ifs
      · exact hOpened
      · refine hOpened.congr rfl fun j => ?_
        by_cases hj : j = i <;> simp [hj]
  | none =>
      dsimp only
      split
      next =>
        split
        next =>
          have hOpen := openListen_callState (s.ports i).localPort a hs
          rcases hRes : openListen (s.ports i).localPort a s with ⟨u, _ | x⟩
          · rw [hRes] at hOpen
            exact hOpen
          · rw [hRes] at hOpen
            refine hOpen.congr rfl fun j => ?_
            by_cases hj : j = i <;> simp [hj]
        next =>
          refine hs.congr rfl fun j => ?_
          by_cases hj : j = i <;> simp [hj]
      next => exact hs

/-- AH=04h leaves a port marked as ringing only while it is in a call. -/
theorem initReset_calling (h : ((initReset i s).ats i).Calling) :
    ((initReset i s).ports i).sock.isSome := by
  revert h
  unfold initReset
  extract_lets _ _ ringing third
  by_cases hRings : ringing ∧ (callSock i third).isSome ∧ (third.ports i).pendingClose = 0
  · rw [if_pos hRings]
    intro _
    obtain ⟨x, hCall⟩ := Option.isSome_iff_exists.mp hRings.2.1
    have hSock := (callSock_eq_some hCall).2
    show (third.ports i).sock.isSome
    rw [hSock]
    rfl
  · rw [if_neg hRings]
    intro h
    simp [AtState.Calling, third, atInit, AtState.zero] at h

/-- The second half of AH=04h resets what its first half had left. -/
theorem initFinish_callState (hModes : s.ModesAgree) (hs : s.CallState (.initFinish i :: rest)) :
    (initFinish i a s).CallState rest := by
  have hReset := (initReset_quiet i s).callState hModes hs
  have hFinished : (initReset i s).CallState rest := by
    refine ⟨hReset.remote, fun j hCalling => ?_⟩
    by_cases hj : j = i
    · subst hj
      exact .inl (initReset_calling j hCalling)
    · refine (hReset.calling j hCalling).imp_right fun hMem => ?_
      simpa [hj] using hMem
  exact (initListen_callState i hFinished).congr rfl fun _ => ⟨rfl, rfl, rfl⟩

end Blocks

section Runs

variable {b : Block} {a : Answer} {s t : Sys} {rest : List Block} {i : PortIdx}

/-- A control command that forgets no call sets up ports without one. -/
theorem renews_of_forgets (h : ∀ i, b.forgets s i → (s.ports i).sock = none) :
    (exec b a s).1 = s ∨ ∀ i, b.renews i → (s.ports i).sock = none := by
  cases b with
  | mux m =>
      cases m with
      | listen j tcpPort =>
          exact .inr fun i hb => h i (by simpa [Block.forgets, Block.renews, eq_comm] using hb)
      | huntListen mask tcpPort =>
          cases hFree : freeGroup s with
          | none =>
              refine .inl ?_
              show cmdHuntListen mask tcpPort s = s
              simp [cmdHuntListen, hFree]
          | some g =>
              exact .inr fun i hb => h i (by simpa [Block.forgets, Block.renews, hFree] using hb)
      | _ => exact .inr fun _ hb => by cases hb
  | _ => exact .inr fun _ hb => by cases hb

/-- A block that accepts a call sets address and connection together. -/
theorem accepts_callState (hAccepts : b.accepts) (hModes : s.ModesAgree)
    (hIdle : ∀ i, (s.ports i).mode = .listen → (s.ports i).sock = none) (hs : s.CallState rest) :
    (exec b a s).1.CallState rest := by
  have hRenews : ∀ i, b.renews i = false := fun i => by
    cases b <;> first | rfl | cases hAccepts
  have hEnds : b.ends = none := by
    cases b <;> first | rfl | cases hAccepts
  have hOne := exec_accepts a s hAccepts hIdle
  generalize (exec b a s).1 = t at hOne ⊢
  cases hOne with
  | refl => exact hs
  | single hEffect => exact hEffect.callState hModes hEnds (fun i hb => by simp [hRenews] at hb) hs

/-- A block of a run keeps the state of the calls coherent. -/
theorem exec_callState (hReach : Reachable ⟨s, b :: rest⟩)
    (hForgets : ∀ i, b.forgets s i → (s.ports i).sock = none)
    (hs : s.CallState (b :: rest)) :
    (exec b a s).1.CallState ((exec b a s).2 ++ rest) := by
  have hSound := hReach.sound
  have hModes : s.ModesAgree := hSound.modes
  obtain ⟨hSilent, hFollows⟩ := stack_orderly hReach
  have hRest : (∀ j, b ≠ .initFinish j) → s.CallState rest := fun hb => hs.mono fun j hMem =>
    (List.mem_cons.mp hMem).resolve_left fun hEq => hb j hEq.symm
  suffices hState : (exec b a s).1.CallState rest from
    hState.mono fun j hMem => List.mem_append_right _ hMem
  cases b with
  | initFinish i => exact initFinish_callState i hModes hs
  | initDisc i =>
      have hNext : .initFinish i ∈ rest := by
        simpa using hFollows i (by simp)
      exact initDisc_callState i hNext (hRest (by simp))
  | preallocate i eager => exact preallocate_callState i eager (hRest (by simp))
  | preallocateHunt g eager => exact preallocateHunt_callState g eager (hRest (by simp))
  | ringTimeout i =>
      exact ringTimeout_callState i hModes (hForgets i (by simp [Block.forgets])) (hRest (by simp))
  | pollClose i silent =>
      obtain rfl := hSilent i silent (by simp)
      exact hungUp_callState i .pollClose (hRest (by simp))
  | idleClose i => exact hungUp_callState i .idle (hRest (by simp))
  | disconnected i now =>
      show (pollDisconnected i now a s).CallState rest
      unfold pollDisconnected
      cases (s.ports i).sock with
      | none => exact hRest (by simp)
      | some x =>
          dsimp only
          split_ifs
          · exact hungUp_callState i .remote (hRest (by simp))
          · exact hRest (by simp)
  | answered i =>
      show (answered i s).1.CallState rest
      unfold answered
      have hOld := hRest (by simp)
      split_ifs
      · exact hOld
      · refine hOld.congr rfl fun j => ?_
        by_cases hj : j = i <;> simp [enterIdleMode, hj]
      all_goals
        first
          | exact hOld
          | refine hOld.congr rfl fun j => ?_
            by_cases hj : j = i <;> simp [hj]
  | hunt g =>
      exact accepts_callState rfl hModes hSound.idle (hRest (by simp))
  | port i =>
      exact accepts_callState rfl hModes hSound.idle (hRest (by simp))
  | _ =>
      rcases renews_of_forgets (a := a) hForgets with hSame | hRenews
      · rw [hSame]
        exact hRest (by simp)
      · exact (hSound.effects a).callState rfl rfl hModes hRenews (hRest (by simp))

/-- The call state holds along every run whose steps forget no address. -/
theorem callState_of_reachable {c : Config}
    (h : ReachableBy (fun c act => keepsCoherence c act) c) :
    c.sys.CallState c.todo := by
  refine h.induct (P := fun c => c.sys.CallState c.todo) (fun args eager tick => ?_)
    (fun s b hEntry hs => hs.mono fun i hMem => by cases hMem) (fun s b rest a hReach ok hs => ?_)
    fun s t e todo hOut hs => ?_
  · exact ⟨fun i _ => ⟨rfl, rfl⟩, fun i hCalling => by
      simp [install, Sys.zero, AtState.zero, AtState.Calling] at hCalling⟩
  · have hForgets : ∀ i, b.forgets s i = false ∨ (s.ports i).sock = none := by
      simpa [keepsCoherence] using ok
    refine exec_callState hReach.reachable (fun i hb => (hForgets i).resolve_left ?_) hs
    simp [hb]
  · have hAts : t.ats = s.ats := by
      rcases outside_cases hOut with ⟨tick, rfl⟩ | ⟨port, host, remote, rfl⟩ | ⟨y, bs, _, rfl⟩ <;>
        rfl
    exact hs.congr hAts fun j => by simp [outside_ports hOut]

end Runs

/-- Coherence between driver calls, in every run in which no call ends by ring
timeout and ports are only set up anew outside a call. -/
theorem ports_coherent {c : Config} (h : ReachableBy (fun c act => keepsCoherence c act) c)
    (hBetween : c.between) : c.sys.PortsCoherent := by
  have hState := callState_of_reachable h
  have hModes : c.sys.ModesAgree := h.sound.modes
  refine ⟨hModes, fun i hMode => hState.remote i (hModes.sock_eq_none hMode), fun i hCalling => ?_⟩
  refine (hModes i).mpr ((hState.calling i hCalling).resolve_right ?_)
  rw [show c.todo = [] from hBetween]
  exact List.not_mem_nil

/-- A call nobody answers. -/
def unanswered : List Move :=
  [.finish {}, .outside (.arrive 0 0x0A000001 5000), .call (.mux .poll) { accepted := some 0 }] ++
    (List.replicate 10 [.outside (.ticks 110), .call (.mux .poll) {}]).flatten

/-- A call that rings out leaves its address behind. -/
theorem unanswered_play :
    ((install [.listen 0 2323] true 0).play anyStep unanswered).any (fun c =>
      decide (c.todo = []) && decide ((c.sys.ports 0).mode ≠ .conn) &&
        decide ((c.sys.ports 0).remoteIP ≠ 0)) = true := by
  decide +kernel

theorem answeredCall_play :
    ((install [.listen 0 2323] true 0).play keepsCoherence answeredCall).any (fun c =>
      decide (c.todo = []) && decide ((c.sys.ports 0).mode = .conn)) = true := by
  decide +kernel

theorem ports_coherent_answered_call :
    ∃ c : Config, (c.sys.ports 0).mode = .conn ∧ c.sys.PortsCoherent := by
  obtain ⟨c, hReach, hc⟩ := exists_of_play (P := fun c act => keepsCoherence c act)
    (fun _ _ h => h) answeredCall_play
  simp only [Bool.and_eq_true, decide_eq_true_eq] at hc
  exact ⟨c, hc.2, ports_coherent hReach hc.1⟩

/-- After a ring timeout the port listens again under the address of its last
caller. -/
theorem ports_coherent_unanswered :
    ¬ ∀ c, Reachable c → c.between → c.sys.PortsCoherent := by
  intro hAll
  obtain ⟨c, hReach, hc⟩ := exists_reachable unanswered_play
  simp only [Bool.and_eq_true, decide_eq_true_eq] at hc
  obtain ⟨⟨hTodo, hMode⟩, hRemote⟩ := hc
  exact hRemote ((hAll c hReach hTodo).remote 0 hMode).1

end Vmodem
