import Vmodem.Invariants.Network
import Vmodem.Driver.Script

/-! Ownership of TCP sockets: every socket the driver obtained and has not given
back is referenced from exactly one place, and a connection is freed only when
its close has completed, or when the queue of pending closes is full. -/

namespace Vmodem

/-- How a connection may be given back. -/
def FreedAfterClose (connected : SockId → Bool) : Event → List Event → Prop
  | .freed x, older => connected x → .closeDone x ∈ older ∨ .queueFull x ∈ older
  | _, _ => True

def Sys.ClosesFirst (s : Sys) : Prop :=
  History.Each (FreedAfterClose fun x => (s.net.sockets x).connected) s.trace

section Steps

variable {b : Block} {a : Answer} {s t : Sys} {connected connected' : SockId → Bool}

/-- Only a socket given back has to have been closed first. -/
theorem freedAfterClose_of_ne {e : Event} (h : ∀ x, e ≠ .freed x) (older : List Event) :
    FreedAfterClose connected e older := by
  cases e <;> first | exact absurd rfl (h _) | trivial

/-- The history stays in order while other events are added. -/
theorem Sys.ClosesFirst.add (h : s.ClosesFirst)
    (hConnected : ∀ x, .freed x ∈ s.trace →
      (t.net.sockets x).connected → (s.net.sockets x).connected)
    {N : List Event} (hTrace : t.trace = N ++ s.trace)
    (hNew : ∀ e ∈ N, ∀ x, e ≠ .freed x) : t.ClosesFirst := by
  unfold Sys.ClosesFirst
  rw [hTrace]
  refine .extend (fun e he _ _ => freedAfterClose_of_ne (hNew e he) _) ?_
  refine h.mono fun e he older hOld => ?_
  cases e with
  | freed x => exact fun hx => hOld (hConnected x he hx)
  | _ => trivial

/-- A socket may be given back behind its close, or behind the note that the queue was
full. -/
theorem closesFirst_freed {older : List Event} {x : SockId}
    (h : History.Each (FreedAfterClose connected) older)
    (hx : connected x → .closeDone x ∈ older ∨ .queueFull x ∈ older) :
    History.Each (FreedAfterClose connected) (.freed x :: older) := .cons hx h

/-- Closing fast gives a socket back only behind that note. -/
theorem sockCloseFast_closesFirst (x : SockId)
    (h : History.Each (FreedAfterClose connected) s.trace) :
    History.Each (FreedAfterClose connected) (sockCloseFast x s).trace := by
  unfold sockCloseFast
  split_ifs
  · exact h
  · exact closesFirst_freed (h.cons trivial) fun _ => .inr (by simp)

/-- A freed socket is never connected again. -/
theorem Effect.freed_connected (h : Effect b a s t) (hRegular : s.Regular) (x : SockId)
    (hFreed : .freed x ∈ s.trace) (hConnected : (t.net.sockets x).connected) :
    (s.net.sockets x).connected := by
  have hLedger := hRegular.ledger
  have hGone : 0 < gone s.trace x := by
    have hCount := List.count_pos_iff.mpr hFreed
    unfold gone
    omega
  have hLt : x < s.net.next := by
    by_contra hLate
    have hBalance := hLedger.balance x
    unfold Sys.tally at hBalance
    rw [if_neg hLate] at hBalance
    omega
  rcases (h.traffic hLedger hRegular.rings hLt).connected with hSame | ⟨k, hExt⟩
  · rwa [hSame] at hConnected
  · have hNone := hLedger.not_gone (held_of_ext hExt)
    omega

end Steps

/-- In every reachable state each socket given back was closed first, in one of these
ways. -/
theorem Sys.ClosesFirst.stable : Stable fun s => s.Regular ∧ s.ClosesFirst := by
  refine Sys.Regular.stable.strengthen (fun _ => History.Each.nil) ?_ ?_
  · intro b a s t hEffect hRegular h
    have hMono := hEffect.freed_connected hRegular
    have hOld : History.Each (FreedAfterClose fun x => (t.net.sockets x).connected) s.trace := by
      refine h.mono fun e he older hOld => ?_
      cases e with
      | freed x => exact fun hx => hOld (hMono x he hx)
      | _ => trivial
    cases hEffect with
    | quiet hQuiet =>
        obtain ⟨newer, hTrace, hMinor⟩ := hQuiet.trace
        refine h.add hMono hTrace fun e he x hx => ?_
        subst hx
        exact hMinor _ he
    | store i x v hSock hStore =>
        obtain ⟨_, rfl⟩ := storeTx_eq_some hStore
        exact h.add (N := [.stored i ⟨v, i, x⟩]) hMono rfl (by simp)
    | purge i hb => exact h.add (N := [.purged i]) hMono (by simp) (by simp)
    | receive i hb =>
        rcases pollRecv_cases i a s with hNone | ⟨x, _, _, _, hSome⟩
        · rwa [hNone]
        · rw [hSome] at hMono ⊢
          split_ifs at hMono ⊢
          · exact h.add (N := []) hMono rfl (by simp)
          · exact h.add (N := [.received i x _]) hMono rfl (by simp)
    | read i n =>
        refine h.add hMono (readRx_trace i s n) fun e he x hx => ?_
        subst hx
        simp at he
    | close i why hb =>
        unfold Sys.ClosesFirst
        generalize hc : (fun x => ((closeSock i why s).net.sockets x).connected) = connected
          at hOld ⊢
        unfold closeSock
        cases (s.ports i).sock with
        | none => exact hOld
        | some x => exact (sockCloseFast_closesFirst x hOld).cons trivial
    | attach i x net hb hSock hAccept =>
        exact h.add (N := [.attached i x]) hMono (by simp) (by simp)
    | reject x net msg hb hAccept => exact sockCloseFast_closesFirst x (hOld.cons trivial)
    | reconfigure i f hb hf =>
        refine h.add hMono (logDropped_trace i s) fun e he x hx => ?_
        subst hx
        simp at he
    | waste x net hGet =>
        obtain ⟨rfl, _, _, hSockets⟩ := getSocket_eq_some hGet
        refine closesFirst_freed hOld fun hConnected => ?_
        simp [hSockets, TcpSocket.zero] at hConnected
    | drain n =>
        unfold Sys.ClosesFirst
        generalize hc : (fun x => ((closingDrain n a s).net.sockets x).connected) = connected
          at hOld ⊢
        unfold closingDrain
        cases s.closing[n]? with
        | none => exact hOld
        | some x =>
            dsimp only
            split_ifs
            · exact closesFirst_freed (hOld.cons trivial) fun _ => .inl (by simp)
            · exact hOld
    | extClose k x hSock => exact sockCloseFast_closesFirst x hOld
    | _ => exact h.add (N := []) hMono (by simp) (by simp)
  · intro e s t hOut hRegular h
    have hLedger := hRegular.ledger
    rcases outside_cases hOut with ⟨tick, rfl⟩ | ⟨port, host, remote, rfl⟩ | ⟨x, bs, _, rfl⟩
    · exact h
    · refine h.add (N := []) (fun x hFreed hConnected => ?_) rfl (by simp)
      have hNew : x ≠ s.net.next := by
        rintro rfl
        have hCount := List.count_pos_iff.mpr hFreed
        have hBalance := hLedger.balance s.net.next
        unfold Sys.tally gone at hBalance
        rw [if_neg (Nat.lt_irrefl _)] at hBalance
        omega
      simpa [Mtcp.arrive, hNew] using hConnected
    · refine h.add (N := [.delivered x bs]) (fun y _ hConnected => ?_) rfl (by simp)
      by_cases hyx : y = x <;> simpa [hyx] using hConnected

section Dropping

variable {b : Block} {a : Answer} {s t : Sys}

/-- Only the control commands lose a socket. The induction is on the effects. -/
theorem Effects.dropped (h : Effects b a s t) (hb : b.reconfigures = false) (hRings : s.RingsOk)
    {x : SockId} (hx : .dropped x ∈ t.trace) : .dropped x ∈ s.trace := by
  suffices hBoth : t.RingsOk ∧ (.dropped x ∈ t.trace → .dropped x ∈ s.trace) from hBoth.2 hx
  clear hx
  induction h with
  | refl => exact ⟨hRings, id⟩
  | tail _ last ih =>
      refine ⟨Sys.RingsOk.stable.effect last ih.1, fun hMem => ih.2 ?_⟩
      obtain ⟨newer, hTrace, hFrom⟩ := last.logged ih.1
      rw [hTrace] at hMem
      rcases List.mem_append.mp hMem with hNew | hOld
      · simpa [hb] using (hFrom _ hNew).1
      · exact hOld

theorem logDropped_of_none {i : PortIdx} (hSock : (s.ports i).sock = none)
    (hListen : (s.ports i).listenSock = none) : logDropped i s = s := by
  simp [logDropped, hSock, hListen]

theorem cmdListen_trace {i : PortIdx} (tcpPort : UInt16) (hSock : (s.ports i).sock = none)
    (hListen : (s.ports i).listenSock = none) : (cmdListen i tcpPort s).trace = s.trace := by
  simp [cmdListen, cmdDisconnect, hSock, logDropped_of_none hSock hListen]

/-- Ports without sockets join a group without a loss. -/
theorem joinAll_trace (g : GroupIdx) (tcpPort : UInt16) (members : List PortIdx)
    (hFree : ∀ j ∈ members, (s.ports j).sock = none ∧ (s.ports j).listenSock = none) :
    (members.foldl (fun s i => joinGroup g tcpPort i s) s).trace = s.trace := by
  induction members generalizing s with
  | nil => rfl
  | cons i rest ih =>
      have hi := hFree i (by simp)
      have hJoin : (joinGroup g tcpPort i s).trace = s.trace := by
        simp [joinGroup, logDropped_of_none hi.1 hi.2]
      refine (ih fun j hj => ?_).trans hJoin
      by_cases hji : j = i
      · simp [joinGroup, hji]
      · simpa [joinGroup, hji, logDropped_of_none hi.1 hi.2] using hFree j (by simp [hj])

theorem cmdHuntListen_trace (mask : UInt8) (tcpPort : UInt16)
    (hFree : ∀ j, hasPort mask j → (s.ports j).sock = none ∧ (s.ports j).listenSock = none) :
    (cmdHuntListen mask tcpPort s).trace = s.trace := by
  unfold cmdHuntListen
  cases freeGroup s with
  | none => rfl
  | some g =>
      refine (joinAll_trace g tcpPort _ fun j hj => ?_).trans rfl
      exact hFree j (List.mem_filter.mp hj).2

end Dropping

/-- MUX_LISTEN and MUX_HUNT_LISTEN are applied to ports without sockets. -/
def sparesSockets (c : Config) : Action → Bool
  | .run _ =>
      match c.todo with
      | .mux (.listen i _) :: _ =>
          (c.sys.ports i).sock.isNone && (c.sys.ports i).listenSock.isNone
      | .mux (.huntListen mask _) :: _ =>
          (List.finRange 4).all fun j =>
            !hasPort mask j || ((c.sys.ports j).sock.isNone && (c.sys.ports j).listenSock.isNone)
      | _ => true
  | _ => true

theorem sparesSockets_dropped {c : Config} (h : ReachableBy (fun c act => sparesSockets c act) c)
    (x : SockId) : .dropped x ∉ c.sys.trace := by
  refine h.induct (P := fun c => .dropped x ∉ c.sys.trace) (fun _ _ _ => by
    simp [install, Sys.zero])
    (fun _ _ _ hs => hs) (fun s b rest a hReach ok hs => ?_) fun s t e todo hOut hs => ?_
  · have hRings := Sys.RingsOk.stable.reachable hReach.reachable
    have hEffects := hReach.sound.effects a
    cases hb : b.reconfigures with
    | false => exact fun hMem => hs (hEffects.dropped hb hRings hMem)
    | true =>
        cases b with
        | mux m =>
            cases m with
            | listen i port =>
                have hNone : (s.ports i).sock = none ∧ (s.ports i).listenSock = none := by
                  simpa [sparesSockets] using ok
                exact fun hMem => hs (cmdListen_trace port hNone.1 hNone.2 ▸ hMem)
            | huntListen mask port =>
                refine fun hMem => hs (cmdHuntListen_trace mask port (fun j hj => ?_) ▸ hMem)
                have hAll : ∀ j, hasPort mask j = false ∨
                    ((s.ports j).sock = none ∧ (s.ports j).listenSock = none) := by
                  simpa [sparesSockets] using ok
                exact (hAll j).resolve_left (by simp [hj])
            | _ => cases hb
        | _ => cases hb
  · rcases outside_cases hOut with ⟨tick, rfl⟩ | ⟨port, host, remote, rfl⟩ | ⟨y, bs, _, rfl⟩
    · exact hs
    · exact hs
    · simpa using hs

/-- Sole ownership as one would want it: completed closes only. -/
structure Sys.SolelyOwned (s : Sys) : Prop where
  held_once : ∀ x, x < s.net.next → x ∉ s.net.pending → .freed x ∉ s.trace → s.held x = 1
  freed_once : ∀ x, s.trace.count (.freed x) ≤ 1
  closes : ∀ newer x older, s.trace = newer ++ .freed x :: older →
    (s.net.sockets x).connected → .closeDone x ∈ older

/-- Socket ownership. A socket is never in two places and never freed twice, and
a connection is freed only once its close is complete or the queue of closes is
full; unless ports are set up anew while they hold sockets, a socket obtained
and not given back is in exactly one place. -/
theorem socket_ownership {c : Config} (h : Reachable c) :
    (∀ x, c.sys.held x ≤ 1 ∧ c.sys.trace.count (.freed x) ≤ 1 ∧
      (.freed x ∈ c.sys.trace → c.sys.held x = 0)) ∧
    (∀ newer x older, c.sys.trace = newer ++ .freed x :: older →
      (c.sys.net.sockets x).connected → .closeDone x ∈ older ∨ .queueFull x ∈ older) ∧
    (ReachableBy (fun c act => sparesSockets c act) c →
      ∀ x, x < c.sys.net.next → x ∉ c.sys.net.pending → .freed x ∉ c.sys.trace →
        c.sys.held x = 1) := by
  obtain ⟨hRegular, hCloses⟩ := Sys.ClosesFirst.stable.reachable h
  have hLedger := hRegular.ledger
  refine ⟨fun x => ⟨hLedger.held_le x, ?_, fun hFreed => ?_⟩, ?_,
    fun hSpares x hLt hPending hFreed => ?_⟩
  · have hBalance := hLedger.balance x
    unfold Sys.tally gone at hBalance
    split_ifs at hBalance <;> omega
  · have hCount := List.count_pos_iff.mpr hFreed
    have hBalance := hLedger.balance x
    unfold Sys.tally gone at hBalance
    split_ifs at hBalance <;> omega
  · exact fun newer x older hTrace => hCloses newer (.freed x) older hTrace
  · have hBalance := hLedger.balance x
    unfold Sys.tally gone at hBalance
    rw [if_pos hLt, List.count_eq_zero_of_not_mem hPending, List.count_eq_zero_of_not_mem hFreed,
      List.count_eq_zero_of_not_mem (sparesSockets_dropped hSpares x)] at hBalance
    omega

/-- Five callers are turned away before any close completes. -/
def fiveRejections : List Move :=
  [.finish {}] ++ List.replicate 5 (.outside (.arrive 0 0x0A000001 5000)) ++
    List.replicate 5 (.call (.mux .poll) { accepted := some 0 })

/-- The fifth is given back without a completed close. -/
theorem fiveRejections_play :
    ((install [.hunt 0x03 2323] false 0).play anyStep fiveRejections).any (fun c =>
      c.todo.isEmpty && decide (.freed 5 ∈ c.sys.trace) && (c.sys.net.sockets 5).connected &&
        decide (.closeDone 5 ∉ c.sys.trace)) = true := by
  decide +kernel

/-- The fifth close finds the queue full, and the connection is freed before
`isCloseDone()` was ever asked about it. -/
theorem socket_ownership_queue_full :
    ¬ ∀ c, Reachable c → c.between → c.sys.SolelyOwned := by
  intro hAll
  obtain ⟨c, hReach, hc⟩ := exists_reachable fiveRejections_play
  simp only [Bool.and_eq_true, decide_eq_true_eq, List.isEmpty_iff] at hc
  obtain ⟨⟨⟨hTodo, hFreed⟩, hConnected⟩, hNotDone⟩ := hc
  obtain ⟨newer, older, hTrace⟩ := List.append_of_mem hFreed
  have hDone := (hAll c hReach hTodo).closes newer 5 older hTrace hConnected
  exact hNotDone (by rw [hTrace]; simp [hDone])

/-- In the same run no command loses a socket, and the listen socket is still in use. -/
theorem fiveRejections_spares :
    ((install [.hunt 0x03 2323] false 0).play sparesSockets fiveRejections).any (fun c =>
      decide (.freed 5 ∈ c.sys.trace) && (c.sys.net.sockets 5).connected &&
        decide (1 < c.sys.net.next ∧ 1 ∉ c.sys.net.pending ∧ .freed 1 ∉ c.sys.trace)) = true := by
  decide +kernel

/-- The same run keeps the rule above: the connection freed early was freed once and for
a full queue, and one whose close is still awaited is in one place. -/
theorem socket_ownership_five_rejections : ∃ c, ReachableBy (fun c act => sparesSockets c act) c ∧
    (c.sys.held 5 = 0 ∧ c.sys.trace.count (.freed 5) ≤ 1 ∧
      (.closeDone 5 ∈ c.sys.trace ∨ .queueFull 5 ∈ c.sys.trace)) ∧
    c.sys.held 1 = 1 := by
  obtain ⟨c, hSpares, hc⟩ := exists_of_play (P := fun c act => sparesSockets c act)
    (fun _ _ h => h) fiveRejections_spares
  simp only [Bool.and_eq_true, decide_eq_true_eq] at hc
  obtain ⟨⟨hFreed, hConnected⟩, hLt, hPending, hKept⟩ := hc
  obtain ⟨hOnce, hCloses, hOwned⟩ := socket_ownership hSpares.reachable
  obtain ⟨newer, older, hTrace⟩ := List.append_of_mem hFreed
  refine ⟨c, hSpares, ⟨(hOnce 5).2.2 hFreed, (hOnce 5).2.1, ?_⟩,
    hOwned hSpares 1 hLt hPending hKept⟩
  rw [hTrace]
  exact (hCloses newer 5 older hTrace hConnected).imp (by simp +contextual) (by simp +contextual)

end Vmodem
