import Vmodem.Invariants.Rings
import Vmodem.Library.Accounting

/-! Every socket identity is accounted for: once handed out it waits for
`accept()`, is held in one place, or has been freed or dropped. -/

namespace Vmodem

open Accounting

/-- How often a port refers to a socket. -/
def PortState.held (p : PortState) (x : SockId) : Nat := holds p.sock x + holds p.listenSock x

/-- How often the driver refers to a socket: in `ports`, `huntGroups`,
`ext_sockets` and the used part of `g_closing_sockets`. -/
def Sys.held (s : Sys) (x : SockId) : Nat :=
  (∑ j, (s.ports j).held x) + (∑ g, holds (s.huntGroups g).listenSock x) +
    (∑ k, holds (s.extSockets k).sock x) + s.closing.count x

/-- How often a socket was given back or lost. -/
def gone (trace : List Event) (x : SockId) : Nat :=
  trace.count (.freed x) + trace.count (.dropped x)

/-- References, waiting connections and past losses together. -/
def Sys.tally (s : Sys) (x : SockId) : Nat :=
  s.held x + s.net.pending.count x + gone s.trace x

structure Sys.Ledger (s : Sys) : Prop where
  balance : ∀ x, s.tally x = if x < s.net.next then 1 else 0
  /-- An unused hunt group has no listen socket. -/
  inactive : ∀ g, (s.huntGroups g).active = false → (s.huntGroups g).listenSock = none

section Rules

variable {s t : Sys} (x : SockId)

/-- States that agree on every reference, on the waiting connections and on past losses
have the same tally. -/
theorem tally_congr (hPorts : ∀ j, (t.ports j).held x = (s.ports j).held x)
    (hHunt : ∀ g, (t.huntGroups g).listenSock = (s.huntGroups g).listenSock)
    (hExt : ∀ k, (t.extSockets k).sock = (s.extSockets k).sock) (hClosing : t.closing = s.closing)
    (hPending : t.net.pending = s.net.pending) (hGone : gone t.trace x = gone s.trace x) :
    t.tally x = s.tally x := by
  simp only [Sys.tally, Sys.held, hPorts, hHunt, hExt, hClosing, hPending, hGone]

/-- A write to a port changes the tally by what the port held and what it holds. -/
theorem tally_modPort (i : PortIdx) (f : PortState → PortState) :
    (s.modPort i f).tally x + (s.ports i).held x = s.tally x + (f (s.ports i)).held x := by
  have hRewrite := sum_rewrite i (fun j => (s.ports j).held x) ((f (s.ports i)).held x)
  have hSum : (∑ j, ((s.modPort i f).ports j).held x) =
      ∑ j, if j = i then (f (s.ports i)).held x else (s.ports j).held x := by
    refine Finset.sum_congr rfl fun j _ => ?_
    by_cases hj : j = i <;> simp [hj]
  simp only [Sys.tally, Sys.held, hSum, Sys.modPort_huntGroups, Sys.modPort_extSockets,
    Sys.modPort_closing, Sys.modPort_net, Sys.modPort_trace]
  omega

/-- A write to a hunt group changes the tally by its listen socket before and after. -/
theorem tally_modHunt (g : GroupIdx) (f : HuntGroup → HuntGroup) :
    (s.modHunt g f).tally x + holds (s.huntGroups g).listenSock x =
      s.tally x + holds (f (s.huntGroups g)).listenSock x := by
  have hRewrite := sum_rewrite g (fun h => holds (s.huntGroups h).listenSock x)
    (holds (f (s.huntGroups g)).listenSock x)
  have hSum : (∑ h, holds ((s.modHunt g f).huntGroups h).listenSock x) =
      ∑ h, if h = g then holds (f (s.huntGroups g)).listenSock x
        else holds (s.huntGroups h).listenSock x := by
    refine Finset.sum_congr rfl fun h _ => ?_
    by_cases hh : h = g <;> simp [hh]
  simp only [Sys.tally, Sys.held, hSum, Sys.modHunt_ports, Sys.modHunt_extSockets,
    Sys.modHunt_closing, Sys.modHunt_net, Sys.modHunt_trace]
  omega

/-- A write to a handle changes the tally by its socket before and after. -/
theorem tally_modExt (k : ExtIdx) (f : ExtSocket → ExtSocket) :
    (s.modExt k f).tally x + holds (s.extSockets k).sock x =
      s.tally x + holds (f (s.extSockets k)).sock x := by
  have hRewrite := sum_rewrite k (fun h => holds (s.extSockets h).sock x)
    (holds (f (s.extSockets k)).sock x)
  have hSum : (∑ h, holds ((s.modExt k f).extSockets h).sock x) =
      ∑ h, if h = k then holds (f (s.extSockets k)).sock x
        else holds (s.extSockets h).sock x := by
    refine Finset.sum_congr rfl fun h _ => ?_
    by_cases hh : h = k <;> simp [hh]
  simp only [Sys.tally, Sys.held, hSum, Sys.modExt_ports, Sys.modExt_huntGroups,
    Sys.modExt_closing, Sys.modExt_net, Sys.modExt_trace]
  omega

/-- A new closing queue changes the tally by its own entries. -/
theorem tally_setClosing (closing : List SockId) :
    (s.setClosing closing).tally x + s.closing.count x = s.tally x + closing.count x := by
  simp only [Sys.tally, Sys.held, Sys.setClosing_ports, Sys.setClosing_huntGroups,
    Sys.setClosing_extSockets, Sys.setClosing_closing, Sys.setClosing_net, Sys.setClosing_trace]
  omega

/-- Only freeing and dropping a socket weigh in the history. -/
theorem gone_cons (e : Event) (trace : List Event) (hFreed : e ≠ .freed x)
    (hDropped : e ≠ .dropped x) : gone (e :: trace) x = gone trace x := by
  simp [gone, hFreed, hDropped]

theorem gone_append (newer older : List Event) :
    gone (newer ++ older) x = gone newer x + gone older x := by
  simp only [gone, List.count_append]
  omega

/-- A record in which a socket is neither freed nor dropped counts no loss of it. -/
theorem gone_eq_zero {newer : List Event} (h : ∀ e ∈ newer, e ≠ .freed x ∧ e ≠ .dropped x) :
    gone newer x = 0 := by
  have hFreed : newer.count (.freed x) = 0 :=
    List.count_eq_zero_of_not_mem fun hMem => (h _ hMem).1 rfl
  have hDropped : newer.count (.dropped x) = 0 :=
    List.count_eq_zero_of_not_mem fun hMem => (h _ hMem).2 rfl
  simp [gone, hFreed, hDropped]

theorem tally_log (e : Event) (hFreed : e ≠ .freed x) (hDropped : e ≠ .dropped x) :
    (s.log e).tally x = s.tally x :=
  tally_congr x (fun _ => rfl) (fun _ => rfl) (fun _ => rfl) rfl rfl
    (gone_cons x e _ hFreed hDropped)

theorem tally_freeSocket (y : SockId) :
    (freeSocket y s).tally x = s.tally x + if y = x then 1 else 0 := by
  have hGone : gone (.freed y :: s.trace) x = gone s.trace x + if y = x then 1 else 0 := by
    by_cases hyx : y = x
    · simp [gone, hyx]
      omega
    · simp [gone, hyx]
  simp only [Sys.tally, freeSocket_trace, hGone]
  exact (Nat.add_assoc _ _ _).symm

/-- A fast close keeps track of the socket: it is queued or freed. -/
theorem tally_sockCloseFast (y : SockId) :
    (sockCloseFast y s).tally x = s.tally x + if y = x then 1 else 0 := by
  unfold sockCloseFast
  by_cases hRoom : s.closing.length < maxClosingSockets
  · rw [if_pos hRoom]
    have hQueue := tally_setClosing (s := s) x (s.closing ++ [y])
    rw [List.count_append, List.count_singleton] at hQueue
    simp only [beq_iff_eq] at hQueue
    omega
  · rw [if_neg hRoom, tally_freeSocket, tally_log x _ (by simp) (by simp)]

/-- Hanging up moves the socket from its port to the closing queue, or gives it back:
the tally stays. -/
theorem tally_closeSock (i : PortIdx) (why : CloseReason) :
    (closeSock i why s).tally x = s.tally x := by
  unfold closeSock
  cases hSock : (s.ports i).sock with
  | none => rfl
  | some y =>
      have hPort := tally_modPort (s := (sockCloseFast y s).log (.closed i y why)) x i
        fun p => { p with sock := none }
      rw [tally_log x _ (by simp) (by simp), tally_sockCloseFast] at hPort
      simp only [Sys.log_ports, (sockCloseFast_frame y s).1, PortState.held, hSock, holds_some,
        holds_none] at hPort
      dsimp only
      omega

/-- Noting the sockets a port is about to lose counts each reference of the port. -/
theorem tally_logDropped (i : PortIdx) :
    (logDropped i s).tally x = s.tally x + (s.ports i).held x := by
  have hGone : gone (logDropped i s).trace x = gone s.trace x + (s.ports i).held x := by
    rw [logDropped_trace, gone_append, gone_append]
    have hList : ∀ slot : Option SockId, gone (slot.toList.map .dropped) x = holds slot x := by
      intro slot
      cases slot with
      | none => rfl
      | some y => simp [gone, List.count_singleton]
    rw [hList, hList, PortState.held]
    omega
  obtain ⟨hPorts, _, _, _, hHunt, hExt, hClosing, hNet⟩ := logDropped_frame i s
  simp only [Sys.tally, Sys.held, hPorts, hHunt, hExt, hClosing, hNet, hGone]
  omega

/-- An accepted connection leaves the queue. -/
theorem tally_accept {y : SockId} {net : Mtcp} {which : Option Nat}
    (h : s.net.accept which = some (y, net)) :
    (s.setNet net).tally x + (if y = x then 1 else 0) = s.tally x ∧
      net.next = s.net.next := by
  obtain ⟨k, hk, rfl⟩ := accept_eq_some h
  have hErase := count_eraseIdx hk x
  refine ⟨?_, rfl⟩
  simp only [Sys.tally, Sys.held, Sys.setNet_ports, Sys.setNet_huntGroups, Sys.setNet_extSockets,
    Sys.setNet_closing, Sys.setNet_net, Sys.setNet_trace]
  omega

/-- The drain only gives sockets back that were in the queue. -/
theorem tally_drain (n : Nat) (a : Answer) : (closingDrain n a s).tally x = s.tally x := by
  unfold closingDrain
  cases hEntry : s.closing[n]? with
  | none => rfl
  | some y =>
      dsimp only
      split_ifs
      · have hSwap := count_swapRemove hEntry y x
        have hQueue := tally_setClosing (s := freeSocket y (s.log (.closeDone y))) x
          ((s.closing.set n (s.closing.getLastD y)).dropLast)
        rw [tally_freeSocket, tally_log x _ (by simp) (by simp)] at hQueue
        simp only [(freeSocket_frame y _).2.2.2.2.2.2, Sys.log_closing] at hQueue
        omega
      · rfl

/-- A change of the network that leaves the waiting connections alone does not change
the tally. -/
theorem tally_setNet (net : Mtcp) (h : net.pending = s.net.pending) :
    (s.setNet net).tally x = s.tally x :=
  tally_congr x (fun _ => rfl) (fun _ => rfl) (fun _ => rfl) rfl h rfl

end Rules

namespace Sys.Ledger

variable {s t : Sys}

/-- Steps that create no socket. -/
theorem keep (h : s.Ledger) (hTally : ∀ x, t.tally x = s.tally x) (hNext : t.net.next = s.net.next)
    (hHunt : ∀ g, (t.huntGroups g).active = (s.huntGroups g).active ∧
      (t.huntGroups g).listenSock = (s.huntGroups g).listenSock) : t.Ledger where
  balance x := by
    rw [hTally x, hNext]
    exact h.balance x
  inactive g hg := by
    rw [(hHunt g).2]
    exact h.inactive g ((hHunt g).1 ▸ hg)

/-- Steps that create one socket and keep hold of it, or free it. -/
theorem create (h : s.Ledger)
    (hTally : ∀ x, t.tally x = s.tally x + if s.net.next = x then 1 else 0)
    (hNext : t.net.next = s.net.next + 1)
    (hHunt : ∀ g, (t.huntGroups g).active = false → (t.huntGroups g).listenSock = none) :
    t.Ledger where
  balance x := by
    have hStep : ∀ n y : Nat, (if y < n then 1 else 0) + (if n = y then 1 else 0) =
        if y < n + 1 then 1 else 0 := by
      intro n y
      split_ifs <;> omega
    rw [hTally x, hNext, h.balance x]
    exact hStep _ _
  inactive := hHunt

/-- A socket is in at most one place. -/
theorem held_le (h : s.Ledger) (x : SockId) : s.held x ≤ 1 := by
  have hBalance := h.balance x
  unfold Sys.tally at hBalance
  split_ifs at hBalance <;> omega

/-- A socket that is referred to or waiting has been handed out. -/
theorem lt_next (h : s.Ledger) {x : SockId} (hHeld : 0 < s.held x + s.net.pending.count x) :
    x < s.net.next := by
  by_contra hLate
  have hBalance := h.balance x
  unfold Sys.tally at hBalance
  rw [if_neg hLate] at hBalance
  omega

end Sys.Ledger

section Effects

variable {s t : Sys}

theorem Quiet.tally (h : Quiet s t) (x : SockId) : t.tally x = s.tally x := by
  refine tally_congr x (fun j => ?_) (fun g => by rw [h.huntGroups]) (fun k => by rw [h.extSockets])
    h.closing (by rw [h.net]) ?_
  · simp only [PortState.held, (h.port j).sock, (h.port j).listenSock]
  · obtain ⟨newer, hTrace, hMinor⟩ := h.trace
    rw [hTrace, gone_append, gone_eq_zero, Nat.zero_add]
    intro e he
    have hOf := hMinor e he
    cases e <;> first | exact hOf.elim | simp

/-- An accepted connection has one more reference, that of its port. -/
theorem acceptCall_tally (i : PortIdx) (x y : SockId) (hSock : (s.ports i).sock = none) :
    (acceptCall i x s).1.tally y = s.tally y + if x = y then 1 else 0 := by
  have hPort := tally_modPort (s := s) y i fun p => { p with sock := some x }
  have hSame : (acceptCall i x s).1.tally y =
      (s.modPort i fun p => { p with sock := some x }).tally y := by
    obtain ⟨_, hHunt, hExt, hClosing, hNet, hTrace⟩ := acceptCall_frame i x s
    refine tally_congr y (fun j => ?_) (fun g => by simp) (fun k => by simp) (by simp)
      (by simp) ?_
    · by_cases hj : j = i <;> simp [hj, PortState.held, telnetReset]
    · rw [hTrace]
      exact gone_cons y _ _ (by simp) (by simp)
  simp only [PortState.held, hSock, holds_none, holds_some] at hPort
  omega

theorem rejectCall_tally (x y : SockId) (msg : List UInt8) (a : Answer) :
    (rejectCall x msg a s).tally y = s.tally y + if x = y then 1 else 0 := by
  unfold rejectCall
  rw [tally_sockCloseFast, tally_log y _ (by simp) (by simp)]
  exact congrArg (· + _) (tally_setNet y _ rfl)

theorem sockCloseFast_next (x : SockId) : (sockCloseFast x s).net.next = s.net.next ∧
    (sockCloseFast x s).net.pending = s.net.pending := by
  unfold sockCloseFast
  split_ifs <;> exact ⟨rfl, rfl⟩

theorem closeSock_next (i : PortIdx) (why : CloseReason) :
    (closeSock i why s).net.next = s.net.next ∧
      (closeSock i why s).net.pending = s.net.pending := by
  unfold closeSock
  cases (s.ports i).sock with
  | none => exact ⟨rfl, rfl⟩
  | some x => exact sockCloseFast_next x

theorem fossilFlushTx_next (i : PortIdx) (a : Answer) :
    (fossilFlushTx i a s).net.next = s.net.next ∧
      (fossilFlushTx i a s).net.pending = s.net.pending := by
  have hLeft : ∀ x, (flushLeftover i x a s).net.next = s.net.next ∧
      (flushLeftover i x a s).net.pending = s.net.pending := by
    intro x
    unfold flushLeftover
    dsimp only
    split_ifs <;> exact ⟨rfl, rfl⟩
  have hRing : ∀ (x : SockId) (u : Sys), (flushRing i x a u).net.next = u.net.next ∧
      (flushRing i x a u).net.pending = u.net.pending := by
    intro x u
    unfold flushRing
    dsimp only
    split_ifs <;> exact ⟨rfl, rfl⟩
  rcases fossilFlushTx_cases i a s with hNone | ⟨x, _, _, _, ⟨_, hOnly⟩ | ⟨_, hBoth⟩⟩
  · rw [hNone]
    exact ⟨rfl, rfl⟩
  · rw [hOnly]
    exact hLeft x
  · rw [hBoth]
    exact ⟨(hRing x _).1.trans (hLeft x).1, (hRing x _).2.trans (hLeft x).2⟩

theorem telnetSendRaw_next (i : PortIdx) (buf : List UInt8) (a : Answer) :
    (telnetSendRaw i buf a s).net.next = s.net.next ∧
      (telnetSendRaw i buf a s).net.pending = s.net.pending := by
  unfold telnetSendRaw
  cases (s.ports i).sock with
  | none => exact ⟨rfl, rfl⟩
  | some x =>
      dsimp only
      split_ifs <;> exact ⟨rfl, rfl⟩

theorem pollRx_next (i : PortIdx) (x : SockId) (tmp : List UInt8) (drop : Bool) (a : Answer) :
    (pollRx i x tmp drop a s).1.net.next = s.net.next ∧
      (pollRx i x tmp drop a s).1.net.pending = s.net.pending := by
  cases tmp with
  | nil => exact ⟨rfl, rfl⟩
  | cons v rest =>
      rw [pollRx_net]
      unfold replied
      cases (telnetFilter (s.ports i) v).reply with
      | none => exact ⟨rfl, rfl⟩
      | some buf => exact telnetSendRaw_next i buf a

end Effects

/-- In every reachable state each socket handed out is referred to, waiting or gone,
exactly once in all. -/
theorem Sys.Ledger.stable : Stable Sys.Ledger where
  start tick := by
    refine ⟨fun x => ?_, fun _ _ => rfl⟩
    simp [Sys.tally, Sys.held, PortState.held, Sys.zero, PortState.zero, HuntGroup.zero,
      ExtSocket.zero, Mtcp.zero, gone]
  effect {b a s t} hEffect h := by
    cases hEffect with
    | quiet hQuiet =>
        exact h.keep hQuiet.tally (by rw [hQuiet.net]) fun g => by simp [hQuiet.huntGroups]
    | store i x v hSock hStore =>
        obtain ⟨_, rfl⟩ := storeTx_eq_some hStore
        refine h.keep (fun y => ?_) rfl fun g => by simp
        rw [tally_log y _ (by simp) (by simp)]
        exact tally_congr y (fun _ => rfl) (fun _ => rfl) (fun _ => rfl) rfl rfl rfl
    | purge i hb =>
        refine h.keep (fun y => ?_) (by simp) fun g => by simp
        rw [tally_log y _ (by simp) (by simp)]
        exact tally_congr y (fun j => by simp) (fun _ => by simp) (fun _ => by simp) (by simp)
          (by simp) (by simp)
    | flush i hb =>
        refine h.keep (fun y => ?_) (fossilFlushTx_next i a).1 fun g => by simp
        exact tally_congr y (fun j => by simp) (fun _ => by simp) (fun _ => by simp) (by simp)
          (fossilFlushTx_next i a).2 (by simp)
    | write i buf hb =>
        refine h.keep (fun y => ?_) (telnetSendRaw_next i buf a).1 fun g => by simp
        exact tally_congr y (fun j => by simp) (fun _ => by simp) (fun _ => by simp) (by simp)
          (telnetSendRaw_next i buf a).2 (by simp)
    | filter i x tmp drop hb =>
        refine h.keep (fun y => ?_) (pollRx_next i x tmp drop a).1 fun g => by simp
        refine tally_congr y (fun j => ?_) (fun _ => by simp) (fun _ => by simp) (by simp)
          (pollRx_next i x tmp drop a).2 (by simp)
        obtain ⟨_, hSock, hListen, _⟩ := pollRx_call i a s x tmp drop j
        simp only [PortState.held, hSock, hListen]
    | receive i hb =>
        rcases pollRecv_cases i a s with hNone | ⟨x, _, _, _, hSome⟩
        · rwa [hNone]
        · rw [hSome]
          have hQueue : ∀ y, ((s.setNet (s.net.recv x 256 a.received).2).modPort i fun p =>
              { p with lastRxTick := s.tick }).tally y = s.tally y := by
            intro y
            refine tally_congr y (fun j => ?_) (fun _ => rfl) (fun _ => rfl) rfl rfl rfl
            by_cases hj : j = i <;> simp [hj, PortState.held]
          by_cases hDrop : (s.ats i).ringing || (s.ats i).connectPending
          · rw [if_pos hDrop]
            exact h.keep hQueue rfl fun g => by simp
          · rw [if_neg hDrop]
            refine h.keep (fun y => ?_) rfl fun g => by simp
            rw [tally_log y _ (by simp) (by simp), hQueue]
    | read i n =>
        refine h.keep (fun y => ?_) (by simp) fun g => by simp
        refine tally_congr y (fun j => ?_) (fun _ => by simp) (fun _ => by simp) (by simp)
          (by simp) ?_
        · by_cases hj : j = i <;> simp [hj, PortState.held]
        · rw [readRx_trace, gone_append, gone_eq_zero, Nat.zero_add]
          simp
    | clearRx i hb | clearRemote i hb =>
        refine h.keep (fun y => ?_) rfl fun g => by simp
        refine tally_congr y (fun j => ?_) (fun _ => rfl) (fun _ => rfl) rfl rfl rfl
        by_cases hj : j = i <;> simp [hj, PortState.held]
    | modes f hb =>
        exact h.keep (fun y => tally_congr y (fun _ => rfl) (fun _ => rfl) (fun _ => rfl)
          rfl rfl rfl)
          rfl fun g => ⟨rfl, rfl⟩
    | close i why hb =>
        exact h.keep (fun y => tally_closeSock y i why) (closeSock_next i why).1 fun g => by simp
    | attach i x net hb hSock hAccept =>
        obtain ⟨_, hNext⟩ := tally_accept (s := s) 0 hAccept
        refine h.keep (fun y => ?_) (by simpa using hNext) fun g => by simp
        have hQueue := (tally_accept (s := s) y hAccept).1
        rw [acceptCall_tally (s := s.setNet net) i x y hSock]
        omega
    | reject x net msg hb hAccept =>
        obtain ⟨_, hNext⟩ := tally_accept (s := s) 0 hAccept
        refine h.keep (fun y => ?_) ?_ fun g => by simp
        · have hQueue := (tally_accept (s := s) y hAccept).1
          rw [rejectCall_tally]
          omega
        · exact (sockCloseFast_next x).1.trans (by simpa using hNext)
    | reconfigure i f hb hf =>
        refine h.keep (fun y => ?_) (by simp) fun g => by simp
        have hPort := tally_modPort (s := logDropped i s) y i f
        rw [tally_logDropped] at hPort
        simp only [(logDropped_frame i s).1, PortState.held, (hf _).sock, (hf _).listenSock,
          Accounting.holds_none] at hPort
        omega
    | group g tcpPort mask hb hFree =>
        have hNone := h.inactive g hFree
        refine ⟨fun y => ?_, fun k hk => ?_⟩
        · have hHunt := tally_modHunt (s := s) y g fun _ => ⟨none, tcpPort, mask, true⟩
          simp only [hNone, Accounting.holds_none, Nat.add_zero] at hHunt
          rw [hHunt]
          exact h.balance y
        · by_cases hkg : k = g
          · simp [hkg] at hk
          · simp only [Sys.modHunt_huntGroups, if_neg hkg] at hk ⊢
            exact h.inactive k hk
    | listenPort i tcpPort x net hb hFree hGet =>
        obtain ⟨rfl, hPending, hNext, _⟩ := getSocket_eq_some hGet
        refine h.create (fun y => ?_) (by simpa using hNext) fun g => by simpa using h.inactive g
        have hPort := tally_modPort (s := s.setNet (net.listen s.net.next tcpPort)) y i fun p =>
          { p with listenSock := some s.net.next }
        rw [tally_setNet y _ (by simpa using hPending)] at hPort
        simp only [Sys.setNet_ports, PortState.held, hFree, Accounting.holds_none,
          Accounting.holds_some] at hPort
        omega
    | listenHunt g tcpPort x net hb hFree hActive hGet =>
        obtain ⟨rfl, hPending, hNext, _⟩ := getSocket_eq_some hGet
        refine h.create (fun y => ?_) (by simpa using hNext) fun k hk => ?_
        · have hHunt := tally_modHunt (s := s.setNet (net.listen s.net.next tcpPort)) y g fun h =>
            { h with listenSock := some s.net.next }
          rw [tally_setNet y _ (by simpa using hPending)] at hHunt
          simp only [Sys.setNet_huntGroups, hFree, Accounting.holds_none,
            Accounting.holds_some] at hHunt
          omega
        · by_cases hkg : k = g
          · simp [hkg, hActive] at hk
          · simp only [Sys.modHunt_huntGroups, if_neg hkg, Sys.setNet_huntGroups] at hk ⊢
            exact h.inactive k hk
    | waste x net hGet =>
        obtain ⟨rfl, hPending, hNext, _⟩ := getSocket_eq_some hGet
        refine h.create (fun y => ?_) (by simpa using hNext) fun g => by simpa using h.inactive g
        rw [tally_freeSocket, tally_setNet y _ hPending]
    | drain n =>
        refine h.keep (fun y => tally_drain y n a) ?_ fun g => by simp
        unfold closingDrain
        split
        next => rfl
        next => split_ifs <;> rfl
    | extTouch k f hf =>
        refine h.keep (fun y => ?_) rfl fun g => by simp
        refine tally_congr y (fun _ => rfl) (fun _ => rfl) (fun j => ?_) rfl rfl rfl
        by_cases hj : j = k <;> simp [hj, hf]
    | extAlloc k x net hFree hGet =>
        obtain ⟨rfl, hPending, hNext, _⟩ := getSocket_eq_some hGet
        refine h.create (fun y => ?_) (by simpa using hNext) fun g => by simpa using h.inactive g
        have hExt := tally_modExt (s := s.setNet net) y k fun e =>
          { e with sock := some s.net.next, state := .free }
        rw [tally_setNet y _ hPending] at hExt
        simp only [Sys.setNet_extSockets, hFree, Accounting.holds_none, Accounting.holds_some]
          at hExt
        omega
    | extConnect k x hSock | extSend k x hSock out rc | extRecv k x hSock size rc =>
        exact h.keep (fun y => tally_setNet y _ rfl) rfl fun g => by simp
    | extClose k x hSock =>
        refine h.keep (fun y => ?_) (by simpa using (sockCloseFast_next x).1) fun g => by simp
        have hExt := tally_modExt (s := sockCloseFast x s) y k fun e =>
          { e with sock := none, state := .free }
        rw [tally_sockCloseFast] at hExt
        simp only [(sockCloseFast_frame x s).2.2.2.2.2, hSock, Accounting.holds_none,
          Accounting.holds_some] at hExt
        omega
  out {e s t} hOut h := by
    rcases outside_cases hOut with ⟨tick, rfl⟩ | ⟨port, host, remote, rfl⟩ | ⟨x, bs, _, rfl⟩
    · exact h.keep (fun y => rfl) rfl fun g => ⟨rfl, rfl⟩
    · refine h.create (fun y => ?_) rfl h.inactive
      simp only [Sys.tally, Sys.held, Sys.setNet_ports, Sys.setNet_huntGroups,
        Sys.setNet_extSockets, Sys.setNet_closing, Sys.setNet_net, Sys.setNet_trace, Mtcp.arrive,
        List.count_append, List.count_singleton, beq_iff_eq]
      omega
    · refine h.keep (fun y => ?_) rfl fun g => ⟨rfl, rfl⟩
      rw [tally_log y _ (by simp) (by simp)]
      exact tally_setNet y _ rfl

end Vmodem
