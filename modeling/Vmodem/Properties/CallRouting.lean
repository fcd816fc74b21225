import Vmodem.Invariants.Network
import Vmodem.Driver.Script

/-! Which port gets a caller. `accept()` hands out any waiting connection, so
calls are routed by TCP port, and callers turned away only when every line is
busy, as long as no connection for another port waits when it is called. -/

namespace Vmodem

/-- A connected port holds a caller that dialled the port's TCP port. -/
def Sys.Routed (s : Sys) : Prop :=
  ∀ i x, (s.ports i).sock = some x → (s.net.sockets x).srcPort = (s.ports i).localPort

/-- Whenever a connection is taken for a port, every waiting connection arrived
on that port's TCP port. -/
def routesByPort (c : Config) : Action → Bool
  | .run _ =>
      (c.todo.head?.bind fun b => b.target c.sys).all fun j =>
        c.sys.net.pending.all fun x =>
          decide ((c.sys.net.sockets x).srcPort = (c.sys.ports j).localPort)
  | _ => true

/-- Whenever a caller is to be turned away, no waiting connection arrived on a
TCP port that has a free port. -/
def refusesWhenBusy (c : Config) : Action → Bool
  | .run _ =>
      c.todo.head?.all fun b =>
        !b.refuses c.sys || c.sys.net.pending.all fun x =>
          (freePorts (c.sys.net.sockets x).srcPort c.sys).isEmpty
  | _ => true

section Steps

variable {b : Block} {a : Answer} {s t : Sys} {i : PortIdx} {x : SockId}

/-- An effect keeps every call on the port its caller asked for, if the callers it may
take did. -/
theorem Effect.routed (h : Effect b a s t) (hRegular : s.Regular) (hRouted : s.Routed)
    (hTarget : ∀ j, b.target s = some j → ∀ y ∈ s.net.pending,
      (s.net.sockets y).srcPort = (s.ports j).localPort) : t.Routed := by
  intro i x hSock
  obtain ⟨hLocal, hSource⟩ := h.call_source hSock
  have hLt : x < s.net.next := by
    rcases hSource with hOld | ⟨_, net, hWaits⟩
    · exact hRegular.ledger.sock_lt hOld
    · exact hRegular.ledger.lt_next_of_pending (accept_mem hWaits)
  rw [(h.traffic hRegular.ledger hRegular.rings hLt).srcPort, hLocal]
  rcases hSource with hOld | ⟨hb, net, hWaits⟩
  · exact hRouted i x hOld
  · exact hTarget i hb x (accept_mem hWaits)

/-- Blocks that accept nothing keep every call where it is. The induction is on their
effects. -/
theorem Effects.routed (h : Effects b a s t) (hRegular : s.Regular) (hRouted : s.Routed)
    (hAccepts : b.accepts = false) : t.Routed := by
  suffices hBoth : t.Regular ∧ t.Routed from hBoth.2
  induction h with
  | refl => exact ⟨hRegular, hRouted⟩
  | tail _ last ih =>
      refine ⟨Sys.Regular.stable.effect last ih.1, last.routed ih.1 ih.2 fun j hTarget => ?_⟩
      simp [Block.accepts_of_target hTarget] at hAccepts

theorem Sys.Routed.out {e : Outside} (hOut : outside e s = some t) (hRegular : s.Regular)
    (h : s.Routed) : t.Routed := by
  intro i x hSock
  have hOld : (s.ports i).sock = some x := by rwa [outside_ports hOut] at hSock
  have hLt := hRegular.ledger.sock_lt hOld
  rw [outside_ports hOut, ← h i x hOld]
  rcases outside_cases hOut with ⟨tick, rfl⟩ | ⟨port, host, remote, rfl⟩ | ⟨y, bs, _, rfl⟩
  · rfl
  · have hNe : x ≠ s.net.next := Nat.ne_of_lt hLt
    simp [Mtcp.arrive, hNe]
  · by_cases hxy : x = y <;> simp [hxy]

/-- Nobody who could have been connected has been turned away. -/
def Sys.RejectedBusy (s : Sys) : Prop := ∀ x free, .rejected x free ∈ s.trace → free = []

/-- An effect turns a caller away while no port is free for it, if that is so before. -/
theorem Effect.rejectedBusy (h : Effect b a s t) (hRings : s.RingsOk) (hBusy : s.RejectedBusy)
    (hRefuses : b.refuses s → ∀ y ∈ s.net.pending, freePorts (s.net.sockets y).srcPort s = []) :
    t.RejectedBusy := by
  intro x free hMem
  obtain ⟨newer, hTrace, hFrom⟩ := h.logged hRings
  rw [hTrace] at hMem
  rcases List.mem_append.mp hMem with hNew | hOld
  · obtain ⟨hb, hWaits, rfl⟩ := hFrom _ hNew
    exact hRefuses hb x hWaits
  · exact hBusy x free hOld

/-- Blocks that accept nothing turn nobody away. The induction is on their effects. -/
theorem Effects.rejectedBusy (h : Effects b a s t) (hRings : s.RingsOk) (hBusy : s.RejectedBusy)
    (hAccepts : b.accepts = false) : t.RejectedBusy := by
  suffices hBoth : t.RingsOk ∧ t.RejectedBusy from hBoth.2
  induction h with
  | refl => exact ⟨hRings, hBusy⟩
  | tail _ last ih =>
      refine ⟨Sys.RingsOk.stable.effect last ih.1, last.rejectedBusy ih.1 ih.2 fun hRefuses => ?_⟩
      simp [Block.accepts_of_refuses hRefuses] at hAccepts

end Steps

/-- In every run in which each port is only given callers from a queue of its
own, every call is on the port its TCP port belongs to. -/
theorem calls_routed {c : Config} (h : ReachableBy (fun c act => routesByPort c act) c) :
    c.sys.Routed := by
  suffices hBoth : c.sys.Regular ∧ c.sys.Routed from hBoth.2
  refine h.induct (P := fun c => c.sys.Regular ∧ c.sys.Routed) (fun _ _ tick => ?_)
    (fun _ _ _ hs => hs) (fun s b rest a hReach ok hs => ?_) fun s t e todo hOut hs => ?_
  · exact ⟨Sys.Regular.stable.start tick, fun i x hx => by
      simp [install, Sys.zero, PortState.zero] at hx⟩
  · obtain ⟨hRegular, hRouted⟩ := hs
    have hEffects := hReach.sound.effects a
    refine ⟨Sys.Regular.stable.effects hEffects hRegular, ?_⟩
    cases hAccepts : b.accepts with
    | false => exact hEffects.routed hRegular hRouted hAccepts
    | true =>
        have hOne := exec_accepts a s hAccepts hReach.sound.idle
        generalize (exec b a s).1 = t at hOne ⊢
        cases hOne with
        | refl => exact hRouted
        | single hEffect =>
            refine hEffect.routed hRegular hRouted fun j hTarget => ?_
            simpa [routesByPort, hTarget] using ok
  · exact ⟨Sys.Regular.stable.out hOut hs.1, hs.2.out hOut hs.1⟩

/-- In every run in which callers are only turned away while no free port is
configured for a waiting connection, nobody is sent an engaged message who could
have been connected. -/
theorem rejected_only_busy {c : Config} (h : ReachableBy (fun c act => refusesWhenBusy c act) c) :
    c.sys.RejectedBusy := by
  refine h.induct (P := fun c => c.sys.RejectedBusy)
    (fun _ _ _ => by simp [Sys.RejectedBusy, install, Sys.zero]) (fun _ _ _ hs => hs)
    (fun s b rest a hReach ok hs => ?_) fun s t e todo hOut hs => ?_
  · have hRings := Sys.RingsOk.stable.reachable hReach.reachable
    cases hAccepts : b.accepts with
    | false => exact (hReach.sound.effects a).rejectedBusy hRings hs hAccepts
    | true =>
        have hOne := exec_accepts a s hAccepts hReach.sound.idle
        show (exec b a s).1.RejectedBusy
        generalize (exec b a s).1 = t at hOne ⊢
        cases hOne with
        | refl => exact hs
        | single hEffect =>
            refine hEffect.rejectedBusy hRings hs fun hRefuses => ?_
            simpa [refusesWhenBusy, hRefuses] using ok
  · rcases outside_cases hOut with ⟨tick, rfl⟩ | ⟨port, host, remote, rfl⟩ | ⟨y, bs, _, rfl⟩
    · exact hs
    · exact hs
    · intro x free hMem
      exact hs x free (by simpa using hMem)

/-- Two lines with TCP ports of their own; a caller dials the second. -/
def wrongLine : List Move :=
  [.finish {}, .outside (.arrive 1 0x0A000001 5000), .call (.mux .poll) { accepted := some 0 }]

/-- The first line is taken, then a caller dials the second. -/
def secondLine : List Move :=
  [.finish {}, .outside (.arrive 0 0x0A000001 5000), .call (.mux .poll) { accepted := some 0 },
    .outside (.arrive 1 0x0A000002 5001), .call (.mux .poll) { accepted := some 0 }]

/-- One line with two callers. -/
def oneLine : List Move :=
  [.finish {}, .outside (.arrive 0 0x0A000001 5000), .call (.mux .poll) { accepted := some 0 },
    .outside (.arrive 0 0x0A000002 5001), .call (.mux .poll) { accepted := some 0 }]

/-- The caller dialled the second line, and the first line takes the call. -/
theorem wrongLine_play :
    ((install [.listen 0 2323, .listen 1 2324] true 0).play anyStep wrongLine).any (fun c =>
      decide (c.todo = []) && decide ((c.sys.ports 0).sock = some 2) &&
        decide ((c.sys.net.sockets 2).srcPort ≠ (c.sys.ports 0).localPort)) = true := by
  decide +kernel

/-- The caller of the second line, which is free, is turned away by the first. -/
theorem secondLine_play :
    ((install [.listen 0 2323, .listen 1 2324] true 0).play anyStep secondLine).any (fun c =>
      decide (c.todo = []) && decide (.rejected 3 [1] ∈ c.sys.trace)) = true := by
  decide +kernel

/-- One line, one caller: the conditions hold and the call arrives. -/
theorem oneLine_routed :
    ((install [.listen 0 2323] true 0).play routesByPort oneLine).any (fun c =>
      decide ((c.sys.ports 0).sock = some 1)) = true := by
  decide +kernel

/-- One line and two callers: the second is turned away and the condition holds. -/
theorem oneLine_refused :
    ((install [.listen 0 2323] true 0).play refusesWhenBusy oneLine).any (fun c =>
      decide (.rejected 2 [] ∈ c.sys.trace)) = true := by
  decide +kernel

/-- Port 0 takes the caller of port 1. -/
theorem calls_routed_wrong_line : ¬ ∀ c, Reachable c → c.between → c.sys.Routed := by
  intro hAll
  obtain ⟨c, hReach, hc⟩ := exists_reachable wrongLine_play
  simp only [Bool.and_eq_true, decide_eq_true_eq] at hc
  obtain ⟨⟨hTodo, hSock⟩, hWrong⟩ := hc
  exact hWrong (hAll c hReach hTodo 0 2 hSock)

theorem calls_routed_one_line : ∃ c : Config, (c.sys.ports 0).sock = some 1 ∧
    (c.sys.net.sockets 1).srcPort = (c.sys.ports 0).localPort := by
  obtain ⟨c, hReach, hc⟩ := exists_of_play
    (P := fun c act => routesByPort c act) (fun _ _ h => h) oneLine_routed
  have hSock : (c.sys.ports 0).sock = some 1 := by simpa using hc
  exact ⟨c, hSock, calls_routed hReach 0 1 hSock⟩

/-- Port 0, in a call, turns away the caller of port 1, which is free. -/
theorem rejected_only_busy_second_line :
    ¬ ∀ c, Reachable c → c.between → c.sys.RejectedBusy := by
  intro hAll
  obtain ⟨c, hReach, hc⟩ := exists_reachable secondLine_play
  simp only [Bool.and_eq_true, decide_eq_true_eq] at hc
  have hFree := hAll c hReach hc.1 3 [1] hc.2
  cases hFree

theorem rejected_only_busy_one_line : ∃ c : Config, .rejected 2 [] ∈ c.sys.trace ∧
    ∀ free, .rejected 2 free ∈ c.sys.trace → free = [] := by
  obtain ⟨c, hReach, hc⟩ := exists_of_play
    (P := fun c act => refusesWhenBusy c act) (fun _ _ h => h) oneLine_refused
  exact ⟨c, by simpa using hc, rejected_only_busy hReach 2⟩

end Vmodem
