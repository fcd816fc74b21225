import Vmodem.Invariants.Requests
import Vmodem.Driver.Script

/-! Teardown on request. A request to end a call is remembered in the flags
`pendingClose` and `purgeSeen` and carried out later; as long as a call is only
accepted on a port with both flags clear, it is the call the request was made
for that is torn down. -/

namespace Vmodem

/-- The reasons for which the driver closes a call because it was asked to. -/
def CloseReason.onRequest : CloseReason → Bool
  | .pollClose | .initDisc | .replaced => true
  | .remote | .idle | .ringTimeout => false

/-- A call closed on request was asked for while it was the current one. -/
def ClosedOnRequest : Event → List Event → Prop
  | .closed i x why, older => why.onRequest → .request i x ∈ older
  | _, _ => True

/-- A call is only accepted on a port that remembers no request. -/
def acceptsUnflagged (c : Config) : Action → Bool
  | .run a =>
      (c.todo.head?.bind fun b => b.target c.sys).all fun j =>
        (c.sys.net.accept a.accepted).isNone ||
          (decide ((c.sys.ports j).pendingClose = 0) && decide ((c.sys.fossils j).purgeSeen = 0))
  | _ => true

/-- A remembered request was made for the present call. -/
def Sys.FlagsCurrent (s : Sys) : Prop :=
  ∀ i, (s.ports i).pendingClose ≠ 0 ∨ (s.fossils i).purgeSeen ≠ 0 → s.Requested i

structure Config.Requests (c : Config) : Prop where
  flags : c.sys.FlagsCurrent
  pollClose : ∀ i silent, .pollClose i silent ∈ c.todo → c.sys.Requested i
  initDisc : ∀ i, .initDisc i ∈ c.todo → c.sys.Requested i
  closed : History.Each ClosedOnRequest c.sys.trace

section Steps

variable {b : Block} {a : Answer} {s t : Sys} {i : PortIdx}

/-- An effect keeps the flags of a teardown those of the present call, if a call is
accepted without flags. -/
theorem Effect.flagsCurrent (h : Effect b a s t) (hRings : s.RingsOk) (hFlags : s.FlagsCurrent)
    (hClean : ∀ i, b.target s = some i → (s.net.accept a.accepted).isNone ∨
      ((s.ports i).pendingClose = 0 ∧ (s.fossils i).purgeSeen = 0)) : t.FlagsCurrent := by
  intro i hFlag
  have hOld : (s.ports i).pendingClose ≠ 0 ∨ (s.fossils i).purgeSeen ≠ 0 → t.Requested i := by
    intro hSet
    refine h.requested hRings (hFlags i hSet) fun hTarget => ?_
    refine (hClean i hTarget).resolve_right fun ⟨hClose, hPurge⟩ => ?_
    exact hSet.elim (fun h => h hClose) fun h => h hPurge
  rcases hFlag with hClose | hPurge
  · rcases h.pendingClose i with hZero | hSame | ⟨_, hReq⟩
    · exact absurd hZero hClose
    · exact hOld (.inl (hSame ▸ hClose))
    · exact hReq
  · exact (h.purgeSeen hPurge).elim (fun hBefore => hOld (.inr hBefore)) id

/-- A close made by an effect is in order when the call it ends was asked to
end. -/
theorem Effect.closedOnRequest (h : Effect b a s t) (hRings : s.RingsOk)
    (hClosed : History.Each ClosedOnRequest s.trace)
    (hReq : ∀ i why, b.ends = some (i, why) → why.onRequest → s.Requested i) :
    History.Each ClosedOnRequest t.trace := by
  obtain ⟨newer, hTrace, hFrom⟩ := h.logged hRings
  rw [hTrace]
  refine .extend (fun e he middle _ => ?_) hClosed
  have hOrigin := hFrom e he
  cases e with
  | closed i x why =>
      obtain ⟨hEnds, hSock⟩ := hOrigin
      exact fun hWhy => List.mem_append_right _ (hReq i why hEnds hWhy x hSock)
  | _ => trivial

/-- A block that accepts no call keeps what is known of the requests. -/
theorem Effects.requests (h : Effects b a s t) (hRings : s.RingsOk)
    (hAccepts : b.accepts = false) (hFlags : s.FlagsCurrent)
    (hClosed : History.Each ClosedOnRequest s.trace)
    (hReq : ∀ i why, b.ends = some (i, why) → why.onRequest → s.Requested i) :
    t.FlagsCurrent ∧ History.Each ClosedOnRequest t.trace ∧
      ∀ i, s.Requested i → t.Requested i := by
  suffices hAll : t.RingsOk ∧ t.FlagsCurrent ∧ History.Each ClosedOnRequest t.trace ∧
      ∀ i, s.Requested i → t.Requested i from hAll.2
  have hNone : ∀ (u : Sys) i, b.target u ≠ some i := by
    intro u i hTarget
    simp [Block.accepts_of_target hTarget] at hAccepts
  induction h with
  | refl => exact ⟨hRings, hFlags, hClosed, fun _ h => h⟩
  | @tail t u _ last ih =>
      obtain ⟨hMiddle, hFlags', hClosed', hKept⟩ := ih
      refine ⟨Sys.RingsOk.stable.effect last hMiddle,
        last.flagsCurrent hMiddle hFlags' fun i hTarget => absurd hTarget (hNone t i),
        last.closedOnRequest hMiddle hClosed' fun i why hEnds hWhy =>
          hKept i (hReq i why hEnds hWhy),
        fun i hOld => ?_⟩
      exact last.requested hMiddle (hKept i hOld) fun hTarget => absurd hTarget (hNone t i)

/-- Only POLL-CLOSE and the hangup of AH=04h end a call on request. -/
theorem Block.onRequest_cases {why : CloseReason} (hEnds : b.ends = some (i, why))
    (hWhy : why.onRequest) : (∃ silent, b = .pollClose i silent) ∨ b = .initDisc i := by
  cases b <;> simp_all [Block.ends]
  all_goals
    obtain ⟨_, rfl⟩ := hEnds
    cases hWhy

/-- One block of a run keeps the invariant. -/
theorem Config.Requests.run {rest : List Block} (hReach : Reachable ⟨s, b :: rest⟩)
    (ok : acceptsUnflagged ⟨s, b :: rest⟩ (.run a)) (h : Config.Requests ⟨s, b :: rest⟩) :
    Config.Requests ⟨(exec b a s).1, (exec b a s).2 ++ rest⟩ := by
  have hRings := Sys.RingsOk.stable.reachable hReach
  have hHead := (List.pairwise_cons.mp hReach.sound.stack).1
  have hEnds : ∀ i why, b.ends = some (i, why) → why.onRequest → s.Requested i := by
    intro i why hEnds hWhy
    rcases Block.onRequest_cases hEnds hWhy with ⟨silent, rfl⟩ | rfl
    · exact h.pollClose i silent (by simp)
    · exact h.initDisc i (by simp)
  have hDecided : ∀ i, ((∃ silent, .pollClose i silent ∈ (exec b a s).2) ∨
      .initDisc i ∈ (exec b a s).2) → b.accepts = false ∧ s.Requested i := by
    rintro i (⟨silent, hMem⟩ | hMem)
    · obtain ⟨rfl, hFlag, _⟩ := exec_decides.1 silent hMem
      exact ⟨rfl, h.flags i (.inl hFlag)⟩
    · obtain ⟨rfl, hFlag⟩ := exec_decides.2 hMem
      exact ⟨rfl, h.flags i hFlag⟩
  cases hAccepts : b.accepts with
  | false =>
      obtain ⟨hFlags, hClosed, hKept⟩ := (hReach.sound.effects a).requests hRings hAccepts h.flags
        h.closed hEnds
      refine ⟨hFlags, fun i silent hMem => ?_, fun i hMem => ?_, hClosed⟩
      · rcases List.mem_append.mp hMem with hNew | hOld
        · exact hKept i (hDecided i (.inl ⟨silent, hNew⟩)).2
        · exact hKept i (h.pollClose i silent (by simp [hOld]))
      · rcases List.mem_append.mp hMem with hNew | hOld
        · exact hKept i (hDecided i (.inr hNew)).2
        · exact hKept i (h.initDisc i (by simp [hOld]))
  | true =>
      have hBoth : (exec b a s).1.FlagsCurrent ∧
          History.Each ClosedOnRequest (exec b a s).1.trace := by
        have hOne := exec_accepts a s hAccepts hReach.sound.idle
        generalize (exec b a s).1 = t at hOne ⊢
        cases hOne with
        | refl => exact ⟨h.flags, h.closed⟩
        | single hEffect =>
            refine ⟨hEffect.flagsCurrent hRings h.flags fun i hTarget => ?_,
              hEffect.closedOnRequest hRings h.closed hEnds⟩
            simpa [acceptsUnflagged, hTarget] using ok
      have hRaw : b.isRaw = false := by cases b <;> simp_all [Block.accepts, Block.isRaw]
      refine ⟨hBoth.1, fun i silent hMem => ?_, fun i hMem => ?_, hBoth.2⟩
      · rcases List.mem_append.mp hMem with hNew | hOld
        · simp [(hDecided i (.inl ⟨silent, hNew⟩)).1] at hAccepts
        · have hAbove := hHead (.pollClose i silent) hOld
          simp [Block.above, hRaw] at hAbove
      · rcases List.mem_append.mp hMem with hNew | hOld
        · simp [(hDecided i (.inr hNew)).1] at hAccepts
        · have hAbove := hHead (.initDisc i) hOld
          simp [Block.above, hRaw] at hAbove

theorem install_requests (args : List PortArg) (eager : Bool) (tick : Tick) :
    (install args eager tick).Requests := by
  refine ⟨fun i hFlag => ?_, fun i silent hMem => ?_, fun i hMem => ?_, History.Each.nil⟩
  · simp [install, Sys.zero, PortState.zero, FossilState.zero] at hFlag
  · cases install_boots args eager tick _ hMem
  · cases install_boots args eager tick _ hMem

/-- An entry into the driver asks for nothing by itself. -/
theorem Config.Requests.call (h : Config.Requests ⟨s, []⟩) (hEntry : b.entry) :
    Config.Requests ⟨s, [b]⟩ := by
  refine ⟨h.flags, fun i silent hMem => ?_, fun i hMem => ?_, h.closed⟩
  · obtain rfl := List.mem_singleton.mp hMem
    cases hEntry
  · obtain rfl := List.mem_singleton.mp hMem
    cases hEntry

theorem Config.Requests.out {e : Outside} {todo : List Block} (hOut : outside e s = some t)
    (h : Config.Requests ⟨s, todo⟩) : Config.Requests ⟨t, todo⟩ := by
  have hReq : ∀ i, s.Requested i → t.Requested i := by
    intro i hOld x hSock
    rw [outside_ports hOut] at hSock
    rcases outside_cases hOut with ⟨tick, rfl⟩ | ⟨port, host, remote, rfl⟩ | ⟨y, bs, _, rfl⟩
    · exact hOld x hSock
    · exact hOld x hSock
    · exact List.mem_cons_of_mem _ (hOld x hSock)
  refine ⟨fun i hFlag => hReq i (h.flags i ?_),
    fun i silent hMem => hReq i (h.pollClose i silent hMem),
    fun i hMem => hReq i (h.initDisc i hMem), ?_⟩
  · have hPorts := outside_ports hOut
    have hFossils : t.fossils = s.fossils := by
      rcases outside_cases hOut with ⟨tick, rfl⟩ | ⟨port, host, remote, rfl⟩ | ⟨y, bs, _, rfl⟩ <;>
        rfl
    rwa [hPorts, hFossils] at hFlag
  · rcases outside_cases hOut with ⟨tick, rfl⟩ | ⟨port, host, remote, rfl⟩ | ⟨y, bs, _, rfl⟩
    · exact h.closed
    · exact h.closed
    · exact h.closed.cons trivial

end Steps

/-- No stale teardown, in every run in which calls are only accepted on ports
that remember no request: a call closed on request was asked to end while it was
its port's current call. -/
theorem no_stale_teardown {c : Config} (h : ReachableBy (fun c act => acceptsUnflagged c act) c) :
    ∀ newer i x why older, c.sys.trace = newer ++ .closed i x why :: older → why.onRequest →
      .request i x ∈ older := by
  have hRequests : c.Requests := h.induct install_requests (fun s b hEntry hs => hs.call hEntry)
    (fun s b rest a hReach ok hs => hs.run hReach.reachable ok) fun s t e todo hOut hs =>
      hs.out hOut
  intro newer i x why older hTrace
  exact hRequests.closed newer (.closed i x why) older hTrace

/-- A caller hangs up after the application has purged its output; the next
caller is greeted by AH=03h twice and AH=04h. -/
def purgeThenNextCaller : List Move :=
  answeredCall ++
    [.outside (.ticks 200), .call (.int14 0 .purgeOutput) {}, .call .int28 { closed := true },
      .outside (.arrive 0 0x0A000002 5001), .call (.mux .poll) { accepted := some 0 },
      .call (.int14 0 .status) {}, .call (.int14 0 .status) {}, .call (.int14 0 .init) {}]

/-- The application drops DTR and the driver hangs up. -/
def dropDtr : List Move := answeredCall ++ [.call (.int14 0 (.dtr 0)) {}, .call .int28 {}]

/-- The second caller is hung up, and nobody has asked for it. -/
theorem purgeThenNextCaller_play :
    ((install [.listen 0 2323] true 0).play anyStep purgeThenNextCaller).any (fun c =>
      decide (c.todo = []) && decide (.closed 0 2 .initDisc ∈ c.sys.trace) &&
        decide (.request 0 2 ∉ c.sys.trace)) = true := by
  decide +kernel

theorem dropDtr_play :
    ((install [.listen 0 2323] true 0).play acceptsUnflagged dropDtr).any (fun c =>
      decide (.closed 0 1 .pollClose ∈ c.sys.trace)) = true := by
  decide +kernel

/-- INIT-DISC closes the second call for a purge of the first. -/
theorem no_stale_teardown_next_caller :
    ¬ ∀ c, Reachable c → c.between → ∀ newer i x why older,
      c.sys.trace = newer ++ .closed i x why :: older → why.onRequest → .request i x ∈ older := by
  intro hAll
  obtain ⟨c, hReach, hc⟩ := exists_reachable purgeThenNextCaller_play
  simp only [Bool.and_eq_true, decide_eq_true_eq] at hc
  obtain ⟨⟨hTodo, hClosed⟩, hNever⟩ := hc
  obtain ⟨newer, older, hTrace⟩ := List.append_of_mem hClosed
  have hReq := hAll c hReach hTodo newer 0 2 .initDisc older hTrace rfl
  exact hNever (by rw [hTrace]; simp [hReq])

/-- The run in which DTR is dropped: the close has its request. -/
theorem no_stale_teardown_drop_dtr : ∃ (c : Config) (newer older : List Event),
    c.sys.trace = newer ++ .closed 0 1 .pollClose :: older ∧ .request 0 1 ∈ older := by
  obtain ⟨c, hReach, hc⟩ := exists_of_play
    (P := fun c act => acceptsUnflagged c act) (fun _ _ h => h) dropDtr_play
  obtain ⟨newer, older, hTrace⟩ := List.append_of_mem (of_decide_eq_true hc)
  exact ⟨c, newer, older, hTrace, no_stale_teardown hReach newer 0 1 .pollClose older hTrace rfl⟩

end Vmodem
