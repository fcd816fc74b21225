import Vmodem.Invariants.Calls
import Vmodem.Invariants.Delivery

/-! Command mode on a call that is up. Escapes and command lines leave carrier and
received data alone, except that ATO and ATA answer the call again. -/

namespace Vmodem

/-- The call goes on, and none of AH=04h, AH=09h and AH=0Ah is called on its port. -/
def staysUp (i : PortIdx) (x : SockId) (c : Config) (_ : Action) : Bool :=
  decide ((c.sys.ports i).sock = some x) && decide (c.todo.head? ≠ some (.int14 i .init)) &&
    decide (c.todo.head? ≠ some (.int14 i .purgeOutput)) &&
    decide (c.todo.head? ≠ some (.int14 i .purgeInput))

/-- A call that is answered, with its CONNECT given and no carrier drop armed. -/
structure Config.Online (i : PortIdx) (x : SockId) (c : Config) : Prop where
  live : c.sys.Live i x
  purgeSeen : (c.sys.fossils i).purgeSeen = 0
  ring : .ring i ∉ c.todo
  initFinish : .initFinish i ∉ c.todo

section Steps

variable {b : Block} {a : Answer} {s t : Sys} {rest todo : List Block} {i : PortIdx} {x : SockId}
  {c₀ c d : Config} {act : Action}

/-- The events of the line of a call that is up neither answer it nor arm a drop. -/
theorem Config.Online.events (h : Config.Online i x ⟨s, b :: rest⟩)
    (hPurge : b ≠ .int14 i .purgeOutput) (hAgain : ¬ answersAgain i ⟨s, b :: rest⟩ (.run a)) :
    .purge ∉ b.lineEvents a s i ∧ ((s.line i).run (b.lineEvents a s i)).ringing = false ∧
      ((s.line i).run (b.lineEvents a s i)).connectPending = false := by
  have hUp : (s.line i).ringing = false := h.live.ringing
  have hGiven : (s.line i).connectPending = false := h.live.connectPending
  rcases lineEvents_cases b a s i with hNone | ⟨e, hOne, hFrom⟩ | hTyped
  · rw [hNone]
    exact ⟨List.not_mem_nil, hUp, hGiven⟩
  · rw [hOne]
    cases e with
    | ring => exact absurd (by simp [show b = .ring i from hFrom]) h.ring
    | answer =>
        have hRinging : (s.line i).ringing = true := hFrom
        rw [hUp] at hRinging
        cases hRinging
    | connect => exact ⟨by simp, hUp, rfl⟩
    | onHook => exact ⟨by simp, rfl, rfl⟩
    | purge => exact absurd hFrom hPurge
    | poll | init _ => exact ⟨by simp, by simpa using hUp, by simpa using hGiven⟩
    | door ignore => exact ⟨by simp, hUp, hGiven⟩
    | reset keep => exact absurd (by simp [hFrom.1]) h.initFinish
  · refine ⟨fun hMem => (nomatch hTyped _ hMem), ?_⟩
    rcases run_typed_phase hTyped (s.line i) with ⟨_, hSame, hSame'⟩ | ⟨hSome, _⟩
    · exact ⟨hSame.trans hUp, hSame'.trans hGiven⟩
    · have hRinging : (s.ats i).ringing = false := hUp
      have hPending : (s.ats i).connectPending = false := hGiven
      exact absurd (by simp [answersAgain, hRinging, hPending, hSome]) hAgain

/-- A block keeps the call online, unless it is one of those excluded. -/
theorem Config.Online.run (hSound : Config.Sound ⟨s, b :: rest⟩)
    (h : Config.Online i x ⟨s, b :: rest⟩) (hInit : b ≠ .int14 i .init)
    (hPurge : b ≠ .int14 i .purgeOutput) (hAgain : ¬ answersAgain i ⟨s, b :: rest⟩ (.run a))
    (hSock : ((exec b a s).1.ports i).sock = some x) :
    Config.Online i x ⟨(exec b a s).1, (exec b a s).2 ++ rest⟩ := by
  have hLine := exec_line (j := i) b a hSound.modes
  obtain ⟨hNone, hRinging, hPending⟩ := h.events hPurge hAgain
  have hArm : (s.line i).armed (b.lineEvents a s i) = false := Line.armed_of_not_mem hNone _
  refine ⟨⟨hSock, ?_, ?_⟩, purgeSeen_unarmed hSound.modes h.purgeSeen hArm, fun hMem => ?_,
    fun hMem => ?_⟩
  · exact (congrArg Line.ringing hLine).trans hRinging
  · exact (congrArg Line.connectPending hLine).trans hPending
  · have hCall : (s.ports i).sock.isSome := by
      rw [show (s.ports i).sock = some x from h.live.sock]
      rfl
    exact h.ring ((ring_leaves hSound a hCall).mp hMem).1
  · rcases List.mem_append.mp hMem with hNew | hOld
    · exact hInit (exec_initFinish hNew)
    · exact h.initFinish (List.mem_cons_of_mem _ hOld)

/-- A call that is online shows carrier, in command mode as well. -/
theorem Config.Online.carrier (hModes : c.sys.ModesAgree) (h : c.Online i x) :
    statusWord i c.sys &&& dcdBit ≠ 0 := by
  have hMode : (c.sys.ports i).mode = .conn := (hModes i).mpr (by simp [h.live.sock])
  rw [statusWord_dcd]
  simp [Vmodem.carrier, h.live.ringing, h.live.connectPending, hMode, h.live.sock, h.purgeSeen]

/-- Only AH=04h and AH=0Ah empty a receive ring on request. -/
theorem discards_cases (h : b.discards = some i) :
    b = .int14 i .init ∨ b = .int14 i .purgeInput := by
  unfold Block.discards at h
  split at h
  · exact .inl (by rw [Option.some.inj h])
  · exact .inr (by rw [Option.some.inj h])
  · cases h

/-- A call stays up on every stretch on which it is not answered again. -/
theorem online_run (hReach : Reachable c₀) (hOnline : c₀.Online i x)
    (run : Transition.Run step (fun c act => staysUp i x c act ∧ ¬ answersAgain i c act) c₀ c)
    (hSock : (c.sys.ports i).sock = some x) :
    c.Online i x ∧ Transition.Run step (fun c act => undisturbed i x c act) c₀ c := by
  induction run with
  | refl => exact ⟨hOnline, .refl _⟩
  | @tail c d act prior ok last ih =>
      obtain ⟨hUp, hAgain⟩ := ok
      simp only [staysUp, Bool.and_eq_true, decide_eq_true_eq] at hUp
      obtain ⟨⟨⟨hBefore, hInit⟩, hPurge⟩, hInput⟩ := hUp
      obtain ⟨hHere, hPrior⟩ := ih hBefore
      have hSound := (hReach.extend (prior.mono fun _ _ _ => trivial)).sound
      have hCalm : undisturbed i x c act := by
        refine Bool.and_eq_true_iff.mpr ⟨decide_eq_true hHere.live, ?_⟩
        rw [Option.all_eq_true]
        intro b hb
        exact decide_eq_true fun hDiscards => (discards_cases hDiscards).elim
          (fun hEq => hInit (hEq ▸ hb)) fun hEq => hInput (hEq ▸ hb)
      refine ⟨?_, hPrior.tail hCalm last⟩
      obtain ⟨s, todo⟩ := c
      rcases step_cases last with ⟨b, _, hEntry, rfl, rfl⟩ | ⟨a, b, rest, rfl, rfl, rfl⟩ |
        ⟨e, t, _, hOut, rfl⟩
      · refine ⟨hHere.live, hHere.purgeSeen, fun hMem => ?_, fun hMem => ?_⟩
        · obtain rfl := List.mem_singleton.mp hMem
          cases hEntry
        · obtain rfl := List.mem_singleton.mp hMem
          cases hEntry
      · exact hHere.run hSound (by simpa using hInit) (by simpa using hPurge) hAgain hSock
      · have hLine := outside_line (j := i) hOut
        exact ⟨⟨hSock, (congrArg Line.ringing hLine).trans hHere.live.ringing,
          (congrArg Line.connectPending hLine).trans hHere.live.connectPending⟩,
          (congrArg Line.purgeSeen hLine).trans hHere.purgeSeen, hHere.ring, hHere.initFinish⟩

end Steps

/-- As long as ATO and ATA do not answer an online call again, it is reported with
carrier throughout, whatever else is typed, written and polled, and the bytes it
receives are all passed on. -/
theorem command_mode_harmless {i : PortIdx} {x : SockId} {c₀ c : Config} (hReach : Reachable c₀)
    (hStart : c₀.between) (hLive : c₀.sys.Live i x) (hZero : (c₀.sys.fossils i).purgeSeen = 0)
    (run : Transition.Run step (fun c act => staysUp i x c act ∧ ¬ answersAgain i c act) c₀ c)
    (hSock : (c.sys.ports i).sock = some x) :
    statusWord i c.sys &&& dcdBit ≠ 0 ∧ Segment i x c₀ c := by
  have hNone : ∀ b, b ∉ c₀.todo := by
    intro b hMem
    rw [show c₀.todo = [] from hStart] at hMem
    cases hMem
  obtain ⟨hOnline, hCalm⟩ := online_run hReach ⟨hLive, hZero, hNone _, hNone _⟩ run hSock
  have hHere := hReach.extend (run.mono fun _ _ _ => trivial)
  refine ⟨hOnline.carrier hHere.sound.modes, delivery_run hReach ?_ hCalm hOnline.live⟩
  intro y tmp drop later hTodo
  exact hNone _ (hTodo ▸ List.mem_cons_self)

/-- Characters typed on port 0. -/
def typed (text : String) : List Move :=
  (bytes text).map fun v => .call (.int14 0 (.transmit v)) {}

/-- After a pause the application enters command mode, asks for the version and
turns the echo off while data arrives, and polls the status. -/
def versionAsked : List Move :=
  .outside (.ticks 20) :: typed "+++" ++ typed "ATI\r" ++ typed "ATE0\r" ++
    [.outside (.deliver 1 [0x48, 0x49]), .call (.mux .poll) { received := 256 }] ++ statusPoll

/-- The application goes to command mode and back online by ATO. -/
def backOnline : List Move :=
  .outside (.ticks 20) :: typed "+++" ++ typed "ATO\r" ++ statusPoll

/-- A call in which `ATI` is asked for on the way, with the status polled at the end. -/
theorem versionAsked_play :
    ((install [.listen 0 2323] true 0).play (fun _ _ => true) answeredCall).any (fun c =>
      (c.play (fun c act => staysUp 0 1 c act && !answersAgain 0 c act) versionAsked).any fun d =>
        decide (c.todo = []) && decide (c.sys.Live 0 1) &&
          decide ((c.sys.fossils 0).purgeSeen = 0) && decide ((d.sys.ports 0).sock = some 1) &&
          decide (d.todo.head? = some (.status 0))) = true := by
  decide +kernel

/-- A call that leaves command mode by `ATO`, which makes it wait for CONNECT again. -/
theorem backOnline_play :
    ((install [.listen 0 2323] true 0).play (fun _ _ => true) answeredCall).any (fun c =>
      (c.play (staysUp 0 1) backOnline).any fun d =>
        decide (c.todo = []) && decide (c.sys.Live 0 1) &&
          decide ((c.sys.fossils 0).purgeSeen = 0) && decide ((d.sys.ports 0).sock = some 1) &&
          decide (d.todo.head? = some (.status 0)) &&
          decide (statusWord 0 d.sys &&& dcdBit = 0)) = true := by
  decide +kernel

/-- The run with `ATI`, its carrier and its bytes. -/
theorem command_mode_harmless_version : ∃ c₀ c : Config, Reachable c₀ ∧
    c.todo.head? = some (.status 0) ∧ statusWord 0 c.sys &&& dcdBit ≠ 0 ∧ Segment 0 1 c₀ c := by
  obtain ⟨c₀, c, hReach, hRun, hp⟩ := exists_segment
    (P := fun c act => staysUp 0 1 c act ∧ ¬ answersAgain 0 c act) (fun _ _ h => by simpa using h)
    versionAsked_play
  simp only [Bool.and_eq_true, decide_eq_true_eq] at hp
  obtain ⟨⟨⟨⟨hStart, hLive⟩, hZero⟩, hSock⟩, hHead⟩ := hp
  exact ⟨c₀, c, hReach, hHead, command_mode_harmless hReach hStart hLive hZero hRun hSock⟩

/-- On the way back online the call loses its carrier. -/
theorem carrier_lost_online : ¬ ∀ i x (c₀ c : Config), Reachable c₀ → c₀.between →
    c₀.sys.Live i x → (c₀.sys.fossils i).purgeSeen = 0 →
    Transition.Run step (fun c act => staysUp i x c act) c₀ c → (c.sys.ports i).sock = some x →
    c.todo.head? = some (.status i) → statusWord i c.sys &&& dcdBit ≠ 0 := by
  intro hAll
  obtain ⟨c₀, c, hReach, hRun, hp⟩ := exists_segment
    (P := fun c act => staysUp 0 1 c act) (fun _ _ h => h) backOnline_play
  simp only [Bool.and_eq_true, decide_eq_true_eq] at hp
  obtain ⟨⟨⟨⟨⟨hStart, hLive⟩, hZero⟩, hSock⟩, hHead⟩, hDcd⟩ := hp
  exact hAll 0 1 c₀ c hReach hStart hLive hZero hRun hSock hHead hDcd

end Vmodem
