import Vmodem.Invariants.Calls
import Vmodem.Invariants.Delivery
import Vmodem.Invariants.Sessions

/-! Answering a call and giving it CONNECT are two steps. Carrier is raised and data
received after the second, in every run in which AH=04h does not come between the
two. -/

namespace Vmodem

/-- The latest answer to the call has been followed by its CONNECT. -/
def Delivered (es : List LineEvent) : Prop :=
  ∃ before after, es = before ++ .connect :: after ∧ .answer ∈ before ∧ .answer ∉ after

/-- AH=04h takes back the CONNECT an answered call is waiting for. -/
def cancelsConnect (i : PortIdx) (c : Config) : Action → Bool
  | .run _ =>
      decide (c.todo.head? = some (.initFinish i)) && (c.sys.ports i).sock.isSome &&
        !(c.sys.ats i).ringing && (c.sys.ats i).connectPending
  | _ => false

/-- How far the answering of a call has come, `es` being the events of the call. -/
structure Config.Answering (i : PortIdx) (es : List LineEvent) (c : Config) : Prop where
  phase : .ring i ∈ c.todo ∨ .ringTimeout i ∈ c.todo ∨ (c.sys.ats i).ringing ∨
    ((c.sys.ats i).connectPending ∧ .answer ∈ es) ∨ Delivered es
  rx : ∀ y tmp rest, c.todo = .rx i y tmp false :: rest → Connected es
  cells : ∀ cell ∈ (c.sys.ports i).rx.contents, cell.src.isSome → Connected es

section Events

variable {es fs : List LineEvent} {e : LineEvent}

/-- A call whose latest answer was followed by CONNECT has been given CONNECT. -/
theorem Delivered.connected (h : Delivered es) : Connected es := by
  obtain ⟨before, after, rfl, hAnswer, _⟩ := h
  have hFirst : [.answer].Sublist before := List.singleton_sublist.mpr hAnswer
  have hSecond : [.connect].Sublist (.connect :: after) := List.singleton_sublist.mpr (by simp)
  exact hFirst.append hSecond

/-- CONNECT stays delivered as long as the call is not answered again. -/
theorem Delivered.extend (h : Delivered es) (hNone : .answer ∉ fs) : Delivered (es ++ fs) := by
  obtain ⟨before, after, rfl, hAnswer, hAfter⟩ := h
  refine ⟨before, after ++ fs, by simp, hAnswer, fun hMem => ?_⟩
  exact (List.mem_append.mp hMem).elim hAfter hNone

/-- A call that was given CONNECT has been given it. -/
theorem Connected.extend (h : Connected es) : Connected (es ++ fs) :=
  List.Sublist.trans h (List.sublist_append_left _ _)

theorem Delivered.answer_mem (h : Delivered es) : .answer ∈ es :=
  h.connected.subset (by simp)

theorem delivered_connect (h : .answer ∈ es) : Delivered (es ++ [.connect]) :=
  ⟨es, [], rfl, h, List.not_mem_nil⟩

end Events

section Steps

variable {b : Block} {a : Answer} {s t : Sys} {rest todo : List Block} {i : PortIdx} {x : SockId}
  {es : List LineEvent} {past : Past} {c : Config}

/-- The phase of a line that has been answered, or is still ringing, after a block. -/
theorem Config.Answering.advance (hReach : Reachable ⟨s, b :: rest⟩)
    (hKept : ¬ cancelsConnect i ⟨s, b :: rest⟩ (.run a)) (hSock : (s.ports i).sock.isSome)
    (hNow : ((exec b a s).1.ports i).sock.isSome)
    (h : (s.ats i).ringing ∨ ((s.ats i).connectPending ∧ .answer ∈ es) ∨ Delivered es) :
    let new := es ++ b.lineEvents a s i
    .ringTimeout i ∈ (exec b a s).2 ∨ ((exec b a s).1.ats i).ringing ∨
      (((exec b a s).1.ats i).connectPending ∧ .answer ∈ new) ∨ Delivered new := by
  dsimp only
  have hModes := hReach.sound.modes
  obtain ⟨hRinging, hPending⟩ := exec_phase (j := i) b a hModes
  rw [hRinging, hPending]
  have hPhase : (s.line i).ringing ∨ ((s.line i).connectPending ∧ .answer ∈ es) ∨ Delivered es := h
  have hAnswered : (s.line i).connectPending → (s.line i).ringing = false → .answer ∈ es := by
    intro hWait hUp
    rcases hPhase with hRings | ⟨_, hAnswer⟩ | hDone
    · rw [hUp] at hRings
      cases hRings
    · exact hAnswer
    · exact hDone.answer_mem
  rcases lineEvents_cases b a s i with hNone | ⟨e, hOne, hFrom⟩ | hTyped
  · rw [hNone, List.append_nil]
    exact .inr hPhase
  · rw [hOne]
    have hStays : ((s.line i).next e).ringing = (s.line i).ringing →
        ((s.line i).next e).connectPending = (s.line i).connectPending → .answer ≠ e →
        ((s.line i).next e).ringing ∨ (((s.line i).next e).connectPending ∧ .answer ∈ es ++ [e]) ∨
          Delivered (es ++ [e]) := by
      intro hRing hWait hNe
      rw [hRing, hWait]
      refine hPhase.imp_right (Or.imp (fun hSome => ⟨hSome.1, ?_⟩) fun hDone => ?_)
      · exact List.mem_append_left _ hSome.2
      · exact hDone.extend (by simpa using hNe)
    cases e with
    | ring => exact .inr (.inl rfl)
    | answer => exact .inr (.inr (.inl ⟨rfl, by simp⟩))
    | connect =>
        cases hUp : (s.line i).ringing with
        | true => exact .inr (.inl hUp)
        | false => exact .inr (.inr (.inr (delivered_connect (hAnswered hFrom.2 hUp))))
    | onHook =>
        rcases hFrom with ⟨rfl, hGiveUp⟩ | hGone
        · refine .inl ?_
          show .ringTimeout i ∈ (atCheckRing i s).2
          rw [atCheckRing_giveUp hGiveUp]
          simp
        · simp [hGone] at hNow
    | door ignore => exact .inr (hStays rfl rfl nofun)
    | purge | poll | init _ => exact .inr (hStays (by simp) (by simp) nofun)
    | reset keep =>
        obtain ⟨rfl, rfl⟩ := hFrom
        have hClose : (s.ports i).pendingClose = 0 := stack_initFinish hReach (by simp)
        have hCall : (callSock i s).isSome := by
          rw [callSock, if_pos ((hModes i).mpr hSock)]
          exact hSock
        cases hUp : (s.ats i).ringing with
        | true =>
            have hRings : (s.line i).ringing = true := hUp
            exact .inr (.inl (by simp [Line.next, hRings, hCall, hClose]))
        | false =>
            rcases hPhase with hRings | ⟨hWait, _⟩ | hDone
            · rw [show (s.line i).ringing = false from hUp] at hRings
              cases hRings
            · have hPend : (s.ats i).connectPending = true := hWait
              exact absurd (by simp [cancelsConnect, hSock, hUp, hPend]) hKept
            · exact .inr (.inr (.inr (hDone.extend (by simp))))
  · rcases run_typed_phase hTyped (s.line i) with ⟨hNone, hSame, hSame'⟩ | ⟨hSome, _, hWait⟩
    · rw [hSame, hSame']
      refine .inr (hPhase.imp_right (Or.imp (fun hOld => ⟨hOld.1, ?_⟩) fun hDone => ?_))
      · exact List.mem_append_left _ hOld.2
      · exact hDone.extend hNone
    · exact .inr (.inr (.inl ⟨hWait, List.mem_append_right _ hSome⟩))

/-- The end of a call that is not answered is the end of the call. -/
theorem ringTimeout_sock : ((ringTimeout i s).ports i).sock = none := by
  have hSame := ((atNoCarrier_quiet i (clearRx i (closeSock i .ringTimeout s))).port i).sock
  have hNone : ((clearRx i (closeSock i .ringTimeout s)).ports i).sock = none := by simp
  simpa [ringTimeout, enterIdleMode] using hSame.trans hNone

/-- A block of the call keeps the promise of CONNECT, unless it cancels it. -/
theorem Config.Answering.run (hReach : Reachable ⟨s, b :: rest⟩)
    (hKept : ¬ cancelsConnect i ⟨s, b :: rest⟩ (.run a)) (hSock : (s.ports i).sock.isSome)
    (hNow : ((exec b a s).1.ports i).sock.isSome) (h : Config.Answering i es ⟨s, b :: rest⟩) :
    Config.Answering i (es ++ b.lineEvents a s i) ⟨(exec b a s).1, (exec b a s).2 ++ rest⟩ := by
  have hSound := hReach.sound
  have hStack := (List.pairwise_cons.mp hSound.stack).1
  have hRings := Sys.RingsOk.stable.reachable hReach
  refine ⟨?_, fun y tmp later hTodo => ?_, fun cell hCell hSrc => ?_⟩
  · rcases h.phase with hMem | hMem | hLater
    · by_cases hRing : b = .ring i
      · subst hRing
        refine .inr (.inr (.inl ?_))
        show ((atSendRing i s).ats i).ringing
        simp [atSendRing]
      · exact .inl ((ring_leaves hSound a hSock).mpr ⟨hMem, hRing⟩)
    · rcases List.mem_cons.mp hMem with rfl | hRest
      · rw [show (exec (.ringTimeout i) a s).1 = ringTimeout i s from rfl, ringTimeout_sock] at hNow
        cases hNow
      · exact .inr (.inl (List.mem_append_right _ hRest))
    · rcases Config.Answering.advance hReach hKept hSock hNow hLater with hGiveUp | hPhase
      · exact .inr (.inl (List.mem_append_left _ hGiveUp))
      · exact .inr (.inr hPhase)
  · rcases head_rx hSound hTodo with rfl | ⟨v, rfl⟩
    · obtain ⟨z, hz⟩ := Option.isSome_iff_exists.mp hSock
      rcases pollRecv_of_sock (a := a) hz with hStop | ⟨_, hPush, _⟩
      · simp [exec, hStop] at hTodo
      · simp only [exec, hPush, List.cons_append, List.cons.injEq, Block.rx.injEq] at hTodo
        obtain ⟨⟨_, _, _, hDrop⟩, _⟩ := hTodo
        simp only [Bool.or_eq_false_iff] at hDrop
        refine Connected.extend ?_
        rcases h.phase with hMem | hMem | hRinging | ⟨hWait, _⟩ | hDone
        · rcases List.mem_cons.mp hMem with hEq | hRest
          · cases hEq
          · cases hStack (.ring i) hRest
        · rcases List.mem_cons.mp hMem with hEq | hRest
          · cases hEq
          · cases (List.pairwise_cons.mp (stack_announced hReach)).1 _ hRest rfl
        · exact absurd hRinging (by simp [hDrop.1])
        · exact absurd hWait (by simp [hDrop.2])
        · exact hDone.connected
    · exact (h.rx y (v :: tmp) rest rfl).extend
  · refine Connected.extend ?_
    rcases (hSound.effects a).rx_cells hRings hCell hSrc with hOld | ⟨y, tmp, rfl⟩
    · exact h.cells cell hOld hSrc
    · exact h.rx y tmp rest rfl

/-- A new call begins with an empty receive ring. -/
theorem acceptCall_rx (x : SockId) : ((acceptCall i x s).1.ports i).rx.contents = [] := by
  simp [telnetReset]

/-- Along a run without such steps the promise of CONNECT is kept. The induction is on
the record. -/
theorem answering_of_reached (h : Reached past c)
    (hAllowed : ∀ st ∈ past, ¬ cancelsConnect i st.1 st.2) (hSock : (c.sys.ports i).sock = some x) :
    c.Answering i (callEvents i x past) := by
  refine h.lines (A := fun c act => ¬ cancelsConnect i c act) (P := fun es c => c.Answering i es)
    ?_ ?_ ?_ ?_ hAllowed hSock
  · intro s b rest a hReach _ hAccepts hTarget _ hNone hSock
    have hNow : ((exec b a s).1.ports i).sock.isSome := by rw [hSock]; rfl
    obtain ⟨y, u, hAccept⟩ := accept_cases a hTarget hNone hNow
    rw [hAccept, acceptCall_snd]
    refine ⟨.inl (by simp), fun z tmp later hTodo => ?_, fun cell hCell => ?_⟩
    · cases hTodo
    · rw [acceptCall_rx] at hCell
      cases hCell
  · intro s b es hEntry ih
    refine ⟨?_, fun y tmp rest hTodo => ?_, ih.cells⟩
    · rcases ih.phase with hMem | hMem | hLater
      · cases hMem
      · cases hMem
      · exact .inr (.inr hLater)
    · obtain ⟨rfl, _⟩ := List.cons.inj hTodo
      cases hEntry
  · exact fun s b rest a es hReach ok hSock hNow ih =>
      ih.run hReach ok (by rw [hSock]; rfl) (by rw [hNow]; rfl)
  · intro s t e todo es hOut ih
    have hLine := outside_line (j := i) hOut
    have hRinging : (t.ats i).ringing = (s.ats i).ringing := congrArg Line.ringing hLine
    have hPending : (t.ats i).connectPending = (s.ats i).connectPending :=
      congrArg Line.connectPending hLine
    refine ⟨?_, ih.rx, ?_⟩
    · show _ ∨ _ ∨ (t.ats i).ringing ∨ ((t.ats i).connectPending ∧ _) ∨ _
      rw [hRinging, hPending]
      exact ih.phase
    · show ∀ cell ∈ (t.ports i).rx.contents, _
      rw [outside_ports hOut]
      exact ih.cells

end Steps

/-- In every run in which AH=04h never takes back a CONNECT that is due, a call
reported with carrier has been answered and given its CONNECT, and so has every call
with received data in the ring. -/
theorem connect_first {i : PortIdx} {x : SockId} {past : Past} {c : Config} (h : Reached past c)
    (hAllowed : ∀ st ∈ past, ¬ cancelsConnect i st.1 st.2) (hSock : (c.sys.ports i).sock = some x) :
    (c.todo.head? = some (.status i) → statusWord i c.sys &&& dcdBit ≠ 0 →
      Delivered (callEvents i x past)) ∧
    (∀ cell ∈ (c.sys.ports i).rx.contents, cell.src.isSome → Connected (callEvents i x past)) := by
  have hAnswering := answering_of_reached h hAllowed hSock
  refine ⟨fun hStatus hDcd => ?_, hAnswering.cells⟩
  have hCarrier := (statusWord_dcd i c.sys).mp hDcd
  simp only [carrier, Bool.and_eq_true, Bool.not_eq_true'] at hCarrier
  obtain ⟨⟨⟨hRinging, hPending⟩, _⟩, _⟩ := hCarrier
  have hReach := h.reachable
  obtain ⟨s, todo⟩ := c
  obtain ⟨rest, rfl⟩ := List.head?_eq_some_iff.mp hStatus
  rcases hAnswering.phase with hMem | hMem | hUp | ⟨hWait, _⟩ | hDone
  · rcases List.mem_cons.mp hMem with hEq | hRest
    · cases hEq
    · cases (List.pairwise_cons.mp hReach.sound.stack).1 (.ring i) hRest
  · rcases List.mem_cons.mp hMem with hEq | hRest
    · cases hEq
    · cases (List.pairwise_cons.mp (stack_announced hReach)).1 _ hRest rfl
  · exact absurd hUp (Bool.eq_false_iff.mp hRinging)
  · exact absurd hWait (Bool.eq_false_iff.mp hPending)
  · exact hDone

/-- A ringing call is answered by raising DTR, and AH=04h is called before its CONNECT
is due. -/
def answeredThenInit : List Move :=
  [.finish {}, .outside (.arrive 0 0x0A000001 5000), .call (.mux .poll) { accepted := some 0 },
    .call (.int14 0 (.dtr 1)) {}, .call (.int14 0 .init) {}] ++ statusPoll

theorem connectGiven_record :
    (record (answeredCall ++ statusPoll) ([], install [.listen 0 2323] true 0)).any (fun r =>
      (r.1.all fun st => !cancelsConnect 0 st.1 st.2) && decide ((r.2.sys.ports 0).sock = some 1) &&
        decide (r.2.todo.head? = some (.status 0)) &&
        decide (statusWord 0 r.2.sys &&& dcdBit ≠ 0)) = true := by
  decide +kernel

/-- AH=04h between the answer and its CONNECT: carrier without CONNECT. -/
theorem answeredThenInit_record :
    (record answeredThenInit ([], install [.listen 0 2323] true 0)).any (fun r =>
      decide ((r.2.sys.ports 0).sock = some 1) && decide (r.2.todo.head? = some (.status 0)) &&
        decide (statusWord 0 r.2.sys &&& dcdBit ≠ 0) &&
        decide (.connect ∉ callEvents 0 1 r.1)) = true := by
  decide +kernel

theorem connect_first_given : ∃ (past : Past) (c : Config), Reached past c ∧
    Delivered (callEvents 0 1 past) := by
  obtain ⟨past, c, hReached, hp⟩ := exists_reached connectGiven_record
  simp only [Bool.and_eq_true, decide_eq_true_eq, List.all_eq_true] at hp
  obtain ⟨⟨⟨hAll, hSock⟩, hHead⟩, hDcd⟩ := hp
  refine ⟨past, c, hReached, (connect_first hReached (fun st hst => ?_) hSock).1 hHead hDcd⟩
  simpa using hAll st hst

/-- AH=04h raises carrier on a call without its CONNECT. -/
theorem carrier_without_connect : ¬ ∀ i x past c, Reached past c →
    (c.sys.ports i).sock = some x → c.todo.head? = some (.status i) →
    statusWord i c.sys &&& dcdBit ≠ 0 → Connected (callEvents i x past) := by
  intro hAll
  obtain ⟨past, c, hReached, hp⟩ := exists_reached answeredThenInit_record
  simp only [Bool.and_eq_true, decide_eq_true_eq] at hp
  obtain ⟨⟨⟨hSock, hHead⟩, hDcd⟩, hNever⟩ := hp
  have hConnected := hAll 0 1 past c hReached hSock hHead hDcd
  exact hNever (hConnected.subset (by simp))

end Vmodem
