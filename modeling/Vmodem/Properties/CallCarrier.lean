import Vmodem.Invariants.Calls

/-! Whose carrier the status word shows. It is that of the present call, computed
from what has happened to the line since the call was accepted, when no call is
accepted on the port with a purge counter or an AT&D0 left over from before it. -/

namespace Vmodem

/-- A call is accepted on the port with its purge counter or its `dtr_ignore` still
set from before the call. -/
def acceptsLeftover (i : PortIdx) (c : Config) : Action → Bool
  | .run a =>
      decide ((c.todo.head?.bind fun b => b.target c.sys) = some i) &&
        (c.sys.net.accept a.accepted).isSome &&
        (decide ((c.sys.fossils i).purgeSeen ≠ 0) || (c.sys.ports i).dtrIgnore)
  | _ => false

/-- A line on which no carrier drop is counted and AT&D0 is not in force. -/
structure Line.Clear (l : Line) : Prop where
  purgeSeen : l.purgeSeen = 0
  dtrIgnore : l.dtrIgnore = false

/-- The line of a port is that of its call, `es` being the events of the call. Until
its first RING nothing has happened to the call, and the line need only be clear. -/
structure Config.OwnLine (i : PortIdx) (es : List LineEvent) (c : Config) : Prop where
  line : (.ring i ∈ c.todo ∧ es = [] ∧ (c.sys.line i).Clear) ∨
    (.ring i ∉ c.todo ∧ (Line.fresh.run es).Agrees (c.sys.line i))
  answered : .answer ∈ es → (c.sys.ats i).ringing = false
  connected : Connected es → (c.sys.ats i).ringing = false ∧ (c.sys.ats i).connectPending = false

section Steps

variable {b : Block} {a : Answer} {s t : Sys} {rest todo : List Block} {i : PortIdx} {x : SockId}
  {es : List LineEvent} {past : Past} {c : Config}

/-- The RING of a new call leaves no trace of the line before it. -/
theorem Line.Clear.ring {l : Line} (h : l.Clear) : (Line.fresh.next .ring).Agrees (l.next .ring) :=
  ⟨rfl, nofun, h.purgeSeen.symm, h.dtrIgnore.symm⟩

/-- The flags of a line after a block, when it is answered at most while ringing. -/
theorem Config.OwnLine.phase (hModes : s.ModesAgree) (h : Config.OwnLine i es ⟨s, b :: rest⟩)
    (hAgain : ¬ answersAgain i ⟨s, b :: rest⟩ (.run a)) :
    let t := (exec b a s).1
    let new := es ++ b.lineEvents a s i
    (.answer ∈ new → (t.ats i).ringing = false) ∧
      (Connected new → (t.ats i).ringing = false ∧ (t.ats i).connectPending = false) := by
  dsimp only
  obtain ⟨hRinging, hPending⟩ := exec_phase (j := i) b a hModes
  rw [hRinging, hPending]
  have hUp : .answer ∈ es → (s.line i).ringing = false := h.answered
  have hConnected : Connected es → (s.line i).ringing = false ∧ (s.line i).connectPending = false :=
    h.connected
  rcases lineEvents_cases b a s i with hNone | ⟨e, hOne, hFrom⟩ | hTyped
  · rw [hNone, List.append_nil]
    exact ⟨hUp, hConnected⟩
  · have hAnswer : .answer ∈ es ++ [e] → .answer ∈ es ∨ e = .answer := fun hMem =>
      (List.mem_append.mp hMem).imp_right fun hNew => (List.mem_singleton.mp hNew).symm
    have hSplit : Connected (es ++ [e]) → Connected es ∨ (e = .connect ∧ .answer ∈ es) := by
      intro hNew
      rcases hNew.split with hOld | ⟨hConnect, hAnswered⟩
      · exact .inl hOld
      · obtain rfl := List.mem_singleton.mp hConnect
        exact .inr ⟨rfl, hAnswered.resolve_right (by simp)⟩
    rw [hOne]
    cases e with
    | ring =>
        have hMem : .ring i ∈ b :: rest := by simp [show b = .ring i from hFrom]
        rcases h.line with ⟨_, rfl, _⟩ | ⟨hGone, _⟩
        · exact ⟨by simp, fun hNew => absurd hNew (by decide)⟩
        · exact absurd hMem hGone
    | answer =>
        refine ⟨fun _ => rfl, fun hNew => ?_⟩
        rcases hSplit hNew with hOld | ⟨hEq, _⟩
        · have hIdle : (s.line i).ringing = true := hFrom
          rw [(hConnected hOld).1] at hIdle
          cases hIdle
        · cases hEq
    | connect =>
        refine ⟨fun hNew => hUp ((hAnswer hNew).resolve_right (by simp)), fun hNew => ⟨?_, rfl⟩⟩
        rcases hSplit hNew with hOld | ⟨_, hOld⟩
        · exact (hConnected hOld).1
        · exact hUp hOld
    | onHook => exact ⟨fun _ => rfl, fun _ => ⟨rfl, rfl⟩⟩
    | purge | poll | init _ | door _ =>
        refine ⟨fun hNew => ?_, fun hNew => ?_⟩
        · simpa using hUp ((hAnswer hNew).resolve_right (by simp))
        · simpa using hConnected ((hSplit hNew).resolve_right (by simp))
    | reset keep =>
        have hFlag : .answer ∈ es → ((s.line i).next (.reset keep)).ringing = false := by
          intro hOld
          simp [Line.next, hUp hOld]
        refine ⟨fun hNew => hFlag ((hAnswer hNew).resolve_right (by simp)), fun hNew => ⟨?_, rfl⟩⟩
        have hOld := (hSplit hNew).resolve_right (by simp)
        exact hFlag (hOld.subset (by simp))
  · have hNoConnect : .connect ∉ b.lineEvents a s i := fun hMem =>
      absurd (hTyped _ hMem) (by decide)
    rcases run_typed_phase hTyped (s.line i) with ⟨hNone, hSame, hSame'⟩ | ⟨hSome, hDown, _⟩
    · rw [hSame, hSame']
      refine ⟨fun hNew => hUp ((List.mem_append.mp hNew).resolve_right hNone), fun hNew => ?_⟩
      exact hConnected (hNew.split.resolve_right fun hEq => hNoConnect hEq.1)
    · refine ⟨fun _ => hDown, fun hNew => ?_⟩
      have hOld := hConnected (hNew.split.resolve_right fun hEq => hNoConnect hEq.1)
      refine absurd ?_ hAgain
      have hPhase : (s.ats i).ringing = false ∧ (s.ats i).connectPending = false := hOld
      simp [answersAgain, hPhase, hSome]

/-- A block of the call keeps the line in step with the events of the call. -/
theorem Config.OwnLine.run (hSound : Config.Sound ⟨s, b :: rest⟩)
    (hAgain : ¬ answersAgain i ⟨s, b :: rest⟩ (.run a)) (hSock : (s.ports i).sock.isSome)
    (h : Config.OwnLine i es ⟨s, b :: rest⟩) :
    Config.OwnLine i (es ++ b.lineEvents a s i) ⟨(exec b a s).1, (exec b a s).2 ++ rest⟩ := by
  have hPhase := h.phase hSound.modes hAgain
  have hLeaves := ring_leaves hSound a hSock
  refine ⟨?_, hPhase.1, hPhase.2⟩
  show _ ∨ (_ ∧ (Line.fresh.run _).Agrees ((exec b a s).1.line i))
  rcases h.line with ⟨hMem, rfl, hClear⟩ | ⟨hGone, hAgrees⟩
  · by_cases hRing : b = .ring i
    · subst hRing
      have hEvents : Block.lineEvents (.ring i) a s i = [.ring] := if_pos rfl
      refine .inr ⟨fun hStays => (hLeaves.mp hStays).2 rfl, ?_⟩
      rw [exec_line _ a hSound.modes, hEvents]
      exact hClear.ring
    · have hNone := (ring_first hSound a hMem hRing).1
      have hSame : (exec b a s).1.line i = s.line i := by
        rw [exec_line b a hSound.modes, hNone]
        rfl
      exact .inl ⟨hLeaves.mpr ⟨hMem, hRing⟩, by rw [hNone]; rfl, hSame.symm ▸ hClear⟩
  · refine .inr ⟨fun hStays => hGone (hLeaves.mp hStays).1, ?_⟩
    rw [exec_line b a hSound.modes, Line.run_append]
    exact hAgrees.run _

/-- Along a run without such steps the line is what the events of its own call make of
it. The induction is on the record. -/
theorem ownLine_of_reached (h : Reached past c)
    (hAllowed : ∀ st ∈ past, ¬ acceptsLeftover i st.1 st.2 ∧ ¬ answersAgain i st.1 st.2)
    (hSock : (c.sys.ports i).sock = some x) : c.OwnLine i (callEvents i x past) := by
  refine h.lines (A := fun c act => ¬ acceptsLeftover i c act ∧ ¬ answersAgain i c act)
    (P := fun es c => c.OwnLine i es) ?_ ?_ ?_ ?_ hAllowed hSock
  · intro s b rest a hReach ok hAccepts hTarget hCaller hNone hSock
    have hNow : ((exec b a s).1.ports i).sock.isSome := by rw [hSock]; rfl
    have hClear : (s.line i).Clear := by
      have hNot : ¬ ((s.fossils i).purgeSeen ≠ 0 ∨ (s.ports i).dtrIgnore) := fun hSet =>
        ok.1 (by simpa [acceptsLeftover, hTarget, hCaller] using hSet)
      rw [not_or, not_not, Bool.not_eq_true] at hNot
      exact ⟨hNot.1, hNot.2⟩
    refine ⟨.inl ⟨List.mem_append_left _ (accept_rings a hTarget hNone hNow), rfl, ?_⟩,
      by simp, fun hConnected => by cases hConnected⟩
    exact (accepts_line (a := a) (j := i) hAccepts hReach.sound.modes).symm ▸ hClear
  · intro s b es hEntry ih
    refine ⟨?_, ih.answered, ih.connected⟩
    refine ih.line.elim (fun hMem => by cases hMem.1) fun hLine => .inr ⟨fun hMem => ?_, hLine.2⟩
    obtain rfl := List.mem_singleton.mp hMem
    cases hEntry
  · exact fun s b rest a es hReach ok hSock _ ih =>
      ih.run hReach.sound ok.2 (by rw [hSock]; rfl)
  · intro s t e todo es hOut ih
    have hLine := outside_line (j := i) hOut
    refine ⟨?_, fun hAnswer => ?_, fun hConnected => ?_⟩
    · show (_ ∧ _ ∧ (t.line i).Clear) ∨ (_ ∧ (Line.fresh.run es).Agrees (t.line i))
      rw [hLine]
      exact ih.line
    · exact (congrArg Line.ringing hLine).trans (ih.answered hAnswer)
    · exact ⟨(congrArg Line.ringing hLine).trans (ih.connected hConnected).1,
        (congrArg Line.connectPending hLine).trans (ih.connected hConnected).2⟩

end Steps

/-- The carrier reported during a call depends only on what has happened since the
call was accepted: it is that of a line without a past on which the events of the
call have happened, every AH=09h and AH=03h given on it among them. A call that has
been answered and given its CONNECT is reported up unless an AH=09h of its own has
armed a drop. -/
theorem carrier_of_call {i : PortIdx} {x : SockId} {past : Past} {c : Config} (h : Reached past c)
    (hAllowed : ∀ st ∈ past, ¬ acceptsLeftover i st.1 st.2 ∧ ¬ answersAgain i st.1 st.2)
    (hSock : (c.sys.ports i).sock = some x) (hStatus : c.todo.head? = some (.status i)) :
    (statusWord i c.sys &&& dcdBit ≠ 0 ↔ (Line.fresh.run (callEvents i x past)).carrier) ∧
      (Connected (callEvents i x past) → Line.fresh.armed (callEvents i x past) = false →
        statusWord i c.sys &&& dcdBit ≠ 0) := by
  have hOwn := ownLine_of_reached h hAllowed hSock
  have hSound := h.reachable.sound
  have hMode : (c.sys.ports i).mode = .conn := (hSound.modes i).mpr (by simp [hSock])
  have hRung : .ring i ∉ c.todo := by
    obtain ⟨s, todo⟩ := c
    obtain ⟨rest, rfl⟩ := List.head?_eq_some_iff.mp hStatus
    intro hMem
    rcases List.mem_cons.mp hMem with hEq | hRest
    · cases hEq
    · cases (List.pairwise_cons.mp hSound.stack).1 (.ring i) hRest
  have hAgrees := (hOwn.line.resolve_left fun hMem => hRung hMem.1).2
  have hDcd : statusWord i c.sys &&& dcdBit ≠ 0 ↔ (c.sys.line i).carrier := by
    rw [statusWord_dcd, carrier_line]
    simp [hMode, hSock]
  refine ⟨by rw [hDcd, hAgrees.carrier], fun hConnected hArm => hDcd.mpr ?_⟩
  have hUp : (c.sys.line i).ringing = false ∧ (c.sys.line i).connectPending = false :=
    hOwn.connected hConnected
  have hZero : (c.sys.line i).purgeSeen = 0 :=
    hAgrees.purgeSeen.symm.trans (Line.run_unarmed rfl hArm)
  simp [Line.carrier, hUp, hZero]

/-- A purged call is polled twice and hung up by the remote side. The next caller is
answered by raising DTR and given CONNECT, and the status is polled. -/
def purgedThenAnswered : List Move :=
  answeredCall ++
    [.outside (.ticks 200), .call (.int14 0 .purgeOutput) {}, .call (.int14 0 .status) {},
      .call (.int14 0 .status) {}, .call .int28 { closed := true },
      .outside (.arrive 0 0x0A000002 5001), .call (.mux .poll) { accepted := some 0 },
      .call (.int14 0 (.dtr 1)) {}, .outside (.ticks 40), .call (.mux .poll) {}] ++
    statusPoll ++ [.run {}]

/-- A call answered, given CONNECT and polled once, step by step. -/
theorem answeredCall_record :
    (record (answeredCall ++ statusPoll) ([], install [.listen 0 2323] true 0)).any (fun r =>
      (r.1.all fun st => !acceptsLeftover 0 st.1 st.2 && !answersAgain 0 st.1 st.2) &&
        decide ((r.2.sys.ports 0).sock = some 1) && decide (r.2.todo.head? = some (.status 0)) &&
        decide (callEvents 0 1 r.1 =
          [.ring, .init false, .reset true, .answer, .connect, .poll])) = true := by
  decide +kernel

/-- A status poll on a call that was accepted behind a hung-up one, with a drop still
armed. -/
theorem purgedThenAnswered_record :
    (record purgedThenAnswered ([], install [.listen 0 2323] true 0)).any (fun r =>
      decide ((r.2.sys.ports 0).sock = some 2) && decide (r.2.todo.head? = some (.status 0)) &&
        decide (callEvents 0 2 r.1 = [.ring, .answer, .connect, .poll]) &&
        decide (statusWord 0 r.2.sys &&& dcdBit = 0)) = true := by
  decide +kernel

/-- A run that meets the conditions, and whose poll reports carrier. -/
theorem carrier_of_call_polled : ∃ (past : Past) (c : Config), Reached past c ∧
    c.todo.head? = some (.status 0) ∧ statusWord 0 c.sys &&& dcdBit ≠ 0 := by
  obtain ⟨past, c, hReached, hp⟩ := exists_reached answeredCall_record
  simp only [Bool.and_eq_true, decide_eq_true_eq, List.all_eq_true] at hp
  obtain ⟨⟨⟨hAll, hSock⟩, hHead⟩, hEvents⟩ := hp
  refine ⟨past, c, hReached, hHead,
    (carrier_of_call hReached (fun st hst => ?_) hSock hHead).2 ?_ ?_⟩
  · simpa using hAll st hst
  · rw [hEvents]
    decide
  · rw [hEvents]
    decide

/-- The second call is answered and given its CONNECT, and reported without carrier. -/
theorem carrier_of_earlier_call : ¬ ∀ i x past c, Reached past c →
    (c.sys.ports i).sock = some x → c.todo.head? = some (.status i) →
    Connected (callEvents i x past) → Line.fresh.armed (callEvents i x past) = false →
    statusWord i c.sys &&& dcdBit ≠ 0 := by
  intro hAll
  obtain ⟨past, c, hReached, hp⟩ := exists_reached purgedThenAnswered_record
  simp only [Bool.and_eq_true, decide_eq_true_eq] at hp
  obtain ⟨⟨⟨hSock, hHead⟩, hEvents⟩, hDcd⟩ := hp
  apply hAll 0 2 past c hReached hSock hHead _ _ hDcd
  · rw [hEvents]
    decide
  · rw [hEvents]
    decide

end Vmodem
