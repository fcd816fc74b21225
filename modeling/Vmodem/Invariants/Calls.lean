import Vmodem.Invariants.Past
import Vmodem.Invariants.Decisions

/-! The history of one call: the events of its line since it was accepted, and the
induction by which facts about calls are proved. -/

namespace Vmodem

/-- What has happened to the line of a port during its present call. -/
def callEvents (i : PortIdx) (x : SockId) (past : Past) : List LineEvent :=
  lineEvents i (callPast i x past)

/-- The call has been answered and CONNECT given. -/
def Connected (es : List LineEvent) : Prop := [.answer, .connect].Sublist es

instance Connected.decidable (es : List LineEvent) : Decidable (Connected es) :=
  inferInstanceAs (Decidable ([.answer, .connect].Sublist es))

/-- Where CONNECT has come by the end of a record, it came in the first part of the
record, or it stands in the second with an answer before it in either. -/
theorem Connected.split {es fs : List LineEvent} (h : Connected (es ++ fs)) :
    Connected es ∨ (.connect ∈ fs ∧ (.answer ∈ es ∨ .answer ∈ fs)) := by
  obtain ⟨front, back, hEq, hFront, hBack⟩ := List.sublist_append_iff.mp h
  cases front with
  | nil =>
      obtain rfl : [.answer, .connect] = back := hEq
      have hBoth := hBack.subset
      exact .inr ⟨hBoth (by simp), .inr (hBoth (by simp))⟩
  | cons e front =>
      cases front with
      | nil =>
          obtain ⟨rfl, rfl⟩ : .answer = e ∧ [.connect] = back := by simpa using hEq
          exact .inr ⟨hBack.subset (by simp), .inl (hFront.subset (by simp))⟩
      | cons e' front =>
          obtain ⟨rfl, rfl, hNil⟩ : .answer = e ∧ .connect = e' ∧ front = [] ∧ back = [] := by
            simpa using hEq
          obtain ⟨rfl, rfl⟩ := hNil
          exact .inl hFront

/-- ATO or ATA answers a call that is up once more. -/
def answersAgain (i : PortIdx) (c : Config) : Action → Bool
  | .run a =>
      !(c.sys.ats i).ringing && !(c.sys.ats i).connectPending &&
        c.todo.head?.any fun b => decide (.answer ∈ b.lineEvents a c.sys i)
  | _ => false

/-- The circumstances of a line event that is not typed at the interpreter. -/
def LineEvent.From (b : Block) (a : Answer) (s : Sys) (j : PortIdx) : LineEvent → Prop
  | .ring => b = .ring j
  | .answer => (s.ats j).ringing
  | .connect => b = .checkRing j ∧ (s.ats j).connectPending
  | .onHook =>
      (b = .checkRing j ∧ ringEvents j s = [.onHook]) ∨ ((exec b a s).1.ports j).sock = none
  | .purge => b = .int14 j .purgeOutput
  | .poll => b = .purgeStatus j
  | .door _ => False
  | .init _ => b = .int14 j .init
  | .reset keep =>
      b = .initFinish j ∧ keep = ((callSock j s).isSome && decide ((s.ports j).pendingClose = 0))

/-- The line events a command line may contain. -/
def LineEvent.typed : LineEvent → Bool
  | .door _ | .answer => true
  | _ => false

section Sources

variable {b : Block} {a : Answer} {s : Sys} {i j : PortIdx}

/-- A command does nothing to a line but what may be typed. -/
theorem commandEvents_typed {cmd : Nat → UInt8} {len k : Nat} :
    ∀ e ∈ commandEvents i j cmd len k s, e.typed := by
  unfold commandEvents
  by_cases hBlank : cmd k = 0x20
  · simp [hBlank]
  by_cases hAmpersand : cmd k = 0x26
  · rw [if_neg hBlank, if_pos hAmpersand]
    split
    next => simp
    next => split_ifs <;> simp [LineEvent.typed]
  by_cases hSkipped : cmd k = 0x5C ∨ cmd k = 0x25
  · simp [hBlank, hAmpersand, hSkipped]
  rw [if_neg hBlank, if_neg hAmpersand, if_neg hSkipped]
  cases atVerb (cmd k) with
  | reset =>
      dsimp only
      split_ifs <;> simp [LineEvent.typed]
  | online | answer =>
      dsimp only
      split_ifs <;> simp [LineEvent.typed]
  | _ => simp

/-- A command line does nothing to a line but what may be typed. The induction is on the
commands left. -/
theorem loopEvents_typed {cmd : Nat → UInt8} {len : Nat} (fuel k : Nat) (s : Sys) :
    ∀ e ∈ loopEvents i j cmd len fuel k s, e.typed := by
  induction fuel generalizing k s with
  | zero => simp [loopEvents]
  | succ fuel ih =>
      intro e he
      unfold loopEvents at he
      split_ifs at he
      · rcases List.mem_append.mp he with hCommand | hRest
        · exact commandEvents_typed e hCommand
        · cases hNext : atCommand i cmd len k s with
          | next k' s' =>
              rw [hNext] at hRest
              exact ih k' s' e hRest
          | stop s' | hangup s' =>
              rw [hNext] at hRest
              cases hRest
      · cases he

/-- A byte written on a port does nothing to a line but what may be typed. -/
theorem inputEvents_typed (v : UInt8) : ∀ e ∈ inputEvents i j v s, e.typed := by
  intro e he
  unfold inputEvents editEvents executeEvents at he
  extract_lets echoed terminated cmd len k at he
  split_ifs at he
  all_goals first | cases he | exact loopEvents_typed _ _ _ e he

/-- The ring check does one thing to its line at most. -/
theorem ringEvents_cases : ringEvents i s = [] ∨ ∃ e, ringEvents i s = [e] ∧
    e.From (.checkRing i) a s i := by
  by_cases hGiveUp : ringEvents i s = [.onHook]
  · exact .inr ⟨.onHook, hGiveUp, .inl ⟨rfl, hGiveUp⟩⟩
  · unfold ringEvents at hGiveUp ⊢
    dsimp only at hGiveUp ⊢
    split_ifs with hPending _ hRinging
    · exact .inr ⟨.connect, rfl, rfl, hPending⟩
    · exact .inl rfl
    · exact .inl rfl
    · exact .inl rfl
    · exact .inr ⟨.answer, rfl, by simpa [LineEvent.From] using hRinging⟩
    · simp_all
    · exact .inl rfl

/-- NO CARRIER and the return to the idle mode leave a port without a call as it is. -/
theorem hungUp_sock {t : Sys} (h : (t.ports i).sock = none) :
    ((enterIdleMode i (atSendNoCarrier i t)).ports i).sock = none := by
  have hSame := ((atSendNoCarrier_quiet i t).port i).sock
  simpa [enterIdleMode] using hSame.trans h

/-- A block has no events for a line, or one of its own, or those of a command
line. -/
theorem lineEvents_cases (b : Block) (a : Answer) (s : Sys) (j : PortIdx) :
    b.lineEvents a s j = [] ∨ (∃ e, b.lineEvents a s j = [e] ∧ e.From b a s j) ∨
      ∀ e ∈ b.lineEvents a s j, e.typed := by
  cases b with
  | int14 i f =>
      show (if (s.ports i).initialized then fossilEvents i f j s else []) = [] ∨
        (∃ e, (if (s.ports i).initialized then fossilEvents i f j s else []) = [e] ∧ _) ∨
        ∀ e ∈ (if (s.ports i).initialized then fossilEvents i f j s else []), e.typed
      split_ifs with hInit
      · cases f with
        | transmit v | transmitNoWait v => exact .inr (.inr (inputEvents_typed v))
        | init =>
            simp only [fossilEvents_init, initEvents]
            split_ifs with hj
            · exact .inr (.inl ⟨_, rfl, hj ▸ rfl⟩)
            · exact .inr (.inl ⟨_, rfl, hj ▸ rfl⟩)
            · exact .inl rfl
            · exact .inl rfl
        | dtr al =>
            simp only [fossilEvents_dtr, dtrEvents]
            split_ifs with hj hRinging
            · exact .inr (.inl ⟨_, rfl, hj ▸ hRinging.2.1⟩)
            · exact .inl rfl
            · exact .inl rfl
        | purgeOutput =>
            simp only [fossilEvents_purgeOutput, purgeEvents]
            split_ifs with hj
            · exact .inr (.inl ⟨_, rfl, hj ▸ rfl⟩)
            · exact .inl rfl
            · exact .inl rfl
        | _ => exact .inl rfl
      · exact .inl rfl
  | ring i =>
      by_cases hj : i = j
      · exact .inr (.inl ⟨.ring, if_pos hj, congrArg _ hj⟩)
      · exact .inl (if_neg hj)
  | checkRing i =>
      by_cases hj : i = j
      · subst hj
        have hEvents : Block.lineEvents (.checkRing i) a s i = ringEvents i s := if_pos rfl
        rw [hEvents]
        exact (ringEvents_cases (a := a)).imp_right .inl
      · exact .inl (if_neg hj)
  | pollClose i silent =>
      by_cases hj : i = j ∧ silent = false
      · obtain ⟨rfl, rfl⟩ := hj
        exact .inr (.inl ⟨.onHook, if_pos ⟨rfl, rfl⟩, .inr (hungUp_sock (by simp))⟩)
      · exact .inl (if_neg hj)
  | idleClose i =>
      by_cases hj : i = j
      · subst hj
        exact .inr (.inl ⟨.onHook, if_pos rfl, .inr (hungUp_sock (by simp))⟩)
      · exact .inl (if_neg hj)
  | disconnected i now =>
      by_cases hj : i = j ∧ detectsEnd i now a s
      · obtain ⟨rfl, hEnd⟩ := hj
        refine .inr (.inl ⟨.onHook, if_pos ⟨rfl, hEnd⟩, .inr ?_⟩)
        show ((pollDisconnected i now a s).ports i).sock = none
        unfold detectsEnd at hEnd
        unfold pollDisconnected
        cases hSock : (s.ports i).sock with
        | none => exact hSock
        | some x =>
            rw [hSock, Option.any_some] at hEnd
            dsimp only
            rw [if_pos hEnd]
            exact hungUp_sock (by simp)
      · exact .inl (if_neg hj)
  | purgeStatus i =>
      by_cases hj : i = j ∧ (callSock i s).isSome
      · obtain ⟨rfl, hCall⟩ := hj
        exact .inr (.inl ⟨.poll, if_pos ⟨rfl, hCall⟩, rfl⟩)
      · exact .inl (if_neg hj)
  | initFinish i =>
      by_cases hj : i = j
      · subst hj
        exact .inr (.inl ⟨_, if_pos rfl, rfl, rfl⟩)
      · exact .inl (if_neg hj)
  | _ => exact .inl rfl

end Sources

section Induction

variable {i : PortIdx} {x : SockId}

variable {A : Config → Action → Prop}

/-- Induction over the history of a call. It starts with the call being accepted, and
every step leaves it on its port. -/
theorem Reached.calls {P : Past → Config → Prop}
    (accept : ∀ s b rest a, Reachable ⟨s, b :: rest⟩ → A ⟨s, b :: rest⟩ (.run a) → b.accepts →
      b.target s = some i → (s.net.accept a.accepted).isSome → (s.ports i).sock = none →
      ((exec b a s).1.ports i).sock = some x → P [] ⟨(exec b a s).1, (exec b a s).2 ++ rest⟩)
    (call : ∀ s b p, b.entry → P p ⟨s, []⟩ → P ((⟨s, []⟩, .call b) :: p) ⟨s, [b]⟩)
    (run : ∀ s b rest a p, Reachable ⟨s, b :: rest⟩ → A ⟨s, b :: rest⟩ (.run a) →
      (s.ports i).sock = some x → ((exec b a s).1.ports i).sock = some x → P p ⟨s, b :: rest⟩ →
      P ((⟨s, b :: rest⟩, .run a) :: p) ⟨(exec b a s).1, (exec b a s).2 ++ rest⟩)
    (out : ∀ s t e todo p, A ⟨s, todo⟩ (.outside e) → outside e s = some t → P p ⟨s, todo⟩ →
      P ((⟨s, todo⟩, .outside e) :: p) ⟨t, todo⟩)
    {past : Past} {c : Config} (h : Reached past c) (hAllowed : ∀ st ∈ past, A st.1 st.2)
    (hSock : (c.sys.ports i).sock = some x) : P (callPast i x past) c := by
  revert hSock
  refine h.induct (A := A) (P := fun past c => (c.sys.ports i).sock = some x →
    P (callPast i x past) c)
    ?_ ?_ ?_ ?_ hAllowed
  · intro args eager tick hSock
    simp [install, Sys.zero, PortState.zero] at hSock
  · intro past s b _ _ hEntry ih hSock
    rw [callPast_on (by exact hSock)]
    exact call s b _ hEntry (ih hSock)
  · intro past s b rest a hReach ok ih hSock
    rcases hReach.call_cases a hSock with hOld | ⟨hAccepts, hTarget, hCaller, hNone, hFresh⟩
    · rw [callPast_on (by exact hOld)]
      exact run s b rest a _ hReach.reachable ok hOld hSock (ih hOld)
    · have hOff : ((⟨s, b :: rest⟩ : Config).sys.ports i).sock ≠ some x := by simp [hNone]
      rw [callPast_off hOff, hFresh]
      exact accept s b rest a hReach.reachable ok hAccepts hTarget hCaller hNone hSock
  · intro past s t e todo _ ok hOut ih hSock
    have hOld : (s.ports i).sock = some x := outside_ports hOut ▸ hSock
    rw [callPast_on (by exact hOld)]
    exact out s t e todo _ ok hOut (ih hOld)

/-- The same for properties of the events of a call. -/
theorem Reached.lines {P : List LineEvent → Config → Prop}
    (accept : ∀ s b rest a, Reachable ⟨s, b :: rest⟩ → A ⟨s, b :: rest⟩ (.run a) → b.accepts →
      b.target s = some i → (s.net.accept a.accepted).isSome → (s.ports i).sock = none →
      ((exec b a s).1.ports i).sock = some x → P [] ⟨(exec b a s).1, (exec b a s).2 ++ rest⟩)
    (call : ∀ s b es, b.entry → P es ⟨s, []⟩ → P es ⟨s, [b]⟩)
    (run : ∀ s b rest a es, Reachable ⟨s, b :: rest⟩ → A ⟨s, b :: rest⟩ (.run a) →
      (s.ports i).sock = some x → ((exec b a s).1.ports i).sock = some x → P es ⟨s, b :: rest⟩ →
      P (es ++ b.lineEvents a s i) ⟨(exec b a s).1, (exec b a s).2 ++ rest⟩)
    (out : ∀ s t e todo es, outside e s = some t → P es ⟨s, todo⟩ → P es ⟨t, todo⟩)
    {past : Past} {c : Config} (h : Reached past c) (hAllowed : ∀ st ∈ past, A st.1 st.2)
    (hSock : (c.sys.ports i).sock = some x) : P (callEvents i x past) c := by
  refine h.calls (A := A) (P := fun p c => P (lineEvents i p) c) accept ?_ ?_ ?_ hAllowed hSock
  · intro s b p hEntry ih
    rw [lineEvents_cons]
    simpa [stepEvents] using call s b _ hEntry ih
  · intro s b rest a p hReach ok hOld hNow ih
    rw [lineEvents_cons]
    exact run s b rest a _ hReach ok hOld hNow ih
  · intro s t e todo p _ hOut ih
    rw [lineEvents_cons]
    simpa [stepEvents] using out s t e todo _ hOut ih

end Induction

section Announcements

variable {s : Sys} {b : Block} {rest : List Block} {i : PortIdx}

/-- A call is announced once: while it lasts the RING on the stack can only be
executed, not put there. -/
theorem ring_leaves (hSound : Config.Sound ⟨s, b :: rest⟩) (a : Answer)
    (hSock : (s.ports i).sock.isSome) :
    .ring i ∈ (exec b a s).2 ++ rest ↔ .ring i ∈ b :: rest ∧ b ≠ .ring i := by
  have hAbove := (List.pairwise_cons.mp hSound.stack).1
  have hNew : .ring i ∉ (exec b a s).2 := by
    intro hMem
    have hNone := b.target_sock (exec_ring_target hMem) hSound.idle
    simp [hNone] at hSock
  rw [List.mem_append, or_iff_right hNew, List.mem_cons]
  constructor
  · intro hRest
    refine ⟨.inr hRest, fun hb => ?_⟩
    have hRaw : b.isRaw := hAbove (.ring i) hRest
    rw [hb] at hRaw
    cases hRaw
  · rintro ⟨hb | hRest, hNe⟩
    · exact absurd hb.symm hNe
    · exact hRest

/-- Before its RING nothing happens to the line of a call. -/
theorem ring_first (hSound : Config.Sound ⟨s, b :: rest⟩) (a : Answer) (hMem : .ring i ∈ b :: rest)
    (hNe : b ≠ .ring i) : b.lineEvents a s i = [] ∧ (exec b a s).2 = [] := by
  have hRest : .ring i ∈ rest := (List.mem_cons.mp hMem).resolve_left fun hb => hNe hb.symm
  have hRaw : b.isRaw := (List.pairwise_cons.mp hSound.stack).1 (.ring i) hRest
  exact ⟨(exec_raw hRaw).2 i, (exec_raw hRaw).1⟩

/-- A port that has got a call has been through `acceptCall`. -/
theorem accept_cases (a : Answer) (hTarget : b.target s = some i) (hNone : (s.ports i).sock = none)
    (hSock : ((exec b a s).1.ports i).sock.isSome) : ∃ x u, exec b a s = acceptCall i x u := by
  cases b with
  | hunt g =>
      have hSock : ((pollHunt g a s).1.ports i).sock.isSome := hSock
      show ∃ x u, pollHunt g a s = acceptCall i x u
      unfold pollHunt at hSock ⊢
      simp only [Block.target] at hTarget
      split_ifs at hTarget with hOpen
      rw [if_pos hOpen] at hSock ⊢
      cases hAccept : s.net.accept a.accepted with
      | none => simp [hAccept, hNone] at hSock
      | some pair => simp [hTarget]
  | port k =>
      have hSock : ((pollPort k a s).1.ports i).sock.isSome := hSock
      show ∃ x u, pollPort k a s = acceptCall i x u
      unfold pollPort at hSock ⊢
      simp only [Block.target] at hTarget
      split_ifs at hTarget with hOpen
      obtain rfl := Option.some.inj hTarget
      rw [if_pos hOpen.1, hOpen.2.1] at hSock ⊢
      simp only [hOpen.2.2, Option.isSome_none, Bool.false_eq_true, ↓reduceIte] at hSock ⊢
      cases hAccept : s.net.accept a.accepted with
      | none => simp [hAccept, hNone] at hSock
      | some pair => exact ⟨_, _, rfl⟩
  | _ => cases hTarget

/-- The RING of an accepted call is on the stack. -/
theorem accept_rings (a : Answer) (hTarget : b.target s = some i) (hNone : (s.ports i).sock = none)
    (hSock : ((exec b a s).1.ports i).sock.isSome) : .ring i ∈ (exec b a s).2 := by
  obtain ⟨x, u, hAccept⟩ := accept_cases a hTarget hNone hSock
  simp [hAccept, acceptCall_snd]

end Announcements

section Counter

variable {b : Block} {a : Answer} {s : Sys} {rest : List Block} {i j : PortIdx}

/-- Nothing that happens outside the driver reaches a line. -/
theorem outside_line {t : Sys} {e : Outside} (h : outside e s = some t) : t.line j = s.line j := by
  rcases outside_cases h with ⟨tick, rfl⟩ | ⟨port, host, remote, rfl⟩ | ⟨y, bs, _, rfl⟩ <;> rfl

/-- Nothing that is typed touches the count of status polls behind AH=09h. -/
theorem run_typed {es : List LineEvent} (h : ∀ e ∈ es, e.typed) (l : Line) :
    (l.run es).purgeSeen = l.purgeSeen := by
  induction es generalizing l with
  | nil => rfl
  | cons e es ih =>
      rw [Line.run_cons, ih fun e he => h e (List.mem_cons_of_mem _ he)]
      have hTyped := h e List.mem_cons_self
      cases e with
      | door _ | answer => rfl
      | _ => cases hTyped

/-- A command line leaves ringing and pending alone, or it has answered. -/
theorem run_typed_phase {es : List LineEvent} (h : ∀ e ∈ es, e.typed) (l : Line) :
    (.answer ∉ es ∧ (l.run es).ringing = l.ringing ∧ (l.run es).connectPending = l.connectPending) ∨
      (.answer ∈ es ∧ (l.run es).ringing = false ∧ (l.run es).connectPending = true) := by
  induction es generalizing l with
  | nil => exact .inl ⟨List.not_mem_nil, rfl, rfl⟩
  | cons e es ih =>
      have hTyped := h e List.mem_cons_self
      rw [Line.run_cons]
      rcases ih (fun e he => h e (List.mem_cons_of_mem _ he)) (l.next e) with
        ⟨hNone, hRinging, hPending⟩ | ⟨hAnswer, hRinging, hPending⟩
      · cases e with
        | door ignore => exact .inl ⟨by simp [hNone], hRinging, hPending⟩
        | answer => exact .inr ⟨by simp, hRinging, hPending⟩
        | _ => cases hTyped
      · exact .inr ⟨List.mem_cons_of_mem _ hAnswer, hRinging, hPending⟩

/-- A line on which AH=09h is not given has no drop armed. -/
theorem Line.armed_of_not_mem {es : List LineEvent} (h : .purge ∉ es) (l : Line) :
    l.armed es = false := by
  induction es generalizing l with
  | nil => rfl
  | cons e es ih =>
      rw [List.mem_cons, not_or] at h
      have hFirst : l.arms e = false := by
        cases e with
        | purge => exact absurd rfl h.1
        | _ => rfl
      exact Bool.or_eq_false_iff.mpr ⟨hFirst, ih h.2 _⟩

/-- Nothing is counted on a line that is not armed. -/
theorem purgeSeen_unarmed (hModes : s.ModesAgree) (hZero : (s.fossils j).purgeSeen = 0)
    (hArm : (s.line j).armed (b.lineEvents a s j) = false) :
    ((exec b a s).1.fossils j).purgeSeen = 0 :=
  (congrArg Line.purgeSeen (exec_line b a hModes)).trans (Line.run_unarmed hZero hArm)

/-- The purge counter is armed by AH=09h, counted by AH=03h and cleared by AH=04h. -/
theorem purgeSeen_cases (b : Block) (a : Answer) (hModes : s.ModesAgree) :
    ((exec b a s).1.fossils j).purgeSeen = (s.fossils j).purgeSeen ∨
      (b = .int14 j .purgeOutput ∧ (s.fossils j).purgeSeen < 3 ∧
        ((exec b a s).1.fossils j).purgeSeen = 1) ∨
      (b = .purgeStatus j ∧ (s.fossils j).purgeSeen ≠ 0 ∧
        ((exec b a s).1.fossils j).purgeSeen = (s.fossils j).purgeSeen + 1) ∨
      (b = .initFinish j ∧ ((exec b a s).1.fossils j).purgeSeen = 0) := by
  have hLine : ((exec b a s).1.fossils j).purgeSeen =
      ((s.line j).run (b.lineEvents a s j)).purgeSeen :=
        congrArg Line.purgeSeen (exec_line b a hModes)
  rw [hLine]
  rcases lineEvents_cases b a s j with hNone | ⟨e, hOne, hFrom⟩ | hTyped
  · rw [hNone]
    exact .inl rfl
  · rw [hOne, Line.run_cons, Line.run_nil]
    cases e with
    | purge =>
        rw [Line.next_purge]
        split_ifs with hArm
        · simp only [Line.arms, Bool.and_eq_true, decide_eq_true_eq] at hArm
          exact .inr (.inl ⟨hFrom, hArm.1, rfl⟩)
        · exact .inl rfl
    | poll =>
        rw [Line.next_poll]
        split_ifs with hPoll
        · exact .inr (.inr (.inl ⟨hFrom, hPoll.1, rfl⟩))
        · exact .inl rfl
    | init closing => exact .inl (Line.next_init_purgeSeen _ _)
    | reset keep => exact .inr (.inr (.inr ⟨hFrom.1, rfl⟩))
    | _ => exact .inl rfl
  · exact .inl (run_typed hTyped _)

/-- The end of AH=04h comes from its beginning. -/
theorem exec_initFinish (h : .initFinish i ∈ (exec b a s).2) : b = .int14 i .init := by
  rcases (exec_pushed a s b).mem h with hPlain | ⟨j, _, hEq⟩ | ⟨j, silent, _, hEq⟩ |
    ⟨j, hInit, hEq | hEq⟩ | ⟨j, x, tmp, drop, hEq, _⟩
  · cases hPlain
  · cases hEq
  · cases hEq
  · cases hEq
  · rw [hInit, Block.initFinish.inj hEq]
  · cases hEq

end Counter

end Vmodem
