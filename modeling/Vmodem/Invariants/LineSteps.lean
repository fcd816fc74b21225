import Vmodem.Invariants.Line

/-! The driver keeps to the line events of its blocks. The interpreter is followed
command by command, and every other block through the registers it writes. -/

namespace Vmodem

section Updates

variable {i j : PortIdx} {s t : Sys}

/-- The line of a port is read off its registers. -/
theorem line_congr (h : t.registers j = s.registers j) : t.line j = s.line j :=
  congrArg Registers.line h

@[simp] theorem log_line (e : Event) : (s.log e).line j = s.line j := rfl

/-- A setting of the AT layer. -/
theorem setting_line (f : AtState → AtState)
    (h : ∀ m, (f m).ringing = m.ringing ∧ (f m).connectPending = m.connectPending) :
    (s.modAt i f).line j = s.line j := by
  by_cases hj : j = i <;> simp [Sys.line, Registers.line, Sys.registers, hj, h]

/-- A write to a port that leaves AT&D alone is no event of a line. -/
theorem modPort_line (f : PortState → PortState)
    (h : ∀ p, (f p).dtrIgnore = p.dtrIgnore) :
    (s.modPort i f).line j = s.line j := by
  by_cases hj : j = i <;> simp [Sys.line, Registers.line, Sys.registers, hj, h]

/-- A write to one interpreter does not reach the line of another port. -/
theorem modAt_line_of_ne (f : AtState → AtState) (hj : i ≠ j) : (s.modAt i f).line j = s.line j :=
  line_congr (modAt_registers_of_ne f fun h => hj h.symm)

/-- A write to one port does not reach the line of another. -/
theorem modPort_line_of_ne (f : PortState → PortState) (hj : i ≠ j) :
    (s.modPort i f).line j = s.line j :=
  line_congr (modPort_registers_of_ne f fun h => hj h.symm)

/-- A result code is no event of a line. -/
@[simp] theorem atResult_line (verbose numeric : String) :
    (atResult i verbose numeric s).line j = s.line j :=
  line_congr (atResult_registers _ _)

@[simp] theorem atRespond_line (text : List UInt8) : (atRespond i text s).line j = s.line j :=
  line_congr (atRespond_registers _)

/-- ATA and ATO answer the line of their own port. -/
theorem atSendConnect_line : (atSendConnect i s).line j =
    (s.line j).run (if i = j then [.answer] else []) := by
  by_cases hj : i = j
  · subst hj
    simp [atSendConnect, Sys.line, Registers.line, Sys.registers, Line.next]
  · rw [if_neg hj]
    exact modAt_line_of_ne _ hj

/-- NO CARRIER puts the line of its own port on hook. -/
theorem atSendNoCarrier_line : (atSendNoCarrier i s).line j =
    (s.line j).run (if i = j then [.onHook] else []) := by
  unfold atSendNoCarrier atNoCarrier
  rw [atResult_line]
  by_cases hj : i = j
  · subst hj
    simp [Sys.line, Registers.line, Sys.registers, Line.next]
  · rw [if_neg hj]
    exact modAt_line_of_ne _ hj

end Updates

section Commands

variable (i j : PortIdx) (cmd : Nat → UInt8) (len k : Nat) (s : Sys)

/-- AT&D is an event of every line: it goes over all ports. Other ampersand commands are
none. -/
theorem atAmpersand_line : (atAmpersand cmd len k s).sys.line j = (s.line j).run
    (match peek cmd len (k + 1) with
      | none => []
      | some sub =>
          if sub = 0x44 ∨ sub = 0x64 then [.door (readNumber cmd len len (k + 2) 0 = 0)]
            else []) := by
  unfold atAmpersand
  cases peek cmd len (k + 1) with
  | none => rfl
  | some sub =>
      dsimp only [AtStep.sys]
      split_ifs <;> rfl

/-- ATZ takes back AT&D0 on its own port only. -/
theorem atReset_line : (atReset i s).sys.line j =
    (s.line j).run (if i = j then [.door false] else []) := by
  unfold atReset
  extract_lets first second third
  have hFirst : first.line j = s.line j := setting_line _ fun _ => ⟨rfl, rfl⟩
  have hThird : third.line j = second.line j := by
    unfold third
    split_ifs
    · exact line_congr cmdDisconnect_registers
    · rfl
  have hAll : (AtStep.stop (atOk i third)).sys.line j = second.line j :=
    (line_congr atOk_registers).trans hThird
  rw [hAll, ← hFirst]
  by_cases hj : i = j
  · subst hj
    simp [second, Sys.line, Registers.line, Sys.registers, Line.next]
  · rw [if_neg hj]
    exact modPort_line_of_ne _ hj

theorem atEcho_line : (atEcho i cmd len k s).sys.line j = s.line j := by
  unfold atEcho
  split_ifs
  all_goals
    simp only [AtStep.sys]
    exact setting_line _ fun _ => ⟨rfl, rfl⟩

theorem atQuiet_line : (atQuiet i cmd len k s).sys.line j = s.line j := by
  unfold atQuiet
  split_ifs
  all_goals
    simp only [AtStep.sys]
    exact setting_line _ fun _ => ⟨rfl, rfl⟩

theorem atVerbose_line : (atVerbose i cmd len k s).sys.line j = s.line j := by
  unfold atVerbose
  split_ifs
  all_goals
    simp only [AtStep.sys]
    exact setting_line _ fun _ => ⟨rfl, rfl⟩

/-- ATH itself leaves the line alone; without a call there is nothing to clear. -/
theorem atHangup_line : (atHangup i cmd len k s).sys.line j = s.line j := by
  unfold atHangup
  extract_lets first
  have hFirst : first.line j = s.line j := setting_line _ fun _ => ⟨rfl, rfl⟩
  split_ifs with hRinging
  · exact hFirst
  · exact hFirst
  · simp only [AtStep.sys]
    refine Eq.trans ?_ hFirst
    by_cases hj : i = j
    · subst hj
      have hIdle : (first.ats i).ringing = false := by simpa using hRinging
      simp [Sys.line, Registers.line, Sys.registers, hIdle]
    · exact modAt_line_of_ne _ hj

/-- ATO answers a connected port and does nothing on another. -/
theorem atOnline_line : (atOnline i s).sys.line j =
    (s.line j).run (if i = j ∧ (s.ports i).mode = .conn then [.answer] else []) := by
  unfold atOnline
  extract_lets first
  have hFirst : first.line j = s.line j := setting_line _ fun _ => ⟨rfl, rfl⟩
  split_ifs with hConn hBoth hBoth
  · exact atSendConnect_line.trans (by rw [if_pos hBoth.1, hFirst])
  · exact atSendConnect_line.trans (by rw [if_neg fun hj => hBoth ⟨hj, hConn⟩, hFirst])
  · exact absurd hBoth.2 hConn
  · exact (line_congr atNoCarrier_registers).trans hFirst

/-- ATA answers a connected port and does nothing on another. -/
theorem atAnswer_line : (atAnswer i s).sys.line j =
    (s.line j).run (if i = j ∧ (s.ports i).mode = .conn then [.answer] else []) := by
  unfold atAnswer
  split_ifs with hConn hBoth hBoth
  · refine atSendConnect_line.trans ?_
    obtain rfl := hBoth.1
    rw [if_pos rfl]
    simp [Sys.line, Registers.line, Sys.registers, Line.next]
  · have hj : i ≠ j := fun hj => hBoth ⟨hj, hConn⟩
    exact atSendConnect_line.trans (by rw [if_neg hj, modAt_line_of_ne _ hj])
  · exact absurd hBoth.2 hConn
  · exact line_congr atNoCarrier_registers

theorem atRegister_line : (atRegister i cmd len k s).sys.line j = s.line j := by
  unfold atRegister
  extract_lets reg k val set
  split_ifs
  · show set.line j = _
    unfold set
    split_ifs
    · exact setting_line _ fun _ => ⟨rfl, rfl⟩
    · exact modPort_line _ fun _ => rfl
    · rfl
  · exact atRespond_line _
  · rfl

/-- A command does to a line what its events say. One case for each command. -/
theorem atCommand_line : (atCommand i cmd len k s).sys.line j =
    (s.line j).run (commandEvents i j cmd len k s) := by
  unfold atCommand commandEvents
  by_cases hBlank : cmd k = 0x20
  · rw [if_pos hBlank, if_pos hBlank]
    rfl
  rw [if_neg hBlank, if_neg hBlank]
  by_cases hAmpersand : cmd k = 0x26
  · rw [if_pos hAmpersand, if_pos hAmpersand]
    exact atAmpersand_line j cmd len k s
  rw [if_neg hAmpersand, if_neg hAmpersand]
  by_cases hBackslash : cmd k = 0x5C ∨ cmd k = 0x25
  · rw [if_pos hBackslash, if_pos hBackslash]
    unfold atBackslash
    cases peek cmd len (k + 1) <;> rfl
  rw [if_neg hBackslash, if_neg hBackslash]
  cases atVerb (cmd k) with
  | reset => exact atReset_line i j s
  | echo => exact atEcho_line i j cmd len k s
  | quiet => exact atQuiet_line i j cmd len k s
  | verbose => exact atVerbose_line i j cmd len k s
  | hangup => exact atHangup_line i j cmd len k s
  | online => exact atOnline_line i j s
  | answer => exact atAnswer_line i j s
  | register => exact atRegister_line i j cmd len k s
  | dial => exact atResult_line _ _
  | identify => exact atRespond_line _
  | parameter | other => rfl

/-- A command line, by induction on the rounds of the loop. -/
theorem atLoop_line (fuel : Nat) : (atLoop i cmd len fuel k s).1.line j =
    (s.line j).run (loopEvents i j cmd len fuel k s) := by
  induction fuel generalizing k s with
  | zero => rfl
  | succ fuel ih =>
      have hStep := atCommand_line i j cmd len k s
      unfold atLoop loopEvents
      split_ifs
      · rw [Line.run_append, ← hStep]
        cases atCommand i cmd len k s with
        | next k' s' => exact ih k' s'
        | stop s' | hangup s' => rfl
      · exact atResult_line _ _

end Commands

section Input

variable (i j : PortIdx) (s : Sys)

/-- A command line does to a line what its commands do, one after the other. -/
theorem atExecute_line : (atExecute i s).1.line j = (s.line j).run (executeEvents i j s) := by
  unfold atExecute executeEvents
  extract_lets cmd len k
  split_ifs
  · exact atResult_line _ _
  · exact atResult_line _ _
  · exact atResult_line _ _
  · exact atResult_line _ _
  · exact atLoop_line i j cmd len (k + 2) s (len + 1)

/-- In data mode the interpreter only counts '+'. -/
theorem atEscape_line (b : UInt8) : (atEscape i b s).1.line j = s.line j := by
  unfold atEscape
  extract_lets counted
  have hCounted : counted.line j = s.line j := setting_line _ fun _ => ⟨rfl, rfl⟩
  split_ifs
  all_goals dsimp only
  · exact setting_line _ fun _ => ⟨rfl, rfl⟩
  · refine (atResult_line _ _).trans (Eq.trans ?_ hCounted)
    exact setting_line _ fun _ => ⟨rfl, rfl⟩
  · exact hCounted
  · exact setting_line _ fun _ => ⟨rfl, rfl⟩

/-- A byte of a command line does something only where it ends the line. -/
theorem atEdit_line (b : UInt8) :
    (atEdit i b s).1.line j = (s.line j).run (editEvents i j b s) := by
  unfold atEdit editEvents
  extract_lets echoed terminated result
  have hEchoed : echoed.line j = s.line j := by
    unfold echoed
    split_ifs
    · exact line_congr (atSendStr_registers _)
    · rfl
  have hTerminated : terminated.line j = s.line j := by
    refine Eq.trans ?_ hEchoed
    exact setting_line _ fun _ => ⟨rfl, rfl⟩
  by_cases hReturn : b = 0x0D
  · have hResult : result.1.line j = (s.line j).run
        (if b = 0x0D ∧ 0 < (terminated.ats i).pos then executeEvents i j terminated else []) := by
      rw [← hTerminated]
      unfold result
      by_cases hPos : 0 < (terminated.ats i).pos
      · rw [if_pos hPos, if_pos ⟨hReturn, hPos⟩]
        exact atExecute_line i j terminated
      · rw [if_neg hPos, if_neg fun h => hPos h.2]
        rfl
    simp only [if_pos hReturn]
    refine Eq.trans ?_ hResult
    exact setting_line _ fun _ => ⟨rfl, rfl⟩
  · have hNone : ¬ (b = 0x0D ∧ 0 < (terminated.ats i).pos) := fun h => hReturn h.1
    rw [if_neg hReturn, if_neg hNone]
    split_ifs
    all_goals dsimp only
    · refine Eq.trans ?_ hEchoed
      exact setting_line _ fun _ => ⟨rfl, rfl⟩
    · exact hEchoed
    · refine Eq.trans ?_ hEchoed
      exact setting_line _ fun _ => ⟨rfl, rfl⟩
    · exact hEchoed

/-- A byte written on a port, by the state of its interpreter: escape, edit or pass. -/
theorem atInput_line (b : UInt8) : (atInput i b s).1.line j =
    (s.line j).run (inputEvents i j b s) := by
  unfold atInput inputEvents
  by_cases hData : dataMode i s
  · rw [if_pos hData, if_pos hData]
    exact atEscape_line i j s b
  · rw [if_neg hData, if_neg hData]
    exact atEdit_line i j s b

end Input

section Blocks

variable {i j : PortIdx} {a : Answer} {s : Sys}

/-- AH=01h reaches registers only through the interpreter and the time of writing. -/
theorem transmit_registers (v : UInt8) : (transmit i v s).1.registers j =
    (atInput i v (s.modPort i fun p => { p with lastTxTick := s.tick })).1.registers j := by
  unfold transmit
  extract_lets r
  cases r.2 with
  | consumed | hangup => rfl
  | pass =>
      dsimp only
      split_ifs
      · rfl
      · cases callSock i r.1 with
        | none => rfl
        | some x =>
            dsimp only
            cases hStore : storeTx i x v r.1 with
            | none => rfl
            | some t => exact storeTx_registers hStore

theorem transmitNoWait_registers (v : UInt8) : (transmitNoWait i v s).1.registers j =
    (atInput i v s).1.registers j := by
  unfold transmitNoWait
  extract_lets r
  cases r.2 with
  | consumed | hangup => rfl
  | pass =>
      dsimp only
      cases callSock i r.1 with
      | none => rfl
      | some x =>
          dsimp only
          cases hStore : storeTx i x v r.1 with
          | none => rfl
          | some t => exact storeTx_registers hStore

/-- AH=04h hangs up first, or finds nothing to hang up. -/
theorem initStart_line : (initStart i s).1.line i = (s.line i).run (initEvents i s) := by
  unfold initStart initEvents
  extract_lets cleared
  have hCleared : cleared.line i = s.line i :=
    line_congr (fossilClearTx_registers.trans clearRx_registers)
  have hPort : (cleared.ports i).pendingClose = (s.ports i).pendingClose ∧
      callSock i cleared = callSock i s ∧
      (cleared.fossils i).purgeSeen = (s.fossils i).purgeSeen := by
    simp [cleared, callSock]
  rw [hPort.1, hPort.2.1, hPort.2.2, ← hCleared]
  have hSeen : (cleared.line i).purgeSeen = (s.fossils i).purgeSeen := hPort.2.2
  have hDisc : (cleared.modPort i fun p => { p with
    pendingClose := 0, dtrIgnore := false }).line i =
      { cleared.line i with dtrIgnore := false } := by
    simp [Sys.line, Registers.line, Sys.registers]
  by_cases hClosing : (s.ports i).pendingClose = 0
  · by_cases hCall : (callSock i s).isSome
    · by_cases hCounted : 3 ≤ (s.fossils i).purgeSeen
      · simpa [hClosing, hCall, hCounted, Line.next, hSeen] using hDisc
      · simp [hClosing, hCall, hCounted, Line.next, hSeen]
    · simp [hClosing, hCall]
  · simpa [hClosing, Line.next] using hDisc

/-- Raising DTR answers a ringing port; lowering it is no event of the line. -/
theorem setDtr_line (al : UInt8) : (setDtr i al s).line i = (s.line i).run (dtrEvents i al s) := by
  unfold setDtr dtrEvents
  extract_lets first
  have hFirst : first.line i = s.line i := line_congr (modFossil_registers _ fun _ => rfl)
  have hRinging : (first.ats i).ringing = (s.ats i).ringing := rfl
  have hMode : (first.ports i).mode = (s.ports i).mode := rfl
  rw [hRinging, hMode]
  by_cases hZero : al = 0
  · have hNone : ¬ (al ≠ 0 ∧ (s.ats i).ringing ∧ (s.ports i).mode = .conn) := fun h => h.1 hZero
    rw [if_pos hZero, if_neg hNone]
    split_ifs
    · exact hFirst
    · exact (line_congr requestClose_registers).trans hFirst
    · exact hFirst
  · rw [if_neg hZero]
    by_cases hAnswer : (s.ats i).ringing ∧ (s.ports i).mode = .conn
    · rw [if_pos hAnswer, atSendConnect_line, hFirst, if_pos rfl, if_pos ⟨hZero, hAnswer⟩]
    · rw [if_neg hAnswer, if_neg fun h => hAnswer h.2]
      exact hFirst

/-- AH=09h arms a drop in a call older than ten seconds and does nothing in a younger
one. -/
theorem purgeOutput_line : (purgeOutput i s).line i = (s.line i).run (purgeEvents i s) := by
  unfold purgeOutput purgeEvents
  extract_lets cleared
  have hCleared : cleared.line i = s.line i := line_congr fossilClearTx_registers
  have hPort : callSock i cleared = callSock i s ∧
      (cleared.fossils i).purgeSeen = (s.fossils i).purgeSeen ∧
      cleared.ports i = s.ports i ∧ cleared.tick = s.tick := by
    simp [cleared, callSock]
  rw [hPort.1, hPort.2.1, hPort.2.2.1, hPort.2.2.2]
  have hSame : (logRequest i cleared).line i = s.line i :=
    (line_congr logRequest_registers).trans hCleared
  have hSeen : (s.line i).purgeSeen = (s.fossils i).purgeSeen := rfl
  have hIgnore : (s.line i).dtrIgnore = (s.ports i).dtrIgnore := rfl
  by_cases hOld : (callSock i s).isSome ∧ 182 < s.tick - (s.ports i).connTick
  · rw [if_pos hOld]
    by_cases hArm : (s.fossils i).purgeSeen < 3 ∧ (s.ports i).dtrIgnore = false
    · rw [if_pos ⟨hOld.1, hArm.1, hArm.2, hOld.2⟩]
      have hSet : ((logRequest i cleared).modFossil i fun f => { f with purgeSeen := 1 }).line i =
          { (logRequest i cleared).line i with purgeSeen := 1 } := by
        simp [Sys.line, Registers.line, Sys.registers]
      rw [hSet, hSame]
      simp [Line.next, Line.arms, hSeen, hIgnore, hArm.1, hArm.2]
    · rw [if_neg fun h => hArm ⟨h.2.1, h.2.2.1⟩, hCleared]
      have hNone : (s.line i).arms .purge = false := by
        simpa [Line.arms, hSeen, hIgnore] using hArm
      simp [Line.next, hNone]
  · rw [if_neg hOld, if_neg fun h => hOld ⟨h.1, h.2.2.2⟩]
    exact hCleared

/-- What an INT 14h function does to the line of any port: nothing on a port that is not
initialized, and else what its events say. -/
theorem int14_line (f : Fossil) : (int14 i f s).1.line j =
    (s.line j).run (if (s.ports i).initialized then fossilEvents i f j s else []) := by
  by_cases hInit : (s.ports i).initialized
  · rw [if_pos hInit]
    by_cases hSteers : (Block.int14 i f).steers j
    · unfold int14
      rw [if_pos hInit]
      cases f with
      | transmit v =>
          refine (line_congr (transmit_registers v)).trans ?_
          rw [atInput_line i j _ v]
          exact congrArg (Line.run · _) (modPort_line _ fun _ => rfl)
      | transmitNoWait v =>
          exact (line_congr (transmitNoWait_registers v)).trans (atInput_line i j s v)
      | init | dtr al | purgeOutput =>
          obtain rfl : i = j := of_decide_eq_true hSteers
          simp only [fossilEvents_init, fossilEvents_dtr, fossilEvents_purgeOutput, ↓reduceIte]
          first | exact initStart_line | exact setDtr_line al | exact purgeOutput_line
      | _ => cases hSteers
    · rw [line_congr (int14_registers f (by simpa using hSteers))]
      cases f with
      | transmit v | transmitNoWait v => exact absurd rfl hSteers
      | init | dtr al | purgeOutput =>
          have hj : i ≠ j := fun hj => hSteers (decide_eq_true hj)
          simp [hj]
      | _ => rfl
  · rw [if_neg hInit]
    simp [int14, hInit]

/-- The ring check rings, answers or puts on hook, or leaves the line alone. -/
theorem atCheckRing_line : (atCheckRing i s).1.line i = (s.line i).run (ringEvents i s) := by
  unfold atCheckRing ringEvents
  extract_lets m
  by_cases hPending : m.connectPending
  · rw [if_pos hPending, if_pos hPending]
    split_ifs
    · simp [Sys.line, Registers.line, Sys.registers, Line.next]
    · rfl
  have hClear : (s.ats i).connectPending = false := by simpa using hPending
  rw [if_neg hPending, if_neg hPending]
  split_ifs
  · rfl
  · rfl
  · refine atSendConnect_line.trans ?_
    rw [if_pos rfl]
    simp [Sys.line, Registers.line, Sys.registers, Line.next]
  · simp [Sys.line, Registers.line, Sys.registers, Line.next, hClear]
  · dsimp only
    refine Eq.trans ?_ (atResult_line (i := i) "RING" "2")
    exact setting_line _ fun _ => ⟨rfl, rfl⟩

/-- AH=04h resets the line, and keeps a ringing call alerting. -/
theorem initFinish_line : (initFinish i a s).line i = (s.line i).run
    [.reset ((callSock i s).isSome && decide ((s.ports i).pendingClose = 0))] := by
  unfold initFinish
  rw [log_line, line_congr initListen_registers]
  unfold initReset
  extract_lets first second ringing third
  have hCall : callSock i third = callSock i s := by
    simp [third, second, first, atInit, callSock]
  have hClose : (third.ports i).pendingClose = (s.ports i).pendingClose := by
    simp [third, second, first, atInit]
  have hRinging : ringing = (s.ats i).ringing := rfl
  have hThird : third.line i = (s.line i).run [.reset false] := by
    simp [third, second, first, atInit, Sys.line, Registers.line, Sys.registers, Line.next,
      AtState.zero]
  rw [hCall, hClose, hRinging]
  by_cases hKeep : (s.ats i).ringing ∧ (callSock i s).isSome ∧ (s.ports i).pendingClose = 0
  · have hRings : (atSetRingingSilent i third).line i = (third.line i).next .ring := by
      simp [atSetRingingSilent, Sys.line, Registers.line, Sys.registers, Line.next]
    have hUp : (s.line i).ringing = true := hKeep.1
    rw [if_pos hKeep, hRings, hThird]
    simp [Line.next, hUp, hKeep.2.1, hKeep.2.2]
  · have hNone : ((s.line i).ringing &&
        ((callSock i s).isSome && decide ((s.ports i).pendingClose = 0))) = false := by
      rw [Bool.eq_false_iff]
      intro hAll
      simp only [Bool.and_eq_true, decide_eq_true_eq] at hAll
      exact hKeep ⟨hAll.1, hAll.2.1, hAll.2.2⟩
    rw [if_neg hKeep, hThird]
    simp [Line.next, hNone]

/-- A port that has hung up. -/
theorem hungUp_line {t : Sys} (h : t.registers i = s.registers i) :
    (enterIdleMode i (atSendNoCarrier i t)).line i = (s.line i).run [.onHook] := by
  rw [line_congr enterIdleMode_registers, atSendNoCarrier_line, line_congr h, if_pos rfl]

/-- Accepting a call is no event of the line yet: RING is. -/
theorem accepts_line {b : Block} (hb : b.accepts) (hModes : s.ModesAgree) :
    (exec b a s).1.line j = s.line j := by
  rcases exec_accepts_registers (a := a) (j := j) hb hModes with hSame | ⟨_, _, hNew⟩
  · exact line_congr hSame
  · exact (congrArg Registers.line hNew).trans rfl

/-- The line goes on hook where the call is found to be over. -/
theorem pollDisconnected_line (now : Tick) : (pollDisconnected i now a s).line i =
    (s.line i).run (if detectsEnd i now a s then [.onHook] else []) := by
  unfold pollDisconnected detectsEnd
  cases (s.ports i).sock with
  | none => rfl
  | some x =>
      rw [Option.any_some]
      dsimp only
      split_ifs
      · exact hungUp_line (by simp)
      · rfl

/-- AH=03h is a status poll of the line while the port is in a call. -/
theorem purgeStatus_line : (purgeStatus i s).line i =
    (s.line i).run (if (callSock i s).isSome then [.poll] else []) := by
  have hSeen : (s.line i).purgeSeen = (s.fossils i).purgeSeen := rfl
  have hIgnore : (s.line i).dtrIgnore = (s.ports i).dtrIgnore := rfl
  have hCount : (s.modFossil i fun f => { f with purgeSeen := f.purgeSeen + 1 }).line i =
      { s.line i with purgeSeen := (s.line i).purgeSeen + 1 } := by
    simp [Sys.line, Registers.line, Sys.registers]
  unfold purgeStatus
  by_cases hCall : (callSock i s).isSome
  · by_cases hPoll : (s.fossils i).purgeSeen ≠ 0 ∧ (s.ports i).dtrIgnore = false
    · rw [if_pos ⟨hPoll.1, hCall, hPoll.2⟩, if_pos hCall, hCount]
      simp only [Line.run_cons, Line.run_nil, Line.next, hSeen, hIgnore]
      rw [if_pos hPoll]
    · rw [if_neg fun h => hPoll ⟨h.1, h.2.2⟩, if_pos hCall]
      simp only [Line.run_cons, Line.run_nil, Line.next, hSeen, hIgnore]
      rw [if_neg hPoll]
  · rw [if_neg fun h => hCall h.2.1, if_neg hCall]
    rfl

theorem atSendRing_line : (atSendRing i s).line i = (s.line i).run [.ring] := by
  rw [← atResult_line (i := i) (j := i) (s := s) "RING" "2"]
  unfold atSendRing
  simp [Sys.line, Registers.line, Sys.registers, Line.next]

/-- A block has no events for the ports it does not steer. -/
theorem Block.lineEvents_of_not_steers {b : Block} (h : b.steers j = false) :
    b.lineEvents a s j = [] := by
  cases b with
  | int14 i f =>
      show (if (s.ports i).initialized then fossilEvents i f j s else []) = []
      cases f with
      | transmit v | transmitNoWait v => cases h
      | init | dtr al | purgeOutput =>
          have hj : ¬ i = j := of_decide_eq_false h
          simp [hj]
      | _ => exact ite_self _
  | ring i | checkRing i | pollClose i silent | idleClose i | disconnected i now | purgeStatus i
  | initFinish i =>
      have hj : ¬ i = j := of_decide_eq_false h
      simp [Block.lineEvents, hj]
  | _ => rfl

/-- The line of a port moves by the events of each block, and by nothing else. -/
theorem exec_line (b : Block) (a : Answer) (hModes : s.ModesAgree) :
    (exec b a s).1.line j = (s.line j).run (b.lineEvents a s j) := by
  by_cases hSteers : b.steers j
  · cases b with
    | int14 i f => exact int14_line f
    | hunt g => exact accepts_line rfl hModes
    | port i => exact accepts_line rfl hModes
    | recv i =>
        show (pollRecv i a s).1.line j = s.line j
        rcases pollRecv_cases i a s with hNone | ⟨x, _, _, _, hSome⟩
        · rw [hNone]
        · rw [hSome]
          split_ifs
          · exact modPort_line _ fun _ => rfl
          · rw [log_line]
            exact modPort_line _ fun _ => rfl
    | ring i =>
        obtain rfl : i = j := of_decide_eq_true hSteers
        exact atSendRing_line.trans (by simp [Block.lineEvents])
    | checkRing i =>
        obtain rfl : i = j := of_decide_eq_true hSteers
        exact atCheckRing_line.trans (by simp [Block.lineEvents])
    | pollClose i silent =>
        obtain rfl : i = j := of_decide_eq_true hSteers
        cases silent with
        | true =>
            refine (line_congr (s := s) (by simp [exec, pollClose])).trans ?_
            simp [Block.lineEvents]
        | false =>
            refine (hungUp_line (s := s)
              (t := clearRx i (clearRemote i (closeSock i .pollClose s))) (by simp)).trans ?_
            simp [Block.lineEvents]
    | idleClose i =>
        obtain rfl : i = j := of_decide_eq_true hSteers
        refine (hungUp_line (i := i) (s := s) (t := clearRx i (clearRemote i (closeSock i .idle s)))
          (by simp)).trans ?_
        simp [Block.lineEvents]
    | disconnected i now =>
        obtain rfl : i = j := of_decide_eq_true hSteers
        exact (pollDisconnected_line now).trans (by simp [Block.lineEvents])
    | purgeStatus i =>
        obtain rfl : i = j := of_decide_eq_true hSteers
        exact purgeStatus_line.trans (by simp [Block.lineEvents])
    | initFinish i =>
        obtain rfl : i = j := of_decide_eq_true hSteers
        exact initFinish_line.trans (by simp [Block.lineEvents])
    | _ => cases hSteers
  · have hNot : b.steers j = false := by simpa using hSteers
    rw [Block.lineEvents_of_not_steers hNot]
    exact line_congr (exec_registers hNot)

/-- Whether a line rings or waits for CONNECT after a block, as its events have it. -/
theorem exec_phase (b : Block) (a : Answer) (hModes : s.ModesAgree) :
    ((exec b a s).1.ats j).ringing = ((s.line j).run (b.lineEvents a s j)).ringing ∧
      ((exec b a s).1.ats j).connectPending =
        ((s.line j).run (b.lineEvents a s j)).connectPending :=
  have hLine := exec_line (j := j) b a hModes
  ⟨congrArg Line.ringing hLine, congrArg Line.connectPending hLine⟩

end Blocks

end Vmodem
