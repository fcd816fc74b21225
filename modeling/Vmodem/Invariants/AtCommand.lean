import Vmodem.Invariants.Quiet

/-! The AT interpreter and the bookkeeping of the FOSSIL functions are quiet. -/

namespace Vmodem

section Text

variable (i : PortIdx) (s : Sys)

/-- Text of the modem goes into the receive ring of the port and nowhere else. -/
theorem atSendStr_quiet (text : List UInt8) : Quiet s (atSendStr i text s) :=
  Quiet.modPort s i _ ⟨rfl, rfl, rfl, rfl, rfl, rfl, rfl, rfl, rfl, rfl, rfl⟩ ⟨text, rfl⟩
    (.inr (.inl rfl))

/-- A response is text between line ends, so it is as quiet as the text. -/
theorem atRespond_quiet (text : List UInt8) : Quiet s (atRespond i text s) := by
  unfold atRespond
  split_ifs
  · exact .refl s
  · exact ((atSendStr_quiet i s _).trans (atSendStr_quiet i _ _)).trans (atSendStr_quiet i _ _)
  · exact (atSendStr_quiet i s _).trans (atSendStr_quiet i _ _)

/-- A result code is quiet in its verbose and in its numeric form, and not given under
ATQ1. -/
theorem atResult_quiet (verbose numeric : String) : Quiet s (atResult i verbose numeric s) :=
  atRespond_quiet i s _

theorem atOk_quiet : Quiet s (atOk i s) := atResult_quiet i s _ _

theorem atError_quiet : Quiet s (atError i s) := atResult_quiet i s _ _

theorem atNoCarrier_quiet : Quiet s (atNoCarrier i s) := atResult_quiet i s _ _

end Text

section Calls

variable {i : PortIdx} {s : Sys}

/-- CONNECT answers a call that the port has or is being alerted to. -/
theorem atSendConnect_quiet (h : (s.ports i).mode = .conn ∨ (s.ats i).Calling) :
    Quiet s (atSendConnect i s) :=
  Quiet.modAt s i _ fun _ => h.symm

/-- Silent alerting starts on a port that has a call. -/
theorem atSetRingingSilent_quiet (h : (s.ports i).mode = .conn) :
    Quiet s (atSetRingingSilent i s) :=
  Quiet.modAt s i _ fun _ => .inr h

/-- RING is given on a port that has a call. -/
theorem atSendRing_quiet (h : (s.ports i).mode = .conn) : Quiet s (atSendRing i s) := by
  have hText := atResult_quiet i s "RING" "2"
  exact hText.trans (Quiet.modAt _ i _ fun _ => .inr ((hText.port i).mode.trans h))

/-- The NO CARRIER of a call that ended resets the interpreter of its own port. -/
theorem atSendNoCarrier_quiet (i : PortIdx) (s : Sys) : Quiet s (atSendNoCarrier i s) :=
  (Quiet.modAt s i _ (by simp [AtState.Calling])).trans (atNoCarrier_quiet i _)

theorem atInit_quiet (i : PortIdx) (s : Sys) : Quiet s (atInit i s) :=
  Quiet.modAt s i _ (by simp [AtState.Calling, AtState.zero])

theorem logRequest_quiet (i : PortIdx) (s : Sys) : Quiet s (logRequest i s) := by
  unfold logRequest
  cases hSock : (s.ports i).sock with
  | none => exact .refl s
  | some x => exact Quiet.log s (.request i x) hSock

/-- A logged request is one made during the present call. -/
theorem logRequest_requested (i : PortIdx) (s : Sys) : (logRequest i s).Requested i := by
  intro x hSock
  have hOld : (s.ports i).sock = some x := ((logRequest_quiet i s).port i).sock ▸ hSock
  simp [logRequest, hOld]

/-- Asking for a teardown sets a flag of the port and logs the request. -/
theorem requestClose_quiet (i : PortIdx) (s : Sys) : Quiet s (requestClose i s) :=
  (logRequest_quiet i s).trans
    (Quiet.modPort _ i _ ⟨rfl, rfl, rfl, rfl, rfl, rfl, rfl, rfl, rfl, rfl, rfl⟩ ⟨[], rfl⟩
      (.inr (.inr ⟨rfl, logRequest_requested i s⟩)))

/-- MUX_DISCONNECT only asks for a teardown; the next poll carries it out. -/
theorem cmdDisconnect_quiet (i : PortIdx) (s : Sys) : Quiet s (cmdDisconnect i s) := by
  unfold cmdDisconnect
  split_ifs
  · exact requestClose_quiet i s
  · exact .refl s

end Calls

section Bookkeeping

variable (s : Sys) (i : PortIdx)

/-- Changes of port fields that no other part of the driver depends on. -/
theorem touch_quiet (f : PortState → PortState)
    (hCall : ∀ p : PortState, p.SameCall (f p))
    (hRx : ∀ p : PortState, (f p).rx = p.rx)
    (hClose : ∀ p : PortState, (f p).pendingClose = p.pendingClose) :
    Quiet s (s.modPort i f) :=
  Quiet.modPort s i f (hCall _) ⟨[], by simp [hRx, modemText, CircularBuffer.putAll]⟩
    (.inr (.inl (hClose _)))

/-- AT&D goes over all ports and changes the same flag on each. -/
theorem setDtrIgnore_quiet (ignore : Bool) : Quiet s (setDtrIgnore ignore s) :=
  { Quiet.refl s with
    port := fun _ => ⟨rfl, rfl, rfl, rfl, rfl, rfl, rfl, rfl, rfl, rfl, rfl⟩
    rx := fun _ => ⟨[], rfl⟩
    pendingClose := fun _ => .inr (.inl rfl)
    purgeSeen := fun _ h => .inl h }

theorem stampTx_quiet : Quiet s (s.modPort i fun p => { p with lastTxTick := s.tick }) :=
  touch_quiet s i _ (fun _ => ⟨rfl, rfl, rfl, rfl, rfl, rfl, rfl, rfl, rfl, rfl, rfl⟩)
    (fun _ => rfl) fun _ => rfl

/-- AT settings are not part of a call. -/
theorem setting_quiet (f : AtState → AtState)
    (hCalling : ∀ m : AtState, (f m).Calling → m.Calling) :
    Quiet s (s.modAt i f) :=
  Quiet.modAt s i f fun h => .inl (hCalling _ h)

end Bookkeeping

/-- The state a command leaves. -/
def AtStep.sys : AtStep → Sys
  | next _ s | stop s | hangup s => s

section Commands

variable (i : PortIdx) (cmd : Nat → UInt8) (len k : Nat) (s : Sys)

theorem atAmpersand_quiet : Quiet s (atAmpersand cmd len k s).sys := by
  unfold atAmpersand
  cases peek cmd len (k + 1) with
  | none => exact .refl s
  | some sub =>
      show Quiet s (if sub = 0x44 ∨ sub = 0x64 then _ else s)
      split_ifs
      · exact setDtrIgnore_quiet s _
      · exact .refl s

theorem atBackslash_quiet : Quiet s (atBackslash cmd len k s).sys := by
  unfold atBackslash
  cases peek cmd len (k + 1) <;> exact .refl s

theorem atReset_quiet : Quiet s (atReset i s).sys := by
  unfold atReset
  extract_lets first second third
  have hFirst : Quiet s first := setting_quiet s i _ fun _ h => h
  have hSecond : Quiet s second :=
    hFirst.trans (touch_quiet first i _
      (fun _ => ⟨rfl, rfl, rfl, rfl, rfl, rfl, rfl, rfl, rfl, rfl, rfl⟩)
      (fun _ => rfl) (fun _ => rfl))
  have hThird : Quiet second third := by
    unfold third
    split_ifs
    · exact cmdDisconnect_quiet i second
    · exact .refl second
  exact (hSecond.trans hThird).trans (atOk_quiet i third)

theorem atEcho_quiet : Quiet s (atEcho i cmd len k s).sys := by
  unfold atEcho
  split_ifs
  all_goals
    simp only [AtStep.sys]
    exact setting_quiet s i _ fun _ h => h

theorem atQuiet_quiet : Quiet s (atQuiet i cmd len k s).sys := by
  unfold atQuiet
  split_ifs
  all_goals
    simp only [AtStep.sys]
    exact setting_quiet s i _ fun _ h => h

theorem atVerbose_quiet : Quiet s (atVerbose i cmd len k s).sys := by
  unfold atVerbose
  split_ifs
  all_goals
    simp only [AtStep.sys]
    exact setting_quiet s i _ fun _ h => h

theorem atHangup_quiet : Quiet s (atHangup i cmd len k s).sys := by
  unfold atHangup
  extract_lets first
  have hFirst : Quiet s first := setting_quiet s i _ fun _ h => h
  split_ifs
  · exact hFirst
  · exact hFirst
  · simp only [AtStep.sys]
    refine hFirst.trans (setting_quiet first i _ fun m h => ?_)
    exact .inr (by simpa [AtState.Calling] using h)

theorem atOnline_quiet : Quiet s (atOnline i s).sys := by
  unfold atOnline
  extract_lets first
  have hFirst : Quiet s first := setting_quiet s i _ fun _ h => h
  split_ifs with hConn
  · exact hFirst.trans (atSendConnect_quiet (.inl hConn))
  · exact hFirst.trans (atNoCarrier_quiet i first)

theorem atAnswer_quiet : Quiet s (atAnswer i s).sys := by
  unfold atAnswer
  split_ifs with hConn
  · have hFirst := setting_quiet s i (fun m => { m with ringing := false }) fun m h =>
      .inr (by simpa [AtState.Calling] using h)
    exact hFirst.trans (atSendConnect_quiet (.inl hConn))
  · exact atNoCarrier_quiet i s

theorem atRegister_quiet : Quiet s (atRegister i cmd len k s).sys := by
  unfold atRegister
  extract_lets reg k val set
  split_ifs
  · show Quiet s set
    unfold set
    split_ifs
    · exact setting_quiet s i _ fun _ h => h
    · exact touch_quiet s i _ (fun _ => ⟨rfl, rfl, rfl, rfl, rfl, rfl, rfl, rfl, rfl, rfl, rfl⟩)
        (fun _ => rfl) (fun _ => rfl)
    · exact .refl s
  · exact atRespond_quiet i s _
  · exact .refl s

/-- Every command of the interpreter is quiet: it hangs up by request and connects
nobody. -/
theorem atCommand_quiet : Quiet s (atCommand i cmd len k s).sys := by
  unfold atCommand
  split_ifs
  · exact .refl s
  · exact atAmpersand_quiet cmd len k s
  · exact atBackslash_quiet cmd len k s
  · cases atVerb (cmd k) with
    | reset => exact atReset_quiet i s
    | echo => exact atEcho_quiet i cmd len k s
    | quiet => exact atQuiet_quiet i cmd len k s
    | verbose => exact atVerbose_quiet i cmd len k s
    | hangup => exact atHangup_quiet i cmd len k s
    | online => exact atOnline_quiet i s
    | answer => exact atAnswer_quiet i s
    | register => exact atRegister_quiet i cmd len k s
    | dial => exact atOk_quiet i s
    | identify => exact atRespond_quiet i s _
    | parameter | other => exact .refl s

/-- A whole command line is quiet. The induction is on the commands left. -/
theorem atLoop_quiet (fuel : Nat) : Quiet s (atLoop i cmd len fuel k s).1 := by
  induction fuel generalizing k s with
  | zero => exact .refl s
  | succ fuel ih =>
      have hStep := atCommand_quiet i cmd len k s
      unfold atLoop
      split_ifs
      · cases hCommand : atCommand i cmd len k s with
        | next k' s' =>
            rw [hCommand] at hStep
            exact hStep.trans (ih k' s')
        | stop s' | hangup s' =>
            rw [hCommand] at hStep
            exact hStep
      · exact atOk_quiet i s

end Commands

section Input

variable (i : PortIdx) (s : Sys)

theorem atExecute_quiet : Quiet s (atExecute i s).1 := by
  unfold atExecute
  extract_lets cmd len k
  split_ifs
  · exact atError_quiet i s
  · exact atError_quiet i s
  · exact atError_quiet i s
  · exact atOk_quiet i s
  · exact atLoop_quiet i cmd len (k + 2) s (len + 1)

theorem atEscape_quiet (b : UInt8) : Quiet s (atEscape i b s).1 := by
  unfold atEscape
  extract_lets counted
  have hCounted : Quiet s counted := setting_quiet s i _ fun _ h => h
  split_ifs
  all_goals dsimp only
  · exact setting_quiet s i _ fun _ h => h
  · exact (hCounted.trans (setting_quiet counted i
      (fun m => { m with cmdMode := true, plusCount := 0 }) fun _ h => h)).trans (atOk_quiet i _)
  · exact hCounted
  · exact setting_quiet s i _ fun _ h => h

/-- Editing a command line, and executing it at its end, is quiet. -/
theorem atEdit_quiet (b : UInt8) : Quiet s (atEdit i b s).1 := by
  unfold atEdit
  extract_lets echoed terminated result
  have hEchoed : Quiet s echoed := by
    unfold echoed
    split_ifs
    · exact atSendStr_quiet i s [b]
    · exact .refl s
  have hTerminated : Quiet echoed terminated := setting_quiet echoed i _ fun _ h => h
  have hResult : Quiet terminated result.1 := by
    unfold result
    split_ifs
    · exact atExecute_quiet i terminated
    · exact .refl terminated
  by_cases hReturn : b = 0x0D
  · simp only [if_pos hReturn]
    have hEnd : Quiet result.1 (result.1.modAt i fun m => { m with pos := 0 }) :=
      setting_quiet result.1 i _ fun _ h => h
    exact ((hEchoed.trans hTerminated).trans hResult).trans hEnd
  · rw [if_neg hReturn]
    split_ifs
    all_goals dsimp only
    · exact hEchoed.trans (setting_quiet echoed i _ fun _ h => h)
    · exact hEchoed
    · exact hEchoed.trans (setting_quiet echoed i _ fun _ h => h)
    · exact hEchoed

/-- Whatever the application writes, the interpreter answers quietly. -/
theorem atInput_quiet (b : UInt8) : Quiet s (atInput i b s).1 := by
  unfold atInput
  split_ifs
  · exact atEscape_quiet i s b
  · exact atEdit_quiet i s b

end Input

end Vmodem
