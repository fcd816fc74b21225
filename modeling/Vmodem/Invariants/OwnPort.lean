import Vmodem.Invariants.AtCommand

/-! The AT interpreter of a port works on that port. The one exception is AT&D,
which sets the DTR flag of every port. -/

namespace Vmodem

/-- Nothing but port `i` has changed, DTR flags aside, and of port `i` neither the
FOSSIL state nor the times of its call. -/
structure OwnPort (i : PortIdx) (s t : Sys) : Prop where
  ports : ∀ j, j ≠ i → ∃ ignore, t.ports j = { s.ports j with dtrIgnore := ignore }
  ats : ∀ j, j ≠ i → t.ats j = s.ats j
  fossils : t.fossils = s.fossils
  pend : t.pend = s.pend
  tick : t.tick = s.tick
  connTick : (t.ports i).connTick = (s.ports i).connTick
  lastRxTick : (t.ports i).lastRxTick = (s.ports i).lastRxTick
  lastTxTick : (t.ports i).lastTxTick = (s.ports i).lastTxTick

namespace OwnPort

variable {i : PortIdx} {s t u : Sys}

theorem refl (i : PortIdx) (s : Sys) : OwnPort i s s :=
  ⟨fun j _ => ⟨(s.ports j).dtrIgnore, rfl⟩, fun _ _ => rfl, rfl, rfl, rfl, rfl, rfl, rfl⟩

/-- Two steps that change port `i` alone change it alone together. -/
theorem trans (left : OwnPort i s t) (right : OwnPort i t u) : OwnPort i s u where
  ports j hj := by
    obtain ⟨first, hFirst⟩ := left.ports j hj
    obtain ⟨second, hSecond⟩ := right.ports j hj
    exact ⟨second, by rw [hSecond, hFirst]⟩
  ats j hj := (right.ats j hj).trans (left.ats j hj)
  fossils := right.fossils.trans left.fossils
  pend := right.pend.trans left.pend
  tick := right.tick.trans left.tick
  connTick := right.connTick.trans left.connTick
  lastRxTick := right.lastRxTick.trans left.lastRxTick
  lastTxTick := right.lastTxTick.trans left.lastTxTick

theorem modAt (i : PortIdx) (s : Sys) (f : AtState → AtState) : OwnPort i s (s.modAt i f) :=
  { refl i s with ats := fun j hj => by simp [hj] }

theorem log (i : PortIdx) (s : Sys) (e : Event) : OwnPort i s (s.log e) :=
  { refl i s with ports := fun j _ => ⟨(s.ports j).dtrIgnore, rfl⟩ }

/-- A write to the port that leaves the times of its call alone. -/
theorem modPort (i : PortIdx) (s : Sys) (f : PortState → PortState)
    (hConn : ∀ p, (f p).connTick = p.connTick)
    (hRx : ∀ p, (f p).lastRxTick = p.lastRxTick)
    (hTx : ∀ p, (f p).lastTxTick = p.lastTxTick) :
    OwnPort i s (s.modPort i f) :=
  { refl i s with
    ports := fun j hj => ⟨(s.ports j).dtrIgnore, by simp [hj]⟩
    connTick := by simp [hConn]
    lastRxTick := by simp [hRx]
    lastTxTick := by simp [hTx] }

/-- The DTR flags of other ports may change, as AT&D changes them all. -/
theorem setDtrIgnore (i : PortIdx) (s : Sys) (ignore : Bool) :
    OwnPort i s (setDtrIgnore ignore s) :=
  ⟨fun _ _ => ⟨ignore, rfl⟩, fun _ _ => rfl, rfl, rfl, rfl, rfl, rfl, rfl⟩

end OwnPort

section Text

variable (i : PortIdx) (s : Sys)

theorem atSendStr_own (text : List UInt8) : OwnPort i s (atSendStr i text s) :=
  .modPort i s _ (fun _ => rfl) (fun _ => rfl) (fun _ => rfl)

theorem atRespond_own (text : List UInt8) : OwnPort i s (atRespond i text s) := by
  unfold atRespond
  split_ifs
  · exact .refl i s
  · exact ((atSendStr_own i s _).trans (atSendStr_own i _ _)).trans (atSendStr_own i _ _)
  · exact (atSendStr_own i s _).trans (atSendStr_own i _ _)

theorem atResult_own (verbose numeric : String) : OwnPort i s (atResult i verbose numeric s) :=
  atRespond_own i s _

theorem atSendConnect_own : OwnPort i s (atSendConnect i s) := .modAt i s _

theorem logRequest_own : OwnPort i s (logRequest i s) := by
  unfold logRequest
  cases (s.ports i).sock with
  | none => exact .refl i s
  | some x => exact .log i s _

theorem requestClose_own : OwnPort i s (requestClose i s) :=
  (logRequest_own i s).trans (.modPort i _ _ (fun _ => rfl) (fun _ => rfl) (fun _ => rfl))

theorem cmdDisconnect_own : OwnPort i s (cmdDisconnect i s) := by
  unfold cmdDisconnect
  split_ifs
  · exact requestClose_own i s
  · exact .refl i s

end Text

section Commands

variable (i : PortIdx) (cmd : Nat → UInt8) (len k : Nat) (s : Sys)

/-- AT&D reaches other ports by their DTR flags only. -/
theorem atAmpersand_own : OwnPort i s (atAmpersand cmd len k s).sys := by
  unfold atAmpersand
  cases peek cmd len (k + 1) with
  | none => exact .refl i s
  | some sub =>
      show OwnPort i s (if sub = 0x44 ∨ sub = 0x64 then _ else s)
      split_ifs
      · exact .setDtrIgnore i s _
      · exact .refl i s

theorem atBackslash_own : OwnPort i s (atBackslash cmd len k s).sys := by
  unfold atBackslash
  cases peek cmd len (k + 1) <;> exact .refl i s

theorem atReset_own : OwnPort i s (atReset i s).sys := by
  unfold atReset
  extract_lets first second third
  have hSecond : OwnPort i s second :=
    (OwnPort.modAt i s _).trans (.modPort i first _ (fun _ => rfl) (fun _ => rfl) (fun _ => rfl))
  have hThird : OwnPort i second third := by
    unfold third
    split_ifs
    · exact cmdDisconnect_own i second
    · exact .refl i second
  exact (hSecond.trans hThird).trans (atResult_own i third _ _)

theorem atEcho_own : OwnPort i s (atEcho i cmd len k s).sys := by
  unfold atEcho
  split_ifs
  all_goals
    simp only [AtStep.sys]
    exact .modAt i s _

theorem atQuiet_own : OwnPort i s (atQuiet i cmd len k s).sys := by
  unfold atQuiet
  split_ifs
  all_goals
    simp only [AtStep.sys]
    exact .modAt i s _

theorem atVerbose_own : OwnPort i s (atVerbose i cmd len k s).sys := by
  unfold atVerbose
  split_ifs
  all_goals
    simp only [AtStep.sys]
    exact .modAt i s _

/-- ATH asks for the teardown of its own call. -/
theorem atHangup_own : OwnPort i s (atHangup i cmd len k s).sys := by
  unfold atHangup
  extract_lets first
  have hFirst : OwnPort i s first := .modAt i s _
  split_ifs
  · exact hFirst
  · exact hFirst
  · simp only [AtStep.sys]
    exact hFirst.trans (.modAt i first _)

theorem atOnline_own : OwnPort i s (atOnline i s).sys := by
  unfold atOnline
  extract_lets first
  have hFirst : OwnPort i s first := .modAt i s _
  split_ifs
  · exact hFirst.trans (atSendConnect_own i first)
  · exact hFirst.trans (atResult_own i first _ _)

theorem atAnswer_own : OwnPort i s (atAnswer i s).sys := by
  unfold atAnswer
  split_ifs
  · exact (OwnPort.modAt i s _).trans (atSendConnect_own i _)
  · exact atResult_own i s _ _

/-- A register command works on the registers of its own port. -/
theorem atRegister_own : OwnPort i s (atRegister i cmd len k s).sys := by
  unfold atRegister
  extract_lets reg k val set
  split_ifs
  · show OwnPort i s set
    unfold set
    split_ifs
    · exact .modAt i s _
    · exact .modPort i s _ (fun _ => rfl) (fun _ => rfl) (fun _ => rfl)
    · exact .refl i s
  · exact atRespond_own i s _
  · exact .refl i s

/-- Every command works on its own port. One case for each command. -/
theorem atCommand_own : OwnPort i s (atCommand i cmd len k s).sys := by
  unfold atCommand
  split_ifs
  · exact .refl i s
  · exact atAmpersand_own i cmd len k s
  · exact atBackslash_own i cmd len k s
  · cases atVerb (cmd k) with
    | reset => exact atReset_own i s
    | echo => exact atEcho_own i cmd len k s
    | quiet => exact atQuiet_own i cmd len k s
    | verbose => exact atVerbose_own i cmd len k s
    | hangup => exact atHangup_own i cmd len k s
    | online => exact atOnline_own i s
    | answer => exact atAnswer_own i s
    | register => exact atRegister_own i cmd len k s
    | dial => exact atResult_own i s _ _
    | identify => exact atRespond_own i s _
    | parameter | other => exact .refl i s

/-- A command line, by induction on the rounds of the loop. -/
theorem atLoop_own (fuel : Nat) : OwnPort i s (atLoop i cmd len fuel k s).1 := by
  induction fuel generalizing k s with
  | zero => exact .refl i s
  | succ fuel ih =>
      have hStep := atCommand_own i cmd len k s
      unfold atLoop
      split_ifs
      · cases hCommand : atCommand i cmd len k s with
        | next k' s' =>
            rw [hCommand] at hStep
            exact hStep.trans (ih k' s')
        | stop s' | hangup s' =>
            rw [hCommand] at hStep
            exact hStep
      · exact atResult_own i s _ _

end Commands

section Input

variable (i : PortIdx) (s : Sys)

/-- A whole command line works on its own port. -/
theorem atExecute_own : OwnPort i s (atExecute i s).1 := by
  unfold atExecute
  extract_lets cmd len k
  split_ifs
  · exact atResult_own i s _ _
  · exact atResult_own i s _ _
  · exact atResult_own i s _ _
  · exact atResult_own i s _ _
  · exact atLoop_own i cmd len (k + 2) s (len + 1)

theorem atEscape_own (b : UInt8) : OwnPort i s (atEscape i b s).1 := by
  unfold atEscape
  extract_lets counted
  have hCounted : OwnPort i s counted := .modAt i s _
  split_ifs
  all_goals dsimp only
  · exact .modAt i s _
  · exact (hCounted.trans (.modAt i counted _)).trans (atResult_own i _ _ _)
  · exact hCounted
  · exact .modAt i s _

theorem atEdit_own (b : UInt8) : OwnPort i s (atEdit i b s).1 := by
  unfold atEdit
  extract_lets echoed terminated result
  have hEchoed : OwnPort i s echoed := by
    unfold echoed
    split_ifs
    · exact atSendStr_own i s [b]
    · exact .refl i s
  have hTerminated : OwnPort i echoed terminated := .modAt i echoed _
  have hResult : OwnPort i terminated result.1 := by
    unfold result
    split_ifs
    · exact atExecute_own i terminated
    · exact .refl i terminated
  by_cases hReturn : b = 0x0D
  · simp only [if_pos hReturn]
    exact ((hEchoed.trans hTerminated).trans hResult).trans (.modAt i result.1 _)
  · rw [if_neg hReturn]
    split_ifs
    all_goals dsimp only
    · exact hEchoed.trans (.modAt i echoed _)
    · exact hEchoed
    · exact hEchoed.trans (.modAt i echoed _)
    · exact hEchoed

/-- Whatever the application writes on a port, the interpreter keeps to it. -/
theorem atInput_own (b : UInt8) : OwnPort i s (atInput i b s).1 := by
  unfold atInput
  split_ifs
  · exact atEscape_own i s b
  · exact atEdit_own i s b

end Input

end Vmodem
