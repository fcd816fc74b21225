import Vmodem.Driver.Control

/-! How the interpreter comes to the end of a command line. The calls of `at_respond` are
kept apart from the state they leave. -/

namespace Vmodem

/-- A response `at_execute` gives through `at_respond`. -/
inductive AtResponse where
  | ok
  | error
  | noCarrier
  | register (val : UInt16)
  | identification
  deriving DecidableEq, Repr

def AtResponse.send (i : PortIdx) : AtResponse → Sys → Sys
  | ok => atOk i
  | error => atError i
  | noCarrier => atNoCarrier i
  | register val => atRespond i (registerText val)
  | identification => atRespond i (bytes "VMODEM 1.0")

/-- The end of a command line: a response in a state, the call put online with CONNECT still
to come, or the hangup of an answered call. -/
inductive LineEnd where
  | respond (r : AtResponse) (s : Sys)
  | online (s : Sys)
  | hangup (s : Sys)

/-- The state before the response. -/
def LineEnd.sys : LineEnd → Sys
  | respond _ s | online s | hangup s => s

/-- What `at_execute` makes of the end; the flag is that of `atExecute`. -/
def LineEnd.result (i : PortIdx) : LineEnd → Sys × Bool
  | respond r s => (r.send i s, false)
  | online s => (s, false)
  | hangup s => (s, true)

/-- The end as a step of the command loop. -/
def LineEnd.step (i : PortIdx) : LineEnd → AtStep
  | respond r s => .stop (r.send i s)
  | online s => .stop s
  | hangup s => .hangup s

/-- What the application may read, and the line being executed. -/
structure KeepsLine (i : PortIdx) (s s' : Sys) : Prop where
  rx : ∀ j, (s'.ports j).rx = (s.ports j).rx
  pos : (s'.ats i).pos = (s.ats i).pos
  buf : (s'.ats i).buf = (s.ats i).buf
  mode : (s'.ports i).mode = (s.ports i).mode

namespace KeepsLine

variable {i : PortIdx} {s s' s'' : Sys}

theorem refl (i : PortIdx) (s : Sys) : KeepsLine i s s := ⟨fun _ => rfl, rfl, rfl, rfl⟩

/-- What two steps keep of the line, both keep together. -/
theorem trans (h : KeepsLine i s s') (h' : KeepsLine i s' s'') : KeepsLine i s s'' :=
  ⟨fun j => (h'.rx j).trans (h.rx j), h'.pos.trans h.pos, h'.buf.trans h.buf,
    h'.mode.trans h.mode⟩

/-- A write to the interpreter that leaves the command buffer alone. -/
theorem modAt (i : PortIdx) (s : Sys) (f : AtState → AtState) (hPos : ∀ m, (f m).pos = m.pos)
    (hBuf : ∀ m, (f m).buf = m.buf) : KeepsLine i s (s.modAt i f) :=
  ⟨fun _ => rfl, by simp [hPos], by simp [hBuf], rfl⟩

/-- A write to the port that leaves its receive ring and its mode alone. -/
theorem modPort (i : PortIdx) (s : Sys) (f : PortState → PortState) (hRx : ∀ p, (f p).rx = p.rx)
    (hMode : ∀ p, (f p).mode = p.mode) : KeepsLine i s (s.modPort i f) := by
  refine ⟨fun j => ?_, rfl, rfl, by simp [hMode]⟩
  by_cases hj : j = i
  · subst hj
    simp [hRx]
  · simp [hj]

theorem logRequest (i : PortIdx) (s : Sys) : KeepsLine i s (logRequest i s) := by
  unfold Vmodem.logRequest
  cases (s.ports i).sock <;> exact ⟨fun _ => rfl, rfl, rfl, rfl⟩

theorem cmdDisconnect (i : PortIdx) (s : Sys) : KeepsLine i s (cmdDisconnect i s) := by
  unfold Vmodem.cmdDisconnect
  split_ifs
  · exact (logRequest i s).trans (modPort i _ _ (fun _ => rfl) fun _ => rfl)
  · exact refl i s

end KeepsLine

section Finishing

variable (i : PortIdx) (cmd : Nat → UInt8) (len : Nat)

/-- What `ATZ` does before it answers. -/
def resetState (s : Sys) : Sys :=
  let s := s.modAt i fun m =>
    { m with
      echo := true, quiet := false, verbose := true, s0 := 0, cmdMode := true, plusCount := 0 }
  let s := s.modPort i fun p => { p with dtrIgnore := false }
  if (s.ports i).mode = .conn ∧ (s.ports i).sock.isSome then cmdDisconnect i s else s

/-- The register a query is about; there are only two. -/
def registerVal (reg : UInt16) (s : Sys) : UInt16 :=
  if reg = 0 then (s.ats i).s0.toUInt16 else if reg = 30 then (s.ports i).idleTimeout else 0

/-- `ATH` and `ATO` leave command mode first. -/
def leaveCommandMode (s : Sys) : Sys :=
  s.modAt i fun m => { m with cmdMode := false, plusCount := 0 }

/-- How a command ends its line, `none` where the line goes on behind it. -/
def commandEnd (k : Nat) (s : Sys) : Option LineEnd :=
  if cmd k = 0x20 ∨ cmd k = 0x26 ∨ cmd k = 0x5C ∨ cmd k = 0x25 then none
  else
    match atVerb (cmd k) with
    | .reset => some (.respond .ok (resetState i s))
    | .hangup =>
        if ¬ (s.ats i).ringing ∧ (s.ports i).mode = .conn ∧ (s.ports i).sock.isSome then
          some (.hangup (leaveCommandMode i s))
        else none
    | .online =>
        if (s.ports i).mode = .conn then some (.online (atSendConnect i (leaveCommandMode i s)))
        else some (.respond .noCarrier (leaveCommandMode i s))
    | .answer =>
        if (s.ports i).mode = .conn then
          some (.online (atSendConnect i (s.modAt i fun m => { m with ringing := false })))
        else some (.respond .noCarrier s)
    | .register =>
        if peek cmd len (skipDigits cmd len len (k + 1)) = some 0x3F then
          some (.respond (.register (registerVal i (readNumber cmd len len (k + 1) 0) s)) s)
        else none
    | .dial => some (.respond .ok s)
    | .identify => some (.respond .identification s)
    | .echo | .quiet | .verbose | .parameter | .other => none

/-- Where the command loop stops: at a command that ends the line, or behind the last one. -/
def lineStop : Nat → Nat → Sys → Option (Nat × Sys)
  | 0, _, _ => none
  | fuel + 1, k, s =>
      if k < len then
        match atCommand i cmd len k s with
        | .next k s => lineStop fuel k s
        | .stop _ | .hangup _ => some (k, s)
      else some (k, s)

/-- The end of the line where the loop has stopped. -/
def stopEnd (stop : Nat × Sys) : Option LineEnd :=
  if stop.1 < len then commandEnd i cmd len stop.1 stop.2 else some (.respond .ok stop.2)

/-- A command that goes on, goes on behind itself. -/
def GoesOn (k : Nat) (s : Sys) : AtStep → Prop
  | .next k' s' => k < k' ∧ KeepsLine i s s'
  | _ => False

/-- The step of a command against the end it is said to have. -/
def Finishes (k : Nat) (s : Sys) (step : AtStep) : Option LineEnd → Prop
  | none => GoesOn i k s step
  | some e => step = e.step i ∧ KeepsLine i s e.sys

end Finishing

section Commands

variable {i : PortIdx} {cmd : Nat → UInt8} {len k : Nat} {s : Sys}

theorem skipDigits_le (fuel k : Nat) : k ≤ skipDigits cmd len fuel k := by
  induction fuel generalizing k with
  | zero => exact Nat.le_refl k
  | succ fuel ih =>
      rw [skipDigits]
      split_ifs
      · exact Nat.le_of_succ_le (ih (k + 1))
      · exact Nat.le_refl k

theorem pastDigit_le : k ≤ pastDigit cmd len k := by
  unfold pastDigit
  split_ifs <;> omega

theorem atAmpersand_goesOn : GoesOn i k s (atAmpersand cmd len k s) := by
  unfold atAmpersand
  cases peek cmd len (k + 1) with
  | none => exact ⟨Nat.lt_succ_self k, .refl i s⟩
  | some sub =>
      refine ⟨Nat.lt_of_lt_of_le (by omega) (skipDigits_le len (k + 2)), ?_⟩
      split_ifs
      · exact ⟨fun _ => rfl, rfl, rfl, rfl⟩
      · exact .refl i s

theorem atBackslash_goesOn : GoesOn i k s (atBackslash cmd len k s) := by
  unfold atBackslash
  cases peek cmd len (k + 1) with
  | none => exact ⟨Nat.lt_succ_self k, .refl i s⟩
  | some sub => exact ⟨Nat.lt_of_lt_of_le (by omega) (skipDigits_le len (k + 2)), .refl i s⟩

/-- A setting is kept apart from the command line. -/
theorem setting_keepsLine (f : AtState → AtState) (hPos : ∀ m, (f m).pos = m.pos)
    (hBuf : ∀ m, (f m).buf = m.buf) : KeepsLine i s (s.modAt i f) := .modAt i s f hPos hBuf

theorem atEcho_goesOn : GoesOn i k s (atEcho i cmd len k s) := by
  unfold atEcho
  split_ifs
  all_goals exact ⟨by omega, setting_keepsLine _ (fun _ => rfl) fun _ => rfl⟩

theorem atQuiet_goesOn : GoesOn i k s (atQuiet i cmd len k s) := by
  unfold atQuiet
  split_ifs
  all_goals exact ⟨by omega, setting_keepsLine _ (fun _ => rfl) fun _ => rfl⟩

theorem atVerbose_goesOn : GoesOn i k s (atVerbose i cmd len k s) := by
  unfold atVerbose
  split_ifs
  all_goals exact ⟨by omega, setting_keepsLine _ (fun _ => rfl) fun _ => rfl⟩

/-- Going online leaves the line to be read again. -/
theorem atSendConnect_keepsLine : KeepsLine i s (atSendConnect i s) :=
  setting_keepsLine _ (fun _ => rfl) fun _ => rfl

/-- ATZ resets the settings but not the line it stands in. -/
theorem resetState_keepsLine : KeepsLine i s (resetState i s) := by
  have hSettings := (setting_keepsLine (i := i) (s := s)
    (fun m => { m with
      echo := true, quiet := false, verbose := true, s0 := 0, cmdMode := true, plusCount := 0 })
    (fun _ => rfl) fun _ => rfl).trans (.modPort i _ (fun p => { p with dtrIgnore := false })
      (fun _ => rfl) fun _ => rfl)
  unfold resetState
  dsimp only
  split_ifs
  · exact hSettings.trans (.cmdDisconnect i _)
  · exact hSettings

/-- ATH ends the line only where it has an answered call to hang up. -/
theorem atHangup_ends : Finishes i k s (atHangup i cmd len k s)
    (if ¬ (s.ats i).ringing ∧ (s.ports i).mode = .conn ∧ (s.ports i).sock.isSome then
      some (.hangup (leaveCommandMode i s)) else none) := by
  have hLeft : KeepsLine i s (leaveCommandMode i s) :=
    setting_keepsLine _ (fun _ => rfl) fun _ => rfl
  have hRinging : ((leaveCommandMode i s).ats i).ringing = (s.ats i).ringing := by
    simp [leaveCommandMode]
  have hEq : atHangup i cmd len k s =
      if (s.ats i).ringing then .next (pastDigit cmd len (k + 1)) (leaveCommandMode i s)
      else if (s.ports i).mode = .conn ∧ (s.ports i).sock.isSome then .hangup (leaveCommandMode i s)
      else .next (pastDigit cmd len (k + 1))
        ((leaveCommandMode i s).modAt i fun m => { m with ringing := false }) := by
    rw [← hRinging]
    rfl
  rw [hEq]
  by_cases hRing : (s.ats i).ringing
  · rw [if_pos hRing, if_neg fun hCall => hCall.1 hRing]
    exact ⟨pastDigit_le, hLeft⟩
  · by_cases hCall : (s.ports i).mode = .conn ∧ (s.ports i).sock.isSome
    · rw [if_neg hRing, if_pos hCall, if_pos ⟨hRing, hCall⟩]
      exact ⟨rfl, hLeft⟩
    · rw [if_neg hRing, if_neg hCall, if_neg fun hBoth => hCall hBoth.2]
      exact ⟨pastDigit_le, hLeft.trans (setting_keepsLine _ (fun _ => rfl) fun _ => rfl)⟩

/-- A register command ends the line where it is a query, and goes on where it sets. -/
theorem atRegister_ends : Finishes i k s (atRegister i cmd len k s)
    (if peek cmd len (skipDigits cmd len len (k + 1)) = some 0x3F then
      some (.respond (.register (registerVal i (readNumber cmd len len (k + 1) 0) s)) s)
    else none) := by
  have hPast : k < skipDigits cmd len len (k + 1) := skipDigits_le len (k + 1)
  unfold atRegister
  extract_lets reg pos val set
  by_cases hSet : peek cmd len pos = some 0x3D
  · have hNot : ¬ peek cmd len pos = some 0x3F := by
      rw [hSet]
      decide
    rw [if_pos hSet, if_neg hNot]
    refine ⟨Nat.lt_of_lt_of_le hPast (Nat.le_of_succ_le (skipDigits_le len (pos + 1))), ?_⟩
    unfold set
    split_ifs
    · exact setting_keepsLine _ (fun _ => rfl) fun _ => rfl
    · exact .modPort i s _ (fun _ => rfl) fun _ => rfl
    · exact .refl i s
  · rw [if_neg hSet]
    by_cases hQuery : peek cmd len pos = some 0x3F
    · rw [if_pos hQuery, if_pos hQuery]
      exact ⟨rfl, .refl i s⟩
    · rw [if_neg hQuery, if_neg hQuery]
      exact ⟨hPast, .refl i s⟩

/-- Every command ends its line as said or goes on behind itself. -/
theorem atCommand_ends : Finishes i k s (atCommand i cmd len k s) (commandEnd i cmd len k s) := by
  unfold atCommand commandEnd
  by_cases hBlank : cmd k = 0x20
  · rw [if_pos hBlank, if_pos (.inl hBlank)]
    exact ⟨Nat.lt_succ_self k, .refl i s⟩
  by_cases hAmpersand : cmd k = 0x26
  · rw [if_neg hBlank, if_pos hAmpersand, if_pos (.inr (.inl hAmpersand))]
    exact atAmpersand_goesOn
  by_cases hBackslash : cmd k = 0x5C ∨ cmd k = 0x25
  · rw [if_neg hBlank, if_neg hAmpersand, if_pos hBackslash, if_pos (.inr (.inr hBackslash))]
    exact atBackslash_goesOn
  rw [if_neg hBlank, if_neg hAmpersand, if_neg hBackslash, if_neg (by tauto)]
  have hLeft : KeepsLine i s (leaveCommandMode i s) :=
    setting_keepsLine _ (fun _ => rfl) fun _ => rfl
  cases atVerb (cmd k) with
  | reset => exact ⟨rfl, resetState_keepsLine⟩
  | echo => exact atEcho_goesOn
  | quiet => exact atQuiet_goesOn
  | verbose => exact atVerbose_goesOn
  | hangup => exact atHangup_ends
  | online =>
      have hMode : ((leaveCommandMode i s).ports i).mode = (s.ports i).mode := rfl
      show Finishes i k s (if ((leaveCommandMode i s).ports i).mode = .conn then _ else _) _
      dsimp only
      rw [hMode]
      split_ifs
      · exact ⟨rfl, hLeft.trans atSendConnect_keepsLine⟩
      · exact ⟨rfl, hLeft⟩
  | answer =>
      show Finishes i k s (if (s.ports i).mode = .conn then _ else _) _
      dsimp only
      split_ifs
      · have hAnswered := setting_keepsLine (i := i) (s := s) (fun m => { m with ringing := false })
          (fun _ => rfl) fun _ => rfl
        exact ⟨rfl, hAnswered.trans atSendConnect_keepsLine⟩
      · exact ⟨rfl, .refl i s⟩
  | register => exact atRegister_ends
  | dial => exact ⟨rfl, .refl i s⟩
  | identify => exact ⟨rfl, .refl i s⟩
  | parameter =>
      exact ⟨Nat.lt_of_lt_of_le (Nat.lt_succ_self k) (skipDigits_le len (k + 1)), .refl i s⟩
  | other => exact ⟨Nat.lt_succ_self k, .refl i s⟩

/-- With a round for every character left, the loop comes to its end. -/
theorem lineStop_spec {fuel : Nat} (h : len - k < fuel) :
    ∃ stop e, lineStop i cmd len fuel k s = some stop ∧ stopEnd i cmd len stop = some e ∧
      atLoop i cmd len fuel k s = e.result i ∧ KeepsLine i s e.sys ∧
      (stop.2.ports i).mode = (s.ports i).mode := by
  induction fuel generalizing k s with
  | zero => exact absurd h (Nat.not_lt_zero _)
  | succ fuel ih =>
      by_cases hMore : k < len
      · have hEnds : Finishes i k s (atCommand i cmd len k s) (commandEnd i cmd len k s) :=
          atCommand_ends
        rw [lineStop, atLoop, if_pos hMore, if_pos hMore]
        cases hEnd : commandEnd i cmd len k s with
        | none =>
            rw [hEnd] at hEnds
            cases hStep : atCommand i cmd len k s with
            | next k' s' =>
                rw [hStep] at hEnds
                obtain ⟨hPast, hSame⟩ := hEnds
                obtain ⟨stop, e, hStop, hLine, hLoop, hRest, hMode⟩ :=
                  ih (k := k') (s := s') (by omega)
                exact ⟨stop, e, hStop, hLine, hLoop, hSame.trans hRest, hMode.trans hSame.mode⟩
            | stop s' | hangup s' =>
                rw [hStep] at hEnds
                exact hEnds.elim
        | some e =>
            rw [hEnd] at hEnds
            obtain ⟨hStep, hSame⟩ := hEnds
            have hHere : stopEnd i cmd len (k, s) = some e := (if_pos hMore).trans hEnd
            rw [hStep]
            cases e <;> exact ⟨(k, s), _, rfl, hHere, rfl, hSame, rfl⟩
      · rw [lineStop, atLoop, if_neg hMore, if_neg hMore]
        exact ⟨(k, s), .respond .ok s, rfl, if_neg hMore, rfl, .refl i s, rfl⟩

/-- The ends without a response are those of `ATA` and `ATO` on a connected port, and CONNECT
is then still to come. -/
theorem commandEnd_online {e : LineEnd} (h : commandEnd i cmd len k s = some e) :
    ((∃ u, e = .online u) ↔
      (atVerb (cmd k) = .answer ∨ atVerb (cmd k) = .online) ∧ (s.ports i).mode = .conn) ∧
      ∀ u, e = .online u → (u.ats i).connectPending = true := by
  unfold commandEnd at h
  by_cases hSpecial : cmd k = 0x20 ∨ cmd k = 0x26 ∨ cmd k = 0x5C ∨ cmd k = 0x25
  · simp [hSpecial] at h
  rw [if_neg hSpecial] at h
  have hConnect (v : Sys) : ((atSendConnect i v).ats i).connectPending = true := by
    simp [atSendConnect]
  cases hVerb : atVerb (cmd k) with
  | online | answer =>
      rw [hVerb] at h
      dsimp only at h
      by_cases hMode : (s.ports i).mode = .conn
      · rw [if_pos hMode] at h
        obtain rfl := Option.some.inj h
        refine ⟨by simp [hMode], fun u hu => ?_⟩
        obtain rfl := LineEnd.online.inj hu
        exact hConnect _
      · rw [if_neg hMode] at h
        obtain rfl := Option.some.inj h
        exact ⟨by simp [hMode], by simp⟩
  | hangup | register =>
      rw [hVerb] at h
      dsimp only at h
      split_ifs at h
      obtain rfl := Option.some.inj h
      exact ⟨by simp, by simp⟩
  | reset | dial | identify =>
      rw [hVerb] at h
      obtain rfl := Option.some.inj h
      exact ⟨by simp, by simp⟩
  | echo | quiet | verbose | parameter | other =>
      rw [hVerb] at h
      nomatch h

end Commands

section Line

variable (i : PortIdx) (cmd : Nat → UInt8) (len : Nat) (s : Sys)

/-- Where `at_execute` stops in the line in the buffer, `none` where it is not a command line
or has no command. -/
def executeStop : Option (Nat × Sys) :=
  let k := skipBlanks cmd len len 0
  if len ≤ k + 1 then none
  else if cmd k ≠ 0x41 ∧ cmd k ≠ 0x61 then none
  else if cmd (k + 1) ≠ 0x54 ∧ cmd (k + 1) ≠ 0x74 then none
  else if len ≤ k + 2 then none
  else lineStop i cmd len (len + 1) (k + 2) s

/-- How `at_execute` ends the line in the buffer. -/
def executeEnd : Option LineEnd :=
  let k := skipBlanks cmd len len 0
  if len ≤ k + 1 then some (.respond .error s)
  else if cmd k ≠ 0x41 ∧ cmd k ≠ 0x61 then some (.respond .error s)
  else if cmd (k + 1) ≠ 0x54 ∧ cmd (k + 1) ≠ 0x74 then some (.respond .error s)
  else if len ≤ k + 2 then some (.respond .ok s)
  else (lineStop i cmd len (len + 1) (k + 2) s).bind (stopEnd i cmd len)

/-- The end of a line is `ATA` or `ATO` on a connected port. -/
def AnswersCall : Prop :=
  ∃ k v, executeStop i cmd len s = some (k, v) ∧ k < len ∧
    (atVerb (cmd k) = .answer ∨ atVerb (cmd k) = .online) ∧ (s.ports i).mode = .conn

/-- `at_execute` ends, with a response or as `ATA` and `ATO` do on a connected port. -/
theorem executeEnd_spec : ∃ e, executeEnd i (s.ats i).buf (s.ats i).pos s = some e ∧
    atExecute i s = e.result i ∧ KeepsLine i s e.sys ∧
    ((∃ u, e = .online u) ↔ AnswersCall i (s.ats i).buf (s.ats i).pos s) ∧
    ∀ u, e = .online u → (u.ats i).connectPending = true := by
  unfold executeEnd atExecute AnswersCall executeStop
  extract_lets k cmd len k
  by_cases hShort : len ≤ k + 1
  · rw [if_pos hShort, if_pos hShort, if_pos hShort]
    exact ⟨_, rfl, rfl, .refl i s, by simp, by simp⟩
  by_cases hA : cmd k ≠ 0x41 ∧ cmd k ≠ 0x61
  · rw [if_neg hShort, if_pos hA, if_neg hShort, if_pos hA, if_neg hShort, if_pos hA]
    exact ⟨_, rfl, rfl, .refl i s, by simp, by simp⟩
  by_cases hT : cmd (k + 1) ≠ 0x54 ∧ cmd (k + 1) ≠ 0x74
  · rw [if_neg hShort, if_neg hA, if_pos hT, if_neg hShort, if_neg hA, if_pos hT, if_neg hShort,
      if_neg hA, if_pos hT]
    exact ⟨_, rfl, rfl, .refl i s, by simp, by simp⟩
  by_cases hEmpty : len ≤ k + 2
  · rw [if_neg hShort, if_neg hA, if_neg hT, if_pos hEmpty, if_neg hShort, if_neg hA, if_neg hT,
      if_pos hEmpty, if_neg hShort, if_neg hA, if_neg hT, if_pos hEmpty]
    exact ⟨_, rfl, rfl, .refl i s, by simp, by simp⟩
  rw [if_neg hShort, if_neg hA, if_neg hT, if_neg hEmpty, if_neg hShort, if_neg hA, if_neg hT,
    if_neg hEmpty, if_neg hShort, if_neg hA, if_neg hT, if_neg hEmpty]
  have hFuel : len - (k + 2) < len + 1 := by omega
  obtain ⟨⟨stop, v⟩, e, hStop, hEnd, hLoop, hSame, hMode⟩ :
      ∃ stop e, lineStop i cmd len (len + 1) (k + 2) s = some stop ∧
        stopEnd i cmd len stop = some e ∧ atLoop i cmd len (len + 1) (k + 2) s = e.result i ∧
        KeepsLine i s e.sys ∧ (stop.2.ports i).mode = (s.ports i).mode := lineStop_spec hFuel
  refine ⟨e, by rw [hStop, Option.bind_some, hEnd], hLoop, hSame, ?_⟩
  rw [hStop]
  unfold stopEnd at hEnd
  by_cases hInside : stop < len
  · rw [if_pos hInside] at hEnd
    obtain ⟨hOnline, hPending⟩ := commandEnd_online hEnd
    refine ⟨?_, hPending⟩
    rw [hOnline, hMode]
    constructor
    · exact fun h => ⟨stop, v, rfl, hInside, h⟩
    · rintro ⟨_, _, hEq, -, h⟩
      obtain ⟨rfl, rfl⟩ := Prod.mk.inj (Option.some.inj hEq)
      exact h
  · rw [if_neg hInside] at hEnd
    obtain rfl := Option.some.inj hEnd
    refine ⟨iff_of_false (by simp) ?_, by simp⟩
    rintro ⟨_, _, hEq, hLt, -⟩
    obtain ⟨rfl, rfl⟩ := Prod.mk.inj (Option.some.inj hEq)
    exact hInside hLt

end Line

section Reads

variable {cmd cmd' : Nat → UInt8} {len : Nat}

/-- Reading a byte of the line depends on the line up to its length. -/
theorem peek_congr (h : ∀ k < len, cmd k = cmd' k) (k : Nat) :
    peek cmd len k = peek cmd' len k := by
  unfold peek
  split_ifs with hk
  · rw [h k hk]
  · rfl

theorem digitAt_congr (h : ∀ k < len, cmd k = cmd' k) (k : Nat) :
    digitAt cmd len k = digitAt cmd' len k := by
  rw [digitAt, peek_congr h, digitAt]

theorem skipDigits_congr (h : ∀ k < len, cmd k = cmd' k) (fuel k : Nat) :
    skipDigits cmd len fuel k = skipDigits cmd' len fuel k := by
  induction fuel generalizing k with
  | zero => rfl
  | succ fuel ih => rw [skipDigits, skipDigits, digitAt_congr h, ih]

theorem digitAt_lt {k : Nat} (h : digitAt cmd len k = true) : k < len := by
  unfold digitAt peek at h
  split_ifs at h with hk
  · exact hk
  · simp at h

theorem readNumber_congr (h : ∀ k < len, cmd k = cmd' k) (fuel k : Nat) (val : UInt16) :
    readNumber cmd len fuel k val = readNumber cmd' len fuel k val := by
  induction fuel generalizing k val with
  | zero => rfl
  | succ fuel ih =>
      rw [readNumber, readNumber, digitAt_congr h]
      split_ifs with hDigit
      · rw [ih, h k (digitAt_lt ((digitAt_congr h k).trans hDigit))]
      · rfl

theorem skipBlanks_congr (h : ∀ k < len, cmd k = cmd' k) (fuel k : Nat) :
    skipBlanks cmd len fuel k = skipBlanks cmd' len fuel k := by
  induction fuel generalizing k with
  | zero => rfl
  | succ fuel ih => rw [skipBlanks, skipBlanks, peek_congr h, ih]

variable {i : PortIdx} {k : Nat} {s : Sys}

/-- A command reads no byte behind the length of its line. -/
theorem atCommand_congr (h : ∀ k < len, cmd k = cmd' k) (hk : k < len) :
    atCommand i cmd len k s = atCommand i cmd' len k s := by
  simp only [atCommand, h k hk, atAmpersand, atBackslash, atEcho, atQuiet, atVerbose, atHangup,
    atRegister, pastDigit, peek_congr h, digitAt_congr h, skipDigits_congr h, readNumber_congr h]

theorem commandEnd_congr (h : ∀ k < len, cmd k = cmd' k) (hk : k < len) :
    commandEnd i cmd len k s = commandEnd i cmd' len k s := by
  simp only [commandEnd, h k hk, peek_congr h, skipDigits_congr h, readNumber_congr h]

/-- Where a line stops depends on the line up to its length. The induction is on the
commands left. -/
theorem lineStop_congr (h : ∀ k < len, cmd k = cmd' k) (fuel : Nat) :
    lineStop i cmd len fuel k s = lineStop i cmd' len fuel k s := by
  induction fuel generalizing k s with
  | zero => rfl
  | succ fuel ih =>
      rw [lineStop, lineStop]
      split_ifs with hk
      · rw [atCommand_congr h hk]
        cases atCommand i cmd' len k s with
        | next k' s' => exact ih
        | stop | hangup => rfl
      · rfl

theorem stopEnd_congr (h : ∀ k < len, cmd k = cmd' k) :
    stopEnd i cmd len = stopEnd i cmd' len := by
  funext stop
  unfold stopEnd
  split_ifs with hk
  · exact commandEnd_congr h hk
  · rfl

/-- The line in front of `pos` decides; what the buffer holds behind it is not looked at. -/
theorem executeEnd_congr (h : ∀ k < len, cmd k = cmd' k) :
    executeEnd i cmd len s = executeEnd i cmd' len s := by
  unfold executeEnd
  rw [skipBlanks_congr h]
  extract_lets first
  by_cases hShort : len ≤ first + 1
  · rw [if_pos hShort, if_pos hShort]
  · rw [if_neg hShort, if_neg hShort, h first (by omega), h (first + 1) (by omega),
      lineStop_congr h, stopEnd_congr h]

end Reads

section Loops

variable {cmd : Nat → UInt8} {len : Nat}

theorem skipDigits_stops {fuel k : Nat} (h : len - k ≤ fuel) :
    digitAt cmd len (skipDigits cmd len fuel k) = false := by
  induction fuel generalizing k with
  | zero =>
      rw [← Bool.not_eq_true]
      intro hDigit
      have := digitAt_lt hDigit
      rw [skipDigits] at this
      omega
  | succ fuel ih =>
      rw [skipDigits]
      split_ifs with hDigit
      · exact ih (by omega)
      · simpa using hDigit

theorem skipBlanks_stops {fuel k : Nat} (h : len - k ≤ fuel) :
    ¬ (peek cmd len (skipBlanks cmd len fuel k) = some 0x20 ∨
      peek cmd len (skipBlanks cmd len fuel k) = some 0x09) := by
  induction fuel generalizing k with
  | zero =>
      rw [skipBlanks, peek, if_neg (by omega)]
      simp
  | succ fuel ih =>
      rw [skipBlanks]
      split_ifs with hBlank
      · exact ih (by omega)
      · exact hBlank

end Loops

end Vmodem
