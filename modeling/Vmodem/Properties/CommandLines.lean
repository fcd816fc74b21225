import Vmodem.Driver.Machine
import Vmodem.Invariants.Frames
import Vmodem.Invariants.Responses

/-! Every command line has exactly one result. -/

namespace Vmodem

/-- The application writes bytes one after another. -/
def typeBytes (i : PortIdx) (typed : List UInt8) (s : Sys) : Sys :=
  typed.foldl (fun s b => (atInput i b s).1) s

/-- The return character is echoed and the line terminated. -/
def entered (i : PortIdx) (s : Sys) : Sys :=
  let s := if (s.ats i).echo then atSendStr i [0x0D] s else s
  s.modAt i fun m => { m with buf := fun k => if k = m.pos then 0 else m.buf k }

namespace LineEnd

/-- The calls of `at_respond`. -/
def responses : LineEnd → List AtResponse
  | respond r _ => [r]
  | online _ => []
  | hangup _ => [.noCarrier]

/-- The state they are made in. The call that is hung up is flushed and its socket handed to
the next poll cycle first. -/
def before (i : PortIdx) (a : Answer) : LineEnd → Sys
  | respond _ s | online s => s
  | hangup s => requestClose i (fossilFlushTx i a s)

/-- The rest of the line: after a hangup, the two blocks that follow. -/
def finish (i : PortIdx) (a b : Answer) : LineEnd → Sys
  | respond r s => r.send i s
  | online s => s
  | hangup s => (exec (.hangup i) b (exec (.flush i) a s).1).1

/-- What `at_input` returns. -/
def taken : LineEnd → AtTaken
  | respond _ _ | online _ => .consumed
  | hangup _ => .hangup

variable {i : PortIdx} {e : LineEnd}

/-- The end of a line gives its responses behind everything else it does. -/
theorem finish_eq (a b : Answer) :
    e.finish i a b = e.responses.foldl (fun s r => r.send i s) (e.before i a) := by
  cases e <;> rfl

/-- Before its responses the end of a line puts nothing into a receive ring. -/
theorem before_rx (a : Answer) (j : PortIdx) :
    ((e.before i a).ports j).rx = (e.sys.ports j).rx := by
  cases e with
  | respond | online => rfl
  | hangup s =>
      have hClose : KeepsLine i (fossilFlushTx i a s) (requestClose i (fossilFlushTx i a s)) :=
        (KeepsLine.logRequest i _).trans (.modPort i _ _ (fun _ => rfl) fun _ => rfl)
      exact (hClose.rx j).trans (by rw [(fossilFlushTx_frame i a s).1]; rfl)

end LineEnd

section Typing

variable {i : PortIdx} {s : Sys}

/-- In command mode a byte goes to the line editor. -/
theorem atInput_command (h : dataMode i s = false) (b : UInt8) : atInput i b s = atEdit i b s := by
  rw [atInput, h]
  rfl

/-- A byte other than a return stays in command mode and inside the buffer. -/
theorem atEdit_typed {b : UInt8} (hCr : b ≠ 0x0D) (hMode : dataMode i s = false)
    (hPos : (s.ats i).pos ≤ 127) :
    dataMode i (atEdit i b s).1 = false ∧ ((atEdit i b s).1.ats i).pos ≤ 127 := by
  have hEcho : ∀ text, dataMode i (atSendStr i text s) = dataMode i s ∧
      ((atSendStr i text s).ats i).pos = (s.ats i).pos := by
    intro text
    simp [dataMode, atSendStr]
  have hBuffer : ∀ (v : Sys) (f : AtState → AtState), dataMode i v = false →
      (∀ m, (f m).ringing = m.ringing) → (∀ m, (f m).cmdMode = m.cmdMode) →
      (f (v.ats i)).pos ≤ 127 → dataMode i (v.modAt i f) = false ∧
        ((v.modAt i f).ats i).pos ≤ 127 := by
    intro v f hData hRinging hCommand hRoom
    refine ⟨?_, by simpa using hRoom⟩
    rw [← hData]
    simp [dataMode, hRinging, hCommand]
  unfold atEdit
  extract_lets echoed terminated result
  have hEchoed : dataMode i echoed = false ∧ (echoed.ats i).pos ≤ 127 := by
    unfold echoed
    split_ifs
    · rw [(hEcho [b]).1, (hEcho [b]).2]
      exact ⟨hMode, hPos⟩
    · exact ⟨hMode, hPos⟩
  rw [if_neg hCr]
  split_ifs with hBack hFeed hRoom
  all_goals dsimp only
  · exact hBuffer echoed _ hEchoed.1 (fun _ => rfl) (fun _ => rfl)
      (Nat.le_trans (Nat.sub_le _ 1) hEchoed.2)
  · exact hEchoed
  · exact hBuffer echoed _ hEchoed.1 (fun _ => rfl) (fun _ => rfl) hRoom
  · exact hEchoed

/-- Typed bytes stay in command mode, and in the buffer, until the line is entered. -/
theorem typeBytes_typed {typed : List UInt8} (hCr : 0x0D ∉ typed) (hMode : dataMode i s = false)
    (hPos : (s.ats i).pos ≤ 127) :
    dataMode i (typeBytes i typed s) = false ∧ ((typeBytes i typed s).ats i).pos ≤ 127 := by
  induction typed generalizing s with
  | nil => exact ⟨hMode, hPos⟩
  | cons b typed ih =>
      obtain ⟨hNext, hRoom⟩ := atEdit_typed (Ne.symm (List.ne_of_not_mem_cons hCr)) hMode hPos
      have hRest := ih (List.not_mem_of_not_mem_cons hCr) hNext hRoom
      rw [← atInput_command hMode] at hRest
      exact hRest

theorem entered_pos : ((entered i s).ats i).pos = (s.ats i).pos := by
  unfold entered
  dsimp only
  split_ifs <;> simp [atSendStr]

/-- The return character runs the line, if there is one. -/
theorem atInput_return (h : dataMode i s = false) : atInput i 0x0D s =
    if 0 < (s.ats i).pos then
      ((atExecute i (entered i s)).1.modAt i fun m => { m with pos := 0 },
        if (atExecute i (entered i s)).2 then .hangup else .consumed)
    else ((entered i s).modAt i fun m => { m with pos := 0 }, .consumed) := by
  have hRun : atInput i 0x0D s =
      ((if 0 < ((entered i s).ats i).pos then atExecute i (entered i s)
        else (entered i s, false)).1.modAt i
          fun m => { m with pos := 0 },
        if (if 0 < ((entered i s).ats i).pos then atExecute i (entered i s)
          else (entered i s, false)).2 then
          .hangup else .consumed) := by
    rw [atInput_command h]
    rfl
  rw [hRun, entered_pos]
  by_cases hLine : 0 < (s.ats i).pos
  · rw [if_pos hLine, if_pos hLine]
  · rw [if_neg hLine, if_neg hLine]
    rfl

end Typing

/-- What a command line comes to. The loops that skip blanks and digits have stopped by
themselves, the buffer is looked at below `pos` only, and the line ends with one call of
`at_respond` in a state with the receive rings as they were, or with none where it ends in
`ATA` or `ATO` on a connected port. -/
structure LineResult (i : PortIdx) (u : Sys) (n : Nat) (e : LineEnd) : Prop where
  digits : ∀ k, digitAt (u.ats i).buf n (skipDigits (u.ats i).buf n n k) = false
  blanks : ¬ (peek (u.ats i).buf n (skipBlanks (u.ats i).buf n n 0) = some 0x20 ∨
    peek (u.ats i).buf n (skipBlanks (u.ats i).buf n n 0) = some 0x09)
  reads : ∀ cmd : Nat → UInt8, (∀ k < n, cmd k = (u.ats i).buf k) → executeEnd i cmd n u = some e
  rings : ∀ a j, ((e.before i a).ports j).rx = (u.ports j).rx
  finish : ∀ a b, e.finish i a b = e.responses.foldl (fun v r => r.send i v) (e.before i a)
  once : ¬ AnswersCall i (u.ats i).buf n u → e.responses.length = 1
  online : AnswersCall i (u.ats i).buf n u → e.responses = [] ∧
    ∃ v, e = .online v ∧ (v.ats i).connectPending = true

/-- Every line has an end, and `at_execute` comes to it. -/
theorem lineResult (i : PortIdx) (u : Sys) : ∃ e, LineResult i u (u.ats i).pos e ∧
    atExecute i u = e.result i := by
  obtain ⟨e, hEnd, hResult, hSame, hOnline, hPending⟩ := executeEnd_spec i u
  refine ⟨e, ⟨fun k => skipDigits_stops (Nat.sub_le _ k), skipBlanks_stops (Nat.sub_le _ 0), ?_, ?_,
    LineEnd.finish_eq, ?_, ?_⟩, hResult⟩
  · intro cmd hCmd
    rw [executeEnd_congr hCmd, hEnd]
  · exact fun a j => (LineEnd.before_rx a j).trans (hSame.rx j)
  · intro hNot
    cases e with
    | respond | hangup => rfl
    | online v => exact absurd (hOnline.mp ⟨v, rfl⟩) hNot
  · intro hAnswers
    obtain ⟨v, rfl⟩ := hOnline.mpr hAnswers
    exact ⟨rfl, v, rfl, hPending v rfl⟩

/-- Whatever is typed in front of a return, `at_execute` comes to one result; an empty line
has none. -/
theorem command_line_result (i : PortIdx) (typed : List UInt8) (s : Sys) (hCr : 0x0D ∉ typed)
    (hMode : dataMode i s = false) (hPos : (s.ats i).pos ≤ 127) :
    let t := typeBytes i typed s
    let u := entered i t
    (t.ats i).pos ≤ 127 ∧
      ((t.ats i).pos = 0 → atInput i 0x0D t = (u.modAt i fun m => { m with pos := 0 }, .consumed)) ∧
      (0 < (t.ats i).pos → ∃ e, LineResult i u (t.ats i).pos e ∧
        atInput i 0x0D t = ((e.result i).1.modAt i fun m => { m with pos := 0 }, e.taken)) := by
  intro t u
  obtain ⟨hTyped, hRoom⟩ := typeBytes_typed hCr hMode hPos
  have hReturn : atInput i 0x0D t = _ := atInput_return hTyped
  have hLength : (u.ats i).pos = (t.ats i).pos := entered_pos
  refine ⟨hRoom, fun hEmpty => ?_, fun hLine => ?_⟩
  · rw [hReturn, if_neg (by rw [hEmpty]; exact Nat.lt_irrefl 0)]
  · obtain ⟨e, hResult, hExecute⟩ := lineResult i u
    rw [hLength] at hResult
    refine ⟨e, hResult, ?_⟩
    have hExecute' : atExecute i (entered i t) = e.result i := hExecute
    rw [hReturn, if_pos hLine, hExecute']
    cases e <;> rfl

/-- `ATH` with a typing error, mended, comes to one response. -/
theorem command_line_result_mended :
    let t := typeBytes 0 (bytes "ATX" ++ [0x08] ++ bytes "H") (atInit 0 (.zero 0))
    ∃ e, LineResult 0 (entered 0 t) 3 e ∧ e.responses.length = 1 ∧
      atInput 0 0x0D t = ((e.result 0).1.modAt 0 fun m => { m with pos := 0 }, e.taken) := by
  intro t
  have hTyped : (t.ats 0).pos = 3 := by decide
  have hIdle : ((entered 0 t).ports 0).mode ≠ .conn := by decide
  obtain ⟨-, -, hLine⟩ := command_line_result 0 (bytes "ATX" ++ [0x08] ++ bytes "H")
    (atInit 0 (.zero 0)) (by decide) (by decide) (by decide)
  obtain ⟨e, hResult, hInput⟩ := hLine (hTyped ▸ by decide)
  have hResult : LineResult 0 (entered 0 t) 3 e := hTyped ▸ hResult
  exact ⟨e, hResult, hResult.once fun ⟨_, _, _, _, _, hConn⟩ => hIdle hConn, hInput⟩

end Vmodem
