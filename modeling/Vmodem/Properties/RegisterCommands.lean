import Vmodem.Library.Decimal
import Vmodem.Properties.CommandLines

/-! Setting and querying S-registers. Numbers are read into a 16-bit `int`, stored in 8 or 16
bits and printed with three digits, and a line of more than 127 characters is cut. -/

namespace Vmodem

open Decimal

/-- A C `int` takes one more digit. -/
def digitStep (val : UInt16) (b : UInt8) : UInt16 := val * 10 + (b.toUInt16 - 0x30)

section Reading

variable {cmd : Nat → UInt8} {len : Nat} {a ds rest : List UInt8}

/-- A digit is taken into the value modulo 2^16. -/
theorem digitStep_toNat (val : UInt16) {b : UInt8} (hb : Decimal.isDigit b) :
    (digitStep val b).toNat ≡ val.toNat * 10 + value b [MOD 2 ^ 16] := by
  simp only [Decimal.isDigit, Bool.and_eq_true, decide_eq_true_eq, UInt8.le_iff_toNat_le,
    UInt8.reduceToNat] at hb
  have hSub : (b.toUInt16 - 0x30).toNat = value b := by
    rw [UInt16.toNat_sub_of_le]
    · simp [value]
    · rw [UInt16.le_iff_toNat_le]
      simpa using hb.1
  rw [digitStep, UInt16.toNat_add, UInt16.toNat_mul, hSub]
  simp [Nat.ModEq]

/-- So a run of digits leaves its number modulo 2^16, however long it is. -/
theorem foldl_digitStep (hDigits : ∀ b ∈ ds, Decimal.isDigit b) :
    (ds.foldl digitStep 0).toNat = number ds % 2 ^ 16 := by
  have h : UInt16.toNat (ds.foldl digitStep 0) ≡ UInt16.toNat 0 * 10 ^ ds.length + number ds
      [MOD 2 ^ 16] := foldl_number (fun v b hb => digitStep_toNat v hb) hDigits 0
  have hLt : (ds.foldl digitStep 0).toNat < 2 ^ 16 := UInt16.toNat_lt _
  rw [← Nat.mod_eq_of_lt hLt]
  simpa [Nat.ModEq] using h

/-- The buffer holds the line. -/
def HoldsLine (cmd : Nat → UInt8) (len : Nat) (text : List UInt8) : Prop :=
  ∀ k, peek cmd len k = text[k]?

/-- A buffer that holds a line has its bytes. -/
theorem HoldsLine.cmd_eq {text : List UInt8} (h : HoldsLine cmd len text) {k : Nat} {b : UInt8}
    (hb : text[k]? = some b) : k < len ∧ cmd k = b := by
  have hPeek := (h k).trans hb
  unfold peek at hPeek
  split_ifs at hPeek with hk
  exact ⟨hk, Option.some.inj hPeek⟩

/-- A digit is found in the buffer where the line has one. -/
theorem HoldsLine.digitAt {text : List UInt8} (h : HoldsLine cmd len text) (k : Nat) :
    digitAt cmd len k = text[k]?.any Decimal.isDigit := by
  rw [Vmodem.digitAt, h k]
  rfl

/-- Where digits stand in the line, they are skipped and read. The induction is on the
digits. -/
theorem digits_at {k : Nat} (hDigits : ∀ b ∈ ds, Decimal.isDigit b) (hEnds : Ends rest) :
    ∀ fuel, ds.length ≤ fuel → a.length = k → HoldsLine cmd len (a ++ ds ++ rest) → ∀ val,
      skipDigits cmd len fuel k = k + ds.length ∧
        readNumber cmd len fuel k val = ds.foldl digitStep val := by
  induction ds generalizing a k with
  | nil =>
      intro fuel _ hk hLine val
      have hNone : Vmodem.digitAt cmd len k = false := by
        rw [hLine.digitAt, List.append_nil, List.getElem?_append_right (by omega), ← hk,
          Nat.sub_self]
        cases rest with
        | nil => rfl
        | cons b rest => simpa using hEnds b rfl
      cases fuel <;> simp [skipDigits, readNumber, hNone]
  | cons b ds ih =>
      intro fuel hFuel hk hLine val
      obtain ⟨hb, hTail⟩ := List.forall_mem_cons.mp hDigits
      have hHere : (a ++ b :: ds ++ rest)[k]? = some b := by simp [← hk]
      have hDigit : Vmodem.digitAt cmd len k = true := by
        rw [hLine.digitAt, hHere]
        simpa using hb
      cases fuel with
      | zero => simp at hFuel
      | succ fuel =>
          obtain ⟨hSkip, hRead⟩ := ih (a := a ++ [b]) (k := k + 1) hTail fuel (by simpa using hFuel)
            (by simp [hk]) (by simpa using hLine) (digitStep val b)
          rw [skipDigits, readNumber, if_pos hDigit, if_pos hDigit, hSkip, (hLine.cmd_eq hHere).2]
          refine ⟨by rw [List.length_cons]; omega, hRead⟩

end Reading

/-- Only two registers exist. -/
def setRegister (i : PortIdx) (reg val : UInt16) (s : Sys) : Sys :=
  if reg = 0 then s.modAt i fun m => { m with s0 := val.toUInt8 }
  else if reg = 30 then s.modPort i fun p => { p with idleTimeout := val }
  else s

section Line

variable {i : PortIdx} {cmd : Nat → UInt8} {s : Sys} {n v rest : List UInt8}

/-- `ATS` and what follows. -/
def registerLine (n rest : List UInt8) : List UInt8 := [0x41, 0x54, 0x53] ++ n ++ rest

/-- The length of a register command with its `AT`, its letter and its number. -/
theorem length_registerLine : (registerLine n rest).length = 3 + n.length + rest.length := by
  simp [registerLine]
  omega

/-- The byte behind the number of a register command. -/
theorem HoldsLine.sign {len : Nat} {b : UInt8}
    (h : HoldsLine cmd len (registerLine n (b :: rest))) :
    peek cmd len (2 + 1 + n.length) = some b := by
  have hAt : ([0x41, 0x54, 0x53] ++ n).length = 2 + 1 + n.length := by
    rw [List.length_append]
    rfl
  rw [h, registerLine, ← hAt, List.getElem?_append_right (Nat.le_refl _), Nat.sub_self]
  rfl

/-- The interpreter comes to the register command and stops behind it or at it. -/
theorem executeEnd_register (hLine : HoldsLine cmd (registerLine n rest).length
    (registerLine n rest)) :
    executeEnd i cmd (registerLine n rest).length s =
      (match atRegister i cmd (registerLine n rest).length 2 s with
        | .next k s' => lineStop i cmd (registerLine n rest).length
            (registerLine n rest).length k s'
        | _ => some (2, s)).bind (stopEnd i cmd (registerLine n rest).length) := by
  have hLength : (registerLine n rest).length = 3 + n.length + rest.length := length_registerLine
  obtain ⟨-, hA⟩ := hLine.cmd_eq (k := 0) (b := 0x41) rfl
  obtain ⟨-, hT⟩ := hLine.cmd_eq (k := 1) (b := 0x54) rfl
  obtain ⟨-, hS⟩ := hLine.cmd_eq (k := 2) (b := 0x53) rfl
  have hBlanks : ∀ fuel, skipBlanks cmd (registerLine n rest).length fuel 0 = 0 := by
    intro fuel
    cases fuel with
    | zero => rfl
    | succ fuel =>
        rw [skipBlanks, hLine 0]
        exact if_neg (show ¬ (some (0x41 : UInt8) = some 0x20 ∨ some (0x41 : UInt8) = some 0x09) by
          decide)
  have hCommand : atCommand i cmd (registerLine n rest).length 2 s =
      atRegister i cmd (registerLine n rest).length 2 s := by
    have hVerb : atVerb (cmd 2) = .register := by
      rw [hS]
      rfl
    rw [atCommand, if_neg (by rw [hS]; decide), if_neg (by rw [hS]; decide),
      if_neg (by rw [hS]; decide), hVerb]
  unfold executeEnd
  rw [hBlanks]
  dsimp only
  rw [if_neg (by omega), if_neg (by rw [hA]; decide), if_neg (by rw [hT]; decide),
    if_neg (by omega), lineStop, if_pos (by omega), hCommand]
  cases atRegister i cmd (registerLine n rest).length 2 s <;> rfl

/-- Behind the last command the line ends with OK. -/
theorem stop_at_end {len : Nat} (hLen : 0 < len) :
    (lineStop i cmd len len len s).bind (stopEnd i cmd len) = some (.respond .ok s) := by
  cases len with
  | zero => exact absurd hLen (Nat.lt_irrefl 0)
  | succ len =>
      rw [lineStop, if_neg (Nat.lt_irrefl _)]
      exact if_neg (Nat.lt_irrefl _)

/-- A line that sets a register answers OK, with the register written. -/
theorem executeEnd_set (hn : ∀ b ∈ n, Decimal.isDigit b) (hv : ∀ b ∈ v, Decimal.isDigit b)
    (hLine : HoldsLine cmd (registerLine n (0x3D :: v)).length (registerLine n (0x3D :: v))) :
    executeEnd i cmd (registerLine n (0x3D :: v)).length s =
      some (.respond .ok (setRegister i (n.foldl digitStep 0) (v.foldl digitStep 0) s)) := by
  have hLength : (registerLine n (0x3D :: v)).length = 3 + n.length + (0x3D :: v).length :=
    length_registerLine
  rw [executeEnd_register hLine]
  generalize hLen : (registerLine n (0x3D :: v)).length = len at *
  rw [List.length_cons] at hLength
  have hEquals : Ends (0x3D :: v) := by
    intro b hb
    obtain rfl := Option.some.inj hb
    decide
  obtain ⟨hPast, hReg⟩ := digits_at (a := [0x41, 0x54, 0x53]) (k := 2 + 1) hn hEquals len
    (by omega) rfl hLine 0
  have hSign : peek cmd len (2 + 1 + n.length) = some 0x3D := hLine.sign
  have hValue : HoldsLine cmd len ([0x41, 0x54, 0x53] ++ n ++ [0x3D] ++ v ++ []) := by
    simpa [registerLine] using hLine
  obtain ⟨hEnd, hVal⟩ := digits_at (k := 2 + 1 + n.length + 1) hv (by simp [Ends]) len (by omega)
    (by simp; omega) hValue 0
  have hSet : atRegister i cmd len 2 s =
      .next len (setRegister i (n.foldl digitStep 0) (v.foldl digitStep 0) s) := by
    unfold atRegister
    dsimp only
    rw [hPast, if_pos hSign, hReg, hVal, hEnd]
    congr 1
    omega
  rw [hSet]
  exact stop_at_end (by omega)

/-- A line that only names a register answers OK and does nothing. -/
theorem executeEnd_unfinished (hn : ∀ b ∈ n, Decimal.isDigit b)
    (hLine : HoldsLine cmd (registerLine n []).length (registerLine n [])) :
    executeEnd i cmd (registerLine n []).length s = some (.respond .ok s) := by
  have hLength : (registerLine n []).length = 3 + n.length + ([] : List UInt8).length :=
    length_registerLine
  rw [executeEnd_register hLine]
  generalize hLen : (registerLine n []).length = len at *
  rw [List.length_nil] at hLength
  obtain ⟨hPast, -⟩ := digits_at (a := [0x41, 0x54, 0x53]) (k := 2 + 1) hn (by simp [Ends]) len
    (by omega) rfl hLine 0
  have hNone : peek cmd len (2 + 1 + n.length) = none := if_neg (by omega)
  have hGoOn : atRegister i cmd len 2 s = .next len s := by
    unfold atRegister
    dsimp only
    rw [hPast, hNone, if_neg (by simp), if_neg (by simp)]
    congr 1
    omega
  rw [hGoOn]
  exact stop_at_end (by omega)

theorem executeEnd_query (hn : ∀ b ∈ n, Decimal.isDigit b)
    (hLine : HoldsLine cmd (registerLine n [0x3F]).length (registerLine n [0x3F])) :
    executeEnd i cmd (registerLine n [0x3F]).length s =
      some (.respond (.register (registerVal i (n.foldl digitStep 0) s)) s) := by
  have hLength : (registerLine n [0x3F]).length = 3 + n.length + [(0x3F : UInt8)].length :=
    length_registerLine
  rw [executeEnd_register hLine]
  generalize hLen : (registerLine n [0x3F]).length = len at *
  rw [List.length_singleton] at hLength
  have hMark : Ends [0x3F] := by
    intro b hb
    obtain rfl := Option.some.inj hb
    decide
  obtain ⟨hPast, hReg⟩ := digits_at (a := [0x41, 0x54, 0x53]) (k := 2 + 1) hn hMark len
    (by omega) rfl hLine 0
  have hSign : peek cmd len (2 + 1 + n.length) = some 0x3F := hLine.sign
  have hStop : ∃ v, atRegister i cmd len 2 s = .stop v := by
    unfold atRegister
    dsimp only
    rw [hPast, hSign, if_neg (by decide), if_pos rfl]
    exact ⟨_, rfl⟩
  obtain ⟨w, hStop⟩ := hStop
  have hS := (hLine.cmd_eq (k := 2) (b := 0x53) rfl).2
  have hVerb : atVerb (cmd 2) = .register := by
    rw [hS]
    rfl
  rw [hStop]
  show stopEnd i cmd len (2, s) = _
  unfold stopEnd commandEnd
  dsimp only
  rw [if_pos (by omega), if_neg (by rw [hS]; decide), hVerb]
  dsimp only
  rw [hPast, if_pos hSign, hReg]

end Line

section Typed

variable {i : PortIdx} {s : Sys} {line : List UInt8}

/-- A character that goes into the buffer. -/
def Plain (b : UInt8) : Prop := b ≠ 0x0D ∧ b ≠ 0x08 ∧ b ≠ 0x7F ∧ b ≠ 0x0A

/-- The interpreter takes the next byte for the first of a command line. -/
structure AtStart (i : PortIdx) (s : Sys) : Prop where
  command : dataMode i s = false
  start : (s.ats i).pos = 0

/-- What a typed character keeps, and the line it leaves in the buffer. -/
structure Typed (i : PortIdx) (line : List UInt8) (s t : Sys) : Prop where
  command : dataMode i t = false
  pos : (t.ats i).pos = line.length
  buf : HoldsLine (t.ats i).buf line.length line
  s0 : (t.ats i).s0 = (s.ats i).s0
  idle : (t.ports i).idleTimeout = (s.ports i).idleTimeout

/-- At the start of a line nothing has been typed. -/
theorem typed_nil (h : AtStart i s) : Typed i [] s s :=
  ⟨h.command, h.start, fun k => by simp [peek], rfl, rfl⟩

/-- A plain byte goes behind the line, as long as there is room for it. -/
theorem typed_byte {b : UInt8} {t : Sys} (h : Typed i line s t) (hPlain : Plain b)
    (hRoom : line.length ≤ 127) : Typed i ((line ++ [b]).take 127) s (atInput i b t).1 := by
  have hEchoed : Typed i line s (if (t.ats i).echo then atSendStr i [b] t else t) := by
    split_ifs
    · refine ⟨?_, h.pos, h.buf, h.s0, ?_⟩
      · rw [← h.command]
        simp [dataMode, atSendStr]
      · rw [← h.idle]
        simp [atSendStr]
    · exact h
  have hEdit : (atInput i b t).1 =
      if ((if (t.ats i).echo then atSendStr i [b] t else t).ats i).pos < 127 then
        (if (t.ats i).echo then atSendStr i [b] t else t).modAt i fun m =>
          { m with buf := fun k => if k = m.pos then b else m.buf k, pos := m.pos + 1 }
      else if (t.ats i).echo then atSendStr i [b] t else t := by
    obtain ⟨hCr, hBs, hDel, hLf⟩ := hPlain
    rw [atInput_command h.command, atEdit]
    dsimp only
    rw [if_neg hCr, if_neg (not_or.mpr ⟨hBs, hDel⟩), if_neg hLf]
    split_ifs <;> rfl
  rw [hEdit]
  generalize (if (t.ats i).echo then atSendStr i [b] t else t) = u at hEchoed
  obtain ⟨hCommand, hPos, hBuf, hS0, hIdle⟩ := hEchoed
  by_cases hFull : (u.ats i).pos < 127
  · have hTake : (line ++ [b]).take 127 = line ++ [b] := by
      apply List.take_of_length_le
      rw [List.length_append, List.length_singleton]
      omega
    rw [if_pos hFull, hTake]
    refine ⟨?_, by simp [hPos], fun k => ?_, by simpa using hS0, hIdle⟩
    · rw [← hCommand]
      simp [dataMode]
    · rw [List.length_append, List.length_singleton]
      have hOld := hBuf k
      simp only [Sys.modAt, if_true, peek, hPos] at hOld ⊢
      by_cases hk : k < line.length
      · rw [if_pos hk] at hOld
        rw [if_pos (by omega), if_neg (by omega), List.getElem?_append_left hk, hOld]
      · by_cases hEnd : k = line.length
        · simp [hEnd]
        · rw [if_neg (by omega), List.getElem?_eq_none (by simp; omega)]
  · have hTake : (line ++ [b]).take 127 = line := List.take_left' (by omega)
    rw [if_neg hFull, hTake]
    exact ⟨hCommand, hPos, hBuf, hS0, hIdle⟩

/-- A line of plain characters is in the buffer as far as it fits. -/
theorem typed_line {more : List UInt8} {t : Sys} (hPlain : ∀ b ∈ more, Plain b)
    (h : Typed i line s t) (hRoom : line.length ≤ 127) :
    Typed i ((line ++ more).take 127) s (typeBytes i more t) := by
  induction more generalizing line t with
  | nil =>
      rw [List.append_nil, List.take_of_length_le hRoom]
      exact h
  | cons b more ih =>
      obtain ⟨hb, hMore⟩ := List.forall_mem_cons.mp hPlain
      have hNext := ih hMore (typed_byte h hb hRoom) (by simp)
      have hLine : ((line ++ [b]).take 127 ++ more).take 127 = (line ++ b :: more).take 127 := by
        have hAppend : line ++ b :: more = (line ++ [b]) ++ more := by simp
        rw [hAppend, List.take_append, @List.take_append _ (line ++ [b]), List.take_take]
        congr 2
        rw [List.length_take]
        omega
      rw [hLine] at hNext
      exact hNext

theorem typed_entered {t : Sys} (h : Typed i line s t) : Typed i line s (entered i t) := by
  obtain ⟨hCommand, hPos, hBuf, hS0, hIdle⟩ := h
  have hEcho : Typed i line s (if (t.ats i).echo then atSendStr i [0x0D] t else t) := by
    split_ifs
    · refine ⟨?_, hPos, hBuf, hS0, ?_⟩
      · rw [← hCommand]
        simp [dataMode, atSendStr]
      · rw [← hIdle]
        simp [atSendStr]
    · exact ⟨hCommand, hPos, hBuf, hS0, hIdle⟩
  unfold entered
  dsimp only
  generalize (if (t.ats i).echo then atSendStr i [0x0D] t else t) = u at hEcho
  obtain ⟨hCommand, hPos, hBuf, hS0, hIdle⟩ := hEcho
  refine ⟨?_, by simp [hPos], fun k => ?_, by simpa using hS0, hIdle⟩
  · rw [← hCommand]
    simp [dataMode]
  · have hOld := hBuf k
    simp only [Sys.modAt, if_true, peek, hPos] at hOld ⊢
    by_cases hk : k < line.length
    · rw [if_pos hk] at hOld
      rw [if_pos hk, if_neg (by omega), hOld]
    · rw [if_neg hk] at hOld
      rw [if_neg hk, hOld]

/-- A whole command line, with its return. -/
def enterLine (i : PortIdx) (line : List UInt8) (s : Sys) : Sys :=
  (atInput i 0x0D (typeBytes i line s)).1

/-- The end `at_execute` comes to on the line. -/
def endOfLine (i : PortIdx) (line : List UInt8) (s : Sys) : Option LineEnd :=
  let u := entered i (typeBytes i line s)
  executeEnd i (u.ats i).buf (u.ats i).pos u

/-- The end of a typed line is that of what the buffer has kept of it, its first 127
bytes. -/
theorem endOfLine_eq (h : AtStart i s) (hPlain : ∀ b ∈ line, Plain b) :
    ∃ u, Typed i (line.take 127) s u ∧
      endOfLine i line s = executeEnd i (u.ats i).buf (line.take 127).length u ∧
      (line.take 127 ≠ [] → enterLine i line s =
        (atExecute i u).1.modAt i fun m => { m with pos := 0 }) := by
  have hTyped := typed_line hPlain (typed_nil h) (Nat.zero_le _)
  rw [List.nil_append] at hTyped
  have hEntered := typed_entered hTyped
  refine ⟨_, hEntered, ?_, fun hLine => ?_⟩
  · rw [← hEntered.pos]
    rfl
  · have hSome : 0 < ((typeBytes i line s).ats i).pos := by
      rw [hTyped.pos]
      exact List.length_pos_of_ne_nil hLine
    rw [enterLine, atInput_return hTyped.command, if_pos hSome]

/-- What a response leaves alone. -/
theorem send_settings (r : AtResponse) (s : Sys) : (r.send i s).ats = s.ats ∧
    ((r.send i s).ports i).idleTimeout = (s.ports i).idleTimeout ∧
    dataMode i (r.send i s) = dataMode i s := by
  have hText (text : List UInt8) (s : Sys) : (atSendStr i text s).ats = s.ats ∧
      ((atSendStr i text s).ports i).idleTimeout = (s.ports i).idleTimeout ∧
      dataMode i (atSendStr i text s) = dataMode i s :=
    ⟨rfl, by simp [atSendStr], by simp [atSendStr, dataMode]⟩
  have hRespond (text : List UInt8) (s : Sys) : (atRespond i text s).ats = s.ats ∧
      ((atRespond i text s).ports i).idleTimeout = (s.ports i).idleTimeout ∧
      dataMode i (atRespond i text s) = dataMode i s := by
    unfold atRespond
    split_ifs
    · exact ⟨rfl, rfl, rfl⟩
    · rw [(hText _ _).1, (hText _ _).2.1, (hText _ _).2.2, (hText _ _).1, (hText _ _).2.1,
        (hText _ _).2.2]
      exact hText _ _
    · rw [(hText _ _).1, (hText _ _).2.1, (hText _ _).2.2]
      exact hText _ _
  cases r <;> exact hRespond _ s

/-- A line that is answered leaves the settings it was answered in. -/
theorem enterLine_settings {u v : Sys} {r : AtResponse} (h : Typed i (line.take 127) s u)
    (hEnd : executeEnd i (u.ats i).buf (line.take 127).length u = some (.respond r v))
    (hEnter : enterLine i line s = (atExecute i u).1.modAt i fun m => { m with pos := 0 }) :
    ((enterLine i line s).ats i).s0 = (v.ats i).s0 ∧
      ((enterLine i line s).ports i).idleTimeout = (v.ports i).idleTimeout ∧
      (dataMode i v = false → AtStart i (enterLine i line s)) := by
  obtain ⟨e, hSome, hResult, -⟩ := executeEnd_spec i u
  rw [h.pos, hEnd] at hSome
  obtain rfl := Option.some.inj hSome
  obtain ⟨hAts, hIdle, hMode⟩ := send_settings (i := i) r v
  rw [hEnter, hResult]
  show (((r.send i v).modAt i fun m => { m with pos := 0 }).ats i).s0 = _ ∧
    (((r.send i v).modAt i fun m => { m with pos := 0 }).ports i).idleTimeout = _ ∧
    (_ → AtStart i ((r.send i v).modAt i fun m => { m with pos := 0 }))
  refine ⟨by simp [hAts], by simpa using hIdle, fun hCommand => ⟨?_, by simp⟩⟩
  rw [← hCommand, ← hMode]
  simp [dataMode]

end Typed

/-- The registers there are. -/
inductive SRegister where
  | s0
  | s30

namespace SRegister

/-- The number of the register in a command. -/
def name : SRegister → List UInt8
  | s0 => [0x30]
  | s30 => [0x33, 0x30]

def value (i : PortIdx) (s : Sys) : SRegister → Nat
  | s0 => (s.ats i).s0.toNat
  | s30 => (s.ports i).idleTimeout.toNat

/-- The values a register can hold. -/
def modulus : SRegister → Nat
  | s0 => 2 ^ 8
  | s30 => 2 ^ 16

/-- `ATSr=v`. -/
def setLine (r : SRegister) (v : List UInt8) : List UInt8 := registerLine r.name (0x3D :: v)

/-- `ATSr?`. -/
def queryLine (r : SRegister) : List UInt8 := registerLine r.name [0x3F]

/-- The register holds the number, or the line was refused. -/
def Set (r : SRegister) (v : List UInt8) (i : PortIdx) (s : Sys) : Prop :=
  r.value i (enterLine i (r.setLine v) s) = number v ∨
    (∃ u, endOfLine i (r.setLine v) s = some (.respond .error u)) ∧
      r.value i (enterLine i (r.setLine v) s) = r.value i s

/-- A query is answered with a numeral of the value. -/
def Shown (r : SRegister) (i : PortIdx) (s : Sys) : Prop :=
  ∃ val u, endOfLine i r.queryLine s = some (.respond (.register val) u) ∧
    Run (registerText val) ∧ number (registerText val) = r.value i s

def ReadsBack (r : SRegister) (v : List UInt8) : Prop :=
  ∀ i s, AtStart i s → r.Set v i s ∧ r.Shown i (enterLine i (r.setLine v) s)

/-- The numbers that can be read back. -/
def limit : SRegister → Nat
  | s0 => 255
  | s30 => 999

/-- The digits there is room for behind the equals sign. -/
def room (r : SRegister) : Nat := 123 - r.name.length

end SRegister

/-- A command about another register changes neither of the two. -/
def LeavesRegisters (n v : List UInt8) : Prop :=
  ∀ i s, AtStart i s → ∀ r : SRegister,
    r.value i (enterLine i (registerLine n (0x3D :: v)) s) = r.value i s

section Registers

variable {i : PortIdx} {s : Sys} {n v rest : List UInt8}

theorem plain_digit {b : UInt8} (h : Decimal.isDigit b) : Plain b := by
  refine ⟨?_, ?_, ?_, ?_⟩ <;>
  · rintro rfl
    exact absurd h (by decide)

theorem plain_registerLine (hn : ∀ b ∈ n, Decimal.isDigit b) (hRest : ∀ b ∈ rest, Plain b) :
    ∀ b ∈ registerLine n rest, Plain b := by
  intro b hb
  rcases List.mem_append.mp hb with hFront | hBack
  · rcases List.mem_append.mp hFront with hAts | hDigit
    · have hAll : ∀ b ∈ ([0x41, 0x54, 0x53] : List UInt8), Plain b := by
        unfold Plain
        decide +kernel
      exact hAll b hAts
    · exact plain_digit (hn b hDigit)
  · exact hRest b hBack

/-- A register has the value written to it, if that was the one named, and else its old
value. -/
theorem setRegister_value (reg val : UInt16) (u : Sys) (r : SRegister) :
    r.value i (setRegister i reg val u) =
      if number r.name = reg.toNat then val.toNat % r.modulus else r.value i u := by
  have hVal : val.toNat < 2 ^ 16 := val.toNat_lt
  have hZero : reg.toNat = 0 ↔ reg = 0 := UInt16.toNat_inj (b := 0)
  have hThirty : reg.toNat = 30 ↔ reg = 30 := UInt16.toNat_inj (b := 30)
  unfold setRegister
  cases r with
  | s0 =>
      show _ = if 0 = reg.toNat then _ else _
      by_cases h : reg = 0
      · rw [if_pos h, if_pos (hZero.mpr h).symm]
        simp [SRegister.value, SRegister.modulus]
      · have hOther : ¬ 0 = reg.toNat := fun hEq => h (hZero.mp hEq.symm)
        rw [if_neg h, if_neg hOther]
        split_ifs <;> rfl
  | s30 =>
      show _ = if 30 = reg.toNat then _ else _
      by_cases h : reg = 30
      · rw [if_neg (by rw [h]; decide), if_pos h, if_pos (hThirty.mpr h).symm]
        simp only [SRegister.value, SRegister.modulus, Nat.mod_eq_of_lt hVal]
        simp
      · have hOther : ¬ 30 = reg.toNat := fun hEq => h (hThirty.mp hEq.symm)
        rw [if_neg h, if_neg hOther]
        split_ifs <;> rfl

/-- Setting a register: the number of the register counts modulo 2^16, the value as far as it
fits the line and then the register. -/
theorem enter_set (h : AtStart i s) (hn : ∀ b ∈ n, Decimal.isDigit b)
    (hv : ∀ b ∈ v, Decimal.isDigit b)
    (hRoom : n.length ≤ 123) :
    (∃ u, endOfLine i (registerLine n (0x3D :: v)) s = some (.respond .ok u)) ∧
      AtStart i (enterLine i (registerLine n (0x3D :: v)) s) ∧
      ∀ r : SRegister, r.value i (enterLine i (registerLine n (0x3D :: v)) s) =
        if number r.name = number n % 2 ^ 16 then number (v.take (123 - n.length)) % r.modulus
        else r.value i s := by
  have hPlain : ∀ b ∈ registerLine n (0x3D :: v), Plain b :=
    plain_registerLine hn (List.forall_mem_cons.mpr ⟨by unfold Plain; decide,
      fun b hb => plain_digit (hv b hb)⟩)
  have hCut : (registerLine n (0x3D :: v)).take 127 =
    registerLine n (0x3D :: v.take (123 - n.length)) := by
    have hFront : ([0x41, 0x54, 0x53] ++ n ++ [0x3D]).length = 4 + n.length := by
      simp
      omega
    have hSplit (w : List UInt8) :
        registerLine n (0x3D :: w) = [0x41, 0x54, 0x53] ++ n ++ [0x3D] ++ w := by
      simp [registerLine]
    rw [hSplit, hSplit, List.take_append, List.take_of_length_le (by omega), hFront]
    congr 2
    omega
  obtain ⟨u, hTyped, hEnd, hEnter⟩ := endOfLine_eq h hPlain
  have hEnter := hEnter (by rw [hCut]; simp [registerLine])
  have hTake : ∀ b ∈ v.take (123 - n.length), Decimal.isDigit b := fun b hb =>
    hv b (List.mem_of_mem_take hb)
  have hResult := executeEnd_set (i := i) (s := u) hn hTake (hCut ▸ hTyped.buf)
  rw [← hCut] at hResult
  obtain ⟨hS0, hIdle, hReady⟩ := enterLine_settings hTyped hResult hEnter
  refine ⟨⟨_, hEnd.trans hResult⟩, hReady ?_, fun r => ?_⟩
  · rw [← hTyped.command]
    unfold setRegister
    split_ifs <;> simp [dataMode]
  · have hValue : r.value i (enterLine i (registerLine n (0x3D :: v)) s) =
        r.value i (setRegister i (n.foldl digitStep 0)
          ((v.take (123 - n.length)).foldl digitStep 0) u) := by
      cases r with
      | s0 => exact congrArg UInt8.toNat hS0
      | s30 => exact congrArg UInt16.toNat hIdle
    have hBefore : r.value i u = r.value i s := by
      cases r with
      | s0 => exact congrArg UInt8.toNat hTyped.s0
      | s30 => exact congrArg UInt16.toNat hTyped.idle
    have hNarrow : ∀ m, m % 2 ^ 16 % r.modulus = m % r.modulus := by
      intro m
      cases r with
      | s0 => exact Nat.mod_mod_of_dvd m (by decide)
      | s30 => exact Nat.mod_mod m _
    rw [hValue, setRegister_value, foldl_digitStep hn, foldl_digitStep hTake, hNarrow, hBefore]

/-- A digit of a query, for a value that is not negative. -/
theorem digitChar_nat (q : Nat) :
    Decimal.isDigit (digitChar q) = true ∧ value (digitChar q) = q % 10 := by
  have hTmod : ((q : Int).tmod 10) = ((q % 10 : Nat) : Int) := by
    rw [Int.tmod_eq_emod_of_nonneg (Int.natCast_nonneg q)]
    rfl
  have hByte : digitChar q = UInt8.ofNat (48 + q % 10) := by
    have hLt : q % 10 < 10 := Nat.mod_lt q (by omega)
    rw [digitChar, hTmod]
    congr 1
    omega
  have hTen : ∀ d < 10, Decimal.isDigit (UInt8.ofNat (48 + d)) = true ∧
      value (UInt8.ofNat (48 + d)) = d := by
    decide
  rw [hByte]
  exact hTen _ (Nat.mod_lt q (by omega))

/-- Three digits show a value below 1000 and no other. -/
theorem registerText_iff (val : UInt16) :
    Run (registerText val) ∧ number (registerText val) = val.toNat ↔ val.toNat ≤ 999 := by
  constructor
  · rintro ⟨hRun, hNumber⟩
    have hLt : number (registerText val) < 10 ^ 3 := number_lt hRun.digits
    omega
  · intro hSmall
    have hInt : int16 val = (val.toNat : Int) :=
      if_pos (by rw [UInt16.lt_iff_toNat_lt]; exact Nat.lt_of_le_of_lt hSmall (by decide))
    have hText : registerText val =
        [digitChar ((val.toNat / 100 : Nat) : Int), digitChar ((val.toNat / 10 : Nat) : Int),
          digitChar (val.toNat : Int)] := by
      rw [registerText, hInt]
      rfl
    obtain ⟨hA, hHundreds⟩ := digitChar_nat (val.toNat / 100)
    obtain ⟨hB, hTens⟩ := digitChar_nat (val.toNat / 10)
    obtain ⟨hC, hOnes⟩ := digitChar_nat val.toNat
    rw [hText]
    have hDigits : ∀ b ∈ [digitChar ((val.toNat / 100 : Nat) : Int),
        digitChar ((val.toNat / 10 : Nat) : Int), digitChar (val.toNat : Int)],
          Decimal.isDigit b := by
      rw [List.forall_mem_cons, List.forall_mem_cons, List.forall_mem_singleton]
      exact ⟨hA, hB, hC⟩
    refine ⟨⟨List.cons_ne_nil _ _, hDigits⟩, ?_⟩
    rw [number_cons, number_cons, number_cons, number_nil, hHundreds, hTens, hOnes]
    simp only [List.length_cons, List.length_nil]
    omega

/-- A value is shown exactly if it has three digits at most. -/
theorem shown_iff (h : AtStart i s) (r : SRegister) : r.Shown i s ↔ r.value i s ≤ 999 := by
  have hName : ∀ b ∈ r.name, Decimal.isDigit b := by cases r <;> decide +kernel
  have hPlain : ∀ b ∈ r.queryLine, Plain b := by
    apply plain_registerLine hName
    unfold Plain
    decide +kernel
  have hFits : r.queryLine.take 127 = r.queryLine := by
    apply List.take_of_length_le
    cases r <;> decide
  obtain ⟨u, hTyped, hEnd, -⟩ := endOfLine_eq h hPlain
  rw [hFits] at hTyped hEnd
  have hQuery := executeEnd_query (i := i) (s := u) hName hTyped.buf
  have hResult := hEnd.trans hQuery
  have hVal : (registerVal i (r.name.foldl digitStep 0) u).toNat = r.value i s := by
    cases r with
    | s0 => exact (UInt8.toNat_toUInt16 _).trans (congrArg UInt8.toNat hTyped.s0)
    | s30 => exact congrArg UInt16.toNat hTyped.idle
  constructor
  · rintro ⟨val, w, hSome, hRun, hNumber⟩
    obtain ⟨hResponse, -⟩ := LineEnd.respond.inj (Option.some.inj (hSome.symm.trans hResult))
    obtain rfl := AtResponse.register.inj hResponse
    rw [← hVal] at hNumber ⊢
    exact (registerText_iff _).mp ⟨hRun, hNumber⟩
  · intro hSmall
    rw [← hVal] at hSmall
    obtain ⟨hRun, hNumber⟩ := (registerText_iff _).mpr hSmall
    exact ⟨_, u, hResult, hRun, hNumber.trans hVal⟩

/-- A value is read back exactly if it is within the register's limit and its digits are
in the buffer, or it is zero. -/
theorem readsBack_iff (r : SRegister) {v : List UInt8} (hv : Run v) :
    r.ReadsBack v ↔ number v ≤ r.limit ∧ (v.length ≤ r.room ∨ number v = 0) := by
  have hName : ∀ b ∈ r.name, Decimal.isDigit b := by cases r <;> decide +kernel
  have hNumber : number r.name = number r.name % 2 ^ 16 := by cases r <;> decide
  have hShort : r.name.length ≤ 123 := by cases r <;> decide
  have hSet (i : PortIdx) (s : Sys) (h : AtStart i s) :
      r.Set v i s ∧ r.Shown i (enterLine i (r.setLine v) s) ↔
        number (v.take r.room) % r.modulus = number v ∧
          number (v.take r.room) % r.modulus ≤ 999 := by
    obtain ⟨⟨u, hOk⟩, hReady, hValue⟩ := enter_set h hName hv.digits hShort
    have hAfter : r.value i (enterLine i (r.setLine v) s) = number (v.take r.room) % r.modulus :=
      (hValue r).trans (if_pos hNumber)
    have hNotError : ¬ ∃ w, endOfLine i (r.setLine v) s = some (.respond .error w) := by
      rintro ⟨w, hError⟩
      nomatch hError.symm.trans hOk
    have hShown : r.Shown i (enterLine i (r.setLine v) s) ↔
        r.value i (enterLine i (r.setLine v) s) ≤ 999 := shown_iff hReady r
    rw [SRegister.Set, or_iff_left fun hRefused => hNotError hRefused.1, hShown, hAfter]
  have hCut : r.ReadsBack v ↔ number (v.take r.room) % r.modulus = number v ∧
      number (v.take r.room) % r.modulus ≤ 999 := by
    constructor
    · intro hReads
      exact (hSet 0 (.zero 0) ⟨rfl, rfl⟩).mp (hReads 0 (.zero 0) ⟨rfl, rfl⟩)
    · exact fun hBoth i s h => (hSet i s h).mpr hBoth
  have hParts : number v = number (v.take r.room) * 10 ^ (v.length - r.room) +
    number (v.drop r.room) := by
    have hSplit := number_append (v.take r.room) (v.drop r.room)
    rwa [List.take_append_drop, List.length_drop] at hSplit
  have hLimit : r.limit < r.modulus ∧ r.limit ≤ 999 ∧
      ∀ x < r.modulus, x ≤ 999 → x ≤ r.limit := by
    cases r with
    | s0 => exact ⟨by decide, by decide, fun x hx _ => Nat.le_of_lt_succ hx⟩
    | s30 => exact ⟨by decide, by decide, fun x _ hx => hx⟩
  obtain ⟨hBelow, hSmall, hLeast⟩ := hLimit
  rw [hCut]
  constructor
  · rintro ⟨hEq, hLe⟩
    have hMod : number (v.take r.room) % r.modulus < r.modulus := Nat.mod_lt _ (by omega)
    rw [hEq] at hLe hMod
    refine ⟨hLeast _ hMod hLe, ?_⟩
    by_cases hFits : v.length ≤ r.room
    · exact Or.inl hFits
    · -- a cut number is at most a tenth of the whole
      have hTen : number (v.take r.room) * 10 ≤ number v := by
        rw [hParts]
        apply Nat.le_add_right_of_le
        apply Nat.mul_le_mul_left
        exact Nat.le_self_pow (by omega) 10
      have hLess := Nat.mod_le (number (v.take r.room)) r.modulus
      omega
  · rintro ⟨hLe, hFits | hZero⟩
    · rw [List.take_of_length_le hFits, Nat.mod_eq_of_lt (by omega)]
      exact ⟨rfl, by omega⟩
    · have hNone : number (v.take r.room) = 0 := by
        rw [hZero] at hParts
        have hPow : 0 < 10 ^ (v.length - r.room) := Nat.pow_pos (by omega)
        have hProduct : number (v.take r.room) * 10 ^ (v.length - r.room) = 0 := by omega
        exact (Nat.mul_eq_zero.mp hProduct).resolve_right (by omega)
      rw [hNone, hZero, Nat.zero_mod]
      exact ⟨rfl, by omega⟩

/-- A line with no room left for the equals sign sets nothing. -/
theorem enter_cut (h : AtStart i s) (hn : ∀ b ∈ n, Decimal.isDigit b)
    (hv : ∀ b ∈ v, Decimal.isDigit b)
    (hLong : 124 ≤ n.length) (r : SRegister) :
    r.value i (enterLine i (registerLine n (0x3D :: v)) s) = r.value i s := by
  have hPlain : ∀ b ∈ registerLine n (0x3D :: v), Plain b :=
    plain_registerLine hn (List.forall_mem_cons.mpr ⟨by unfold Plain; decide,
      fun b hb => plain_digit (hv b hb)⟩)
  have hCut : (registerLine n (0x3D :: v)).take 127 = registerLine (n.take 124) [] := by
    rw [registerLine, registerLine, List.append_nil, List.append_assoc, List.take_append,
      List.take_of_length_le (by decide), List.take_append_of_le_length (by simpa using hLong)]
    rfl
  obtain ⟨u, hTyped, -, hEnter⟩ := endOfLine_eq h hPlain
  have hEnter := hEnter (by rw [hCut]; simp [registerLine])
  have hResult := executeEnd_unfinished (i := i) (s := u)
    (fun b hb => hn b (List.mem_of_mem_take hb)) (hCut ▸ hTyped.buf)
  rw [← hCut] at hResult
  obtain ⟨hS0, hIdle, -⟩ := enterLine_settings hTyped hResult hEnter
  cases r with
  | s0 => exact congrArg UInt8.toNat (hS0.trans hTyped.s0)
  | s30 => exact congrArg UInt16.toNat (hIdle.trans hTyped.idle)

/-- A port whose register does not hold the value. -/
theorem exists_other (r : SRegister) (x : Nat) : ∃ s, AtStart 0 s ∧ r.value 0 s ≠ x := by
  by_cases hx : x = 0
  · cases r with
    | s0 => exact ⟨(Sys.zero 0).modAt 0 fun m => { m with s0 := 1 }, ⟨rfl, rfl⟩, by rw [hx]; decide⟩
    | s30 =>
        exact ⟨(Sys.zero 0).modPort 0 fun p => { p with idleTimeout := 1 }, ⟨rfl, rfl⟩, by
          rw [hx]; decide⟩
  · cases r with
    | s0 => exact ⟨.zero 0, ⟨rfl, rfl⟩, fun hEq => hx hEq.symm⟩
    | s30 => exact ⟨.zero 0, ⟨rfl, rfl⟩, fun hEq => hx hEq.symm⟩

/-- A command leaves both registers alone exactly if its number names neither, or the
line is cut off before the value. -/
theorem leavesRegisters_iff (hn : Run n) (hv : Run v) :
    LeavesRegisters n v ↔ 124 ≤ n.length ∨ number n % 2 ^ 16 ≠ 0 ∧ number n % 2 ^ 16 ≠ 30 := by
  constructor
  · intro hLeaves
    by_contra hNot
    obtain ⟨hRoom, hNamed⟩ := not_or.mp hNot
    have hReg : ∃ r : SRegister, number r.name = number n % 2 ^ 16 := by
      by_cases hZero : number n % 2 ^ 16 = 0
      · exact ⟨.s0, hZero.symm⟩
      · exact ⟨.s30, (not_ne_iff.mp fun hOther => hNamed ⟨hZero, hOther⟩).symm⟩
    obtain ⟨r, hr⟩ := hReg
    obtain ⟨s, hReady, hOther⟩ := exists_other r (number (v.take (123 - n.length)) % r.modulus)
    obtain ⟨-, -, hValue⟩ := enter_set hReady hn.digits hv.digits (by omega)
    apply hOther
    rw [← hLeaves 0 s hReady r, hValue r, if_pos hr]
  · intro hOther i s hReady r
    by_cases hLong : 124 ≤ n.length
    · exact enter_cut hReady hn.digits hv.digits hLong r
    · obtain ⟨hZero, hThirty⟩ := hOther.resolve_left hLong
      obtain ⟨-, -, hValue⟩ := enter_set hReady hn.digits hv.digits (by omega)
      rw [hValue r, if_neg]
      cases r with
      | s0 => exact Ne.symm hZero
      | s30 => exact Ne.symm hThirty

end Registers

/-- What is set is read back just where the number fits the register and three digits, and a
line that is cut was all zeros; another register is left alone unless its number wraps around
to one of the two in front of an equals sign. -/
theorem register_commands {v : List UInt8} (hv : Run v) :
    (∀ r : SRegister, r.ReadsBack v ↔ number v ≤ r.limit ∧ (v.length ≤ r.room ∨ number v = 0)) ∧
      ∀ n : List UInt8, Run n →
        (LeavesRegisters n v ↔ 124 ≤ n.length ∨ number n % 2 ^ 16 ≠ 0 ∧ number n % 2 ^ 16 ≠ 30) :=
  ⟨fun r => readsBack_iff r hv, fun _ hn => leavesRegisters_iff hn hv⟩

/-- `ATS30=30`, as the tests have it. -/
theorem register_commands_thirty : SRegister.s30.ReadsBack [0x33, 0x30] :=
  ((register_commands (by decide)).1 .s30).mpr (by decide)

/-- `ATS0=256` is answered with OK and switches auto-answer off; `ATS65536=1` sets S0. -/
theorem register_wraps : Run [0x32, 0x35, 0x36] ∧ ¬ SRegister.s0.ReadsBack [0x32, 0x35, 0x36] ∧
    ¬ LeavesRegisters [0x36, 0x35, 0x35, 0x33, 0x36] [0x31] := by
  refine ⟨by decide, ?_, ?_⟩
  · rw [readsBack_iff .s0 (by decide)]
    decide
  · rw [leavesRegisters_iff (by decide) (by decide)]
    decide

end Vmodem
