import Vmodem.Driver.DebugLog

/-! The log file holds what was logged, as long as MUX_DEBUGLOG finds the head of the buffer
at its beginning: it moves the head there, and the position of the file stays behind. -/

namespace Vmodem

namespace LogState

/-- A flush makes the file hold everything that was logged. -/
def Exact (s : LogState) : Prop := s.flush.file = s.logged

/-- The bytes not written to the file yet lie behind its position, up to the head. -/
structure Behind (s : LogState) (pending : List UInt8) : Prop where
  fileOpen : s.fileOpen
  logged : s.logged = s.file ++ pending
  fresh : s.fresh = pending.length
  room : pending.length < dbglogSize
  last : s.lastH < dbglogSize
  head : s.log.head = (s.lastH + pending.length) % dbglogSize
  cells : ∀ k (h : k < pending.length), s.log.dbglog ((s.lastH + k) % dbglogSize) = pending[k]

variable {s t : LogState} {pending : List UInt8}

/-- An empty log is ahead of an empty file. -/
theorem behind_start : Behind start [] :=
  ⟨rfl, rfl, rfl, by decide, by decide, rfl, fun k h => absurd h (Nat.not_lt_zero k)⟩

/-- A character is stored behind the others. -/
theorem Behind.putByte (h : s.Behind pending) (b : UInt8)
    (hRoom : pending.length + 1 < dbglogSize) :
    (s.putByte b).Behind (pending ++ [b]) := by
  have hHead := h.head
  refine ⟨h.fileOpen, ?_, ?_, ?_, h.last, ?_, fun k hk => ?_⟩
  · show s.logged ++ [b] = s.file ++ (pending ++ [b])
    rw [h.logged, List.append_assoc]
  · show s.fresh + 1 = (pending ++ [b]).length
    rw [h.fresh, List.length_append, List.length_singleton]
  · rw [List.length_append, List.length_singleton]
    exact hRoom
  · show (s.log.head + 1) % dbglogSize = (s.lastH + (pending ++ [b]).length) % dbglogSize
    rw [hHead, List.length_append, List.length_singleton, Nat.mod_add_mod, Nat.add_assoc]
  · rw [List.length_append, List.length_singleton] at hk
    show Function.update s.log.dbglog s.log.head b ((s.lastH + k) % dbglogSize) =
      (pending ++ [b])[k]
    rcases Nat.lt_or_eq_of_le (Nat.le_of_lt_succ hk) with hOld | rfl
    · have hOther : (s.lastH + k) % dbglogSize ≠ s.log.head := by
        rw [hHead]
        unfold dbglogSize at *
        omega
      rw [Function.update_of_ne hOther, h.cells k hOld, List.getElem_append_left hOld]
    · rw [← hHead, Function.update_self]
      simp

/-- A message that does not overrun the reader is pending behind the rest. -/
theorem Behind.dbg (h : s.Behind pending) (msg : CString)
    (hRoom : s.fresh + msg.bytes.length < dbglogSize) :
    (s.dbg msg).Behind (pending ++ msg.bytes) := by
  rw [h.fresh] at hRoom
  unfold LogState.dbg
  generalize msg.bytes = bs at hRoom ⊢
  induction bs generalizing s pending with
  | nil => simpa using h
  | cons b bs ih =>
      rw [List.length_cons] at hRoom
      have hNext : pending.length + 1 < dbglogSize := by omega
      have hAll := ih (h.putByte b hNext) (by
        rw [List.length_append, List.length_singleton]
        omega)
      rwa [List.append_assoc, List.singleton_append] at hAll

/-- What the file still lacks is what the flush writes. -/
theorem Behind.unwritten (h : s.Behind pending) : s.log.unwritten s.lastH = pending := by
  have hHead := h.head
  have hLast := h.last
  have hRoom := h.room
  unfold dbglogSize at hHead hLast hRoom
  have hCell : ∀ k (hk : k < pending.length) (m : Nat), m = (s.lastH + k) % 2048 →
      s.log.dbglog m = pending[k] := by
    intro k hk m hm
    rw [hm]
    exact h.cells k hk
  unfold DebugLog.unwritten DebugLog.slice dbglogSize
  split_ifs with hSame hAfter hFront
  · exact (List.length_eq_zero_iff.mp (by omega)).symm
  · have hLength : s.log.head - s.lastH = pending.length := by omega
    apply List.ext_getElem
    · simpa using hLength
    · intro k hk hk'
      rw [List.getElem_map, List.getElem_range]
      exact hCell k hk' _ (by omega)
  · have hLength : 2048 - s.lastH + s.log.head = pending.length := by omega
    apply List.ext_getElem
    · simpa using hLength
    · intro k hk hk'
      rcases Nat.lt_or_ge k (2048 - s.lastH) with hEnd | hStart
      · rw [List.getElem_append_left (by simpa using hEnd), List.getElem_map, List.getElem_range]
        exact hCell k hk' _ (by omega)
      · rw [List.getElem_append_right (by simpa using hStart), List.getElem_map,
          List.getElem_range, List.length_map, List.length_range]
        exact hCell k hk' _ (by omega)
  · have hLength : 2048 - s.lastH = pending.length := by omega
    apply List.ext_getElem
    · simpa using hLength
    · intro k hk hk'
      rw [List.append_nil] at hk
      rw [List.getElem_append_left hk, List.getElem_map, List.getElem_range]
      exact hCell k hk' _ (by omega)

/-- What is pending is what the next read returns. -/
theorem Behind.exact (h : s.Behind pending) : s.Exact := by
  show s.flush.file = s.logged
  unfold flush
  rw [if_pos h.fileOpen, h.logged, ← h.unwritten]

/-- A flush writes what is pending, and nothing is afterwards. -/
theorem Behind.flush (h : s.Behind pending) : s.flush.Behind [] := by
  have hExact := h.exact
  have hHead := h.head
  unfold Exact at hExact
  unfold LogState.flush at hExact ⊢
  rw [if_pos h.fileOpen] at hExact ⊢
  refine ⟨h.fileOpen, by simpa using hExact.symm, rfl, by decide, ?_, ?_,
    fun k hk => absurd hk (Nat.not_lt_zero k)⟩
  · show s.log.head < dbglogSize
    rw [hHead]
    exact Nat.mod_lt _ (by decide)
  · show s.log.head = (s.log.head + 0) % dbglogSize
    rw [hHead]
    simp

/-- A read that finds the head of the log at its beginning changes no pending byte. -/
theorem Behind.read (h : s.Behind pending) (bufsz : UInt16) (hZero : s.log.head = 0) :
    (s.read bufsz).Behind pending := by
  have hHead := h.head
  rw [hZero] at hHead
  exact ⟨h.fileOpen, h.logged, h.fresh, h.room, h.last, hHead, h.cells⟩

/-- MUX_DEBUGLOG is harmless to the file exactly if the head is at the beginning. -/
theorem Behind.read_iff (h : s.Behind pending) (bufsz : UInt16) :
    (s.read bufsz).Exact ↔ s.log.head = 0 := by
  have hHead := h.head
  have hLast := h.last
  have hRoom := h.room
  unfold dbglogSize at hHead hLast hRoom
  constructor
  · intro hExact
    have hWritten : s.file ++ ({ s.log with head := 0, count := 0 } : DebugLog).unwritten s.lastH =
        s.file ++ pending := by
      have hOpen : (s.read bufsz).fileOpen := h.fileOpen
      unfold Exact LogState.flush at hExact
      rw [if_pos hOpen] at hExact
      exact hExact.trans h.logged
    have hLength := congrArg List.length (List.append_cancel_left hWritten)
    unfold DebugLog.unwritten DebugLog.slice dbglogSize at hLength
    dsimp only at hLength
    by_cases hLastZero : s.lastH = 0
    · rw [if_pos hLastZero.symm, List.length_nil] at hLength
      omega
    · rw [if_neg (Ne.symm hLastZero), if_neg (Nat.not_lt_zero _), if_neg (Nat.lt_irrefl 0),
        List.append_nil, List.length_map, List.length_range] at hLength
      omega
  · intro hZero
    exact (h.read bufsz hZero).exact

/-- Few bytes between two flushes, and MUX_DEBUGLOG only with the head at the beginning. -/
def headFirst (s : LogState) (act : Action) : Bool :=
  small s act && match act with
    | .read _ => decide (s.log.head = 0)
    | _ => true

/-- Along a run of allowed steps the log stays ahead of the file. The induction is on
the run. -/
theorem behind_run (h : Transition.Run step (fun s act => headFirst s act) start t) :
    ∃ pending, t.Behind pending := by
  apply h.invariant ⟨[], behind_start⟩
  intro s act u ⟨pending, hBehind⟩ hAllowed hStep
  simp only [headFirst, Bool.and_eq_true] at hAllowed
  obtain ⟨hSmall, hHead⟩ := hAllowed
  cases act with
  | dbg msg =>
      obtain rfl := Option.some.inj hStep
      exact ⟨_, hBehind.dbg msg (by simpa [small] using hSmall)⟩
  | read bufsz =>
      obtain rfl := Option.some.inj hStep
      exact ⟨_, hBehind.read bufsz (by simpa using hHead)⟩
  | poll safe =>
      obtain rfl := Option.some.inj hStep
      cases safe with
      | false => exact ⟨_, hBehind⟩
      | true => exact ⟨_, hBehind.flush⟩

/-- While MUX_DEBUGLOG finds the head at the beginning, a flush makes the file equal to what
was logged, in every state of every run; and its next call leaves that so exactly if it
finds the head there again. -/
theorem log_file_exact (h : Transition.Run step (fun s act => headFirst s act) start t) :
    t.Exact ∧ ∀ bufsz : UInt16, (t.read bufsz).Exact ↔ t.log.head = 0 := by
  obtain ⟨pending, hBehind⟩ := behind_run h
  exact ⟨hBehind.exact, hBehind.read_iff⟩

/-- `VMODEM loaded`. -/
def loaded : CString where
  bytes := [0x56, 0x4D, 0x4F, 0x44, 0x45, 0x4D, 0x20, 0x6C, 0x6F, 0x61, 0x64, 0x65, 0x64, 0x0A]
  noNul := by decide

/-- The message is written to the file, and the log is read. -/
def readLoaded : LogState := ((start.dbg loaded).flush).read 2048

/-- The empty log is read, a message logged and the file written. -/
theorem log_file_exact_loaded :
    (((start.read 2048).dbg loaded).flush).file = loaded.bytes ∧
      (((start.read 2048).dbg loaded).flush).Exact ∧
      ∀ bufsz : UInt16, ((((start.read 2048).dbg loaded).flush).read bufsz).Exact ↔
        (((start.read 2048).dbg loaded).flush).log.head = 0 := by
  have hRead : Transition.Run step (fun s act => headFirst s act) start (start.read 2048) :=
    (Transition.Run.refl _).tail (a := .read 2048) (by decide) rfl
  have hLogged := hRead.tail (a := .dbg loaded) (by decide) rfl
  exact ⟨by decide +kernel, log_file_exact (hLogged.tail (a := .poll true) (by decide) rfl)⟩

/-- With nothing logged in between, the next flush writes the rest of the buffer to the file. -/
theorem read_spoils_file :
    Transition.Run step (fun s act => small s act) start readLoaded ∧ ¬ readLoaded.Exact := by
  refine ⟨?_, fun hExact => ?_⟩
  · have hWritten : Transition.Run step (fun s act => small s act) start (start.dbg loaded) :=
      (Transition.Run.refl _).tail (a := .dbg loaded) (by decide) rfl
    have hFlushed := hWritten.tail (a := .poll true) (by decide) rfl
    exact hFlushed.tail (a := .read 2048) (by decide) rfl
  · have hLength := congrArg List.length hExact
    revert hLength
    decide +kernel

end LogState

end Vmodem
