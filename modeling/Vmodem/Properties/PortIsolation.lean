import Vmodem.Invariants.Past
import Vmodem.Invariants.Output
import Vmodem.Driver.Script

/-! Bytes written on a port through AH=01h and AH=0Bh, and whatever AT commands
they spell, leave the other ports alone. The door setting is shared by design: AT&D
sets it on every port. -/

namespace Vmodem

/-- The only driver calls are AH=01h and AH=0Bh on this port. -/
def inputOn (i : PortIdx) (_ : Config) : Action → Bool
  | .call (.int14 k (.transmit _)) | .call (.int14 k (.transmitNoWait _)) => k = i
  | .call _ => false
  | _ => true

/-- The blocks these calls consist of. -/
def Block.inputWork (i : PortIdx) : Block → Bool
  | .int14 k (.transmit _) | .int14 k (.transmitNoWait _) | .flush k | .hangup k | .retryChar k _
  | .status k | .ret k _ => k = i
  | _ => false

/-- A flush in this step is about to run over unsent bytes of port `j`. -/
def flushesOver (j : PortIdx) (st : Config × Action) : Bool :=
  match st.2, st.1.todo with
  | .run a, .flush k :: _ => displaces k j a st.1.sys
  | _, _ => false

/-- Port `j` has stayed the same but for its door setting. -/
structure Apart (j : PortIdx) (s t : Sys) : Prop where
  port : ∃ ignore, t.ports j = { s.ports j with dtrIgnore := ignore }
  modem : t.ats j = s.ats j
  fossil : t.fossils j = s.fossils j

namespace Apart

variable {j : PortIdx} {s t u : Sys}

theorem refl (j : PortIdx) (s : Sys) : Apart j s s := ⟨⟨(s.ports j).dtrIgnore, rfl⟩, rfl, rfl⟩

/-- Two steps that leave a port apart leave it apart together. -/
theorem trans (left : Apart j s t) (right : Apart j t u) : Apart j s u where
  port := by
    obtain ⟨first, hFirst⟩ := left.port
    obtain ⟨second, hSecond⟩ := right.port
    exact ⟨second, by rw [hSecond, hFirst]⟩
  modem := right.modem.trans left.modem
  fossil := right.fossil.trans left.fossil

/-- A step that writes nothing of the port leaves it apart. -/
theorem of_eq (hPort : t.ports j = s.ports j) (hModem : t.ats j = s.ats j)
    (hFossil : t.fossils j = s.fossils j) : Apart j s t :=
  ⟨⟨(s.ports j).dtrIgnore, hPort⟩, hModem, hFossil⟩

/-- A step within another port leaves this one apart. -/
theorem of_own {i : PortIdx} (h : OwnPort i s t) (hj : j ≠ i) : Apart j s t :=
  ⟨h.ports j hj, h.ats j hj, congrFun h.fossils j⟩

end Apart

section Doors

variable {i j : PortIdx} {cmd : Nat → UInt8} {len : Nat}

/-- Of another port's line, a command can only set the door. -/
theorem commandEvents_doors {c : Nat → UInt8} {n : Nat} (hj : j ≠ i) (k : Nat) (s : Sys) :
    ∃ doors : List Bool, commandEvents i j c n k s = doors.map .door := by
  have hNe : ¬ i = j := fun h => hj h.symm
  unfold commandEvents
  simp only [hNe, false_and, if_false]
  split_ifs
  · exact ⟨[], rfl⟩
  · cases peek c n (k + 1) with
    | none => exact ⟨[], rfl⟩
    | some sub =>
        dsimp only
        split_ifs
        · exact ⟨[_], rfl⟩
        · exact ⟨[], rfl⟩
  · exact ⟨[], rfl⟩
  · cases atVerb (c k) <;> exact ⟨[], rfl⟩

/-- A command line of another port does at most AT&D to a line. The induction is on its
commands. -/
theorem loopEvents_doors (hj : j ≠ i) (fuel k : Nat) (s : Sys) :
    ∃ doors : List Bool, loopEvents i j cmd len fuel k s = doors.map .door := by
  induction fuel generalizing k s with
  | zero => exact ⟨[], rfl⟩
  | succ fuel ih =>
      unfold loopEvents
      split_ifs
      · obtain ⟨first, hFirst⟩ := commandEvents_doors (c := cmd) (n := len) hj k s
        cases atCommand i cmd len k s with
        | next k' s' =>
            obtain ⟨rest, hRest⟩ := ih k' s'
            exact ⟨first ++ rest, by rw [List.map_append, ← hFirst, ← hRest]⟩
        | stop s' | hangup s' => exact ⟨first, by rw [hFirst, List.append_nil]⟩
      · exact ⟨[], rfl⟩

theorem inputEvents_doors (hj : j ≠ i) (b : UInt8) (s : Sys) :
    ∃ doors : List Bool, inputEvents i j b s = doors.map .door := by
  unfold inputEvents editEvents executeEvents
  extract_lets echoed terminated cmd len k
  split_ifs
  all_goals first | exact ⟨[], rfl⟩ | exact loopEvents_doors hj _ _ _

theorem inputWork_doors {b : Block} {a : Answer} {s : Sys} (hb : b.inputWork i) (hj : j ≠ i) :
    ∃ doors : List Bool, b.lineEvents a s j = doors.map .door := by
  cases b with
  | int14 k f =>
      cases f with
      | transmit v | transmitNoWait v =>
          obtain rfl : k = i := of_decide_eq_true hb
          by_cases hInit : (s.ports k).initialized
          · obtain ⟨doors, hDoors⟩ := inputEvents_doors hj v _
            exact ⟨doors, (if_pos hInit).trans hDoors⟩
          · exact ⟨[], if_neg hInit⟩
      | _ => cases hb
  | flush k | hangup k | retryChar k b | status k | ret k ax => exact ⟨[], rfl⟩
  | _ => cases hb

/-- The door setting after AT&D commands, the latest last. -/
theorem run_doors (l : Line) (doors : List Bool) :
    (l.run (doors.map .door)).dtrIgnore = doors.getLastD l.dtrIgnore := by
  induction doors generalizing l with
  | nil => rfl
  | cons d doors ih =>
      rw [List.map_cons, Line.run_cons, ih]
      cases doors <;> rfl

end Doors

section Blocks

variable {i j : PortIdx} {a : Answer} {s t : Sys}

/-- A byte for one port is no concern of another. -/
theorem storeTx_apart {x : SockId} {v : UInt8} (h : storeTx i x v s = some t) (hj : j ≠ i) :
    Apart j s t ∧ t.pend = s.pend := by
  obtain ⟨_, rfl⟩ := storeTx_eq_some h
  exact ⟨.of_eq rfl rfl (by simp [hj]), rfl⟩

/-- What a write of the application does to another port, before any flush. -/
theorem transmit_apart (v : UInt8) (hj : j ≠ i) :
    Apart j s (transmit i v s).1 ∧ (transmit i v s).1.pend = s.pend := by
  unfold transmit
  extract_lets r
  have hOwn : OwnPort i (s.modPort i fun p => { p with lastTxTick := s.tick }) r.1 :=
    atInput_own i _ v
  have hTouch : Apart j s (s.modPort i fun p => { p with lastTxTick := s.tick }) :=
    .of_eq (by simp [hj]) rfl rfl
  have hInput : Apart j s r.1 ∧ r.1.pend = s.pend := ⟨hTouch.trans (.of_own hOwn hj), hOwn.pend⟩
  cases r.2 with
  | consumed | hangup => exact hInput
  | pass =>
      dsimp only
      split_ifs
      · exact hInput
      · cases callSock i r.1 with
        | none => exact hInput
        | some x =>
            dsimp only
            cases hStore : storeTx i x v r.1 with
            | none => exact hInput
            | some u =>
                obtain ⟨hApart, hPend⟩ := storeTx_apart hStore hj
                exact ⟨hInput.1.trans hApart, hPend.trans hInput.2⟩

/-- AH=0Bh on one port leaves another apart, and the shared buffer as it is. -/
theorem transmitNoWait_apart (v : UInt8) (hj : j ≠ i) :
    Apart j s (transmitNoWait i v s).1 ∧ (transmitNoWait i v s).1.pend = s.pend := by
  unfold transmitNoWait
  extract_lets r
  have hOwn : OwnPort i s r.1 := atInput_own i s v
  have hInput : Apart j s r.1 ∧ r.1.pend = s.pend := ⟨.of_own hOwn hj, hOwn.pend⟩
  cases r.2 with
  | consumed | hangup => exact hInput
  | pass =>
      dsimp only
      cases callSock i r.1 with
      | none => exact hInput
      | some x =>
          dsimp only
          cases hStore : storeTx i x v r.1 with
          | none => exact hInput
          | some u =>
              obtain ⟨hApart, hPend⟩ := storeTx_apart hStore hj
              exact ⟨hInput.1.trans hApart, hPend.trans hInput.2⟩

/-- A flush of one port leaves another apart, the shared buffer aside. -/
theorem flush_apart (hj : j ≠ i) : Apart j s (fossilFlushTx i a s) := by
  refine .of_eq (by simp) (by simp) ?_
  rcases fossilFlushTx_cases i a s with hNone | ⟨x, _, _, _, ⟨_, hLeft⟩ | ⟨_, hRing⟩⟩
  · rw [hNone]
  · simp [hLeft]
  · rw [hRing]
    unfold flushRing
    dsimp only
    split_ifs <;> simp [hj]

/-- A flush keeps the unsent bytes of the ports it does not run over. -/
theorem flush_unsent (hRings : s.RingsOk) (hj : j ≠ i) (hOver : displaces i j a s = false) :
    (fossilFlushTx i a s).unsent j = s.unsent j := by
  obtain ⟨_, _, _, hOthers, _⟩ := fossilFlushTx_spec hRings i a
  rcases hOthers j hj with hSame | ⟨hOver', _⟩
  · unfold Sys.output at hSame
    rw [fossilFlushTx_tx_other i a s hj] at hSame
    exact List.append_cancel_right hSame
  · simp [hOver] at hOver'

/-- The second attempt of AH=01h leaves another port apart. -/
theorem retryChar_apart (v : UInt8) (hj : j ≠ i) :
    Apart j s (retryChar i v s) ∧ (retryChar i v s).pend = s.pend := by
  unfold retryChar
  cases (s.ports i).sock with
  | none => exact ⟨.refl j s, rfl⟩
  | some x =>
      dsimp only
      cases hStore : storeTx i x v s with
      | none => exact ⟨.refl j s, rfl⟩
      | some t => exact storeTx_apart hStore hj

/-- The INT 14h functions for input and output leave another port apart. -/
theorem int14_apart {f : Fossil} (hf : (Block.int14 i f).inputWork i) (hj : j ≠ i) :
    Apart j s (int14 i f s).1 ∧ (int14 i f s).1.pend = s.pend := by
  unfold int14
  by_cases hInit : (s.ports i).initialized
  · rw [if_pos hInit]
    cases f with
    | transmit v => exact transmit_apart v hj
    | transmitNoWait v => exact transmitNoWait_apart v hj
    | _ => cases hf
  · rw [if_neg hInit]
    exact ⟨.refl j s, rfl⟩

/-- All such work leaves another port apart, and its bytes in the shared buffer unless a
flush displaces them. -/
theorem inputWork_apart {b : Block} (hb : b.inputWork i) (hj : j ≠ i) :
    Apart j s (exec b a s).1 ∧ (s.RingsOk → (∀ k, b = .flush k → displaces k j a s = false) →
      (exec b a s).1.unsent j = s.unsent j) := by
  have hKept : Apart j s (exec b a s).1 ∧ (exec b a s).1.pend = s.pend →
      Apart j s (exec b a s).1 ∧ (s.RingsOk → (∀ k, b = .flush k → displaces k j a s = false) →
        (exec b a s).1.unsent j = s.unsent j) :=
    fun h => ⟨h.1, fun _ _ => Sys.unsent_congr h.2 j⟩
  cases b with
  | int14 k f =>
      cases f with
      | transmit v | transmitNoWait v =>
          obtain rfl : k = i := by simpa [Block.inputWork] using hb
          exact hKept (int14_apart hb hj)
      | _ => cases hb
  | flush k =>
      obtain rfl : k = i := by simpa [Block.inputWork] using hb
      exact ⟨flush_apart hj, fun hRings hOver => flush_unsent hRings hj (hOver k rfl)⟩
  | hangup k =>
      obtain rfl : k = i := by simpa [Block.inputWork] using hb
      have hOwn := (requestClose_own k s).trans (atResult_own k _ "NO CARRIER" "3")
      exact hKept ⟨.of_own hOwn hj, hOwn.pend⟩
  | retryChar k v =>
      obtain rfl : k = i := by simpa [Block.inputWork] using hb
      exact hKept (retryChar_apart v hj)
  | status k =>
      obtain rfl : k = i := by simpa [Block.inputWork] using hb
      exact hKept ⟨.of_eq rfl rfl (by simp [exec, fossilStatus, hj]), rfl⟩
  | ret k ax => exact hKept ⟨.of_eq rfl rfl rfl, rfl⟩
  | _ => cases hb

/-- What AH=01h leaves behind is again work of its port. -/
theorem transmit_pushes (v : UInt8) : ∀ c ∈ (transmit i v s).2, c.inputWork i := by
  unfold transmit
  extract_lets r
  cases r.2 with
  | consumed | hangup => simp [Block.inputWork]
  | pass =>
      dsimp only
      split_ifs
      · simp [Block.inputWork]
      · cases callSock i r.1 with
        | none => simp [Block.inputWork]
        | some x => cases hStore : storeTx i x v r.1 <;> simp [Block.inputWork, hStore]

theorem transmitNoWait_pushes (v : UInt8) : ∀ c ∈ (transmitNoWait i v s).2, c.inputWork i := by
  unfold transmitNoWait
  extract_lets r
  cases r.2 with
  | consumed | hangup => simp [Block.inputWork]
  | pass =>
      dsimp only
      cases callSock i r.1 with
      | none => simp [Block.inputWork]
      | some x => cases hStore : storeTx i x v r.1 <;> simp [Block.inputWork, hStore]

/-- What such work leaves behind is again work of its port. -/
theorem inputWork_pushes {b : Block} (hb : b.inputWork i) :
    ∀ c ∈ (exec b a s).2, c.inputWork i := by
  cases b with
  | int14 k f =>
      show ∀ c ∈ (int14 k f s).2, c.inputWork i
      unfold int14
      by_cases hInit : (s.ports k).initialized
      · rw [if_pos hInit]
        cases f with
        | transmit v =>
            obtain rfl : k = i := by simpa [Block.inputWork] using hb
            exact transmit_pushes v
        | transmitNoWait v =>
            obtain rfl : k = i := by simpa [Block.inputWork] using hb
            exact transmitNoWait_pushes v
        | _ => cases hb
      · rw [if_neg hInit]
        simp
  | flush k | hangup k | retryChar k v | status k | ret k ax => exact fun _ hc => by cases hc
  | _ => cases hb

end Blocks

/-- What AH=01h and AH=0Bh calls on port `i` leave of port `j`. -/
structure Untouched (i j : PortIdx) (c₀ : Config) (past : Past) (c : Config) : Prop where
  work : ∀ b ∈ c.todo, b.inputWork i
  apart : Apart j c₀.sys c.sys
  doors : ∃ doors : List Bool, lineEvents j past = doors.map .door ∧
    (c.sys.ports j).dtrIgnore = doors.getLastD (c₀.sys.ports j).dtrIgnore
  unsent : (∀ st ∈ past, flushesOver j st = false) → c.sys.unsent j = c₀.sys.unsent j

section Runs

variable {i j : PortIdx} {c₀ c : Config} {past : Past}

/-- One more step of such work leaves the other port untouched. -/
theorem Untouched.keep {act : Action} {s t : Sys} {todo todo' : List Block}
    (h : Untouched i j c₀ past ⟨s, todo⟩) (hWork : ∀ b ∈ todo', b.inputWork i)
    (hApart : Apart j s t) (hUnsent : flushesOver j (⟨s, todo⟩, act) = false →
      t.unsent j = s.unsent j)
    {l : List Bool} (hLatest : stepEvents j (⟨s, todo⟩, act) = l.map .door)
    (hDoor : (t.ports j).dtrIgnore = l.getLastD (s.ports j).dtrIgnore) :
    Untouched i j c₀ ((⟨s, todo⟩, act) :: past) ⟨t, todo'⟩ := by
  obtain ⟨doors, hEvents, hIgnore⟩ := h.doors
  refine ⟨hWork, h.apart.trans hApart, ⟨doors ++ l, ?_, ?_⟩, fun hOver => ?_⟩
  · rw [lineEvents_cons, hEvents, hLatest, List.map_append]
  · rw [hDoor, hIgnore]
    cases l using List.reverseRecOn <;> simp
  · rw [hUnsent (hOver _ List.mem_cons_self)]
    exact h.unsent fun st hst => hOver st (List.mem_cons_of_mem _ hst)

/-- A whole call of such work does. The induction is on the path. -/
theorem input_untouched (hReach : Reachable c₀) (hBetween : c₀.between) (hj : j ≠ i)
    (path : Transition.Path step c₀ past c) (hInput : ∀ st ∈ past, inputOn i st.1 st.2) :
    Untouched i j c₀ past c := by
  apply path.invariant (A := fun c act => inputOn i c act) hInput
  · refine ⟨?_, .refl j _, ⟨[], rfl, rfl⟩, fun _ => rfl⟩
    rw [hBetween]
    simp
  · intro past c act d prior h ok last
    obtain ⟨s, todo⟩ := c
    have hHere := hReach.extend (prior.run (A := fun _ _ => True) fun _ _ => trivial)
    rcases step_cases last with ⟨b, rfl, hEntry, rfl, rfl⟩ | ⟨a, b, rest, rfl, rfl, rfl⟩ |
      ⟨e, t, rfl, hOut, rfl⟩
    · refine h.keep (l := []) ?_ (.refl j s) (fun _ => rfl) rfl rfl
      intro b' hb'
      obtain rfl := List.mem_singleton.mp hb'
      cases b' with
      | int14 k f =>
          cases f with
          | transmit v | transmitNoWait v => exact ok
          | _ => cases ok
      | _ => cases ok
    · have hb := h.work b List.mem_cons_self
      obtain ⟨hApart, hUnsent⟩ := inputWork_apart (a := a) (s := s) hb hj
      obtain ⟨latest, hLatest⟩ := inputWork_doors (a := a) (s := s) hb hj
      refine h.keep (l := latest) ?_ hApart (fun hOver => hUnsent ?_ ?_) hLatest ?_
      · intro c hc
        rcases List.mem_append.mp hc with hNew | hOld
        · exact inputWork_pushes hb c hNew
        · exact h.work c (List.mem_cons_of_mem _ hOld)
      · exact Sys.RingsOk.stable.reachable hHere
      · rintro k rfl
        exact hOver
      · have hLine := exec_line (j := j) b a hHere.sound.modes
        rw [hLatest] at hLine
        exact (congrArg Line.dtrIgnore hLine).trans (run_doors _ latest)
    · have hPorts := outside_ports hOut
      rcases outside_cases hOut with ⟨tick, rfl⟩ | ⟨port, host, remote, rfl⟩ | ⟨y, bs, _, rfl⟩
      all_goals exact h.keep (l := []) h.work (.of_eq rfl rfl rfl) (fun _ => rfl) rfl rfl

end Runs

/-- Whatever is written on port `i`, every other port keeps its state. Its door
setting is that of the last AT&D, and its unsent bytes stay in the shared buffer
unless a flush runs over them. -/
theorem input_isolated {i j : PortIdx} {c₀ c : Config} {past : Past} (hReach : Reachable c₀)
    (hBetween : c₀.between) (path : Transition.Path step c₀ past c)
    (hInput : ∀ st ∈ past, inputOn i st.1 st.2) (hj : j ≠ i) :
    ∃ doors : List Bool, lineEvents j past = doors.map .door ∧
      c.sys.ports j =
        { c₀.sys.ports j with dtrIgnore := doors.getLastD (c₀.sys.ports j).dtrIgnore } ∧
      c.sys.ats j = c₀.sys.ats j ∧ c.sys.fossils j = c₀.sys.fossils j ∧
      ((∀ st ∈ past, flushesOver j st = false) → c.sys.unsent j = c₀.sys.unsent j) := by
  obtain ⟨_, ⟨⟨ignore, hPort⟩, hModem, hFossil⟩, ⟨doors, hEvents, hIgnore⟩, hUnsent⟩ :=
    input_untouched hReach hBetween hj path hInput
  refine ⟨doors, hEvents, ?_, hModem, hFossil, hUnsent⟩
  have hDoor : ignore = doors.getLastD (c₀.sys.ports j).dtrIgnore := by
    rw [← hIgnore, hPort]
  rw [hPort, hDoor]

/-- Two ports without a call. -/
def twoPorts : List PortArg := [.listen 0 2323, .listen 1 2324]

/-- AT&D0, written on COM1. -/
def doorIgnored : List Move :=
  (bytes "AT&D0\r").map fun b => .call (.int14 0 (.transmitNoWait b)) {}

theorem doorIgnored_play :
    ((install twoPorts true 0).play (fun _ _ => true) [.finish {}]).any (fun c =>
      (c.play (inputOn 0) doorIgnored).any fun d =>
        decide (c.todo = []) && decide (d.todo = []) && !(c.sys.ports 1).dtrIgnore &&
          (d.sys.ports 1).dtrIgnore) = true := by
  decide +kernel

/-- The door setting of COM2 follows a command of COM1. -/
theorem input_isolated_door : ∃ c d : Config, Reachable c ∧ c.between ∧ d.between ∧
    Transition.Run step (fun c act => inputOn 0 c act) c d ∧
    (c.sys.ports 1).dtrIgnore = false ∧ (d.sys.ports 1).dtrIgnore = true := by
  obtain ⟨c, d, hReach, hRun, hp⟩ := exists_segment (P := fun c act => inputOn 0 c act)
    (fun _ _ h => h) doorIgnored_play
  simp only [Bool.and_eq_true, decide_eq_true_eq, Bool.not_eq_true'] at hp
  exact ⟨c, d, hReach, hp.1.1.1, hp.1.1.2, hRun, hp.1.2, hp.2⟩

/-- A busy line of commands on COM1, seen from COM2. -/
theorem input_isolated_door_only : ∃ (c d : Config) (past : Past) (doors : List Bool),
    lineEvents 1 past = doors.map .door ∧
    d.sys.ports 1 = { c.sys.ports 1 with dtrIgnore := doors.getLastD (c.sys.ports 1).dtrIgnore } ∧
    d.sys.ats 1 = c.sys.ats 1 ∧ d.sys.fossils 1 = c.sys.fossils 1 ∧
    (d.sys.ports 1).dtrIgnore = true := by
  obtain ⟨c, d, hReach, hRun, hp⟩ := exists_segment (P := fun c act => inputOn 0 c act)
    (fun _ _ h => h) doorIgnored_play
  simp only [Bool.and_eq_true, decide_eq_true_eq, Bool.not_eq_true'] at hp
  obtain ⟨past, path, hInput⟩ := hRun.path
  obtain ⟨doors, hEvents, hPort, hModem, hFossil, _⟩ :=
    input_isolated (i := 0) (j := 1) hReach hp.1.1.1 path hInput (by decide)
  exact ⟨c, d, past, doors, hEvents, hPort, hModem, hFossil, hp.2⟩

end Vmodem
