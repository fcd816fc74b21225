import Vmodem.Invariants.Registers

/-! The line of a port as the application sees it through the status word: ringing,
waiting for CONNECT, or up, with a counter on the way to a carrier drop. A block acts
on the line of a port only through the events listed here. -/

namespace Vmodem

structure Line where
  ringing : Bool
  connectPending : Bool
  purgeSeen : UInt8
  dtrIgnore : Bool
  deriving DecidableEq, Repr

inductive LineEvent where
  /-- The first RING of a call. -/
  | ring
  /-- The call is answered; CONNECT is to follow. -/
  | answer
  /-- CONNECT is given. -/
  | connect
  /-- The ringing or the call is over. -/
  | onHook
  /-- AH=09h on a call of more than ten seconds. -/
  | purge
  /-- AH=03h on a call. -/
  | poll
  /-- AT&D or ATZ sets or clears the flag that keeps carrier up. -/
  | door (ignore : Bool)
  /-- AH=04h is entered, with or without a close of the call already asked for. -/
  | init (closing : Bool)
  /-- AH=04h starts over; a call that it keeps goes on ringing. -/
  | reset (keep : Bool)
  deriving DecidableEq, Repr

namespace Line

/-- A line without a history. -/
def fresh : Line := ⟨false, false, 0, false⟩

/-- Whether an event arms a carrier drop: AH=09h does, unless AT&D0 keeps carrier up
or the drop is already there. -/
def arms (l : Line) : LineEvent → Bool
  | .purge => decide (l.purgeSeen < 3) && !l.dtrIgnore
  | _ => false

def next (l : Line) : LineEvent → Line
  | .ring => { l with ringing := true }
  | .answer => { l with ringing := false, connectPending := true }
  | .connect => { l with connectPending := false }
  | .onHook => { l with ringing := false, connectPending := false }
  | .purge => if l.arms .purge then { l with purgeSeen := 1 } else l
  | .poll =>
      if l.purgeSeen ≠ 0 ∧ l.dtrIgnore = false then { l with purgeSeen := l.purgeSeen + 1 } else l
  | .door ignore => { l with dtrIgnore := ignore }
  | .init closing => if closing ∨ 3 ≤ l.purgeSeen then { l with dtrIgnore := false } else l
  | .reset keep => { l with ringing := l.ringing && keep, connectPending := false, purgeSeen := 0 }

def run (l : Line) (es : List LineEvent) : Line := es.foldl next l

/-- Whether a carrier drop is armed while the events happen to a line. -/
def armed (l : Line) : List LineEvent → Bool
  | [] => false
  | e :: es => l.arms e || (l.next e).armed es

/-- Whether the line shows carrier to a port that is in a call. -/
def carrier (l : Line) : Bool :=
  !l.ringing && !l.connectPending && (decide (l.purgeSeen < 3) || l.dtrIgnore)

@[simp] theorem run_nil (l : Line) : l.run [] = l := rfl

@[simp] theorem run_cons (l : Line) (e : LineEvent) (es : List LineEvent) :
    l.run (e :: es) = (l.next e).run es := rfl

/-- Events in two parts happen to a line part by part. -/
theorem run_append (l : Line) (es fs : List LineEvent) : l.run (es ++ fs) = (l.run es).run fs :=
  List.foldl_append

section Counting

variable (l : Line) (closing : Bool)

theorem next_purge : l.next .purge = if l.arms .purge then { l with purgeSeen := 1 } else l := rfl

/-- A status poll counts on from an armed drop, unless carrier is forced. -/
theorem next_poll : l.next .poll = if l.purgeSeen ≠ 0 ∧ l.dtrIgnore = false then
    { l with purgeSeen := l.purgeSeen + 1 } else l := rfl

/-- AH=04h takes back AT&D0 where it hangs up or finds the drop there. -/
theorem next_init : l.next (.init closing) =
    if closing ∨ 3 ≤ l.purgeSeen then { l with dtrIgnore := false } else l := rfl

/-- What AH=09h, AH=03h and the entry of AH=04h change is no matter of answering. -/
@[simp] theorem next_purge_phase : (l.next .purge).ringing = l.ringing ∧
    (l.next .purge).connectPending = l.connectPending := by
  rw [next_purge]
  split_ifs <;> exact ⟨rfl, rfl⟩

@[simp] theorem next_door_phase (ignore : Bool) : (l.next (.door ignore)).ringing = l.ringing ∧
    (l.next (.door ignore)).connectPending = l.connectPending := ⟨rfl, rfl⟩

@[simp] theorem next_poll_phase : (l.next .poll).ringing = l.ringing ∧
    (l.next .poll).connectPending = l.connectPending := by
  rw [next_poll]
  split_ifs <;> exact ⟨rfl, rfl⟩

@[simp] theorem next_init_phase : (l.next (.init closing)).ringing = l.ringing ∧
    (l.next (.init closing)).connectPending = l.connectPending := by
  rw [next_init]
  split_ifs <;> exact ⟨rfl, rfl⟩

@[simp] theorem next_init_purgeSeen : (l.next (.init closing)).purgeSeen = l.purgeSeen := by
  rw [next_init]
  split_ifs <;> rfl

end Counting

/-- An event that does not arm a drop leaves a clear counter clear. -/
theorem next_unarmed {l : Line} {e : LineEvent} (hZero : l.purgeSeen = 0)
    (hArm : l.arms e = false) :
    (l.next e).purgeSeen = 0 := by
  cases e with
  | purge => simpa [next_purge, hArm] using hZero
  | poll => simp [next_poll, hZero]
  | init closing => simpa using hZero
  | reset keep => rfl
  | _ => exact hZero

/-- The counter stays clear as long as no drop is armed. -/
theorem run_unarmed {l : Line} {es : List LineEvent} (hZero : l.purgeSeen = 0)
    (hArm : l.armed es = false) : (l.run es).purgeSeen = 0 := by
  induction es generalizing l with
  | nil => exact hZero
  | cons e es ih =>
      obtain ⟨hFirst, hRest⟩ := Bool.or_eq_false_iff.mp hArm
      exact ih (next_unarmed hZero hFirst) hRest

/-- Two lines that differ at most in what does not reach the carrier: a CONNECT that
an earlier call was waiting for is forgotten when the ringing ends. -/
structure Agrees (l m : Line) : Prop where
  ringing : l.ringing = m.ringing
  connectPending : m.ringing = false → l.connectPending = m.connectPending
  purgeSeen : l.purgeSeen = m.purgeSeen
  dtrIgnore : l.dtrIgnore = m.dtrIgnore

/-- Lines that agree go on agreeing whatever happens to both. -/
theorem Agrees.next {l m : Line} (h : l.Agrees m) (e : LineEvent) :
    (l.next e).Agrees (m.next e) := by
  have hOld := h
  obtain ⟨hRinging, hPending, hPurge, hIgnore⟩ := h
  cases e with
  | ring | answer | connect | onHook | door _ | reset _ =>
      constructor <;> simp_all [Line.next]
  | purge =>
      rw [next_purge, next_purge, arms, arms, hPurge, hIgnore]
      split_ifs
      · exact ⟨hRinging, hPending, rfl, rfl⟩
      · exact hOld
  | poll =>
      rw [next_poll, next_poll, hPurge, hIgnore]
      split_ifs
      · exact ⟨hRinging, hPending, rfl, rfl⟩
      · exact hOld
  | init closing =>
      rw [next_init, next_init, hPurge]
      split_ifs
      · exact ⟨hRinging, hPending, rfl, rfl⟩
      · exact hOld

/-- Lines that agree go on to agree under the same events, and so show the same carrier.
-/
theorem Agrees.run {l m : Line} (h : l.Agrees m) (es : List LineEvent) :
    (l.run es).Agrees (m.run es) := by
  induction es generalizing l m with
  | nil => exact h
  | cons e es ih => exact ih (h.next e)

/-- Lines that agree show the same carrier. -/
theorem Agrees.carrier {l m : Line} (h : l.Agrees m) : l.carrier = m.carrier := by
  obtain ⟨hRinging, hPending, hPurge, hIgnore⟩ := h
  unfold Line.carrier
  rw [hRinging, hPurge, hIgnore]
  cases hUp : m.ringing with
  | true => rfl
  | false => rw [hPending hUp]

end Line

def Registers.line (r : Registers) : Line :=
  ⟨r.modem.ringing, r.modem.connectPending, r.purgeSeen, r.dtrIgnore⟩

/-- The line of port `j`. -/
def Sys.line (s : Sys) (j : PortIdx) : Line := (s.registers j).line

/-- `fossil_status` reports carrier on a call whose line is up. -/
theorem carrier_line (i : PortIdx) (s : Sys) :
    carrier i s = ((decide ((s.ports i).mode = .conn) && (s.ports i).sock.isSome) &&
      (s.line i).carrier) := by
  unfold carrier Line.carrier Sys.line Registers.line Sys.registers
  cases (s.ats i).ringing with
  | true => simp
  | false => cases (s.ats i).connectPending <;> simp

/-- Bit 7 of the status word is the carrier. -/
theorem statusWord_dcd (i : PortIdx) (s : Sys) : statusWord i s &&& dcdBit ≠ 0 ↔ carrier i s := by
  have hBit : ∀ thre tsre rda ovrn ri dcd : Bool, (dcd → ri = false) →
      (((lineStatus thre tsre rda ovrn).toUInt16 <<< 8 ||| (modemStatus ri dcd).toUInt16) &&&
        dcdBit ≠ 0 ↔ dcd = true) := by decide
  unfold statusWord
  exact hBit _ _ _ _ _ _ fun hCarrier => by
    simp only [carrier, Bool.and_eq_true, Bool.not_eq_true'] at hCarrier
    exact hCarrier.1.1.1

section Commands

variable (i j : PortIdx) (cmd : Nat → UInt8) (len : Nat)

/-- What a command of a line typed on port `i` does to the line of port `j`. -/
def commandEvents (k : Nat) (s : Sys) : List LineEvent :=
  if cmd k = 0x20 then []
  else if cmd k = 0x26 then
    match peek cmd len (k + 1) with
    | none => []
    | some sub =>
        if sub = 0x44 ∨ sub = 0x64 then [.door (readNumber cmd len len (k + 2) 0 = 0)] else []
  else if cmd k = 0x5C ∨ cmd k = 0x25 then []
  else
    match atVerb (cmd k) with
    | .reset => if i = j then [.door false] else []
    | .online | .answer => if i = j ∧ (s.ports i).mode = .conn then [.answer] else []
    | _ => []

def loopEvents : Nat → Nat → Sys → List LineEvent
  | 0, _, _ => []
  | fuel + 1, k, s =>
      if k < len then
        commandEvents i j cmd len k s ++
          match atCommand i cmd len k s with
          | .next k s => loopEvents fuel k s
          | .stop _ | .hangup _ => []
      else []

end Commands

/-- What a command line does to the line of port `j`. -/
def executeEvents (i j : PortIdx) (s : Sys) : List LineEvent :=
  let cmd := (s.ats i).buf
  let len := (s.ats i).pos
  let k := skipBlanks cmd len len 0
  if len ≤ k + 1 then []
  else if cmd k ≠ 0x41 ∧ cmd k ≠ 0x61 then []
  else if cmd (k + 1) ≠ 0x54 ∧ cmd (k + 1) ≠ 0x74 then []
  else if len ≤ k + 2 then []
  else loopEvents i j cmd len (len + 1) (k + 2) s

def editEvents (i j : PortIdx) (b : UInt8) (s : Sys) : List LineEvent :=
  let s := if (s.ats i).echo then atSendStr i [b] s else s
  let s := s.modAt i fun m => { m with buf := fun k => if k = m.pos then 0 else m.buf k }
  if b = 0x0D ∧ 0 < (s.ats i).pos then executeEvents i j s else []

/-- What a byte written on port `i` does to the line of port `j`. -/
def inputEvents (i j : PortIdx) (b : UInt8) (s : Sys) : List LineEvent :=
  if dataMode i s then [] else editEvents i j b s

/-- What the ring check of a port does to its line. -/
def ringEvents (i : PortIdx) (s : Sys) : List LineEvent :=
  let m := s.ats i
  if m.connectPending then if 36 ≤ s.tick - m.connectTick then [.connect] else []
  else if !m.ringing then []
  else if s.tick - m.ringTick < 110 then []
  else if 0 < m.s0 ∧ m.s0 ≤ m.ringsSent ∧ (s.fossils i).init then [.answer]
  else if 10 ≤ m.ringsSent then [.onHook]
  else []

/-- AH=04h takes back AT&D0 with the call it hangs up. -/
def initEvents (i : PortIdx) (s : Sys) : List LineEvent :=
  if (s.ports i).pendingClose ≠ 0 then [.init true]
  else if (callSock i s).isSome then [.init false]
  else []

/-- Raising DTR answers a ringing call. -/
def dtrEvents (i : PortIdx) (al : UInt8) (s : Sys) : List LineEvent :=
  if al ≠ 0 ∧ (s.ats i).ringing ∧ (s.ports i).mode = .conn then [.answer] else []

/-- AH=09h is an event of the call it is given on, not of the ten seconds after its
acceptance. -/
def purgeEvents (i : PortIdx) (s : Sys) : List LineEvent :=
  if (callSock i s).isSome ∧ 182 < s.tick - (s.ports i).connTick then [.purge] else []

/-- What an INT 14h function of port `i` does to the line of port `j`. -/
def fossilEvents (i : PortIdx) (f : Fossil) (j : PortIdx) (s : Sys) : List LineEvent :=
  match f with
  | .transmit b => inputEvents i j b (s.modPort i fun p => { p with lastTxTick := s.tick })
  | .transmitNoWait b => inputEvents i j b s
  | .init => if i = j then initEvents i s else []
  | .dtr al => if i = j then dtrEvents i al s else []
  | .purgeOutput => if i = j then purgeEvents i s else []
  | _ => []

section Calls

variable (i : PortIdx) (j : PortIdx) (s : Sys)

@[simp] theorem fossilEvents_init :
    fossilEvents i .init j s = if i = j then initEvents i s else [] := rfl

@[simp] theorem fossilEvents_dtr (al : UInt8) :
    fossilEvents i (.dtr al) j s = if i = j then dtrEvents i al s else [] := rfl

@[simp] theorem fossilEvents_purgeOutput :
    fossilEvents i .purgeOutput j s = if i = j then purgeEvents i s else [] := rfl

end Calls

/-- Whether the disconnect detection of a port finds its call to be over. -/
def detectsEnd (i : PortIdx) (now : Tick) (a : Answer) (s : Sys) : Bool :=
  (s.ports i).sock.any fun x => remoteGone i x now a s

/-- What a block does to the line of port `j`. -/
def Block.lineEvents (b : Block) (a : Answer) (s : Sys) (j : PortIdx) : List LineEvent :=
  match b with
  | .int14 i f => if (s.ports i).initialized then fossilEvents i f j s else []
  | .ring i => if i = j then [.ring] else []
  | .checkRing i => if i = j then ringEvents i s else []
  | .pollClose i silent => if i = j ∧ silent = false then [.onHook] else []
  | .idleClose i => if i = j then [.onHook] else []
  | .disconnected i now => if i = j ∧ detectsEnd i now a s then [.onHook] else []
  | .purgeStatus i => if i = j ∧ (callSock i s).isSome then [.poll] else []
  | .initFinish i =>
      if i = j then [.reset ((callSock i s).isSome && decide ((s.ports i).pendingClose = 0))]
      else []
  | _ => []

end Vmodem
