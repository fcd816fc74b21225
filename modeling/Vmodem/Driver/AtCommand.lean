import Vmodem.Driver.Telnet

/-! The AT command interpreter (`atcmd.c`). Command lines are read through
`peek`, which stands for the test `i < len` the source makes before every
access to the buffer. -/

namespace Vmodem

/-- `at_send_str`: text for the application, into the receive ring. -/
def atSendStr (i : PortIdx) (text : List UInt8) (s : Sys) : Sys :=
  s.modPort i fun p => { p with rx := p.rx.putAll (text.map fun b => ⟨b, none⟩) }

def atRespond (i : PortIdx) (text : List UInt8) (s : Sys) : Sys :=
  if (s.ats i).quiet then s
  else if (s.ats i).verbose then
    s |> atSendStr i (bytes "\r\n") |> atSendStr i text |> atSendStr i (bytes "\r\n")
  else
    s |> atSendStr i text |> atSendStr i (bytes "\r")

/-- A result code in the verbose or the numeric form. -/
def atResult (i : PortIdx) (verbose numeric : String) (s : Sys) : Sys :=
  atRespond i (bytes (if (s.ats i).verbose then verbose else numeric)) s

def atOk (i : PortIdx) (s : Sys) : Sys := atResult i "OK" "0" s

def atError (i : PortIdx) (s : Sys) : Sys := atResult i "ERROR" "4" s

def atNoCarrier (i : PortIdx) (s : Sys) : Sys := atResult i "NO CARRIER" "3" s

/-- `at_send_connect`: answer now, deliver CONNECT later. -/
def atSendConnect (i : PortIdx) (s : Sys) : Sys :=
  s.modAt i fun m =>
    { m with
      ringing := false, ringsSent := 0, cmdMode := false, connectPending := true
      connectTick := s.tick }

def atSendRing (i : PortIdx) (s : Sys) : Sys :=
  (atResult i "RING" "2" s).modAt i fun m =>
    { m with ringing := true, ringsSent := 1, ringTick := s.tick }

def atSendNoCarrier (i : PortIdx) (s : Sys) : Sys :=
  atNoCarrier i <| s.modAt i fun m =>
    { m with
      cmdMode := true, ringing := false, ringsSent := 0, connectPending := false, pos := 0 }

def atSetRingingSilent (i : PortIdx) (s : Sys) : Sys :=
  s.modAt i fun m => { m with ringing := true, ringsSent := 0, ringTick := s.tick }

/-- `at_init`. -/
def atInit (i : PortIdx) (s : Sys) : Sys :=
  s.modAt i fun _ => { AtState.zero with echo := true, verbose := true }

/-- `cmd_disconnect`: ask for the socket to be closed by the next poll cycle. -/
def cmdDisconnect (i : PortIdx) (s : Sys) : Sys :=
  if (s.ports i).sock.isSome then
    (logRequest i s).modPort i fun p => { p with pendingClose := 1 }
  else s

/-- `i < len && cmd[i]`. -/
def peek (cmd : Nat → UInt8) (len i : Nat) : Option UInt8 :=
  if i < len then some (cmd i) else none

def isDigit (b : UInt8) : Bool := 0x30 ≤ b && b ≤ 0x39

/-- Whether there is a digit at position `i`. -/
def digitAt (cmd : Nat → UInt8) (len i : Nat) : Bool :=
  (peek cmd len i).any isDigit

/-- Skip the digits from `i` on. -/
def skipDigits (cmd : Nat → UInt8) (len : Nat) : Nat → Nat → Nat
  | 0, i => i
  | fuel + 1, i => if digitAt cmd len i then skipDigits cmd len fuel (i + 1) else i

/-- Read a decimal number from `i` on into a 16-bit `int`; the end position is
that of `skipDigits`. -/
def readNumber (cmd : Nat → UInt8) (len : Nat) : Nat → Nat → UInt16 → UInt16
  | 0, _, val => val
  | fuel + 1, i, val =>
      if digitAt cmd len i then
        readNumber cmd len fuel (i + 1) (val * 10 + ((cmd i).toUInt16 - 0x30))
      else val

/-- The value of a 16-bit signed `int`. -/
def int16 (val : UInt16) : Int :=
  if val < 0x8000 then val.toNat else (val.toNat : Int) - 65536

/-- One digit of `ATSr?`: `(char)('0' + q % 10)` with C division. -/
def digitChar (q : Int) : UInt8 :=
  UInt8.ofNat ((0x30 + q.tmod 10) % 256).toNat

/-- The three digits `ATSr?` prints. -/
def registerText (val : UInt16) : List UInt8 :=
  [digitChar ((int16 val).tdiv 100), digitChar ((int16 val).tdiv 10), digitChar (int16 val)]

/-- `&Dn` writes the flag of every port. -/
def setDtrIgnore (ignore : Bool) (s : Sys) : Sys :=
  { s with ports := fun j => { s.ports j with dtrIgnore := ignore } }

/-- How a command of a line ends: the line goes on at a position, the
interpreter returns, or it has come to the hangup of an answered call. -/
inductive AtStep where
  | next (pos : Nat) (s : Sys)
  | stop (s : Sys)
  | hangup (s : Sys)

/-- The command letters `at_execute` tells apart. -/
inductive AtVerb where
  | reset | echo | quiet | verbose | hangup | online | answer | register | dial | identify
  | parameter | other
  deriving DecidableEq, Repr

/-- `c & 0xDF` and the case it selects. -/
def atVerb (c : UInt8) : AtVerb :=
  match (c &&& 0xDF).toNat with
  | 0x5A => .reset
  | 0x45 => .echo
  | 0x51 => .quiet
  | 0x56 => .verbose
  | 0x48 => .hangup
  | 0x4F => .online
  | 0x41 => .answer
  | 0x53 => .register
  | 0x44 => .dial
  | 0x49 => .identify
  | 0x58 | 0x4C | 0x4D | 0x4E | 0x57 | 0x59 | 0x43 | 0x46 | 0x50 | 0x54 => .parameter
  | _ => .other

section Execute

variable (i : PortIdx) (cmd : Nat → UInt8) (len : Nat)

/-- Position after an optional single digit. -/
def pastDigit (k : Nat) : Nat := if digitAt cmd len k then k + 1 else k

/-- `AT&x`. -/
def atAmpersand (k : Nat) (s : Sys) : AtStep :=
  match peek cmd len (k + 1) with
  | none => .next (k + 1) s
  | some sub =>
      let val := readNumber cmd len len (k + 2) 0
      let s := if sub = 0x44 ∨ sub = 0x64 then setDtrIgnore (val = 0) s else s
      .next (skipDigits cmd len len (k + 2)) s

/-- `AT\x` and `AT%x`. -/
def atBackslash (k : Nat) (s : Sys) : AtStep :=
  match peek cmd len (k + 1) with
  | none => .next (k + 1) s
  | some _ => .next (skipDigits cmd len len (k + 2)) s

def atReset (s : Sys) : AtStep :=
  let s := s.modAt i fun m =>
    { m with
      echo := true, quiet := false, verbose := true, s0 := 0, cmdMode := true, plusCount := 0 }
  let s := s.modPort i fun p => { p with dtrIgnore := false }
  let s := if (s.ports i).mode = .conn ∧ (s.ports i).sock.isSome then cmdDisconnect i s else s
  .stop (atOk i s)

def atEcho (k : Nat) (s : Sys) : AtStep :=
  if peek cmd len (k + 1) = some 0x30 then
    .next (k + 2) (s.modAt i fun m => { m with echo := false })
  else if peek cmd len (k + 1) = some 0x31 then
    .next (k + 2) (s.modAt i fun m => { m with echo := true })
  else .next (k + 1) (s.modAt i fun m => { m with echo := false })

def atQuiet (k : Nat) (s : Sys) : AtStep :=
  if peek cmd len (k + 1) = some 0x31 then
    .next (k + 2) (s.modAt i fun m => { m with quiet := true })
  else
    .next (if peek cmd len (k + 1) = some 0x30 then k + 2 else k + 1)
      (s.modAt i fun m => { m with quiet := false })

def atVerbose (k : Nat) (s : Sys) : AtStep :=
  if peek cmd len (k + 1) = some 0x30 then
    .next (k + 2) (s.modAt i fun m => { m with verbose := false })
  else
    .next (if peek cmd len (k + 1) = some 0x31 then k + 2 else k + 1)
      (s.modAt i fun m => { m with verbose := true })

/-- `ATH`. While ringing it does nothing; on an answered call the flush, the
close request and NO CARRIER are still to follow (`AtStep.hangup`). -/
def atHangup (k : Nat) (s : Sys) : AtStep :=
  let s := s.modAt i fun m => { m with cmdMode := false, plusCount := 0 }
  if (s.ats i).ringing then .next (pastDigit cmd len (k + 1)) s
  else if (s.ports i).mode = .conn ∧ (s.ports i).sock.isSome then .hangup s
  else .next (pastDigit cmd len (k + 1)) (s.modAt i fun m => { m with ringing := false })

def atOnline (s : Sys) : AtStep :=
  let s := s.modAt i fun m => { m with cmdMode := false, plusCount := 0 }
  if (s.ports i).mode = .conn then .stop (atSendConnect i s) else .stop (atNoCarrier i s)

def atAnswer (s : Sys) : AtStep :=
  if (s.ports i).mode = .conn then
    .stop (atSendConnect i (s.modAt i fun m => { m with ringing := false }))
  else .stop (atNoCarrier i s)

/-- `ATSr=v` and `ATSr?`; only registers 0 and 30 exist. -/
def atRegister (k : Nat) (s : Sys) : AtStep :=
  let reg := readNumber cmd len len (k + 1) 0
  let k := skipDigits cmd len len (k + 1)
  if peek cmd len k = some 0x3D then
    let val := readNumber cmd len len (k + 1) 0
    let s :=
      if reg = 0 then s.modAt i fun m => { m with s0 := val.toUInt8 }
      else if reg = 30 then s.modPort i fun p => { p with idleTimeout := val }
      else s
    .next (skipDigits cmd len len (k + 1)) s
  else if peek cmd len k = some 0x3F then
    let val :=
      if reg = 0 then (s.ats i).s0.toUInt16
      else if reg = 30 then (s.ports i).idleTimeout
      else 0
    .stop (atRespond i (registerText val) s)
  else .next k s

/-- One command of the line. -/
def atCommand (k : Nat) (s : Sys) : AtStep :=
  if cmd k = 0x20 then .next (k + 1) s
  else if cmd k = 0x26 then atAmpersand cmd len k s
  else if cmd k = 0x5C ∨ cmd k = 0x25 then atBackslash cmd len k s
  else
    match atVerb (cmd k) with
    | .reset => atReset i s
    | .echo => atEcho i cmd len k s
    | .quiet => atQuiet i cmd len k s
    | .verbose => atVerbose i cmd len k s
    | .hangup => atHangup i cmd len k s
    | .online => atOnline i s
    | .answer => atAnswer i s
    | .register => atRegister i cmd len k s
    | .dial => .stop (atOk i s)
    | .identify => .stop (atRespond i (bytes "VMODEM 1.0") s)
    | .parameter => .next (skipDigits cmd len len (k + 1)) s
    | .other => .next (k + 1) s

/-- The command loop of `at_execute`. The flag tells that it has stopped at the
hangup of an answered call. -/
def atLoop : Nat → Nat → Sys → Sys × Bool
  | 0, _, s => (s, false)
  | fuel + 1, k, s =>
      if k < len then
        match atCommand i cmd len k s with
        | .next k s => atLoop fuel k s
        | .stop s => (s, false)
        | .hangup s => (s, true)
      else (atOk i s, false)

/-- Position of the first character that is not a space or a tab. -/
def skipBlanks : Nat → Nat → Nat
  | 0, k => k
  | fuel + 1, k =>
      if peek cmd len k = some 0x20 ∨ peek cmd len k = some 0x09 then skipBlanks fuel (k + 1)
      else k

end Execute

/-- `at_execute`. Every command takes at least one character, so `len + 1`
rounds of the loop are enough. -/
def atExecute (i : PortIdx) (s : Sys) : Sys × Bool :=
  let cmd := (s.ats i).buf
  let len := (s.ats i).pos
  let k := skipBlanks cmd len len 0
  if len ≤ k + 1 then (atError i s, false)
  else if cmd k ≠ 0x41 ∧ cmd k ≠ 0x61 then (atError i s, false)
  else if cmd (k + 1) ≠ 0x54 ∧ cmd (k + 1) ≠ 0x74 then (atError i s, false)
  else if len ≤ k + 2 then (atOk i s, false)
  else atLoop i cmd len (len + 1) (k + 2) s

/-- What became of a byte given to `at_input`: it goes to TCP (0), or the
interpreter took it (1), possibly with a hangup still to be completed. -/
inductive AtTaken where
  | pass
  | consumed
  | hangup
  deriving DecidableEq, Repr

/-- The escape detector of `at_input`, for a byte written in data mode. -/
def atEscape (i : PortIdx) (b : UInt8) (s : Sys) : Sys × AtTaken :=
  if b = 0x2B then
    if (s.ats i).plusCount = 0 ∧ ¬ 9 ≤ s.tick - (s.ats i).lastTxTick then
      (s.modAt i fun m => { m with lastTxTick := s.tick }, .pass)
    else
      let s := s.modAt i fun m => { m with plusCount := m.plusCount + 1 }
      if 3 ≤ (s.ats i).plusCount then
        (atOk i (s.modAt i fun m => { m with cmdMode := true, plusCount := 0 }), .consumed)
      else (s, .consumed)
  else (s.modAt i fun m => { m with plusCount := 0, lastTxTick := s.tick }, .pass)

/-- The line editor of `at_input`. -/
def atEdit (i : PortIdx) (b : UInt8) (s : Sys) : Sys × AtTaken :=
  let s := if (s.ats i).echo then atSendStr i [b] s else s
  if b = 0x0D then
    let s := s.modAt i fun m => { m with buf := fun k => if k = m.pos then 0 else m.buf k }
    let r := if 0 < (s.ats i).pos then atExecute i s else (s, false)
    (r.1.modAt i fun m => { m with pos := 0 }, if r.2 then .hangup else .consumed)
  else if b = 0x08 ∨ b = 0x7F then
    (s.modAt i fun m => { m with pos := m.pos - 1 }, .consumed)
  else if b = 0x0A then (s, .consumed)
  else if (s.ats i).pos < 127 then
    (s.modAt i fun m =>
      { m with buf := fun k => if k = m.pos then b else m.buf k, pos := m.pos + 1 }, .consumed)
  else (s, .consumed)

/-- The port is in data mode: an answered call outside command mode. -/
def dataMode (i : PortIdx) (s : Sys) : Bool :=
  (s.ports i).mode = .conn && (s.ports i).sock.isSome && !(s.ats i).ringing && !(s.ats i).cmdMode

/-- `at_input`. -/
def atInput (i : PortIdx) (b : UInt8) (s : Sys) : Sys × AtTaken :=
  if dataMode i s then atEscape i b s else atEdit i b s

end Vmodem
