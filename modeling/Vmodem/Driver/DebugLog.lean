import Mathlib.Logic.Function.Basic
import Vmodem.Library.CString
import Vmodem.Library.Transition

/-! The debug log: a circular buffer with two readers, MUX_DEBUGLOG of `int2f_handler` and
the log file that `do_mtcp_poll` writes. -/

namespace Vmodem

/-- `DBGLOG_SIZE` -/
def dbglogSize : Nat := 2048

/-- The log of `VModemState`. -/
structure DebugLog where
  dbglog : Nat → UInt8
  head : Nat
  count : Nat

namespace DebugLog

/-- The loop of `dbg`, for one character. -/
def put (b : UInt8) (l : DebugLog) : DebugLog where
  dbglog := Function.update l.dbglog l.head b
  head := (l.head + 1) % dbglogSize
  count := if l.count < dbglogSize then l.count + 1 else l.count

/-- The loop of MUX_DEBUGLOG: `n` bytes from `start` on. -/
def copyOut (l : DebugLog) : Nat → Nat → List UInt8
  | 0, _ => []
  | n + 1, start => l.dbglog start :: copyOut l n ((start + 1) % dbglogSize)

/-- MUX_DEBUGLOG with a buffer of `bufsz` bytes: the bytes copied, and the log afterwards. -/
def read (bufsz : UInt16) (l : DebugLog) : List UInt8 × DebugLog :=
  let count := min l.count bufsz.toNat
  (l.copyOut count ((l.head + dbglogSize - count) % dbglogSize), { l with head := 0, count := 0 })

/-- One `_dos_write` from the buffer. -/
def slice (l : DebugLog) (start n : Nat) : List UInt8 :=
  (List.range n).map fun k => l.dbglog (start + k)

/-- What `do_mtcp_poll` writes to the log file when it wrote up to `lastH` before. -/
def unwritten (lastH : Nat) (l : DebugLog) : List UInt8 :=
  if l.head = lastH then []
  else if lastH < l.head then l.slice lastH (l.head - lastH)
  else l.slice lastH (dbglogSize - lastH) ++ if 0 < l.head then l.slice 0 l.head else []

end DebugLog

/-- The log, the file, and what was logged. -/
structure LogState where
  log : DebugLog
  /-- The static `last_h` of `do_mtcp_poll`. -/
  lastH : Nat
  /-- `dbglog_fd` is a file. -/
  fileOpen : Bool
  /-- The bytes `do_mtcp_poll` wrote to the file. -/
  file : List UInt8
  /-- The bytes logged so far. -/
  logged : List UInt8
  /-- How many of them were logged since the last flush. -/
  fresh : Nat

namespace LogState

/-- Memory when the driver is loaded with a log file. -/
def start : LogState := ⟨⟨fun _ => 0, 0, 0⟩, 0, true, [], [], 0⟩

inductive Action where
  | dbg (msg : CString)
  /-- MUX_DEBUGLOG. -/
  | read (bufsz : UInt16)
  /-- The end of a poll cycle; file output is safe in it or not. -/
  | poll (safe : Bool)

def putByte (b : UInt8) (s : LogState) : LogState :=
  { s with log := s.log.put b, logged := s.logged ++ [b], fresh := s.fresh + 1 }

/-- `dbg`. -/
def dbg (msg : CString) (s : LogState) : LogState := msg.bytes.foldl (fun s b => s.putByte b) s

def read (bufsz : UInt16) (s : LogState) : LogState := { s with log := (s.log.read bufsz).2 }

/-- The flush at the end of `do_mtcp_poll`. -/
def flush (s : LogState) : LogState :=
  if s.fileOpen then
    { s with file := s.file ++ s.log.unwritten s.lastH, lastH := s.log.head, fresh := 0 }
  else s

def step : Action → LogState → Option LogState
  | .dbg msg, s => some (s.dbg msg)
  | .read bufsz, s => some (s.read bufsz)
  | .poll safe, s => some (if safe then s.flush else s)

/-- Fewer than `DBGLOG_SIZE` bytes are logged between two flushes. -/
def small (s : LogState) : Action → Bool
  | .dbg msg => decide (s.fresh + msg.bytes.length < dbglogSize)
  | _ => true

end LogState

end Vmodem
