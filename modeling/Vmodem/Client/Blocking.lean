import Vmodem.Client.Address
import Vmodem.Client.Sockets
import Vmodem.Library.BoundedLoop

/-! The socket functions of `vsocket.c` that wait: `connect` and `gethostbyname`. The
answers of the driver and the readings of the tick counter are given from outside, one
for each pass of the loop. -/

namespace Vmodem

open BoundedLoop (Pass Ran)

def afInet : Int16 := 2

def econnrefused : Nat := 111
def eafnosupport : Nat := 97

def hostNotFound : Nat := 1

def dnsResolvePending : UInt16 := 1
def dnsResolveOk : UInt16 := 2
def dnsResolveError : UInt16 := 3

structure SockaddrIn where
  family : Int16
  port : UInt16
  addr : UInt32

def ntohs (x : UInt16) : UInt16 := (x >>> 8) ||| (x <<< 8)

/-- The bytes of an address in memory. -/
def addrBytes (addr : UInt32) : List UInt8 :=
  [addr.toUInt8, (addr >>> 8).toUInt8, (addr >>> 16).toUInt8, (addr >>> 24).toUInt8]

/-- What a waiting function returns, and a reading of the tick counter that is not made
before it returns. -/
structure Returned (Result : Type) where
  value : Result
  client : Client
  reading : Nat

/-- What the driver answers to `connect`. -/
structure ConnectAnswers where
  /-- MUX_SOCK_CONNECT for a handle, an address and a port. -/
  connect : ExtIdx → List UInt8 → UInt16 → UInt16
  /-- MUX_SOCK_STATUS in each pass. -/
  status : Nat → UInt16

/-- The deadline of `connect`; `vsock_connect_timeout` is an `int`. -/
def connectDeadline (timeout : Int16) (now : Tick) : Tick := now + timeout.toInt32.toUInt32 * 18

/-- A pass of the loop of `connect`. -/
def connectPass (k : ExtIdx) (deadline : Tick) (status : Nat → UInt16) (tick : Nat → Tick)
    (v : Client) (_ pass : Nat) : Pass Nat (Returned Int) :=
  let st := status pass &&& 0xFF
  if st = ExtState.established.code then .leave ⟨0, v, pass + 1⟩
  else if st = ExtState.error.code then .leave ⟨-1, { v with errno := econnrefused }, pass + 1⟩
  else if deadline ≤ tick (pass + 1) then
    .leave ⟨-1, { v with
      errno := etimedout, allocated := fun j => if j = k then false else v.allocated j }, pass + 1⟩
  else .again (pass + 1)

/-- `connect`, with at most `bound` passes of its loop. -/
def connect (bound : Nat) (sockfd : Int) (sin : SockaddrIn) (timeout : Int16)
    (answers : ConnectAnswers) (tick : Nat → Tick) (v : Client) : Ran Nat (Returned Int) :=
  match v.fdToHandle sockfd with
  | none => .ended ⟨-1, { v with errno := ebadf }, 0⟩
  | some k =>
      if sin.family ≠ afInet then .ended ⟨-1, { v with errno := eafnosupport }, 0⟩
      else
        let v := v.stage (addrBytes sin.addr)
        if answers.connect k (addrBytes sin.addr) (ntohs sin.port) ≠ 0 then
          .ended ⟨-1, { v with errno := econnrefused }, 0⟩
        else
          BoundedLoop.run (connectPass k (connectDeadline timeout (tick 0)) answers.status tick v)
            bound 0

structure Hostent where
  name : List UInt8
  addrtype : Int16
  length : Nat
  addr : UInt32

/-- What the driver answers to `gethostbyname`. -/
structure ResolveAnswers where
  /-- MUX_SOCK_RESOLVE for a host name. -/
  start : List UInt8 → UInt16
  /-- MUX_SOCK_RESOLVE_RESULT when the name is resolved at once. -/
  cached : UInt16 × List UInt8
  /-- MUX_SOCK_RESOLVE_RESULT in each pass. -/
  result : Nat → UInt16 × List UInt8

/-- `mux_resolve_result`: the state, and `ip` afterwards. -/
def muxResolveResult (answer : UInt16 × List UInt8) (ip : List UInt8) : UInt16 × List UInt8 :=
  let state := answer.1 &&& 0xFF
  (state, if state = dnsResolveOk then answer.2.take 4 else ip)

/-- The host name as it is copied to `s_hostname`. -/
def hostname (name : CString) : List UInt8 := name.bytes.take 63

def fillHostent (name : CString) (addr : UInt32) : Hostent := ⟨hostname name, afInet, 4, addr⟩

/-- The result of `gethostbyname` and `h_errno`. -/
abbrev Resolved := Option Hostent × Nat

def found (name : CString) (ip : List UInt8) : Resolved :=
  (some (fillHostent name (inetPack (ip.map UInt8.toUInt32))), 0)

/-- A pass of the loop of `gethostbyname`; `stack` is what `ip` holds before it is written. -/
def resolvePass (name : CString) (deadline : Tick) (result : Nat → UInt16 × List UInt8)
    (tick : Nat → Tick) (stack : List UInt8) (v : Client) (_ pass : Nat) :
    Pass Nat (Returned Resolved) :=
  if tick (pass + 1) < deadline then
    let r := muxResolveResult (result pass) stack
    if r.1 = dnsResolveOk then .leave ⟨found name r.2, v, pass + 2⟩
    else if r.1 = dnsResolveError then .leave ⟨(none, hostNotFound), v, pass + 2⟩
    else .again (pass + 1)
  else .leave ⟨(none, hostNotFound), v, pass + 1⟩

/-- `gethostbyname`, with at most `bound` passes of its loop. -/
def gethostbyname (bound : Nat) (name : CString) (answers : ResolveAnswers) (tick : Nat → Tick)
    (stack : List UInt8) (v : Client) : Ran Nat (Returned Resolved) :=
  let addr := inetAddr name
  if addr ≠ inaddrNone then .ended ⟨(some (fillHostent name addr), 0), v, 0⟩
  else
    let state := answers.start (hostname name) &&& 0xFF
    if state = dnsResolveOk then
      .ended ⟨found name (muxResolveResult answers.cached stack).2, v, 0⟩
    else if state ≠ dnsResolvePending then .ended ⟨(none, hostNotFound), v, 0⟩
    else
      BoundedLoop.run (resolvePass name (tick 0 + 273) answers.result tick stack v) bound 0

end Vmodem
