import Vmodem.Driver.Script

/-! The socket functions of `vsocket.c`, run by a program over the resident driver.
Between the calls the program makes, the driver is called by interrupts and time
passes; an `int` has 16 bits and is not negative where a length is meant. -/

namespace Vmodem

structure Client where
  /-- `vsock_allocated` -/
  allocated : ExtIdx → Bool
  /-- `mux_staging` -/
  staging : List UInt8
  /-- `vsock_errno` -/
  errno : Nat

def vsockFdBase : Int := 128

def ebadf : Nat := 9
def econnreset : Nat := 104
def etimedout : Nat := 110

namespace Client

/-- `fd_to_handle`; without a handle the error is `EBADF`. -/
def fdToHandle (sockfd : Int) (v : Client) : Option ExtIdx :=
  let h := sockfd - vsockFdBase
  if hRange : 0 ≤ h ∧ h < 4 then
    let k : ExtIdx := ⟨h.toNat, by omega⟩
    if v.allocated k then some k else none
  else none

/-- Bytes are copied to the front of the staging buffer. -/
def stage (bytes : List UInt8) (v : Client) : Client :=
  { v with staging := bytes ++ v.staging.drop bytes.length }

end Client

section Calls

variable (ok : Config → Action → Bool)

/-- What the driver does between two calls of the program. -/
def interlude (moves : List Move) (s : Sys) : Option Sys :=
  ((Config.mk s []).play ok moves).bind fun c => if c.todo = [] then some c.sys else none

/-- `mux_poll_internal`. -/
def muxPollInternal (moves : List Move) : Sys → Option Sys :=
  interlude ok (.enter (.mux .poll) :: moves)

/-- `dos_idle`. -/
def dosIdle (moves : List Move) : Sys → Option Sys := interlude ok (.enter .int28 :: moves)

/-- What happens during one pass of the loop of `send`. -/
structure SendPass where
  before : List Move := []
  sent : Answer := {}
  between : List Move := []
  status : Answer := {}
  poll : List Move := []
  idle : List Move := []

/-- The states that end a transfer. -/
def broken (st : UInt16) : Bool :=
  decide (st &&& 0xFF = ExtState.error.code ∨ st &&& 0xFF = ExtState.remoteClosed.code)

/-- What `send` returns after an error. -/
def partialTotal (total : Nat) : Int := if 0 < total then total else -1

/-- The loop of `send`, with `total` bytes sent and `p` still to be sent. -/
def sendLoop (k : ExtIdx) (len : Nat) :
    List SendPass → List UInt8 → Nat → Nat → Client → Sys → Option (Int × Client × Sys)
  | [], _, _, _, _, _ => none
  | pass :: later, p, total, retries, v, s =>
      if total < len then
        let chunk := min ((len - total).toUInt16) 1024
        let v := v.stage (p.take chunk.toNat)
        (interlude ok pass.before s).bind fun s =>
        let s := (mux (.sockSend k (v.staging.take chunk.toNat)) pass.sent s).1
        let n := s.muxSockResult.toNat
        if 0 < n then sendLoop k len later (p.drop n) (total + n) 0 v s
        else
          (interlude ok pass.between s).bind fun s =>
          let s := (mux (.sockStatus k) pass.status s).1
          if broken s.muxSockResult then
            some (partialTotal total, { v with errno := econnreset }, s)
          else
            (muxPollInternal ok pass.poll s).bind fun s =>
            let retries := retries + 1
            if 200 < retries then
              (dosIdle ok pass.idle s).bind fun s =>
              if 2000 < retries then some (partialTotal total, { v with errno := etimedout }, s)
              else sendLoop k len later p total retries v s
            else sendLoop k len later p total retries v s
      else (muxPollInternal ok pass.poll s).map fun s => (total, v, s)

/-- `send`; it runs for as long as there are passes. -/
def send (sockfd : Int) (buf : List UInt8) (len : Nat) (passes : List SendPass) (v : Client)
    (s : Sys) : Option (Int × Client × Sys) :=
  match v.fdToHandle sockfd with
  | none => some (-1, { v with errno := ebadf }, s)
  | some k => sendLoop ok k len passes buf 0 0 v s

/-- The bytes that MUX_SOCK_RECV stores at ES:BX. -/
def sockRecvBytes (k : ExtIdx) (size : UInt16) (a : Answer) (s : Sys) : List UInt8 :=
  match (s.extSockets k).sock with
  | none => []
  | some x =>
      if s.net.recvDataWaiting x then (s.net.recv x (min size.toNat 256) a.received).1 else []

/-- What happens during `recv`. -/
structure RecvPass where
  poll : List Move := []
  before : List Move := []
  received : Answer := {}
  between : List Move := []
  status : Answer := {}

/-- `recv`: the result, and the bytes written to the buffer. -/
def recv (sockfd : Int) (len : Nat) (pass : RecvPass) (v : Client) (s : Sys) :
    Option ((Int × List UInt8) × Client × Sys) :=
  match v.fdToHandle sockfd with
  | none => some ((-1, []), { v with errno := ebadf }, s)
  | some k =>
      (muxPollInternal ok pass.poll s).bind fun s =>
      let chunk := min len.toUInt16 256
      (interlude ok pass.before s).bind fun s =>
      let v := v.stage (sockRecvBytes k chunk pass.received s)
      let s := (mux (.sockRecv k chunk) pass.received s).1
      let n := s.muxSockResult.toNat
      if 0 < n then some ((n, v.staging.take n), v, s)
      else
        (interlude ok pass.between s).bind fun s =>
        let s := (mux (.sockStatus k) pass.status s).1
        if broken s.muxSockResult then some ((-1, []), { v with errno := 1 }, s)
        else some ((0, []), v, s)

/-- One of successive calls of `recv`: what happens before it and during it, and the
variables of `vsocket.c` as the other socket functions left them. -/
structure RecvCall where
  earlier : List Move := []
  client : Client
  len : Nat
  pass : RecvPass := {}

/-- The results of successive calls of `recv`. -/
def recvAll (sockfd : Int) : List RecvCall → Sys → Option (List (Int × List UInt8) × Sys)
  | [], s => some ([], s)
  | call :: calls, s =>
      (interlude ok call.earlier s).bind fun s =>
      (recv ok sockfd call.len call.pass call.client s).bind fun r =>
      (recvAll sockfd calls r.2.2).map fun rest => (r.1 :: rest.1, rest.2)

end Calls

end Vmodem
