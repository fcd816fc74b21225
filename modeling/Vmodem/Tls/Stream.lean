import Vmodem.Tls.Messages
import Vmodem.Tls.Record

/-! What a program calls on a TLS connection: `vtls_send` and `vtls_recv`, and below them the
loop of `tls_recv_all` over the results of the non-blocking `recv()`. -/

namespace Vmodem.Tls

/-- What `recv()` still has: the results to come, an empty one for 0, and whether behind them it
fails or gives 0 for ever. -/
structure Arrivals where
  portions : List (List UInt8)
  closes : Bool
  deriving Repr

/-- `recv()` of at most `n` bytes; `none` for -1. -/
def recv (n : Nat) (a : Arrivals) : Option (List UInt8) × Arrivals :=
  match a.portions with
  | [] => (if a.closes then none else some [], a)
  | bs :: rest =>
      if bs.length ≤ n then (some bs, { a with portions := rest })
      else (some (bs.take n), { a with portions := bs.drop n :: rest })

/-- The variables of `tls_recv_all`; `got` is the number of bytes in the buffer. -/
structure Receiving where
  buf : List UInt8
  loops : Int
  arrivals : Arrivals

open BoundedLoop (Pass)

/-- One pass of the loop of `tls_recv_all`. `loops` is an `int` and wraps around. -/
def recvPass (len : Nat) (s : Receiving) : Pass Receiving (Option (List UInt8) × Arrivals) :=
  if len ≤ s.buf.length then .leave (some s.buf, s.arrivals)
  else
    match recv (len - s.buf.length) s.arrivals with
    | (none, a) => .leave (none, a)
    | (some bs, a) =>
        let loops := int16 (s.loops + 1)
        if 50000 < loops ∧ (s.buf ++ bs).length = 0 then .leave (none, a)
        else .again ⟨s.buf ++ bs, loops, a⟩

/-- What is known of a `vtls_send` that returns: its result, the bytes the socket has taken and
the connection. -/
structure Sent where
  ret : Int
  wire : List UInt8
  conn : VTlsConn

/-- `vtls_send` with its random bytes. `alloc` says for which sizes `malloc` succeeds; the
socket takes all bytes or, with `room`, fails behind some. `none` stands for an `int` that
overflows. -/
def vtlsSend (c : VTlsConn) (buf iv : List UInt8) (alloc : Nat → Bool) (room : Option Nat) :
    Option Sent :=
  if c.active then
    if c.cipherActive ∧ 32768 ≤ 13 + buf.length then none
    else if c.cipherActive ∧ !alloc (13 + buf.length) then some ⟨-1, [], c⟩
    else
      match tlsWriteRecord c rtApplication buf iv with
      | none => none
      | some (c', bs) =>
          if c.cipherActive ∧ !alloc (bs.length - 5) then some ⟨-1, [], c⟩
          else
            match room with
            | none => some ⟨buf.length, bs, c'⟩
            | some n =>
                if bs.length ≤ n then some ⟨buf.length, bs, c'⟩ else some ⟨-1, bs.take n, c'⟩
  else some ⟨-1, [], c⟩

/-- The receive buffer of a connection: `app_buf`, with `none` for NULL, `app_len` and
`app_pos`. -/
structure AppBuffer where
  buf : Option (List UInt8)
  len : Nat
  pos : Nat
  deriving DecidableEq, Repr

def AppBuffer.empty : AppBuffer := ⟨none, 0, 0⟩

/-- A record that lies in its buffer. -/
abbrev WholeRecord := { r : Record // r.len ≤ r.buf.length }

/-- What `vtls_recv` returns and stores. -/
structure Received where
  ret : Int
  stored : List UInt8
  deriving DecidableEq, Repr

/-- `vtls_recv` on a connection that was found. `read` is `tls_read_record`: it does not return,
fails, or gives a record. -/
def vtlsRecv {Source : Type} (read : Source → Option (Option WholeRecord × Source)) (len : Nat)
    (ready : Bool) (app : AppBuffer) (src : Source) : Option (Received × AppBuffer × Source) :=
  if app.buf.isSome ∧ app.pos < app.len then
    let avail := app.len - app.pos
    let tocopy := if len < avail then len else avail
    let pos := app.pos + tocopy
    some (⟨tocopy, ((app.buf.getD []).drop app.pos).take tocopy⟩,
      if app.len ≤ pos then .empty else { app with pos := pos }, src)
  else if ready then
    match read src with
    | none => none
    | some (none, src) => some (⟨-1, []⟩, app, src)
    | some (some ⟨rec, _⟩, src) =>
        if rec.ct = rtApplication then
          let tocopy := if len < rec.len then len else rec.len
          some (⟨tocopy, rec.buf.take tocopy⟩,
            if tocopy < rec.len then ⟨some rec.buf, rec.len, tocopy⟩ else app, src)
        else if rec.ct = rtAlert then some (⟨-1, []⟩, app, src)
        else some (⟨0, []⟩, app, src)
  else some (⟨0, []⟩, app, src)

section Receiving

variable {len got loops : Nat}

/-- A `recv()` either finds nothing left, or takes a first part of what is to come and
shortens the rest. -/
theorem recv_cases (n : Nat) (a : Arrivals) :
    (a.portions = [] ∧ recv n a = (if a.closes then none else some [], a)) ∨
      ∃ bs rest, recv n a = (some bs, ⟨rest, a.closes⟩) ∧ bs.length ≤ n ∧
        a.portions.flatten = bs ++ rest.flatten ∧
        (rest.length < a.portions.length ∨ rest.length = a.portions.length ∧ bs.length = n) := by
  obtain ⟨portions, closes⟩ := a
  cases portions with
  | nil => exact .inl ⟨rfl, rfl⟩
  | cons bs rest =>
      right
      by_cases hFits : bs.length ≤ n
      · exact ⟨bs, rest, if_pos hFits, hFits, rfl, .inl (Nat.lt_succ_self _)⟩
      · refine ⟨bs.take n, bs.drop n :: rest, if_neg hFits, List.length_take_le _ _, ?_,
          .inr ⟨rfl, ?_⟩⟩
        · rw [List.flatten_cons, List.flatten_cons, ← List.append_assoc, List.take_append_drop]
        · rw [List.length_take]
          omega

end Receiving

end Vmodem.Tls
