import Vmodem.Invariants.Transmit
import Vmodem.Invariants.ControlWrites

/-! The wire of a call as a sequence of whole pieces: escaped application bytes
and control writes. An escaped 0xFF that has been sent by half is owed its other
half, which comes first in what the port has still to send. -/

namespace Vmodem

/-- The second half of an escaped 0xFF at the front of a port's output. -/
def owed : List WireByte → List WireByte
  | [] => []
  | w :: _ =>
      match w.origin with
      | .app _ => if w.val = 0xFF then [w] else []
      | _ => []

/-- The port has sent one half of an escaped 0xFF. -/
def halfway (i : PortIdx) (s : Sys) : Bool := !(owed (s.unsent i)).isEmpty

/-- A whole piece on the wire. -/
inductive WireUnit where
  | app (b : TxByte)
  | write (buf : List UInt8)
  deriving DecidableEq, Repr

namespace WireUnit

def encode : WireUnit → List WireByte
  | app b => escape b
  | write buf => buf.map fun v => ⟨v, .control⟩

/-- The application byte a piece carries. -/
def byte? : WireUnit → Option TxByte
  | app b => some b
  | write _ => none

def Whole : WireUnit → Prop
  | app _ => True
  | write buf => ControlWrite buf

end WireUnit

/-- The bytes are a sequence of whole pieces. -/
def Framed (wire : List WireByte) : Prop :=
  ∃ units : List WireUnit, (∀ u ∈ units, u.Whole) ∧ wire = units.flatMap WireUnit.encode

structure Sys.WireFramed (s : Sys) : Prop where
  output : ∀ i, ∃ bs : List TxByte, s.output i = owed (s.output i) ++ bs.flatMap escape
  wire : ∀ i x, (s.ports i).sock = some x →
    Framed ((s.net.sockets x).wire ++ owed (s.output i))

/-- A control write is taken whole, and not between the halves of an escaped
0xFF, or not taken at all. -/
def writesWhole (i : PortIdx) (buf : List UInt8) (a : Answer) (s : Sys) : Bool :=
  (s.ports i).sock.isNone || a.closed || decide (a.sent ≤ 0) ||
    (decide (buf.length ≤ a.sent.toNat) && !halfway i s)

section Pieces

variable {b : TxByte} {bs : List TxByte} {out sent rest : List WireByte}

/-- On the wire an application byte is stuffed as telnet asks for. -/
theorem escape_stuff (b : TxByte) : (escape b).map WireByte.val = TelnetReceiver.stuff b.val := by
  by_cases hb : b.val = 0xFF <;> simp [escape, TelnetReceiver.stuff, TelnetReceiver.iac, hb]

/-- A byte that has yet to be sent whole owes nothing. -/
theorem owed_escape (b : TxByte) (rest : List WireByte) : owed (escape b ++ rest) = [] := by
  unfold escape
  split_ifs with hb
  · rfl
  · simp [owed, hb]

theorem owed_flatMap (bs : List TxByte) : owed (bs.flatMap escape) = [] := by
  cases bs with
  | nil => rfl
  | cons b bs => exact owed_escape b _

/-- What is owed stands at the front, so whole bytes behind do not change it. -/
theorem owed_append_flatMap (out : List WireByte) (bs : List TxByte) :
    owed (out ++ bs.flatMap escape) = owed out := by
  cases out with
  | nil => exact owed_flatMap bs
  | cons w out => rfl

/-- A byte added behind the output changes nothing at its front. -/
theorem owed_append_escape (out : List WireByte) (b : TxByte) :
    owed (out ++ escape b) = owed out := by
  simpa using owed_append_flatMap out [b]

/-- Only the shared buffer can begin with half a byte. -/
theorem owed_output (i : PortIdx) (s : Sys) : owed (s.output i) = owed (s.unsent i) :=
  owed_append_flatMap (s.unsent i) _

/-- What is owed is the second IAC of an escaped 0xFF and nothing more. -/
theorem owed_eq_cons {half : WireByte} {more : List WireByte} (h : owed out = half :: more) :
    more = [] ∧ ∃ b, half = ⟨0xFF, .app b⟩ := by
  cases out with
  | nil => cases h
  | cons w out =>
      obtain ⟨v, origin⟩ := w
      cases origin with
      | app b =>
          simp only [owed] at h
          split_ifs at h with hv
          obtain ⟨rfl, rfl⟩ := List.cons.inj h
          exact ⟨rfl, b, by rw [hv]⟩
      | escape b | control => cases h

theorem halfway_eq_false {i : PortIdx} {s : Sys} :
    halfway i s = false ↔ owed (s.output i) = [] := by
  rw [owed_output, halfway, Bool.not_eq_false', List.isEmpty_iff]

/-- A stream of escaped bytes that is cut somewhere: what was cut off first, with
the half that may be owed, is a stream of escaped bytes, and so is the rest. -/
theorem escape_split (h : sent ++ rest = bs.flatMap escape) : ∃ cs ds : List TxByte,
    sent ++ owed rest = cs.flatMap escape ∧ rest = owed rest ++ ds.flatMap escape := by
  induction bs generalizing sent with
  | nil =>
      obtain ⟨rfl, rfl⟩ := List.append_eq_nil_iff.mp h
      exact ⟨[], [], rfl, rfl⟩
  | cons b bs ih =>
      rw [List.flatMap_cons] at h
      cases sent with
      | nil =>
          obtain rfl : rest = escape b ++ bs.flatMap escape := h
          rw [owed_escape]
          exact ⟨[], b :: bs, rfl, rfl⟩
      | cons w sent =>
          by_cases hb : b.val = 0xFF
          · have hPair : escape b = [⟨0xFF, .escape b⟩, ⟨0xFF, .app b⟩] := if_pos hb
            rw [hPair] at h
            obtain ⟨rfl, hRest⟩ : w = ⟨0xFF, .escape b⟩ ∧
                sent ++ rest = ⟨0xFF, .app b⟩ :: bs.flatMap escape := List.cons.inj h
            cases sent with
            | nil =>
                obtain rfl : rest = ⟨0xFF, .app b⟩ :: bs.flatMap escape := hRest
                exact ⟨[b], bs, by simp [hPair, owed], rfl⟩
            | cons w sent =>
                obtain ⟨rfl, hTail⟩ : w = ⟨0xFF, .app b⟩ ∧ sent ++ rest = bs.flatMap escape :=
                  List.cons.inj hRest
                obtain ⟨cs, ds, hSent, hLater⟩ := ih hTail
                exact ⟨b :: cs, ds, by simp [hPair, ← hSent], hLater⟩
          · have hSingle : escape b = [⟨b.val, .app b⟩] := if_neg hb
            rw [hSingle] at h
            obtain ⟨rfl, hRest⟩ : w = ⟨b.val, .app b⟩ ∧ sent ++ rest = bs.flatMap escape :=
              List.cons.inj h
            obtain ⟨cs, ds, hSent, hLater⟩ := ih hRest
            exact ⟨b :: cs, ds, by simp [hSingle, ← hSent], hLater⟩

theorem Framed.nil : Framed [] := ⟨[], by simp, rfl⟩

theorem Framed.append {left right : List WireByte} (hLeft : Framed left) (hRight : Framed right) :
    Framed (left ++ right) := by
  obtain ⟨us, hUs, rfl⟩ := hLeft
  obtain ⟨vs, hVs, rfl⟩ := hRight
  refine ⟨us ++ vs, fun u hu => ?_, by simp⟩
  exact (List.mem_append.mp hu).elim (hUs u) (hVs u)

theorem Framed.escaped (bs : List TxByte) : Framed (bs.flatMap escape) := by
  refine ⟨bs.map .app, fun u hu => ?_, ?_⟩
  · obtain ⟨b, _, rfl⟩ := List.mem_map.mp hu
    trivial
  · rw [List.flatMap_map]
    rfl

/-- A write of the driver is a whole piece of control bytes. -/
theorem Framed.write {buf : List UInt8} (h : ControlWrite buf) :
    Framed (buf.map fun v => ⟨v, .control⟩) :=
  ⟨[.write buf], by simpa [WireUnit.Whole] using h, by simp [WireUnit.encode]⟩

end Pieces

section Steps

variable {b : Block} {a : Answer} {s t : Sys} {i : PortIdx}

/-- A flush goes on with the half that is owed and may stop at any byte. -/
theorem Sys.WireFramed.flush (hs : s.WireFramed) (hRegular : s.Regular) (i : PortIdx) (a : Answer)
    (hKeeps : ∀ j, displaces i j a s → (s.ports j).sock = none ∨ halfway j s = false) :
    (fossilFlushTx i a s).WireFramed := by
  obtain ⟨sent, hOwn, hMay, hOthers, hWire⟩ := fossilFlushTx_spec hRegular.rings i a
  have hMoved : (∃ cs : List TxByte, sent ++ owed ((fossilFlushTx i a s).output i) =
      owed (s.output i) ++ cs.flatMap escape) ∧
      ∃ ds : List TxByte, (fossilFlushTx i a s).output i =
        owed ((fossilFlushTx i a s).output i) ++ ds.flatMap escape := by
    generalize (fossilFlushTx i a s).output i = out at hOwn ⊢
    obtain ⟨bs, hBefore⟩ := hs.output i
    cases sent with
    | nil =>
        obtain rfl : out = s.output i := hOwn
        exact ⟨⟨[], by simp⟩, bs, hBefore⟩
    | cons w sent =>
        rw [hBefore] at hOwn
        cases hOwed : owed (s.output i) with
        | nil =>
            rw [hOwed] at hOwn
            obtain ⟨cs, ds, hSent, hRest⟩ := escape_split hOwn
            exact ⟨⟨cs, hSent⟩, ds, hRest⟩
        | cons half more =>
            obtain ⟨rfl, _⟩ := owed_eq_cons hOwed
            rw [hOwed] at hOwn
            obtain ⟨rfl, hLater⟩ : w = half ∧ sent ++ out = bs.flatMap escape :=
              List.cons.inj hOwn
            obtain ⟨cs, ds, hSent, hRest⟩ := escape_split hLater
            exact ⟨⟨cs, by rw [List.cons_append, hSent]; rfl⟩, ds, hRest⟩
  have hOther : ∀ j, j ≠ i → (fossilFlushTx i a s).output j = s.output j ∨
      (((s.ports j).sock = none ∨ owed (s.output j) = []) ∧
        (fossilFlushTx i a s).output j = (s.fossils j).tx.contents.flatMap escape) := by
    intro j hj
    refine (hOthers j hj).imp_right fun ⟨hLost, hGone⟩ => ⟨?_, ?_⟩
    · exact (hKeeps j hLost).imp_right halfway_eq_false.mp
    · rw [Sys.output, hGone, fossilFlushTx_tx_other i a s hj, List.nil_append]
  refine ⟨fun j => ?_, fun j y hAttached => ?_⟩
  · by_cases hj : j = i
    · subst hj
      exact hMoved.2
    · rcases hOther j hj with hSame | ⟨_, hLost⟩
      · rw [hSame]
        exact hs.output j
      · exact ⟨(s.fossils j).tx.contents, by rw [hLost, owed_flatMap]; rfl⟩
  · have hSock : (s.ports j).sock = some y := by simpa using hAttached
    rw [hWire y]
    by_cases hj : j = i
    · subst hj
      obtain ⟨cs, hSent⟩ := hMoved.1
      rw [if_pos hSock, List.append_assoc, hSent, ← List.append_assoc]
      exact (hs.wire j y hSock).append (.escaped cs)
    · have hNe : (s.ports i).sock ≠ some y := fun hi => hj (hRegular.ledger.sock_inj hSock hi)
      rw [if_neg hNe, List.append_nil]
      rcases hOther j hj with hSame | ⟨hFree, hLost⟩
      · rw [hSame]
        exact hs.wire j y hSock
      · rw [hLost, owed_flatMap]
        have hOwed := hFree.resolve_left (by simp [hSock])
        have hOld := hs.wire j y hSock
        rwa [hOwed] at hOld

/-- A control write that is taken whole between two pieces, or not at all. -/
theorem Sys.WireFramed.write (hs : s.WireFramed) (hRegular : s.Regular) {buf : List UInt8}
    (hBuf : ControlWrite buf) (hWhole : writesWhole i buf a s)
    (hOutput : ∀ j, t.output j = s.output j) (hSock : ∀ j, (t.ports j).sock = (s.ports j).sock)
    (hWire : ∀ y, (t.net.sockets y).wire = ((telnetSendRaw i buf a s).net.sockets y).wire) :
    t.WireFramed := by
  refine ⟨fun j => ?_, fun j y hAttached => ?_⟩
  · rw [hOutput]
    exact hs.output j
  · have hHere : (s.ports j).sock = some y := (hSock j) ▸ hAttached
    have hOld := hs.wire j y hHere
    rw [hOutput, hWire]
    unfold telnetSendRaw
    cases hCall : (s.ports i).sock with
    | none => exact hOld
    | some x =>
        dsimp only
        by_cases hClosed : a.closed
        · rw [if_pos hClosed]
          exact hOld
        · rw [if_neg hClosed]
          by_cases hy : y = x
          · subst hy
            obtain rfl := hRegular.ledger.sock_inj hHere hCall
            simp only [writesWhole, hCall, Option.isNone_some, hClosed, Bool.false_or,
              Bool.or_eq_true,
              Bool.and_eq_true, decide_eq_true_eq, Bool.not_eq_true'] at hWhole
            rcases hWhole with hNone | ⟨hAll, hHalf⟩
            · have hZero : a.sent.toNat = 0 := by omega
              simpa [hZero] using hOld
            · have hOwed := halfway_eq_false.mp hHalf
              have hTake : (buf.map fun v => (⟨v, .control⟩ : WireByte)).take a.sent.toNat =
                  buf.map fun v => ⟨v, .control⟩ := List.take_of_length_le (by simpa using hAll)
              rw [hOwed, List.append_nil] at hOld ⊢
              simpa [hTake] using hOld.append (.write hBuf)
          · simpa [hy] using hOld

end Steps

end Vmodem
