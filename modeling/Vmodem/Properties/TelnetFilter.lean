import Vmodem.Invariants.Framing
import Vmodem.Invariants.Negotiation

/-! `telnet_filter` against the telnet receiver: on every byte stream it passes
on the data bytes the receiver reports, so it undoes the escaping of
`fossil_flush_tx`. -/

namespace Vmodem

open TelnetReceiver (Piece receive)

/-- The parser state and the receiver's are about the same point of a stream. -/
def IacState.follows : IacState → TelnetReceiver.State → Prop
  | .normal, .data | .sawFF, .iac | .sawCmd, .option _ | .inSB, .sub _ | .sbIac, .subIac _ => True
  | _, _ => False

/-- The source and the receiver name the same codes. -/
theorem receiver_codes : TelnetReceiver.iac = telIac ∧ TelnetReceiver.sb = telSB ∧
    TelnetReceiver.se = telSE := ⟨rfl, rfl, rfl⟩

section Simulation

variable {p : PortState} {state : TelnetReceiver.State}

/-- A byte inside a subnegotiation does not end it. -/
theorem subnegotiationByte_iacState (p : PortState) (b : UInt8) :
    (subnegotiationByte p b).iacState = p.iacState := by
  unfold subnegotiationByte
  dsimp only
  split_ifs <;> rfl

/-- One byte keeps the two together, and both report the same data. -/
theorem telnetFilter_follows (h : p.iacState.follows state) (b : UInt8) :
    (telnetFilter p b).port.iacState.follows (TelnetReceiver.next state b).1 ∧
      (telnetFilter p b).out.toList =
        TelnetReceiver.dataBytes (TelnetReceiver.next state b).2 := by
  unfold telnetFilter
  cases hState : p.iacState with
  | normal =>
      cases state <;> simp only [hState, IacState.follows] at h
      by_cases hIac : b = telIac
      · subst hIac
        exact ⟨trivial, rfl⟩
      · have hData : TelnetReceiver.next .data b = (.data, [.data b]) := if_neg hIac
        dsimp only
        rw [if_neg hIac, hData, hState]
        exact ⟨trivial, rfl⟩
  | sawFF =>
      cases state <;> simp only [hState, IacState.follows] at h
      dsimp only
      split_ifs with hIac hVerb hSb
      · subst hIac
        exact ⟨trivial, rfl⟩
      · rcases hVerb with rfl | rfl | rfl | rfl <;> exact ⟨trivial, rfl⟩
      · subst hSb
        exact ⟨trivial, rfl⟩
      · -- what is left above 251 is a verb or IAC
        have hLow : ¬ 251 ≤ b := fun hHigh => hVerb (verb_of_high hHigh hIac)
        have hData : TelnetReceiver.next .iac b = (.data, [.command b]) := by
          simp only [TelnetReceiver.next, receiver_codes]
          rw [if_neg hIac, if_neg hSb, if_neg hLow]
        rw [hData]
        exact ⟨trivial, rfl⟩
  | sawCmd =>
      cases state <;> simp only [hState, IacState.follows] at h
      exact ⟨trivial, rfl⟩
  | inSB =>
      cases state <;> simp only [hState, IacState.follows] at h
      by_cases hIac : b = telIac
      · subst hIac
        exact ⟨trivial, rfl⟩
      · simp only [TelnetReceiver.next, receiver_codes]
        rw [if_neg hIac, if_neg hIac]
        dsimp only
        rw [subnegotiationByte_iacState, hState]
        exact ⟨trivial, rfl⟩
  | sbIac =>
      cases state <;> simp only [hState, IacState.follows] at h
      simp only [TelnetReceiver.next, receiver_codes]
      by_cases hSe : b = telSE
      · rw [if_pos hSe, if_pos hSe]
        exact ⟨trivial, rfl⟩
      · rw [if_neg hSe, if_neg hSe]
        split_ifs <;> exact ⟨trivial, rfl⟩

/-- The parser follows a receiver of the stream, and puts out its data bytes. The
induction is on the stream. -/
theorem telnetFilterAll_follows (h : p.iacState.follows state) (bs : List UInt8) :
    (telnetFilterAll p bs).1.iacState.follows (receive state bs).1 ∧
      (telnetFilterAll p bs).2 = TelnetReceiver.dataBytes (receive state bs).2 := by
  induction bs generalizing p state with
  | nil => exact ⟨h, rfl⟩
  | cons b bs ih =>
      obtain ⟨hNext, hOut⟩ := telnetFilter_follows h b
      obtain ⟨hLast, hRest⟩ := ih hNext
      refine ⟨hLast, ?_⟩
      show (telnetFilter p b).out.toList ++ (telnetFilterAll (telnetFilter p b).port bs).2 = _
      rw [hOut, hRest]
      simp [receive, TelnetReceiver.dataBytes]

end Simulation

section Transparency

variable {p : PortState}

/-- Between two elements of a stream, the parser passes on their data. -/
theorem telnetFilterAll_pieces (h : p.iacState = .normal) (us : List Piece) :
    (telnetFilterAll p (us.flatMap Piece.encode)).1.iacState = .normal ∧
      (telnetFilterAll p (us.flatMap Piece.encode)).2 =
        TelnetReceiver.dataBytes (us.map Piece.item) := by
  have hFollows : p.iacState.follows .data := by
    rw [h]
    trivial
  obtain ⟨hState, hData⟩ := telnetFilterAll_follows hFollows (us.flatMap Piece.encode)
  rw [TelnetReceiver.receive_pieces] at hState hData
  refine ⟨?_, hData⟩
  cases hLast : (telnetFilterAll p (us.flatMap Piece.encode)).1.iacState with
  | normal => rfl
  | _ =>
      rw [hLast] at hState
      exact hState.elim

/-- The wire bytes of application bytes are a stream of data elements. -/
theorem escape_pieces (bs : List TxByte) :
    (bs.flatMap escape).map WireByte.val =
      (bs.map fun b => Piece.data b.val).flatMap Piece.encode := by
  induction bs with
  | nil => rfl
  | cons b bs ih =>
      rw [List.flatMap_cons, List.map_append, ih, escape_stuff, List.map_cons, List.flatMap_cons]
      rfl

/-- The data bytes of data items are these bytes. -/
theorem dataBytes_data (bs : List UInt8) :
    TelnetReceiver.dataBytes (bs.map fun b => (Piece.data b).item) = bs := by
  induction bs with
  | nil => rfl
  | cons b bs ih => simp [TelnetReceiver.dataBytes, Piece.item]

/-- Escaped bytes come out of the parser as they were. -/
theorem telnetFilterAll_escape (h : p.iacState = .normal) (bs : List TxByte) :
    (telnetFilterAll p ((bs.flatMap escape).map WireByte.val)).1.iacState = .normal ∧
      (telnetFilterAll p ((bs.flatMap escape).map WireByte.val)).2 = bs.map TxByte.val := by
  obtain ⟨hState, hData⟩ := telnetFilterAll_pieces h (bs.map fun b => Piece.data b.val)
  rw [escape_pieces]
  refine ⟨hState, hData.trans ?_⟩
  have hItems := dataBytes_data (bs.map TxByte.val)
  rwa [List.map_map] at hItems ⊢

end Transparency

/-- Telnet transparency. A parser in its normal state passes on exactly the data
of any sequence of telnet elements and is in its normal state again afterwards.
In particular it gives back the bytes a flush was handed, from what the flush
sent and what it keeps in the shared buffer. -/
theorem telnet_transparent {p : PortState} (h : p.iacState = .normal) :
    (∀ us : List Piece, (telnetFilterAll p (us.flatMap Piece.encode)).1.iacState = .normal ∧
      (telnetFilterAll p (us.flatMap Piece.encode)).2 =
        TelnetReceiver.dataBytes (us.map Piece.item)) ∧
    (∀ bs : List TxByte,
      (telnetFilterAll p ((bs.flatMap escape).map WireByte.val)).1.iacState = .normal ∧
        (telnetFilterAll p ((bs.flatMap escape).map WireByte.val)).2 = bs.map TxByte.val) ∧
    ∀ c, Reachable c → ∀ i a, c.sys.unsent i = [] → ∃ sent,
      (∀ x, ((fossilFlushTx i a c.sys).net.sockets x).wire =
        (c.sys.net.sockets x).wire ++ if (c.sys.ports i).sock = some x then sent else []) ∧
      (telnetFilterAll p ((sent ++ (fossilFlushTx i a c.sys).output i).map WireByte.val)).2 =
        (c.sys.fossils i).tx.contents.map TxByte.val := by
  refine ⟨telnetFilterAll_pieces h, telnetFilterAll_escape h, fun c hReach i a hEmpty => ?_⟩
  obtain ⟨sent, hOutput, _, _, hWire⟩ :=
    fossilFlushTx_spec (Sys.RingsOk.stable.reachable hReach) i a
  refine ⟨sent, hWire, ?_⟩
  rw [hOutput, Sys.output, hEmpty, List.nil_append]
  exact (telnetFilterAll_escape h _).2

/-- A file transfer's worth of special bytes between two negotiations. -/
theorem telnet_transparent_zero : PortState.zero.iacState = .normal ∧
    (telnetFilterAll .zero [0xFF, 0xFB, 0x00, 0x41, 0xFF, 0xFF, 0xFF, 0xFA, 0x18, 0xFF, 0xFF, 0xFF,
      0xF0, 0xFF, 0xF1, 0x0D]).2 = [0x41, 0xFF, 0x0D] := by
  have hData := ((telnet_transparent (p := .zero) rfl).1
    [.option telWill teloptBinary (by decide) (by decide), .data 0x41, .data 0xFF,
      .subnegotiation [0x18, 0xFF], .command 0xF1 (by decide), .data 0x0D]).2
  exact ⟨rfl, hData⟩

end Vmodem
