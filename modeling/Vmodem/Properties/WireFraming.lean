import Vmodem.Invariants.Framing
import Vmodem.Driver.Script

/-! Framing of what the remote side receives. Application bytes and control
writes reach a telnet receiver whole, as long as control writes are taken whole
and nothing comes between the two halves of an escaped 0xFF. -/

namespace Vmodem

open TelnetReceiver (Item receive)

/-- Control writes are taken whole between two pieces or not at all, and no purge
and no other port's flush takes away an owed half. -/
def keepsFraming (c : Config) : Action → Bool
  | .run a =>
      match c.todo with
      | .raw i buf :: _ => writesWhole i buf a c.sys
      | .rx i _ (v :: _) _ :: _ =>
          (telnetFilter (c.sys.ports i) v).reply.all fun buf => writesWhole i buf a c.sys
      | .flush i :: _ =>
          (List.finRange 4).all fun j =>
            !displaces i j a c.sys || (c.sys.ports j).sock.isNone || !halfway j c.sys
      | .int14 i .init :: _ | .int14 i .purgeOutput :: _ =>
          !(c.sys.ports i).initialized || (c.sys.ports i).sock.isNone || !halfway i c.sys
      | _ => true
  | _ => true

/-- What a telnet receiver makes of a piece on the wire. -/
def WireUnit.items (u : WireUnit) : List Item := TelnetReceiver.items (u.encode.map WireByte.val)

/-- The application bytes that are on the wire in full. -/
def sentBytes (wire : List WireByte) : List TxByte :=
  wire.filterMap fun w => match w.origin with
    | .app b => some b
    | _ => none

section Steps

variable {b : Block} {a : Answer} {s t : Sys}

/-- The port has no call, or owes no half. -/
def Sys.OwesNothing (s : Sys) (i : PortIdx) : Prop :=
  (s.ports i).sock = none ∨ owed (s.output i) = []

/-- Outside a flush a port does not come to owe half a byte. -/
theorem Effect.owesNothing (h : Effect b a s t) (hRings : s.RingsOk) (hFlush : ∀ i, b ≠ .flush i)
    {i : PortIdx} (hs : s.OwesNothing i) : t.OwesNothing i := by
  cases h.transmit with
  | idle hIdle =>
      rcases hs with hNone | hOwed
      · exact .inl ((hIdle.sock i).elim (fun hSame => hSame.trans hNone) id)
      · exact .inr (by rw [hIdle.output]; exact hOwed)
  | store j x v hSock hRoom ht =>
      subst ht
      refine hs.imp (fun hNone => hNone) fun hOwed => ?_
      rw [stored_output (hRings.tx j) hRoom]
      split_ifs
      · rwa [owed_append_escape]
      · exact hOwed
  | purge j hb ht =>
      subst ht
      refine hs.imp (fun hNone => by simpa [Sys.purged] using hNone) fun hOwed => ?_
      rw [purged_output]
      split_ifs
      · rfl
      · exact hOwed
  | flush j hb ht => exact absurd hb (hFlush j)
  | attach j x net hb hSock hAccept ht =>
      subst ht
      by_cases hj : i = j
      · exact .inr (by rw [acceptCall_output, if_pos hj]; rfl)
      · refine hs.imp (fun hNone => by simpa [hj] using hNone) fun hOwed => ?_
        rw [acceptCall_output, if_neg hj]
        exact hOwed

/-- Without flushes and control writes, only a purge can break a piece. -/
theorem Effect.wireFramed (h : Effect b a s t) (hRegular : s.Regular) (hFlush : ∀ i, b ≠ .flush i)
    (hWrites : b.writes = none) (hPurges : ∀ i, b.purges = some i → s.OwesNothing i)
    (hs : s.WireFramed) : t.WireFramed := by
  cases h.transmit with
  | idle hIdle =>
      refine ⟨fun i => by rw [hIdle.output]; exact hs.output i, fun i x hSock => ?_⟩
      have hOld : (s.ports i).sock = some x := by
        rcases hIdle.sock i with hSame | hNone
        · rwa [hSame] at hSock
        · simp [hNone] at hSock
      have hTraffic := h.traffic hRegular.ledger hRegular.rings (hRegular.ledger.sock_lt hOld)
      obtain ⟨out, hWire, hSent⟩ := hTraffic.wire
      have hNil : out = [] := by
        cases hSent with
        | nothing => rfl
        | flush j _ hb => exact absurd hb (hFlush j)
        | write j _ hb => simp [hWrites] at hb
        | reject _ hPending =>
            exact absurd hPending (hRegular.ledger.not_pending (held_of_sock hOld))
        | ext k _ hExt => exact absurd hExt (hRegular.ledger.sock_ne_ext hOld)
      rw [hWire, hNil, List.append_nil, hIdle.output]
      exact hs.wire i x hOld
  | store i x v hSock hRoom ht =>
      subst ht
      have hOutput := stored_output (hRegular.rings.tx i) hRoom x v
      refine ⟨fun j => ?_, fun j y hHere => ?_⟩
      · rw [hOutput j]
        split_ifs with hj
        · obtain ⟨bs, hBefore⟩ := hs.output j
          refine ⟨bs ++ [⟨v, i, x⟩], ?_⟩
          rw [owed_append_escape, List.flatMap_append, ← List.append_assoc, ← hBefore]
          simp
        · exact hs.output j
      · have hOwed : owed ((s.stored i x v).output j) = owed (s.output j) := by
          rw [hOutput j]
          split_ifs
          · exact owed_append_escape _ _
          · rfl
        rw [hOwed]
        exact hs.wire j y hHere
  | purge i hb ht =>
      subst ht
      refine ⟨fun j => ?_, fun j y hHere => ?_⟩
      · rw [purged_output]
        split_ifs
        · exact ⟨[], rfl⟩
        · exact hs.output j
      · have hSock : (s.ports j).sock = some y := by simpa [Sys.purged] using hHere
        have hWire : ((s.purged i).net.sockets y).wire = (s.net.sockets y).wire := by
          simp [Sys.purged]
        have hOld := hs.wire j y hSock
        rw [hWire, purged_output]
        split_ifs with hj
        · subst hj
          have hNone := (hPurges j hb).resolve_left (by simp [hSock])
          rwa [hNone] at hOld
        · exact hOld
  | flush i hb ht => exact absurd hb (hFlush i)
  | attach i x net hb hNone hAccept ht =>
      subst ht
      have hPending := accept_mem hAccept
      obtain ⟨k, _, rfl⟩ := accept_eq_some hAccept
      refine ⟨fun j => ?_, fun j y hHere => ?_⟩
      · rw [acceptCall_output]
        split_ifs
        · exact ⟨[], rfl⟩
        · exact hs.output j
      · rw [acceptCall_output]
        by_cases hj : j = i
        · subst hj
          obtain rfl : x = y := by simpa [telnetReset] using hHere
          simpa [hRegular.unsent x hPending, owed] using Framed.nil
        · rw [if_neg hj]
          simpa using hs.wire j y (by simpa [hj] using hHere)

/-- Blocks that neither flush nor write keep the wire framed. The induction is on their
effects. -/
theorem Effects.wireFramed (h : Effects b a s t) (hRegular : s.Regular) (hFlush : ∀ i, b ≠ .flush i)
    (hWrites : b.writes = none) (hPurges : ∀ i, b.purges = some i → s.OwesNothing i)
    (hs : s.WireFramed) : t.WireFramed := by
  suffices hAll : t.Regular ∧ (∀ i, b.purges = some i → t.OwesNothing i) ∧
    t.WireFramed from hAll.2.2
  induction h with
  | refl => exact ⟨hRegular, hPurges, hs⟩
  | tail _ last ih =>
      obtain ⟨hMiddle, hOwes, hFramed⟩ := ih
      exact ⟨Sys.Regular.stable.effect last hMiddle,
        fun i hb => last.owesNothing hMiddle.rings hFlush (hOwes i hb),
        last.wireFramed hMiddle hFlush hWrites hOwes hFramed⟩

end Steps

section Runs

variable {b : Block} {a : Answer} {s t : Sys}

/-- One block of a run keeps the wires framed. -/
theorem exec_wireFramed {rest : List Block} (hReach : Reachable ⟨s, b :: rest⟩)
    (ok : keepsFraming ⟨s, b :: rest⟩ (.run a)) (hRegular : s.Regular) (hs : s.WireFramed) :
    (exec b a s).1.WireFramed := by
  have hEffects := hReach.sound.effects a
  cases b with
  | raw i buf =>
      refine hs.write hRegular (stack_writesWell hReach (.raw i buf) (by simp)) ok ?_ ?_ fun _ =>
        rfl
      · intro j
        exact Sys.output_congr (by simp [exec]) (by simp [exec])
      · intro j
        simp [exec]
  | flush i =>
      refine hs.flush hRegular i a fun j hLost => ?_
      have hKept := List.all_eq_true.mp ok j (List.mem_finRange j)
      simpa [hLost] using hKept
  | rx i x tmp drop =>
      cases tmp with
      | nil => exact hs
      | cons v later =>
          show (pollRx i x (v :: later) drop a s).1.WireFramed
          have hOutput : ∀ j, (pollRx i x (v :: later) drop a s).1.output j = s.output j :=
            fun j => Sys.output_congr (by simp) (by simp)
          have hSock : ∀ j, ((pollRx i x (v :: later) drop a s).1.ports j).sock =
            (s.ports j).sock :=
            fun j => (pollRx_call i a s x (v :: later) drop j).2.1
          have hNet := pollRx_net i a s x v later drop
          cases hReply : (telnetFilter (s.ports i) v).reply with
          | none =>
              have hSame : (replied i v a s).net = s.net := by
                unfold replied
                rw [hReply]
                rfl
              refine ⟨fun j => by rw [hOutput]; exact hs.output j, fun j y hHere => ?_⟩
              rw [hOutput, hNet, hSame]
              exact hs.wire j y ((hSock j) ▸ hHere)
          | some buf =>
              refine hs.write (i := i) (a := a) hRegular (telnetFilter_reply hReply) ?_
                hOutput hSock
                fun y => ?_
              · simpa [keepsFraming, hReply] using ok
              · rw [hNet]
                unfold replied telnetSendRaw
                rw [hReply]
                obtain ⟨_, hSame, _⟩ := telnetFilter_frame (s.ports i) v
                simp only [Sys.modPort_ports, ↓reduceIte, hSame]
                cases (s.ports i).sock with
                | none => rfl
                | some z =>
                    dsimp only
                    split_ifs <;> rfl
  | int14 i f =>
      by_cases hInit : (s.ports i).initialized
      · refine hEffects.wireFramed hRegular (by simp) rfl (fun j hj => ?_) hs
        cases f with
        | init | purgeOutput =>
            obtain rfl : i = j := by simpa [Block.purges] using hj
            simpa [keepsFraming, hInit, Sys.OwesNothing, halfway_eq_false] using ok
        | _ => cases hj
      · have hSame : (exec (.int14 i f) a s).1 = s := by
          show (int14 i f s).1 = s
          unfold int14
          rw [if_neg hInit]
        rwa [hSame]
  | _ => exact hEffects.wireFramed hRegular (by simp) rfl (by simp [Block.purges]) hs

/-- Nothing outside the driver puts bytes on the wire. -/
theorem Sys.WireFramed.out {e : Outside} (hOut : outside e s = some t) (hRegular : s.Regular)
    (hs : s.WireFramed) : t.WireFramed := by
  have hOutput : ∀ i, t.output i = s.output i := by
    intro i
    rcases outside_cases hOut with ⟨tick, rfl⟩ | ⟨port, host, remote, rfl⟩ | ⟨y, bs, _, rfl⟩ <;> rfl
  refine ⟨fun i => ?_, fun i x hSock => ?_⟩
  · rw [hOutput]
    exact hs.output i
  · have hOld : (s.ports i).sock = some x := by rwa [outside_ports hOut] at hSock
    rw [hRegular.ledger.outside_wire hOut hOld, hOutput]
    exact hs.wire i x hOld

/-- A run whose writes are whole keeps every wire framed. -/
theorem wireFramed_of_reachable {c : Config}
    (h : ReachableBy (fun c act => keepsFraming c act) c) : c.sys.WireFramed := by
  suffices hBoth : c.sys.Regular ∧ c.sys.WireFramed from hBoth.2
  refine h.induct (P := fun c => c.sys.Regular ∧ c.sys.WireFramed) (fun args eager tick => ?_)
    (fun s b _ hs => hs) (fun s b rest a hReach ok hs => ?_)
    fun s t e todo hOut hs => ⟨Sys.Regular.stable.out hOut hs.1, hs.2.out hOut hs.1⟩
  · refine ⟨Sys.Regular.stable.start tick, fun i => ⟨[], ?_⟩, fun i x hSock => ?_⟩
    · simp [install, Sys.output, Sys.unsent, Sys.leftover, Sys.zero, FossilState.zero,
        CircularBuffer.contents, owed]
    · simp [install, Sys.zero, PortState.zero] at hSock
  · exact ⟨Sys.Regular.stable.effects (hReach.sound.effects a) hs.1,
      exec_wireFramed hReach.reachable ok hs.1 hs.2⟩

end Runs

section Receiver

theorem complete_escape (b : TxByte) :
    TelnetReceiver.Complete ((escape b).map WireByte.val) ∧
      TelnetReceiver.items ((escape b).map WireByte.val) = [.data b.val] := by
  rw [escape_stuff]
  exact ⟨TelnetReceiver.complete_stuff b.val, TelnetReceiver.items_stuff b.val⟩

/-- A whole piece is received as what it stands for. -/
theorem WireUnit.complete {u : WireUnit} (h : u.Whole) :
    TelnetReceiver.Complete (u.encode.map WireByte.val) := by
  cases u with
  | app b => exact (complete_escape b).1
  | write buf =>
      have hVal : (WireUnit.encode (.write buf)).map WireByte.val = buf := by
        simp [WireUnit.encode, Function.comp_def]
      rw [hVal]
      exact ControlWrite.complete h

/-- A sequence of pieces is received piece by piece. -/
theorem receive_units {units : List WireUnit} (h : ∀ u ∈ units, u.Whole) :
    receive .data ((units.flatMap WireUnit.encode).map WireByte.val) =
      (.data, units.flatMap WireUnit.items) := by
  rw [List.map_flatMap]
  exact TelnetReceiver.receive_flatMap fun u hu => WireUnit.complete (h u hu)

/-- The application bytes of a sequence of pieces, in order. -/
theorem sentBytes_units (units : List WireUnit) :
    sentBytes (units.flatMap WireUnit.encode) = units.filterMap WireUnit.byte? := by
  induction units with
  | nil => rfl
  | cons u units ih =>
      rw [List.flatMap_cons, sentBytes, List.filterMap_append, ← sentBytes, ← sentBytes, ih]
      cases u with
      | app b =>
          have hOne : sentBytes (escape b) = [b] := by
            unfold escape
            split_ifs <;> rfl
          simp [WireUnit.encode, WireUnit.byte?, hOne]
      | write buf =>
          have hNone : sentBytes (WireUnit.encode (.write buf)) = [] := by
            simp [WireUnit.encode, sentBytes]
          rw [hNone]
          rfl

/-- A framed wire that is one byte short ends in the first half of a pair. -/
theorem framed_half {wire : List WireByte} {b : TxByte} (h : Framed (wire ++ [⟨0xFF, .app b⟩])) :
    ∃ units : List WireUnit, (∀ u ∈ units, u.Whole) ∧
      wire = units.flatMap WireUnit.encode ++ [⟨0xFF, .escape b⟩] := by
  obtain ⟨units, hWhole, hWire⟩ := h
  rcases List.eq_nil_or_concat units with rfl | ⟨front, u, rfl⟩
  · simp at hWire
  · refine ⟨front, fun v hv => hWhole v (by simp [hv]), ?_⟩
    have hLast := hWhole u (by simp)
    rw [List.concat_eq_append, List.flatMap_append, List.flatMap_singleton] at hWire
    cases u with
    | app c =>
        rw [WireUnit.encode] at hWire
        by_cases hc : c.val = 0xFF
        · have hPair : escape c = [⟨0xFF, .escape c⟩] ++ [⟨0xFF, .app c⟩] := if_pos hc
          rw [hPair, ← List.append_assoc] at hWire
          obtain ⟨rfl, hEnd⟩ := List.append_inj' hWire rfl
          obtain rfl : b = c := by simpa using hEnd
          rfl
        · have hSingle : escape c = [⟨c.val, .app c⟩] := if_neg hc
          rw [hSingle] at hWire
          obtain ⟨_, hEnd⟩ := List.append_inj' hWire rfl
          have hVal : (0xFF : UInt8) = c.val := by simpa using congrArg (List.map WireByte.val) hEnd
          exact absurd hVal.symm hc
    | write buf =>
        rcases List.eq_nil_or_concat buf with rfl | ⟨start, v, rfl⟩
        · exact absurd rfl (ControlWrite.ne_nil hLast)
        · rw [WireUnit.encode, List.concat_eq_append, List.map_append, ← List.append_assoc] at hWire
          obtain ⟨_, hEnd⟩ := List.append_inj' hWire rfl
          simp at hEnd

end Receiver

/-- What was queued on the socket is a sequence of whole pieces, perhaps with the
first half of an escaped 0xFF whose other half is sent next; and this is how a
telnet receiver takes it. -/
def Sys.Understood (s : Sys) (i : PortIdx) (x : SockId) : Prop :=
  ∃ (units : List WireUnit) (half : List WireByte), (∀ u ∈ units, u.Whole) ∧
    (s.net.sockets x).wire = units.flatMap WireUnit.encode ++ half ∧
    (half = [] ∨ ∃ b later, half = [⟨0xFF, .escape b⟩] ∧ s.output i = ⟨0xFF, .app b⟩ :: later) ∧
    units.filterMap WireUnit.byte? = sentBytes (s.net.sockets x).wire ∧
    receive .data ((s.net.sockets x).wire.map WireByte.val) =
      (if half = [] then .data else .iac, units.flatMap WireUnit.items)

/-- A telnet receiver gets the application bytes sent so far, in order, and whole
control sequences and texts, in every run in which control writes are taken whole
between two pieces or not at all and no half of an escaped 0xFF is thrown away. -/
theorem wire_understood {c : Config} (h : ReachableBy (fun c act => keepsFraming c act) c)
    (i : PortIdx) (x : SockId) (hSock : (c.sys.ports i).sock = some x) : c.sys.Understood i x := by
  have hFramed := (wireFramed_of_reachable h).wire i x hSock
  cases hOwed : owed (c.sys.output i) with
  | nil =>
      rw [hOwed, List.append_nil] at hFramed
      obtain ⟨units, hWhole, hWire⟩ := hFramed
      refine ⟨units, [], hWhole, by simpa using hWire, .inl rfl, ?_, ?_⟩
      · rw [hWire, sentBytes_units]
      · rw [hWire, receive_units hWhole]
        rfl
  | cons w more =>
      obtain ⟨rfl, b, rfl⟩ := owed_eq_cons hOwed
      rw [hOwed] at hFramed
      obtain ⟨units, hWhole, hWire⟩ := framed_half hFramed
      obtain ⟨bs, hOutput⟩ := (wireFramed_of_reachable h).output i
      rw [hOwed] at hOutput
      refine ⟨units, _, hWhole, hWire, .inr ⟨b, _, rfl, hOutput⟩, ?_, ?_⟩
      · rw [hWire, sentBytes, List.filterMap_append, ← sentBytes, sentBytes_units]
        simp
      · rw [hWire, List.map_append, TelnetReceiver.receive_append, receive_units hWhole]
        simp [receive, TelnetReceiver.next, TelnetReceiver.iac]

/-- Half of an escaped 0xFF is sent; the keepalive of the next poll cycle gets in
before the other half. -/
def nopInsidePair : List Move :=
  answeredCall ++
    [.call (.int14 0 (.blockWrite [0xFF])) { sentBatch := 1 }, .outside (.ticks 15),
      .enter (.mux .poll)] ++ List.replicate 11 (.run {}) ++
    [.run { sent := 2 }, .finish {}, .call (.int14 0 .flush) { sent := 1 }]

/-- The same, with the other half sent first. -/
def nopAfterPair : List Move :=
  answeredCall ++
    [.call (.int14 0 (.blockWrite [0x41, 0xFF])) { sentBatch := 2 },
      .call (.int14 0 .flush) { sent := 1 }, .outside (.ticks 15), .call (.mux .poll) { sent := 2 }]

/-- The wire then has IAC NOP inside the pair. -/
theorem nopInsidePair_play :
    ((install [.listen 0 2323] true 0).play anyStep nopInsidePair).any (fun c =>
      decide (c.todo = []) && decide ((c.sys.ports 0).sock = some 1) &&
        decide (c.sys.output 0 = []) &&
        decide ((c.sys.net.sockets 1).wire.map WireByte.val = [0xFF, 0xFF, 0xF1, 0xFF])) =
          true := by
  decide +kernel

/-- The wire then has IAC NOP behind the pair. -/
theorem nopAfterPair_play :
    ((install [.listen 0 2323] true 0).play keepsFraming nopAfterPair).any (fun c =>
      decide ((c.sys.ports 0).sock = some 1) &&
        decide ((c.sys.net.sockets 1).wire.map WireByte.val = [0x41, 0xFF, 0xFF, 0xFF, 0xF1])) =
          true := by
  decide +kernel

/-- The receiver takes IAC IAC for a 0xFF, the second byte of the keepalive for
data, and waits for a command. -/
theorem wire_misunderstood : ¬ ∀ c, Reachable c → c.between → ∀ i x,
    (c.sys.ports i).sock = some x → c.sys.Understood i x := by
  intro hAll
  obtain ⟨c, hReach, hc⟩ := exists_reachable nopInsidePair_play
  simp only [Bool.and_eq_true, decide_eq_true_eq] at hc
  obtain ⟨⟨⟨hTodo, hSock⟩, hOutput⟩, hWire⟩ := hc
  obtain ⟨units, half, _, _, hHalf, _, hReceive⟩ := hAll c hReach hTodo 0 1 hSock
  obtain rfl : half = [] := hHalf.resolve_right fun ⟨b, later, _, hMore⟩ => by
    simp [hOutput] at hMore
  rw [hWire] at hReceive
  have hState : (receive .data [0xFF, 0xFF, 0xF1, 0xFF]).1 = .data := congrArg Prod.fst hReceive
  exact absurd hState (by decide)

theorem wire_understood_nop : ∃ (c : Config) (units : List WireUnit), c.sys.Understood 0 1 ∧
    receive .data [0x41, 0xFF, 0xFF, 0xFF, 0xF1] = (.data, units.flatMap WireUnit.items) := by
  obtain ⟨c, hReach, hc⟩ := exists_of_play (P := fun c act => keepsFraming c act)
    (fun _ _ h => h) nopAfterPair_play
  simp only [Bool.and_eq_true, decide_eq_true_eq] at hc
  have hUnderstood := wire_understood hReach 0 1 hc.1
  obtain ⟨units, half, _, _, _, _, hReceive⟩ := id hUnderstood
  rw [hc.2] at hReceive
  have hItems := congrArg Prod.snd hReceive
  have hState : (receive .data [0x41, 0xFF, 0xFF, 0xFF, 0xF1]).1 = .data := by decide
  exact ⟨c, units, hUnderstood, Prod.ext hState hItems⟩

end Vmodem
