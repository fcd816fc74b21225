import Vmodem.Driver.Icmp
import Vmodem.Library.Path
import Mathlib.Data.List.Induction

/-! Which request an ICMP result is about. Packets may be late or doubled; each that bears
the identifier of the driver answers or quotes some request that went out earlier. -/

namespace Vmodem

open Transition (Path)

namespace IcmpPacket

/-- The packet bears the identifier of the driver. -/
def Ours (pkt : IcmpPacket) : Prop :=
  if pkt.type = icmpEchoReply then pkt.word 0 = icmpIdent
  else pkt.isError ∧ pkt.word pkt.quotedIdent = icmpIdent

/-- The packet answers or quotes the request. -/
def About (pkt : IcmpPacket) (q : EchoRequest) : Prop :=
  pkt.Ours ∧
    (if pkt.type = icmpEchoReply then pkt.word 2 else pkt.word (pkt.quotedIdent + 2)) = htons q.seq

instance (pkt : IcmpPacket) : Decidable pkt.Ours := by
  unfold Ours
  infer_instance

instance (pkt : IcmpPacket) (q : EchoRequest) : Decidable (pkt.About q) :=
  inferInstanceAs (Decidable (_ ∧ _))

end IcmpPacket

namespace Icmp

/-- What the network delivers in answer to the driver is about a request it has seen. -/
def Genuine (st : Icmp × Action) : Prop :=
  match st.2 with
  | .receive pkt _ => pkt.Ours → ∃ q ∈ st.1.sent, pkt.About q
  | _ => True

instance (st : Icmp × Action) : Decidable (Genuine st) := by
  unfold Genuine
  split <;> infer_instance

/-- The packet of the step, if `vmodem_icmp_handler` takes it for the answer. -/
def reply? (st : Icmp × Action) : Option (Icmp × IcmpPacket × UInt32) :=
  match st.2 with
  | .receive pkt now => if accepts pkt st.1 then some (st.1, pkt, now) else none
  | _ => none

/-- The packet that produced the result at hand, and the state it came to. -/
def lastReply (past : List (Icmp × Action)) : Option (Icmp × IcmpPacket × UInt32) :=
  past.findSome? reply?

/-- The steps of some actions, and where they lead. -/
def trace (acts : List Action) : List (Icmp × Action) × Icmp :=
  acts.foldl (fun r act => ((r.2, act) :: r.1, (step act r.2).getD r.2)) ([], .zero)

/-- A scripted trace is a path of the ICMP state. -/
theorem trace_path (acts : List Action) : Path step .zero (trace acts).1 (trace acts).2 := by
  induction acts using List.reverseRecOn with
  | nil => exact .nil
  | append_singleton acts act ih =>
      have hStep : step act (trace acts).2 =
        some ((step act (trace acts).2).getD (trace acts).2) := by
        cases act <;> rfl
      rw [trace, List.foldl_append]
      exact ih.snoc hStep

end Icmp

theorem toNat_htons (x : UInt16) : (htons x).toNat = x.toNat % 256 * 256 + x.toNat / 256 := by
  have hx := x.toNat_lt
  rw [htons, UInt16.toNat_ofNat']
  omega

theorem htons_htons (x : UInt16) : htons (htons x) = x := by
  have hx := x.toNat_lt
  apply UInt16.toNat_inj.mp
  rw [toNat_htons, toNat_htons]
  omega

theorem htons_injective : Function.Injective htons := Function.LeftInverse.injective htons_htons

section Replies

open Icmp

variable {past : List (Icmp × Icmp.Action)} {s t : Icmp} {pkt : IcmpPacket} {now : UInt32}

/-- An accepted packet answers a request with the driver's identifier. -/
theorem ours_of_accepts (h : accepts pkt t) : pkt.Ours := by
  obtain ⟨_, hChecks⟩ := of_decide_eq_true h
  unfold IcmpPacket.Ours
  split_ifs at hChecks ⊢ with hReply hError
  · exact hChecks.1
  · exact ⟨hError, hChecks⟩

/-- The two branches of the handler: only an echo reply has its sequence number checked. -/
theorem sequence_of_accepts (h : accepts pkt t) (hReply : pkt.type = icmpEchoReply) :
    pkt.word 2 = htons t.seq := by
  obtain ⟨_, hChecks⟩ := of_decide_eq_true h
  rw [if_pos hReply] at hChecks
  exact hChecks.2

/-- The latest accepted packet was received, in a state that accepted it. -/
theorem lastReply_mem {r : Icmp × IcmpPacket × UInt32} (h : lastReply past = some r) :
    (r.1, .receive r.2.1 r.2.2) ∈ past ∧ accepts r.2.1 r.1 := by
  obtain ⟨⟨t, act⟩, hMem, hSome⟩ := List.exists_of_findSome?_eq_some h
  unfold reply? at hSome
  cases act with
  | receive pkt now =>
      dsimp only at hSome
      split_ifs at hSome with hAccepts
      obtain rfl := Option.some.inj hSome
      exact ⟨hMem, hAccepts⟩
  | _ => cases hSome

/-- The result at hand is what the last accepted packet left. -/
structure Produced (past : List (Icmp × Icmp.Action)) (s : Icmp) : Prop where
  exists_of_reply : s.state = .reply → (lastReply past).isSome
  result : ∀ r, lastReply past = some r → s.result = resultOf r.2.1 r.2.2 r.1

/-- A step that accepts nothing keeps the result where it came from. -/
theorem Produced.keep {act : Icmp.Action} (h : Produced past s) (hNone : reply? (s, act) = none)
    (hState : t.state = .reply → s.state = .reply) (hResult : t.result = s.result) :
    Produced ((s, act) :: past) t := by
  have hSame : lastReply ((s, act) :: past) = lastReply past := by
    rw [lastReply, List.findSome?_cons, hNone, lastReply]
  constructor
  · rw [hSame]
    exact fun hReply => h.exists_of_reply (hState hReply)
  · rw [hSame, hResult]
    exact h.result

/-- In every state the result is that of the latest accepted packet. The induction is on
the path. -/
theorem produced_of_path (h : Path Icmp.step .zero past s) : Produced past s := by
  induction h with
  | nil => exact ⟨fun hReply => (nomatch hReply), fun r hNone => nomatch hNone⟩
  | @snoc past s t act prior last ih =>
      cases act with
      | receive pkt now =>
          obtain rfl := Option.some.inj last
          by_cases hAccepts : accepts pkt s
          · have hLast : lastReply ((s, .receive pkt now) :: past) = some (s, pkt, now) := by
              simp [lastReply, reply?, hAccepts]
            constructor
            · simp [hLast]
            · intro r hr
              obtain rfl := Option.some.inj (hLast.symm.trans hr)
              simp [handler, hAccepts]
          · exact ih.keep (by simp [reply?, hAccepts]) (by simp [handler, hAccepts])
              (by simp [handler, hAccepts])
      | send =>
          obtain rfl := Option.some.inj last
          exact ih.keep rfl (fun hReply => nomatch hReply) rfl
      | transmit =>
          obtain rfl := Option.some.inj last
          unfold Icmp.transmit
          split_ifs <;> exact ih.keep rfl id rfl
      | poll =>
          obtain rfl := Option.some.inj last
          unfold Icmp.poll
          split_ifs
          · exact ih.keep rfl (fun hReply => nomatch hReply) rfl
          · exact ih.keep rfl id rfl
      | takeResult =>
          obtain rfl := Option.some.inj last
          exact ih.keep rfl (fun hReply => nomatch hReply) rfl

end Replies

/-- A result that can be reported was produced by a packet, and it is about a request with
the reported sequence number that has gone out exactly when no request was waiting to be
sent as the packet came and an error message quoted the current sequence number. -/
theorem icmp_result {past : List (Icmp × Icmp.Action)} {s : Icmp} (h : Path Icmp.step .zero past s)
    (hGenuine : ∀ st ∈ past, Icmp.Genuine st) :
    (s.state = .reply → (Icmp.lastReply past).isSome) ∧
    ∀ t pkt now, Icmp.lastReply past = some (t, pkt, now) → s.result = Icmp.resultOf pkt now t ∧
      ((t.sendPending = false ∧ ∃ q ∈ t.sent, pkt.About q ∧ q.seq = s.result.respSeq) ↔
        t.sendPending = false ∧
          (pkt.type ≠ icmpEchoReply → pkt.word (pkt.quotedIdent + 2) = htons t.seq)) := by
  obtain ⟨hReply, hResult⟩ := produced_of_path h
  refine ⟨hReply, fun t pkt now hLast => ⟨hResult _ hLast, and_congr_right fun _ => ?_⟩⟩
  obtain ⟨hMem, hAccepts⟩ := lastReply_mem hLast
  have hSeq : s.result.respSeq = t.seq := congrArg IcmpMuxResult.respSeq (hResult _ hLast)
  rw [hSeq]
  constructor
  · rintro ⟨q, _, ⟨_, hQuoted⟩, hq⟩ hType
    rw [if_neg hType, hq] at hQuoted
    exact hQuoted
  · intro hQuoted
    obtain ⟨q, hq, hAbout⟩ := hGenuine _ hMem (ours_of_accepts hAccepts)
    refine ⟨q, hq, hAbout, htons_injective ?_⟩
    rw [← hAbout.2]
    split_ifs with hType
    · exact sequence_of_accepts hAccepts hType
    · exact hQuoted hType

/-- The payload of a time-exceeded message that quotes a request with a 20-byte IP header
and the given sequence number. -/
def quoting (seq : UInt8) : Nat → UInt8 := fun k =>
  [0, 0, 0, 0, 0x45, 0, 0, 0, 0, 0, 0, 0, 0, 0, 0, 0, 0, 0, 0, 0, 0, 0, 0, 0,
    8, 0, 0, 0, 0xC3, 0xC3, 0, seq].getD k 0

/-- A router on the way answers for the first or the second probe. -/
def expired (seq : UInt8) : IcmpPacket := ⟨icmpTimeExceeded, 0, 0x0A000001, 64, quoting seq⟩

/-- Two probes of a traceroute; the packet arrives after the second has gone out. -/
def twoProbes (pkt : IcmpPacket) : List Icmp.Action :=
  [.send 1 1 0x08080808 0, .transmit true 1, .poll 100, .send 2 2 0x08080808 101,
    .transmit true 102,
    .receive pkt 103]

theorem twoProbes_second :
    ((Icmp.trace (twoProbes (expired 2))).1.all fun st => decide (Icmp.Genuine st)) = true ∧
      (Icmp.lastReply (Icmp.trace (twoProbes (expired 2))).1).any (fun r =>
        !r.1.sendPending && decide (r.2.1.type ≠ icmpEchoReply →
          r.2.1.word (r.2.1.quotedIdent + 2) = htons r.1.seq)) = true := by
  decide +kernel

theorem icmp_result_second_probe : ∃ past s t pkt now, Path Icmp.step .zero past s ∧
    Icmp.lastReply past = some (t, pkt, now) ∧ s.result = Icmp.resultOf pkt now t ∧
    ∃ q ∈ t.sent, pkt.About q ∧ q.seq = s.result.respSeq := by
  obtain ⟨hGenuine, hLast⟩ := twoProbes_second
  rw [List.all_eq_true] at hGenuine
  obtain ⟨⟨t, pkt, now⟩, hReply, hShown⟩ := (Option.any_eq_true _ _).mp hLast
  simp only [Bool.and_eq_true, Bool.not_eq_true', decide_eq_true_eq] at hShown
  have hPath := Icmp.trace_path (twoProbes (expired 2))
  obtain ⟨hResult, hBelongs⟩ :=
    (icmp_result hPath fun st hst => of_decide_eq_true (hGenuine st hst)).2 t pkt now hReply
  exact ⟨_, _, t, pkt, now, hPath, hReply, hResult, (hBelongs.mpr hShown).2⟩

/-- Two probes and a late answer to the first, reported as one to the second. -/
theorem twoProbes_first :
    ((Icmp.trace (twoProbes (expired 1))).1.all fun st => decide (Icmp.Genuine st)) = true ∧
      (Icmp.trace (twoProbes (expired 1))).2.state = .reply ∧
      (Icmp.trace (twoProbes (expired 1))).2.result.respSeq = 2 ∧
      (Icmp.lastReply (Icmp.trace (twoProbes (expired 1))).1).any (fun r =>
        r.1.sent.all fun q => decide (¬ (r.2.1.About q ∧ q.seq = 2))) = true := by
  decide +kernel

/-- The late answer to the first probe is reported as an answer to the second. -/
theorem late_answer_for_second : ∃ past s t pkt now, Path Icmp.step .zero past s ∧
    (∀ st ∈ past, Icmp.Genuine st) ∧ s.state = .reply ∧
    Icmp.lastReply past = some (t, pkt, now) ∧
    ¬ ∃ q ∈ t.sent, pkt.About q ∧ q.seq = s.result.respSeq := by
  obtain ⟨hGenuine, hState, hSeq, hLast⟩ := twoProbes_first
  rw [List.all_eq_true] at hGenuine
  obtain ⟨⟨t, pkt, now⟩, hReply, hShown⟩ := (Option.any_eq_true _ _).mp hLast
  rw [List.all_eq_true] at hShown
  refine ⟨_, _, t, pkt, now, Icmp.trace_path (twoProbes (expired 1)),
    fun st hst => of_decide_eq_true (hGenuine st hst), hState, hReply, ?_⟩
  rintro ⟨q, hq, hAbout⟩
  rw [hSeq] at hAbout
  exact of_decide_eq_true (hShown q hq) hAbout

end Vmodem
