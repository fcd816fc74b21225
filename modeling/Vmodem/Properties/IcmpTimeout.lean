import Vmodem.Properties.IcmpResults

/-! When a probe times out. The clock of MUX_ICMP_POLL runs from the transmission of the
request; a request that is not transmitted waits without end. -/

namespace Vmodem

open Transition (Path)

namespace Icmp

/-- The time at which the step hands the request to the packet driver. -/
def transmission? (st : Icmp × Action) : Option UInt32 :=
  match st.2 with
  | .transmit resolved now => if st.1.sendPending ∧ resolved then some now else none
  | _ => none

/-- What happened between MUX_ICMP_SEND at `since` and the poll at `now`: no other request,
no reply that was accepted, and more than 91 ticks. -/
structure Unanswered (later : List (Icmp × Action)) (since now : UInt32) : Prop where
  noSend : ∀ st ∈ later, ∀ ttl seq dest t, st.2 ≠ .send ttl seq dest t
  noReply : ∀ st ∈ later, reply? st = none
  sinceSend : since.toNat + 91 < now.toNat
  sinceTransmission : ∀ st ∈ later, ∀ t, transmission? st = some t → t.toNat + 91 < now.toNat

/-- In some poll cycle the Ethernet address of the destination was known. -/
def AddressFound (later : List (Icmp × Action)) : Prop := ∃ st ∈ later, ∃ t, st.2 = .transmit true t

/-- The client called MUX_ICMP_RESULT, which ends the probe. -/
def GivenUp (later : List (Icmp × Action)) : Prop := ∃ st ∈ later, st.2 = .takeResult

end Icmp

section Probe

open Icmp

variable {earlier later : List (Icmp × Icmp.Action)} {s s₀ t : Icmp} {act : Icmp.Action}
  {ttl : UInt8} {seq : UInt16} {dest : IpAddr} {since now : UInt32}

/-- An address is found at a step or was found before. -/
theorem addressFound_cons : AddressFound ((s, act) :: later) ↔
    (∃ t, act = .transmit true t) ∨ AddressFound later := by
  simp [AddressFound]

/-- A request is given up at a step or was given up before. -/
theorem givenUp_cons : GivenUp ((s, act) :: later) ↔ act = .takeResult ∨ GivenUp later := by
  simp [GivenUp]

/-- How far a probe got since it was queued. -/
structure Probe (later : List (Icmp × Icmp.Action)) (s : Icmp) : Prop where
  pending : s.sendPending = false ↔ AddressFound later
  stamp : AddressFound later → ∃ st ∈ later, transmission? st = some s.sendTick
  idle : GivenUp later → s.state = .idle
  waiting : ¬ GivenUp later → s.state = .waiting ∨ (s.state = .timeout ∧ AddressFound later)

/-- A step that neither transmits the request nor gives it up. -/
theorem Probe.keep (h : Probe later s) (hTransmit : ∀ t, act ≠ .transmit true t)
    (hTake : act ≠ .takeResult) (hPending : t.sendPending = s.sendPending)
    (hTick : t.sendTick = s.sendTick)
    (hState : t.state = s.state ∨ (s.state = .waiting ∧ s.sendPending = false ∧
      t.state = .timeout)) :
    Probe ((s, act) :: later) t := by
  have hResolved : AddressFound ((s, act) :: later) ↔ AddressFound later := by
    rw [addressFound_cons]
    exact or_iff_right fun ⟨t, ht⟩ => hTransmit t ht
  have hGivenUp : GivenUp ((s, act) :: later) ↔ GivenUp later := by
    rw [givenUp_cons]
    exact or_iff_right hTake
  refine ⟨?_, fun hSent => ?_, fun hGone => ?_, fun hKept => ?_⟩
  · rw [hResolved, hPending]
    exact h.pending
  · obtain ⟨st, hMem, hStamp⟩ := h.stamp (hResolved.mp hSent)
    exact ⟨st, List.mem_cons_of_mem _ hMem, hTick ▸ hStamp⟩
  · have hIdle := h.idle (hGivenUp.mp hGone)
    rcases hState with hSame | ⟨hWaiting, _⟩
    · exact hSame.trans hIdle
    · rw [hIdle] at hWaiting
      cases hWaiting
  · rw [hResolved]
    rcases hState with hSame | ⟨_, hNotPending, hTimeout⟩
    · rw [hSame]
      exact h.waiting fun hGone => hKept (hGivenUp.mpr hGone)
    · exact .inr ⟨hTimeout, h.pending.mp hNotPending⟩

/-- Where no other request and no reply comes, the state is that of the probe. The
induction is on the path. -/
theorem probe_of_path
    (h : Path Icmp.step .zero (later ++ (s₀, .send ttl seq dest since) :: earlier) s)
    (hNoSend : ∀ st ∈ later, ∀ ttl seq dest t, st.2 ≠ .send ttl seq dest t)
    (hNoReply : ∀ st ∈ later, reply? st = none) : Probe later s := by
  induction later generalizing s with
  | nil =>
      cases h with
      | snoc prior last =>
          obtain rfl := Option.some.inj last
          refine ⟨by simp [Icmp.send, AddressFound], ?_, ?_, fun _ => .inl rfl⟩
          · rintro ⟨st, hMem, _⟩
            cases hMem
          · rintro ⟨st, hMem, _⟩
            cases hMem
  | cons st later ih =>
      rw [List.forall_mem_cons] at hNoSend hNoReply
      cases h with
      | @snoc _ t _ act prior last =>
          have hProbe := ih prior hNoSend.2 hNoReply.2
          cases act with
          | send ttl seq dest now => exact absurd rfl (hNoSend.1 ttl seq dest now)
          | receive pkt now =>
              obtain rfl := Option.some.inj last
              have hNot : ¬ accepts pkt t := by
                intro hAccepts
                have hNone := hNoReply.1
                simp [reply?, hAccepts] at hNone
              unfold Icmp.handler
              rw [if_neg hNot]
              exact hProbe.keep (by simp) (by simp) rfl rfl (.inl rfl)
          | transmit resolved now =>
              obtain rfl := Option.some.inj last
              unfold Icmp.transmit
              cases resolved with
              | false =>
                  rw [if_neg (by simp)]
                  exact hProbe.keep (by simp) (by simp) rfl rfl (.inl rfl)
              | true =>
                  have hSent : AddressFound ((t, .transmit true now) :: later) :=
                    addressFound_cons.mpr (.inl ⟨now, rfl⟩)
                  have hGivenUp : GivenUp ((t, .transmit true now) :: later) ↔ GivenUp later := by
                    rw [givenUp_cons]
                    exact or_iff_right (by simp)
                  have hWaiting : ¬ GivenUp later → t.state = .waiting ∨ (t.state = .timeout ∧
                      AddressFound ((t, .transmit true now) :: later)) := fun hKept =>
                    (hProbe.waiting hKept).imp_right fun hLate => ⟨hLate.1, hSent⟩
                  by_cases hPending : t.sendPending
                  · rw [if_pos ⟨hPending, rfl⟩]
                    refine ⟨by simp [hSent], fun _ => ⟨_, List.mem_cons_self, ?_⟩, ?_, ?_⟩
                    · simp [transmission?, hPending]
                    · exact fun hGone => hProbe.idle (hGivenUp.mp hGone)
                    · exact fun hKept => hWaiting fun hGone => hKept (hGivenUp.mpr hGone)
                  · rw [if_neg fun hBoth => hPending hBoth.1]
                    have hDone := Bool.eq_false_iff.mpr hPending
                    obtain ⟨st, hMem, hStamp⟩ := hProbe.stamp (hProbe.pending.mp hDone)
                    refine ⟨by simp [hSent, hDone],
                      fun _ => ⟨st, List.mem_cons_of_mem _ hMem, hStamp⟩,
                      ?_, ?_⟩
                    · exact fun hGone => hProbe.idle (hGivenUp.mp hGone)
                    · exact fun hKept => hWaiting fun hGone => hKept (hGivenUp.mpr hGone)
          | poll now =>
              obtain rfl := Option.some.inj last
              unfold Icmp.poll
              split_ifs with hLate
              · exact hProbe.keep (by simp) (by simp) rfl rfl
                  (.inr ⟨hLate.1, by simpa using hLate.2.1, rfl⟩)
              · exact hProbe.keep (by simp) (by simp) rfl rfl (.inl rfl)
          | takeResult =>
              obtain rfl := Option.some.inj last
              have hSame : AddressFound ((t, .takeResult) :: later) ↔ AddressFound later := by
                rw [addressFound_cons]
                exact or_iff_right (by simp)
              have hGone : GivenUp ((t, .takeResult) :: later) := givenUp_cons.mpr (.inl rfl)
              refine ⟨hProbe.pending.trans hSame.symm, fun hSent => ?_, fun _ => rfl,
                fun hKept => absurd hGone hKept⟩
              obtain ⟨st, hMem, hStamp⟩ := hProbe.stamp (hSame.mp hSent)
              exact ⟨st, List.mem_cons_of_mem _ hMem, hStamp⟩

/-- After more than 91 ticks without an answer the poll reports a timeout exactly if the
request could be transmitted and the client has not given it up. -/
theorem icmp_timeout
    (h : Path Icmp.step .zero (later ++ (s₀, .send ttl seq dest since) :: earlier) s)
    (hUnanswered : Unanswered later since now) :
    (s.poll now).state = .timeout ↔ AddressFound later ∧ ¬ GivenUp later := by
  have hProbe := probe_of_path h hUnanswered.noSend hUnanswered.noReply
  constructor
  · intro hTimeout
    have hKept : ¬ GivenUp later := by
      intro hGone
      simp [Icmp.poll, hProbe.idle hGone] at hTimeout
    refine ⟨?_, hKept⟩
    rcases hProbe.waiting hKept with hWaiting | ⟨_, hSent⟩
    · unfold Icmp.poll at hTimeout
      split_ifs at hTimeout with hLate
      · exact hProbe.pending.mp (by simpa using hLate.2.1)
      · rw [hWaiting] at hTimeout
        cases hTimeout
    · exact hSent
  · rintro ⟨hSent, hKept⟩
    rcases hProbe.waiting hKept with hWaiting | ⟨hTimeout, _⟩
    · obtain ⟨st, hMem, hStamp⟩ := hProbe.stamp hSent
      have hLong := hUnanswered.sinceTransmission st hMem _ hStamp
      have hPassed : now - s.sendTick > 91 := by
        have hLe : s.sendTick ≤ now := UInt32.le_iff_toNat_le.mpr (by omega)
        show 91 < now - s.sendTick
        rw [UInt32.lt_iff_toNat_lt, UInt32.toNat_sub_of_le _ _ hLe]
        show 91 < now.toNat - s.sendTick.toNat
        omega
      unfold Icmp.poll
      rw [if_pos ⟨hWaiting, by simp [hProbe.pending.mpr hSent], hPassed⟩]
    · unfold Icmp.poll
      rw [if_neg fun hLate => by rw [hTimeout] at hLate; exact nomatch hLate.1]
      exact hTimeout

/-- A probe that has just been queued. -/
def queued : Icmp := Icmp.zero.send 64 1 0x08080808 1000

/-- The request is transmitted in the next poll cycle. -/
def transmitted : List (Icmp × Icmp.Action) := [(queued, .transmit true 1001)]

/-- The destination does not answer ARP. -/
def unresolved : List (Icmp × Icmp.Action) :=
  [(queued, .transmit false 90000), (queued, .transmit false 1001)]

theorem queued_path : Path Icmp.step .zero [(.zero, .send 64 1 0x08080808 1000)] queued :=
  .snoc .nil rfl

/-- A request that was sent and not answered for 93 ticks. -/
theorem transmitted_unanswered : Unanswered transmitted 1000 1093 where
  noSend := by simp [transmitted]
  noReply := by simp [transmitted, reply?]
  sinceSend := by decide
  sinceTransmission := by simp [transmitted, transmission?, queued, Icmp.send]

theorem icmp_timeout_transmitted : ((queued.transmit true 1001).poll 1093).state = .timeout := by
  have hPath : Path Icmp.step .zero (transmitted ++ [(.zero, .send 64 1 0x08080808 1000)])
      (queued.transmit true 1001) := queued_path.snoc rfl
  refine (icmp_timeout hPath transmitted_unanswered).mpr ⟨?_, ?_⟩
  · exact ⟨_, List.mem_cons_self, 1001, rfl⟩
  · simp [GivenUp, transmitted]

/-- The request is transmitted, and the client asks for the result at once. -/
def givenUp : List (Icmp × Icmp.Action) :=
  (queued.transmit true 1001, .takeResult) :: transmitted

/-- An hour and a half after it was queued a probe is still reported as waiting; and one that
was given up is not reported as timed out either. -/
theorem probe_without_timeout :
    (Path Icmp.step .zero (unresolved ++ [(.zero, .send 64 1 0x08080808 1000)]) queued ∧
      Unanswered unresolved 1000 100000 ∧ (queued.poll 100000).state = .waiting) ∧
    (Path Icmp.step .zero (givenUp ++ [(.zero, .send 64 1 0x08080808 1000)])
        (queued.transmit true 1001).takeResult ∧
      Unanswered givenUp 1000 1093 ∧
      ((queued.transmit true 1001).takeResult.poll 1093).state = .idle) := by
  refine ⟨⟨(queued_path.snoc rfl).snoc rfl, ⟨?_, ?_, by decide, ?_⟩, by decide⟩,
    ⟨(queued_path.snoc rfl).snoc rfl, ⟨?_, ?_, by decide, ?_⟩, by decide⟩⟩
  · simp [unresolved]
  · simp [unresolved, reply?]
  · simp [unresolved, transmission?]
  · simp [givenUp, transmitted]
  · simp [givenUp, transmitted, reply?]
  · simp [givenUp, transmitted, transmission?, queued, Icmp.send]

end Probe

end Vmodem
