import Vmodem.Invariants.Network

/-! Requests to end a call: when the flags that remember one are raised, and what
is decided on their account. -/

namespace Vmodem

section Flags

variable {b : Block} {a : Answer} {s t : Sys} {i : PortIdx}

/-- The close flag is cleared, kept, or set to 1 together with a request. -/
theorem Effect.pendingClose (h : Effect b a s t) (i : PortIdx) :
    (t.ports i).pendingClose = 0 ∨ (t.ports i).pendingClose = (s.ports i).pendingClose ∨
      ((t.ports i).pendingClose = 1 ∧ t.Requested i) := by
  cases h with
  | quiet h => exact h.pendingClose i
  | store j y v hSock h =>
      obtain ⟨_, rfl⟩ := storeTx_eq_some h
      exact .inr (.inl rfl)
  | filter j y tmp drop hb hSock =>
      exact .inr (.inl (pollRx_call j a s y tmp drop i).2.2.2.2.2.2)
  | receive j hb =>
      rcases pollRecv_cases j a s with hNone | ⟨y, _, _, _, hSome⟩
      · rw [hNone]
        exact .inr (.inl rfl)
      · rw [hSome]
        refine .inr (.inl ?_)
        by_cases hj : i = j <;> split_ifs <;> simp [hj]
  | attach j y net hb hSock hAccept =>
      refine .inr (.inl ?_)
      by_cases hj : i = j <;> simp [hj, telnetReset]
  | reconfigure j f hb hf =>
      refine .inr (.inl ?_)
      by_cases hj : i = j <;> simp [hj, (hf _).pendingClose]
  | read j n | clearRx j hb | clearRemote j hb | close j why hb
  | listenPort j tcpPort y net hb hFree hGet =>
      refine .inr (.inl ?_)
      by_cases hj : i = j <;> simp [hj]
  | _ => exact .inr (.inl (by simp))

/-- The purge counter starts together with a request. -/
theorem Effect.purgeSeen (h : Effect b a s t) (hPurge : (t.fossils i).purgeSeen ≠ 0) :
    (s.fossils i).purgeSeen ≠ 0 ∨ t.Requested i := by
  cases h with
  | quiet h => exact h.purgeSeen i hPurge
  | store j y v hSock h =>
      obtain ⟨_, rfl⟩ := storeTx_eq_some h
      refine .inl ?_
      by_cases hj : i = j <;> simpa [hj] using hPurge
  | purge j hb =>
      refine .inl ?_
      by_cases hj : i = j <;> simpa [hj] using hPurge
  | flush j hb => exact .inl (fossilFlushTx_purgeSeen j a s i ▸ hPurge)
  | receive j hb =>
      rcases pollRecv_cases j a s with hNone | ⟨y, _, _, _, hSome⟩
      · exact .inl (hNone ▸ hPurge)
      · rw [hSome] at hPurge
        split_ifs at hPurge <;> exact .inl (by simpa using hPurge)
  | attach j y net hb hSock hAccept =>
      refine .inl ?_
      by_cases hj : i = j <;> simpa [hj] using hPurge
  | _ => exact .inl (by simpa using hPurge)

theorem Effect.mem_trace (h : Effect b a s t) (hRings : s.RingsOk) {e : Event} (he : e ∈ s.trace) :
    e ∈ t.trace := by
  obtain ⟨newer, hTrace, _⟩ := h.logged hRings
  rw [hTrace]
  exact List.mem_append_right _ he

/-- A request stays good until another call is accepted on the port. -/
theorem Effect.requested (h : Effect b a s t) (hRings : s.RingsOk) (hReq : s.Requested i)
    (hTarget : b.target s = some i → (s.net.accept a.accepted).isNone) : t.Requested i := by
  intro x hSock
  rcases (h.call_source hSock).2 with hOld | ⟨hb, net, hAccept⟩
  · exact h.mem_trace hRings (hReq x hOld)
  · simp [hAccept] at hTarget
    exact absurd hb hTarget

/-- POLL-CLOSE and INIT-DISC are only decided on when a flag is up. -/
theorem exec_decides {i : PortIdx} :
    (∀ silent, .pollClose i silent ∈ (exec b a s).2 →
      b = .answered i ∧ (s.ports i).pendingClose ≠ 0 ∧
        silent = decide (2 ≤ (s.ports i).pendingClose)) ∧
    (.initDisc i ∈ (exec b a s).2 → b = .int14 i .init ∧
      ((s.ports i).pendingClose ≠ 0 ∨ (s.fossils i).purgeSeen ≠ 0)) := by
  constructor
  · intro silent hMem
    rcases (exec_pushed a s b).mem hMem with hPlain | ⟨j, _, hEq⟩ | ⟨j, silent', rfl, hEq⟩ |
      ⟨j, _, hEq | hEq⟩ | ⟨j, x, tmp, drop, hEq, _⟩
    · cases hPlain
    · cases hEq
    · obtain ⟨rfl, rfl⟩ := Block.pollClose.inj hEq
      simp only [exec, answered] at hMem
      by_cases hSock : (s.ports i).sock = none
      · rw [if_pos hSock] at hMem
        simp at hMem
      · rw [if_neg hSock] at hMem
        by_cases hClose : (s.ports i).pendingClose ≠ 0 ∧ s.safe
        · rw [if_pos hClose] at hMem
          refine ⟨rfl, hClose.1, ?_⟩
          split_ifs at hMem <;> simpa using hMem
        · rw [if_neg hClose] at hMem
          simp at hMem
    · cases hEq
    · cases hEq
    · cases hEq
  · intro hMem
    rcases (exec_pushed a s b).mem hMem with hPlain | ⟨j, _, hEq⟩ | ⟨j, silent', _, hEq⟩ |
      ⟨j, rfl, hEq | hEq⟩ | ⟨j, x, tmp, drop, hEq, _⟩
    · cases hPlain
    · cases hEq
    · cases hEq
    · obtain rfl := Block.initDisc.inj hEq
      refine ⟨rfl, ?_⟩
      by_contra hNone
      rw [not_or, not_not, not_not] at hNone
      obtain ⟨hClose, hPurge⟩ := hNone
      have hMem : .initDisc i ∈ (int14 i .init s).2 := hMem
      unfold int14 at hMem
      by_cases hInit : (s.ports i).initialized
      · rw [if_pos hInit] at hMem
        dsimp only at hMem
        unfold initStart at hMem
        simp [hClose, hPurge] at hMem
      · rw [if_neg hInit] at hMem
        simp at hMem
    · cases hEq
    · cases hEq

end Flags

/-- No port is ever marked for a silent POLL-CLOSE. -/
theorem Sys.closeFlags_stable : Stable fun s => ∀ i, (s.ports i).pendingClose ≤ 1 where
  start _ _ := by simp [Sys.zero, PortState.zero]
  effect hEffect h i := by
    rcases hEffect.pendingClose i with hZero | hSame | ⟨hOne, _⟩
    · simp [hZero]
    · exact hSame ▸ h i
    · simp [hOne]
  out hOut h i := by
    rw [outside_ports hOut]
    exact h i

/-- After INIT-DISC the rest of AH=04h is still to come. -/
theorem Pushed.init_follows {b : Block} {bs : List Block} {i : PortIdx} (h : Pushed b bs)
    (hMem : .initDisc i ∈ bs) : .initFinish i ∈ bs := by
  cases h with
  | plain h _ => cases h _ hMem
  | initDisc j writes h =>
      rcases List.mem_append.mp hMem with hWrite | hTail
      · cases h _ hWrite
      · have hj : i = j := by simpa using hTail
        simp [hj]
  | close j silent writes h =>
      rcases List.mem_append.mp hMem with hWrite | hTail
      · cases h _ hWrite
      · simp at hTail
  | _ => simp at hMem

/-- What waits on the stack is a POLL-CLOSE with its message, and an INIT-DISC
inside its AH=04h. -/
theorem stack_orderly {c : Config} (h : Reachable c) :
    (∀ i silent, .pollClose i silent ∈ c.todo → silent = false) ∧
      ∀ i, .initDisc i ∈ c.todo → .initFinish i ∈ c.todo := by
  refine h.induct (P := fun c : Config =>
    (∀ (i : PortIdx) (silent : Bool), .pollClose i silent ∈ c.todo → silent = false) ∧
      ∀ i : PortIdx, .initDisc i ∈ c.todo → .initFinish i ∈ c.todo) (fun args eager tick => ?_)
    (fun s b hEntry _ => ?_) (fun s b rest a hReach _ ih => ?_) fun _ _ _ _ _ ih => ih
  · refine ⟨fun i silent hMem => ?_, fun i hMem => ?_⟩
    · cases install_boots args eager tick _ hMem
    · cases install_boots args eager tick _ hMem
  · refine ⟨fun i silent hMem => ?_, fun i hMem => ?_⟩
    · obtain rfl := List.mem_singleton.mp hMem
      cases hEntry
    · obtain rfl := List.mem_singleton.mp hMem
      cases hEntry
  · have hHead := (List.pairwise_cons.mp hReach.sound.stack).1
    refine ⟨fun i silent hMem => ?_, fun i hMem => ?_⟩
    · rcases List.mem_append.mp hMem with hNew | hOld
      · obtain ⟨_, _, hSilent⟩ := exec_decides.1 silent hNew
        have hClose := Sys.closeFlags_stable.reachable hReach.reachable i
        rw [hSilent, decide_eq_false_iff_not]
        intro hTwo
        exact absurd (UInt8.le_trans hTwo hClose) (by decide)
      · exact ih.1 i silent (by simp [hOld])
    · rcases List.mem_append.mp hMem with hNew | hOld
      · exact List.mem_append_left _ ((exec_pushed a s b).init_follows hNew)
      · have hRaw : b.isRaw := hHead (.initDisc i) hOld
        have hFollows : .initFinish i ∈ b :: rest := ih.2 i (by simp [hOld])
        rcases List.mem_cons.mp hFollows with rfl | hRest
        · cases hRaw
        · exact List.mem_append_right _ hRest

end Vmodem
