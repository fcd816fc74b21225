import Vmodem.Invariants.LineSteps
import Vmodem.Invariants.Decisions

/-! The times of a call. While the call is up three blocks stamp them with the time
now: one that takes bytes from TCP, AH=01h, and AH=04h. AH=0Bh and AH=19h are not
among them. -/

namespace Vmodem

/-- When a call was accepted, when it last received and when it was last written to,
with the time now. -/
structure Times where
  conn : Tick
  rx : Tick
  tx : Tick
  now : Tick

def Registers.times (r : Registers) : Times := ⟨r.connTick, r.lastRxTick, r.lastTxTick, r.tick⟩

def Sys.times (s : Sys) (i : PortIdx) : Times := (s.registers i).times

theorem times_eq_iff {s : Sys} {i : PortIdx} {u : Times} : s.times i = u ↔
    (s.ports i).connTick = u.conn ∧ (s.ports i).lastRxTick = u.rx ∧
      (s.ports i).lastTxTick = u.tx ∧ s.tick = u.now := by
  cases u
  exact Iff.of_eq (Times.mk.injEq ..)

section Frames

variable {i j : PortIdx} {a : Answer} {s t : Sys}

@[simp] theorem modAt_times (f : AtState → AtState) : (s.modAt i f).times j = s.times j := rfl

@[simp] theorem modFossil_times (f : FossilState → FossilState) :
    (s.modFossil i f).times j = s.times j := rfl

theorem times_congr (h : t.registers j = s.registers j) : t.times j = s.times j :=
  congrArg Registers.times h

/-- A step within one port leaves the times of every call alone. -/
theorem OwnPort.times (h : OwnPort i s t) (j : PortIdx) : t.times j = s.times j := by
  by_cases hj : j = i
  · subst hj
    unfold Sys.times Sys.registers Registers.times
    rw [h.connTick, h.lastRxTick, h.lastTxTick, h.tick]
  · obtain ⟨ignore, hPort⟩ := h.ports j hj
    unfold Sys.times Sys.registers Registers.times
    rw [hPort, h.tick]

theorem atSendNoCarrier_times : (atSendNoCarrier i s).times j = s.times j :=
  (times_congr atNoCarrier_registers).trans (modAt_times _)

/-- The ring check reads the clock and sets none of the times of a call. -/
theorem atCheckRing_times : (atCheckRing i s).1.times j = s.times j := by
  unfold atCheckRing
  extract_lets m
  split_ifs
  · rfl
  · rfl
  · rfl
  · rfl
  · rfl
  · rfl
  · exact (modAt_times _).trans (times_congr (atResult_registers _ _))

theorem initStart_times : (initStart i s).1.times j = s.times j := by
  unfold initStart
  extract_lets cleared
  have hCleared : cleared.times j = s.times j :=
    times_congr (fossilClearTx_registers.trans clearRx_registers)
  split_ifs
  all_goals dsimp only
  · refine Eq.trans ?_ hCleared
    by_cases hj : j = i <;> simp [Sys.times, Sys.registers, Registers.times, hj]
  · refine Eq.trans ?_ hCleared
    by_cases hj : j = i <;> simp [Sys.times, Sys.registers, Registers.times, hj]
  · exact hCleared

theorem setDtr_times (al : UInt8) : (setDtr i al s).times j = s.times j := by
  unfold setDtr
  extract_lets raised
  have hRaised : raised.times j = s.times j := modFossil_times _
  split_ifs
  · exact hRaised
  · exact (times_congr requestClose_registers).trans hRaised
  · exact hRaised
  · exact hRaised
  · exact hRaised

theorem purgeOutput_times : (purgeOutput i s).times j = s.times j := by
  unfold purgeOutput
  extract_lets cleared
  have hCleared : cleared.times j = s.times j := times_congr fossilClearTx_registers
  split_ifs
  · exact (times_congr logRequest_registers).trans hCleared
  · exact hCleared

/-- AH=01h stamps the time of writing and nothing else. -/
theorem transmit_times (v : UInt8) : (transmit i v s).1.times j =
    (s.modPort i fun p => { p with lastTxTick := s.tick }).times j :=
  (times_congr (transmit_registers v)).trans ((atInput_own i _ v).times j)

theorem transmitNoWait_times (v : UInt8) : (transmitNoWait i v s).1.times j = s.times j :=
  (times_congr (transmitNoWait_registers v)).trans ((atInput_own i s v).times j)

theorem initFinish_times : (initFinish i a s).times i =
    { s.times i with rx := s.tick, tx := s.tick } := by
  refine (times_congr initListen_registers).trans ?_
  unfold initReset
  extract_lets raised reset ringing cleared
  have hReset : reset.times i = { s.times i with rx := s.tick, tx := s.tick } := by
    simp [Sys.times, Sys.registers, Registers.times, reset, raised]
  split_ifs
  · exact hReset
  · exact hReset

/-- The disconnect detection looks at the times and sets none. -/
theorem pollDisconnected_times (now : Tick) : (pollDisconnected i now a s).times j = s.times j := by
  unfold pollDisconnected
  cases (s.ports i).sock with
  | none => rfl
  | some x =>
      dsimp only
      split_ifs
      · refine (times_congr enterIdleMode_registers).trans (atSendNoCarrier_times.trans ?_)
        exact times_congr (by simp)
      · rfl

end Frames

section Steps

variable {i : PortIdx} {b : Block} {a : Answer} {s : Sys}

/-- AH=01h stamps the call with the time now, -/
theorem exec_transmit_times (a : Answer) (v : UInt8) (hInit : (s.ports i).initialized) :
    (exec (.int14 i (.transmit v)) a s).1.times i = { s.times i with tx := s.tick } := by
  have hStamp : (s.modPort i fun p => { p with lastTxTick := s.tick }).times i =
      { s.times i with tx := s.tick } := by
    simp [Sys.times, Sys.registers, Registers.times]
  show (int14 i (.transmit v) s).1.times i = _
  unfold int14
  rw [if_pos hInit]
  exact (transmit_times v).trans hStamp

/-- and so does a round of the receive loop that takes bytes. -/
theorem exec_recv_times (h : .recv i ∈ (exec (.recv i) a s).2) :
    (exec (.recv i) a s).1.times i = { s.times i with rx := s.tick } := by
  have hRound : .recv i ∈ (pollRecv i a s).2 := h
  show (pollRecv i a s).1.times i = _
  unfold pollRecv at hRound ⊢
  cases hSock : (s.ports i).sock with
  | none => simp [hSock] at hRound
  | some x =>
      simp only [hSock] at hRound ⊢
      split_ifs at hRound ⊢
      · simp at hRound
      · simp [Sys.times, Sys.registers, Registers.times]
      · simp [Sys.times, Sys.registers, Registers.times]

/-- A receive that takes nothing leaves the state as it is. -/
theorem exec_recv_idle (h : .recv i ∉ (exec (.recv i) a s).2) : (exec (.recv i) a s).1 = s := by
  rcases pollRecv_cases i a s with hSame | ⟨x, _, _, hPush, _⟩
  · exact hSame
  · exact absurd (show .recv i ∈ (pollRecv i a s).2 by simp [hPush]) h

/-- What a step does to the times of a call that is up. -/
theorem exec_times (hModes : s.ModesAgree) (hSock : (s.ports i).sock.isSome)
    (hTarget : b.target s = some i → (s.ports i).sock = none) :
    (exec b a s).1.times i = s.times i ∨
      (b = .recv i ∧ (exec b a s).1.times i = { s.times i with rx := s.tick }) ∨
      (∃ v, b = .int14 i (.transmit v) ∧
        (exec b a s).1.times i = { s.times i with tx := s.tick }) ∨
      (b = .initFinish i ∧
        (exec b a s).1.times i = { s.times i with rx := s.tick, tx := s.tick }) := by
  by_cases hSteers : b.steers i
  · cases b with
    | int14 k f =>
        show (int14 k f s).1.times i = _ ∨ _
        unfold int14
        by_cases hInit : (s.ports k).initialized
        · rw [if_pos hInit]
          cases f with
          | transmit v =>
              by_cases hk : i = k
              · subst hk
                exact .inr (.inr (.inl ⟨v, rfl, exec_transmit_times a v hInit⟩))
              · refine .inl ((transmit_times v).trans ?_)
                exact times_congr (modPort_registers_of_ne _ hk)
          | transmitNoWait v => exact .inl (transmitNoWait_times v)
          | init => exact .inl initStart_times
          | dtr al => exact .inl (setDtr_times al)
          | purgeOutput => exact .inl purgeOutput_times
          | _ => cases hSteers
        · rw [if_neg hInit]
          exact .inl rfl
    | ring k => exact .inl ((modAt_times _).trans (times_congr (atResult_registers _ _)))
    | checkRing k => exact .inl atCheckRing_times
    | pollClose k silent =>
        have hClosed : (clearRx k (clearRemote k (closeSock k .pollClose s))).times i = s.times i :=
          times_congr (by simp)
        refine .inl (Eq.trans ?_ hClosed)
        cases silent with
        | false => exact (times_congr enterIdleMode_registers).trans atSendNoCarrier_times
        | true => exact times_congr enterIdleMode_registers
    | idleClose k =>
        exact .inl ((times_congr enterIdleMode_registers).trans
          (atSendNoCarrier_times.trans (times_congr (by simp))))
    | disconnected k now => exact .inl (pollDisconnected_times now)
    | recv k =>
        obtain rfl : k = i := of_decide_eq_true hSteers
        by_cases hRound : .recv k ∈ (exec (.recv k) a s).2
        · exact .inr (.inl ⟨rfl, exec_recv_times hRound⟩)
        · exact .inl (by rw [exec_recv_idle hRound])
    | purgeStatus k =>
        show (purgeStatus k s).times i = _ ∨ _
        unfold purgeStatus
        split_ifs <;> exact .inl rfl
    | initFinish k =>
        obtain rfl : k = i := of_decide_eq_true hSteers
        exact .inr (.inr (.inr ⟨rfl, initFinish_times⟩))
    | hunt g | port k =>
        refine .inl (times_congr ?_)
        refine (exec_accepts_registers (j := i) ?_ hModes).resolve_right fun hAccept => ?_
        · rfl
        · simp [hTarget hAccept.1] at hSock
    | _ => cases hSteers
  · exact .inl (times_congr (exec_registers (by simpa using hSteers)))

end Steps

section Stack

/-- The idle test, to be made with a time read before. -/
def Block.dated : Block → Bool
  | .idle _ _ => true
  | _ => false

/-- Between reading the clock and the idle test there are only writes to sockets. -/
theorem exec_dated (b : Block) (a : Answer) (s : Sys) :
    (exec b a s).2.Pairwise fun c d => d.dated → c.isRaw := by
  by_cases hAny : ∃ d ∈ (exec b a s).2, d.dated
  · obtain ⟨d, hMem, hDated⟩ := hAny
    have hFollowed := exec_followed b a s d hMem
    cases d with
    | idle i now =>
        obtain ⟨rfl, _⟩ := hFollowed
        show (pollKeepalive i s).Pairwise _
        unfold pollKeepalive
        split_ifs <;> simp [Block.dated, Block.isRaw]
    | _ => cases hDated
  · exact List.pairwise_of_forall_mem_list fun _ _ d hd hDated => absurd ⟨d, hd, hDated⟩ hAny

/-- Nothing but the keepalive stands between reading the time and the idle test. -/
theorem stack_dated {c : Config} (h : Reachable c) :
    c.todo.Pairwise fun c d => d.dated → c.isRaw := by
  refine stack_deferred Block.isRaw Block.dated (fun _ _ _ hRaw => (exec_raw hRaw).1)
    (fun d hBoots => ?_) exec_dated h
  cases d <;> simp_all [Block.boots, Block.dated]

end Stack

end Vmodem
