import Vmodem.Invariants.Stamps
import Vmodem.Invariants.Calls
import Vmodem.Properties.Timers

/-! The idle timeout. A call is closed as idle when its time stamps are old, and all
activity counts as long as it is stamped. AH=0Bh and AH=19h do not stamp. -/

namespace Vmodem

/-- The counter does not restart in this step. -/
def clockRuns (c : Config) : Action → Prop
  | .outside (.ticks n) => c.sys.tick.toNat + n < ticksPerDay
  | _ => True

instance clockRuns.decidable (c : Config) (act : Action) : Decidable (clockRuns c act) := by
  unfold clockRuns
  split <;> infer_instance

/-- The transmit ring takes a byte for the port's connection. -/
def stores (i : PortIdx) (v : UInt8) (s : Sys) : Bool :=
  (s.ports i).sock.any fun x => (storeTx i x v s).isSome

/-- A step of the port's call that takes bytes from TCP, or a byte from the
application: AH=01h is called, AH=0Bh returns 1, AH=19h or the second attempt of
AH=01h stores the byte. -/
def Block.active (i : PortIdx) (a : Answer) (s : Sys) : Block → Bool
  | .recv j => j = i && decide (.recv i ∈ (exec (.recv i) a s).2)
  | .int14 j (.transmit _) => j = i && (s.ports i).initialized
  | .int14 j (.transmitNoWait v) =>
      j = i && (s.ports i).initialized && decide (.ret i 1 ∈ (transmitNoWait i v s).2)
  | .write j (v :: _) _ | .retryWrite j v _ _ | .retryChar j v => j = i && stores i v s
  | _ => false

def activeStep (i : PortIdx) (st : Config × Action) : Bool :=
  match st.2, st.1.todo with
  | .run a, b :: _ => b.active i a st.1.sys
  | _, _ => false

/-- The blocks that note the time of the activity they are. -/
def Block.stamping : Block → Bool
  | .recv _ | .int14 _ (.transmit _) => true
  | _ => false

/-- The block is stamped, or runs in a tick in which a stamp was made. -/
def Block.noted (i : PortIdx) (s : Sys) (b : Block) : Bool :=
  b.stamping || decide (s.tick = (s.ports i).lastRxTick) || decide (s.tick = (s.ports i).lastTxTick)

/-- All activity in these steps was noted. -/
def allNoted (i : PortIdx) (p : Past) : Bool :=
  p.all fun st => match st.2, st.1.todo with
    | .run a, b :: _ => !b.active i a st.1.sys || b.noted i st.1.sys
    | _, _ => true

/-- The block sets the idle limit of a port that has none. -/
def Block.limits (i : PortIdx) (a : Answer) (s : Sys) (b : Block) : Bool :=
  decide ((s.ports i).idleTimeout = 0) && decide (((exec b a s).1.ports i).idleTimeout ≠ 0)

/-- While the port of a call has an idle limit, its activity is noted. Without one it need not
be, but then the command that sets the limit is. -/
def timely (i : PortIdx) : Past → Bool
  | [] => true
  | st :: before => timely i before && match st.2, st.1.todo with
      | .run a, b :: _ => b.noted i st.1.sys ||
          (if b.limits i a st.1.sys then !b.active i a st.1.sys && allNoted i before
          else !b.active i a st.1.sys || decide ((st.1.sys.ports i).idleTimeout = 0))
      | _, _ => true

/-- The idle limit of the port in ticks. -/
def idleLimit (i : PortIdx) (s : Sys) : Nat := (s.ports i).idleTimeout.toNat * 18

/-- The stamps of a call cover its activity, and what the idle test has found. -/
structure Clocked (i : PortIdx) (p : Past) (c : Config) : Prop where
  conn_rx : (c.sys.ports i).connTick.toNat ≤ (c.sys.ports i).lastRxTick.toNat
  conn_tx : (c.sys.ports i).connTick.toNat ≤ (c.sys.ports i).lastTxTick.toNat
  rx_now : (c.sys.ports i).lastRxTick.toNat ≤ c.sys.tick.toNat
  tx_now : (c.sys.ports i).lastTxTick.toNat ≤ c.sys.tick.toNat
  before : ∀ st ∈ p, st.1.sys.tick.toNat ≤ c.sys.tick.toNat
  active : (c.sys.ports i).idleTimeout ≠ 0 ∨ allNoted i p → ∀ st ∈ p, activeStep i st →
    st.1.sys.tick.toNat ≤ max (c.sys.ports i).lastRxTick.toNat (c.sys.ports i).lastTxTick.toNat
  idle : ∀ now, .idle i now ∈ c.todo → (c.sys.ports i).lastRxTick.toNat ≤ now.toNat ∧
    (c.sys.ports i).lastTxTick.toNat ≤ now.toNat ∧ now.toNat ≤ c.sys.tick.toNat
  closing : .idleClose i ∈ c.todo → (c.sys.ports i).idleTimeout ≠ 0 ∧
    (c.sys.ports i).lastRxTick.toNat + idleLimit i c.sys < c.sys.tick.toNat ∧
      (c.sys.ports i).lastTxTick.toNat + idleLimit i c.sys < c.sys.tick.toNat

section Steps

variable {i : PortIdx} {x : SockId} {b : Block} {a : Answer} {s t : Sys} {rest todo : List Block}
  {p past : Past} {c : Config}

theorem timely_before {st : Config × Action} (h : timely i (st :: p)) : timely i p := by
  simp only [timely, Bool.and_eq_true] at h
  exact h.1

/-- The idle test with a time that is not before the stamps. -/
theorem idleExpired_stamps {now : Tick} (h : idleExpired i now s)
    (hRx : (s.ports i).lastRxTick.toNat ≤ now.toNat)
    (hTx : (s.ports i).lastTxTick.toNat ≤ now.toNat) :
    (s.ports i).idleTimeout ≠ 0 ∧ (s.ports i).lastRxTick.toNat + idleLimit i s < now.toNat ∧
      (s.ports i).lastTxTick.toNat + idleLimit i s < now.toNat := by
  rw [idleExpired_passed] at h
  simp only [Bool.and_eq_true, decide_eq_true_eq] at h
  obtain ⟨⟨⟨hLimit, _⟩, hTxOld⟩, hRxOld⟩ := h
  rw [Timer.passed_iff] at hTxOld hRxOld
  simp only [Timer.limit, Timer.since] at hTxOld hRxOld
  rw [UInt32.toNat_sub_of_le _ _ (UInt32.le_iff_toNat_le.mpr hTx)] at hTxOld
  rw [UInt32.toNat_sub_of_le _ _ (UInt32.le_iff_toNat_le.mpr hRx)] at hRxOld
  refine ⟨fun hZero => ?_, ?_⟩
  · rw [hZero] at hLimit
    exact absurd hLimit (by decide)
  · unfold idleLimit
    omega

/-- The times of a call that is up only move forward. -/
theorem exec_clock (hSound : Config.Sound ⟨s, b :: rest⟩) (hSock : (s.ports i).sock = some x)
    (a : Answer) :
    (exec b a s).1.tick = s.tick ∧
    ((exec b a s).1.ports i).connTick = (s.ports i).connTick ∧
    (((exec b a s).1.ports i).lastRxTick = (s.ports i).lastRxTick ∨
      ((exec b a s).1.ports i).lastRxTick = s.tick) ∧
    (((exec b a s).1.ports i).lastTxTick = (s.ports i).lastTxTick ∨
      ((exec b a s).1.ports i).lastTxTick = s.tick) := by
  have hIsSome : (s.ports i).sock.isSome := by simp [hSock]
  rcases exec_times (a := a) hSound.modes hIsSome (fun h => b.target_sock h hSound.idle) with
    hSame | ⟨_, hRx⟩ | ⟨_, _, hTx⟩ | ⟨_, hBoth⟩
  · obtain ⟨hConn, hRx, hTx, hTick⟩ := times_eq_iff.mp hSame
    exact ⟨hTick, hConn, .inl hRx, .inl hTx⟩
  · obtain ⟨hConn, hRx, hTx, hTick⟩ := times_eq_iff.mp hRx
    exact ⟨hTick, hConn, .inr hRx, .inl hTx⟩
  · obtain ⟨hConn, hRx, hTx, hTick⟩ := times_eq_iff.mp hTx
    exact ⟨hTick, hConn, .inl hRx, .inr hTx⟩
  · obtain ⟨hConn, hRx, hTx, hTick⟩ := times_eq_iff.mp hBoth
    exact ⟨hTick, hConn, .inr hRx, .inr hTx⟩

/-- A block that is noted, and not by being a stamp itself, finds a stamp of the time now. -/
theorem exec_noted (hSound : Config.Sound ⟨s, b :: rest⟩) (hSock : (s.ports i).sock = some x)
    (hNoted : b.noted i s) (hStamping : b.stamping = false) :
    ((exec b a s).1.ports i).lastRxTick = s.tick ∨
    ((exec b a s).1.ports i).lastTxTick = s.tick := by
  obtain ⟨_, _, hRx, hTx⟩ := exec_clock hSound hSock a
  have hNow : s.tick = (s.ports i).lastRxTick ∨ s.tick = (s.ports i).lastTxTick := by
    simpa [Block.noted, hStamping] using hNoted
  rcases hNow with hNow | hNow
  · exact .inl (hRx.elim (fun hSame => hSame.trans hNow.symm) id)
  · exact .inr (hTx.elim (fun hSame => hSame.trans hNow.symm) id)

/-- Activity that is noted is covered by the stamps after it. -/
theorem exec_active (hSound : Config.Sound ⟨s, b :: rest⟩) (hSock : (s.ports i).sock = some x)
    (hNoted : b.noted i s) (hActive : b.active i a s) :
    ((exec b a s).1.ports i).lastRxTick = s.tick ∨
    ((exec b a s).1.ports i).lastTxTick = s.tick := by
  cases hStamping : b.stamping with
  | true =>
      cases b with
      | recv j =>
          obtain ⟨rfl, hRound⟩ : j = i ∧ .recv i ∈ (exec (.recv i) a s).2 := by
            simpa [Block.active] using hActive
          exact .inl (times_eq_iff.mp (exec_recv_times hRound)).2.1
      | int14 j f =>
          cases f with
          | transmit v =>
              obtain ⟨rfl, hInit⟩ : j = i ∧ (s.ports i).initialized := by
                simpa [Block.active] using hActive
              exact .inr (times_eq_iff.mp (exec_transmit_times a v hInit)).2.2.1
          | _ => cases hStamping
      | _ => cases hStamping
  | false => exact exec_noted hSound hSock hNoted hStamping

/-- Receiving leaves the idle limit alone, and AH=01h sets that of its own port only. -/
theorem exec_stamping_limit (hStamping : b.stamping) (hLimits : b.limits i a s) :
    ∃ v, b = .int14 i (.transmit v) ∧ (s.ports i).initialized := by
  simp only [Block.limits, Bool.and_eq_true, decide_eq_true_eq] at hLimits
  obtain ⟨hNone, hSome⟩ := hLimits
  cases b with
  | recv j =>
      refine absurd ?_ hSome
      rw [← hNone]
      show ((pollRecv j a s).1.ports i).idleTimeout = _
      unfold pollRecv
      cases (s.ports j).sock with
      | none => rfl
      | some x =>
          dsimp only
          split_ifs <;> by_cases hij : i = j <;> simp [hij]
  | int14 j f =>
      cases f with
      | transmit v =>
          change ((int14 j (.transmit v) s).1.ports i).idleTimeout ≠ 0 at hSome
          unfold int14 at hSome
          by_cases hInit : (s.ports j).initialized
          · by_cases hij : i = j
            · subst hij
              exact ⟨v, rfl, hInit⟩
            · rw [if_pos hInit] at hSome
              refine absurd ((congrArg Registers.idleTimeout (transmit_registers v)).trans ?_) hSome
              obtain ⟨ignore, hPort⟩ := (atInput_own j
                (s.modPort j fun p => { p with lastTxTick := s.tick }) v).ports i hij
              show ((atInput j v _).1.ports i).idleTimeout = 0
              rw [hPort]
              simpa [hij] using hNone
          · rw [if_neg hInit] at hSome
            exact absurd hNone hSome
      | _ => cases hStamping
  | _ => cases hStamping

/-- A command that sets the idle limit and is noted leaves a stamp of the time now. -/
theorem exec_limits (hSound : Config.Sound ⟨s, b :: rest⟩) (hSock : (s.ports i).sock = some x)
    (hNoted : b.noted i s) (hLimits : b.limits i a s) :
    ((exec b a s).1.ports i).lastRxTick = s.tick ∨
    ((exec b a s).1.ports i).lastTxTick = s.tick := by
  cases hStamping : b.stamping with
  | true =>
      obtain ⟨v, rfl, hInit⟩ := exec_stamping_limit hStamping hLimits
      exact .inr (times_eq_iff.mp (exec_transmit_times a v hInit)).2.2.1
  | false => exact exec_noted hSound hSock hNoted hStamping

/-- A write to the socket leaves times and idle limit alone. -/
theorem exec_raw_clock (hRaw : b.isRaw) (a : Answer) : (exec b a s).1.tick = s.tick ∧
    ((exec b a s).1.ports i).lastRxTick = (s.ports i).lastRxTick ∧
    ((exec b a s).1.ports i).lastTxTick = (s.ports i).lastTxTick ∧
    ((exec b a s).1.ports i).idleTimeout = (s.ports i).idleTimeout := by
  obtain ⟨j, buf, rfl⟩ := Block.raw_of_isRaw hRaw
  have hSame : (exec (.raw j buf) a s).1.registers i = s.registers i := exec_registers rfl
  exact ⟨congrArg Registers.tick hSame, congrArg Registers.lastRxTick hSame,
    congrArg Registers.lastTxTick hSame, congrArg Registers.idleTimeout hSame⟩

/-- The stamps after a block cover the activity so far, if the port has an idle limit then or if
all activity was noted. -/
theorem Clocked.covered (hSound : Config.Sound ⟨s, b :: rest⟩) (hSock : (s.ports i).sock = some x)
    (hTimely : timely i ((⟨s, b :: rest⟩, .run a) :: p)) (h : Clocked i p ⟨s, b :: rest⟩)
    (hNeeded : ((exec b a s).1.ports i).idleTimeout ≠ 0 ∨
      allNoted i ((⟨s, b :: rest⟩, .run a) :: p))
    (hRx : (s.ports i).lastRxTick.toNat ≤ ((exec b a s).1.ports i).lastRxTick.toNat)
    (hTx : (s.ports i).lastTxTick.toNat ≤ ((exec b a s).1.ports i).lastTxTick.toNat) :
    ∀ st ∈ (⟨s, b :: rest⟩, .run a) :: p, activeStep i st → st.1.sys.tick.toNat ≤
      max ((exec b a s).1.ports i).lastRxTick.toNat ((exec b a s).1.ports i).lastTxTick.toNat := by
  have hMax : ((exec b a s).1.ports i).lastRxTick = s.tick ∨
    ((exec b a s).1.ports i).lastTxTick = s.tick →
      s.tick.toNat ≤ max ((exec b a s).1.ports i).lastRxTick.toNat
        ((exec b a s).1.ports i).lastTxTick.toNat := by
    rintro (hEq | hEq)
    · rw [hEq]
      exact le_max_left _ _
    · rw [hEq]
      exact le_max_right _ _
  have hOlder : (s.ports i).idleTimeout ≠ 0 ∨ allNoted i p → ∀ st ∈ p, activeStep i st →
    st.1.sys.tick.toNat ≤
      max ((exec b a s).1.ports i).lastRxTick.toNat ((exec b a s).1.ports i).lastTxTick.toNat :=
    fun hOld st hst hActive => (h.active hOld st hst hActive).trans (max_le_max hRx hTx)
  have hNew (hNoted : b.active i a s → b.noted i s) (hActive : b.active i a s) : s.tick.toNat ≤
      max ((exec b a s).1.ports i).lastRxTick.toNat ((exec b a s).1.ports i).lastTxTick.toNat :=
    hMax (exec_active hSound hSock (hNoted hActive) hActive)
  simp only [timely, Bool.and_eq_true, Bool.or_eq_true] at hTimely
  obtain ⟨-, hStep⟩ := hTimely
  rcases hNeeded with hLimit | hAll
  · by_cases hNone : (s.ports i).idleTimeout = 0
    · have hLimits : b.limits i a s := by
        simp only [Block.limits, Bool.and_eq_true, decide_eq_true_eq]
        exact ⟨hNone, hLimit⟩
      rw [if_pos hLimits] at hStep
      rcases hStep with hNoted | hQuiet
      · intro st hst _
        rcases List.mem_cons.mp hst with rfl | hOld
        · exact hMax (exec_limits hSound hSock hNoted hLimits)
        · exact (h.before st hOld).trans (hMax (exec_limits hSound hSock hNoted hLimits))
      · simp only [Bool.and_eq_true, Bool.not_eq_true'] at hQuiet
        intro st hst hActive
        rcases List.mem_cons.mp hst with rfl | hOld
        · exact absurd hActive (by simp [activeStep, hQuiet.1])
        · exact hOlder (.inr hQuiet.2) st hOld hActive
    · have hLimits : ¬ b.limits i a s := by simp [Block.limits, hNone]
      rw [if_neg hLimits] at hStep
      intro st hst hActive
      rcases List.mem_cons.mp hst with rfl | hOld
      · refine hNew (fun hBusy => ?_) hActive
        simpa [hBusy, hNone] using hStep
      · exact hOlder (.inl hNone) st hOld hActive
  · simp only [allNoted, List.all_cons, Bool.and_eq_true] at hAll
    intro st hst hActive
    rcases List.mem_cons.mp hst with rfl | hOld
    · refine hNew (fun hBusy => ?_) hActive
      simpa [hBusy] using hAll.1
    · exact hOlder (.inr hAll.2) st hOld hActive

/-- A block of a timely call keeps the times of the call in order. -/
theorem Clocked.run (hSound : Config.Sound ⟨s, b :: rest⟩)
    (hDated : (b :: rest).Pairwise fun c d => d.dated → c.isRaw)
    (hAnnounced : (b :: rest).Pairwise Block.defersTo) (hSock : (s.ports i).sock = some x)
    (hTimely : timely i ((⟨s, b :: rest⟩, .run a) :: p)) (h : Clocked i p ⟨s, b :: rest⟩) :
    Clocked i ((⟨s, b :: rest⟩, .run a) :: p) ⟨(exec b a s).1, (exec b a s).2 ++ rest⟩ := by
  obtain ⟨hTick, hConn, hRx, hTx⟩ := exec_clock hSound hSock a
  have hConnRx : (s.ports i).connTick.toNat ≤ (s.ports i).lastRxTick.toNat := h.conn_rx
  have hConnTx : (s.ports i).connTick.toNat ≤ (s.ports i).lastTxTick.toNat := h.conn_tx
  have hRxNow : (s.ports i).lastRxTick.toNat ≤ s.tick.toNat := h.rx_now
  have hTxNow : (s.ports i).lastTxTick.toNat ≤ s.tick.toNat := h.tx_now
  have hRxLe : (s.ports i).lastRxTick.toNat ≤ ((exec b a s).1.ports i).lastRxTick.toNat ∧
      ((exec b a s).1.ports i).lastRxTick.toNat ≤ s.tick.toNat := by
    rcases hRx with hEq | hEq <;> rw [hEq] <;> omega
  have hTxLe : (s.ports i).lastTxTick.toNat ≤ ((exec b a s).1.ports i).lastTxTick.toNat ∧
      ((exec b a s).1.ports i).lastTxTick.toNat ≤ s.tick.toNat := by
    rcases hTx with hEq | hEq <;> rw [hEq] <;> omega
  refine ⟨?_, ?_, ?_, ?_, fun st hst => ?_, fun hNeeded => ?_, fun now hMem => ?_, fun hMem => ?_⟩
  · show ((exec b a s).1.ports i).connTick.toNat ≤ _
    rw [hConn]
    exact hConnRx.trans hRxLe.1
  · show ((exec b a s).1.ports i).connTick.toNat ≤ _
    rw [hConn]
    exact hConnTx.trans hTxLe.1
  · show _ ≤ (exec b a s).1.tick.toNat
    rw [hTick]
    exact hRxLe.2
  · show _ ≤ (exec b a s).1.tick.toNat
    rw [hTick]
    exact hTxLe.2
  · show _ ≤ (exec b a s).1.tick.toNat
    rw [hTick]
    rcases List.mem_cons.mp hst with rfl | hOld
    · exact Nat.le_refl _
    · exact h.before st hOld
  · exact h.covered hSound hSock hTimely hNeeded hRxLe.1 hTxLe.1
  · rcases List.mem_append.mp hMem with hNew | hOld
    · obtain ⟨rfl, rfl⟩ := exec_followed b a s _ hNew
      exact ⟨hRxNow, hTxNow, Nat.le_refl _⟩
    · have hRaw : b.isRaw := (List.pairwise_cons.mp hDated).1 _ hOld rfl
      obtain ⟨hSameTick, hSameRx, hSameTx, _⟩ := exec_raw_clock (s := s) (i := i) hRaw a
      rw [hSameTick, hSameRx, hSameTx]
      exact h.idle now (List.mem_cons_of_mem _ hOld)
  · rcases List.mem_append.mp hMem with hNew | hOld
    · obtain ⟨now, rfl, hExpired⟩ := exec_followed b a s _ hNew
      obtain ⟨hRxBefore, hTxBefore, hNow⟩ := h.idle now List.mem_cons_self
      obtain ⟨hLimit, hRxOld, hTxOld⟩ := idleExpired_stamps hExpired hRxBefore hTxBefore
      exact ⟨hLimit, Nat.lt_of_lt_of_le hRxOld hNow, Nat.lt_of_lt_of_le hTxOld hNow⟩
    · have hRaw : b.isRaw := (List.pairwise_cons.mp hAnnounced).1 _ hOld rfl
      obtain ⟨hSameTick, hSameRx, hSameTx, hSameLimit⟩ := exec_raw_clock (s := s) (i := i) hRaw a
      rw [idleLimit, hSameTick, hSameRx, hSameTx, hSameLimit]
      exact h.closing (List.mem_cons_of_mem _ hOld)

/-- Nothing outside the driver sets the clock back, within a day. -/
theorem outside_tick {e : Outside} (hOut : outside e s = some t)
    (hRuns : clockRuns ⟨s, todo⟩ (.outside e)) : s.tick.toNat ≤ t.tick.toNat := by
  cases e with
  | ticks n =>
      obtain rfl := Option.some.inj hOut
      have hDay : s.tick.toNat + n < 0x1800B0 := hRuns
      show s.tick.toNat ≤ (UInt32.ofNat ((s.tick.toNat + n) % 0x1800B0)).toNat
      rw [Nat.mod_eq_of_lt hDay, UInt32.toNat_ofNat', Nat.mod_eq_of_lt (by omega)]
      omega
  | arrive l host remote =>
      unfold outside at hOut
      dsimp only at hOut
      split at hOut
      next => cases hOut
      next =>
        obtain rfl := Option.some.inj hOut
        exact Nat.le_refl _
  | deliver y bs =>
      unfold outside at hOut
      dsimp only at hOut
      split_ifs at hOut
      obtain rfl := Option.some.inj hOut
      exact Nat.le_refl _

/-- While the counter runs on. -/
theorem Clocked.out {e : Outside} (hOut : outside e s = some t)
    (hRuns : clockRuns ⟨s, todo⟩ (.outside e)) (h : Clocked i p ⟨s, todo⟩) :
    Clocked i ((⟨s, todo⟩, .outside e) :: p) ⟨t, todo⟩ := by
  have hPorts : (⟨t, todo⟩ : Config).sys.ports = s.ports := outside_ports hOut
  have hTick : s.tick.toNat ≤ t.tick.toNat := outside_tick hOut hRuns
  obtain ⟨hConnRx, hConnTx, hRx, hTx, hBefore, hActive, hIdle, hClosing⟩ := h
  refine ⟨?_, ?_, ?_, ?_, fun st hst => ?_, fun hNeeded st hst hBusy => ?_, fun now hMem => ?_,
    fun hMem => ?_⟩
  · rw [hPorts]
    exact hConnRx
  · rw [hPorts]
    exact hConnTx
  · rw [hPorts]
    exact hRx.trans hTick
  · rw [hPorts]
    exact hTx.trans hTick
  · rcases List.mem_cons.mp hst with rfl | hOld
    · exact hTick
    · exact (hBefore st hOld).trans hTick
  · rw [hPorts] at hNeeded ⊢
    rcases List.mem_cons.mp hst with rfl | hOld
    · cases hBusy
    · exact hActive (hNeeded.imp_right fun hAll => by simpa [allNoted] using hAll) st hOld hBusy
  · obtain ⟨hRxOld, hTxOld, hNow⟩ := hIdle now hMem
    rw [hPorts]
    exact ⟨hRxOld, hTxOld, hNow.trans hTick⟩
  · obtain ⟨hSome, hRxOld, hTxOld⟩ := hClosing hMem
    rw [idleLimit, hPorts]
    exact ⟨hSome, Nat.lt_of_lt_of_le hRxOld hTick, Nat.lt_of_lt_of_le hTxOld hTick⟩

/-- A call begins with all its times set to the time now. -/
theorem Clocked.accept
    (hDated : (b :: rest).Pairwise fun c d => d.dated → c.isRaw)
    (hAnnounced : (b :: rest).Pairwise Block.defersTo) (hAccepts : b.accepts)
    (hTarget : b.target s = some i) (hNone : (s.ports i).sock = none)
    (hNow : ((exec b a s).1.ports i).sock = some x) :
    Clocked i [] ⟨(exec b a s).1, (exec b a s).2 ++ rest⟩ := by
  have hBusy : ¬ b.isRaw := by
    intro hRaw
    cases b <;> simp_all [Block.isRaw, Block.accepts]
  obtain ⟨y, u, hAccept⟩ := accept_cases a hTarget hNone (by rw [hNow]; rfl)
  have hTimes : (exec b a s).1.registers i = (u.registers i).renew := by
    rw [hAccept, acceptCall_registers, if_pos rfl]
  have hConn : ((exec b a s).1.ports i).connTick = u.tick := congrArg Registers.connTick hTimes
  have hRx : ((exec b a s).1.ports i).lastRxTick = u.tick := congrArg Registers.lastRxTick hTimes
  have hTx : ((exec b a s).1.ports i).lastTxTick = u.tick := congrArg Registers.lastTxTick hTimes
  have hTick : (exec b a s).1.tick = u.tick := congrArg Registers.tick hTimes
  have hPush : ∀ d ∈ (exec b a s).2, d.dated = false ∧ d.announced = false := by
    rw [hAccept, acceptCall_snd]
    simp [Block.dated, Block.announced]
  refine ⟨?_, ?_, ?_, ?_, by simp, by simp, fun now hMem => ?_, fun hMem => ?_⟩
  · simp [hConn, hRx]
  · simp [hConn, hTx]
  · simp [hTick, hRx]
  · simp [hTick, hTx]
  · rcases List.mem_append.mp hMem with hNew | hOld
    · exact absurd (hPush _ hNew).1 (by simp [Block.dated])
    · exact absurd ((List.pairwise_cons.mp hDated).1 _ hOld rfl) hBusy
  · rcases List.mem_append.mp hMem with hNew | hOld
    · exact absurd (hPush _ hNew).2 (by simp [Block.announced])
    · exact absurd ((List.pairwise_cons.mp hAnnounced).1 _ hOld rfl) hBusy

/-- A driver call begins. -/
theorem Clocked.call (hEntry : b.entry) (h : Clocked i p ⟨s, []⟩) :
    Clocked i ((⟨s, []⟩, .call b) :: p) ⟨s, [b]⟩ := by
  refine ⟨h.conn_rx, h.conn_tx, h.rx_now, h.tx_now, fun st hst => ?_,
    fun hNeeded st hst hActive => ?_,
    fun now hMem => ?_, fun hMem => ?_⟩
  · rcases List.mem_cons.mp hst with rfl | hOld
    · exact Nat.le_refl _
    · exact h.before st hOld
  · rcases List.mem_cons.mp hst with rfl | hOld
    · cases hActive
    · exact h.active (hNeeded.imp_right fun hAll => by simpa [allNoted] using hAll) st hOld hActive
  · obtain rfl := List.mem_singleton.mp hMem
    cases hEntry
  · obtain rfl := List.mem_singleton.mp hMem
    cases hEntry

end Steps

/-- In a run that does not pass midnight, a call whose activity is noted while its port has an
idle limit is closed by the idle branch only when it has been silent in both directions for longer
than the limit. -/
theorem idle_after_silence {i : PortIdx} {x : SockId} {past : Past} {c : Config}
    (h : Reached past c) (hRuns : ∀ st ∈ past, clockRuns st.1 st.2)
    (hSock : (c.sys.ports i).sock = some x) (hTimely : timely i (callPast i x past))
    (hClose : c.todo.head? = some (.idleClose i)) :
    (c.sys.ports i).connTick.toNat + idleLimit i c.sys < c.sys.tick.toNat ∧
      ∀ st ∈ callPast i x past, activeStep i st →
        st.1.sys.tick.toNat + idleLimit i c.sys < c.sys.tick.toNat := by
  have hClocked : Clocked i (callPast i x past) c := by
    refine h.calls (A := clockRuns) (P := fun p c => timely i p → Clocked i p c) ?_ ?_ ?_ ?_ hRuns
      hSock hTimely
    · intro s b rest a hReach _ hAccepts hTarget _ hNone hNow _
      exact .accept (stack_dated hReach) (stack_announced hReach) hAccepts hTarget hNone hNow
    · intro s b p hEntry ih hTimely
      exact (ih (timely_before hTimely)).call hEntry
    · intro s b rest a p hReach _ hOld _ ih hTimely
      exact (ih (timely_before hTimely)).run hReach.sound (stack_dated hReach)
        (stack_announced hReach) hOld hTimely
    · intro s t e todo p ok hOut ih hTimely
      exact (ih (timely_before hTimely)).out hOut ok
  obtain ⟨rest, hTodo⟩ := List.head?_eq_some_iff.mp hClose
  obtain ⟨hLimit, hRx, hTx⟩ := hClocked.closing (by simp [hTodo])
  refine ⟨Nat.lt_of_le_of_lt (Nat.add_le_add_right hClocked.conn_rx _) hRx,
    fun st hst hActive => ?_⟩
  have hStamp := hClocked.active (.inl hLimit) st hst hActive
  omega

/-- A call with an idle timeout of one second on which some blocks are written, up to the point
where a poll cycle closes it. -/
def timedCall (writes : List Move) : List Move :=
  answeredCall.take 4 ++
    (bytes "ATS30=1\r").map (fun b => .call (.int14 0 (.transmitNoWait b)) {}) ++
    answeredCall.drop 4 ++ writes ++ .enter .int28 :: List.replicate 13 (.run {})

def blockTransfer : List Move :=
  [.call (.int14 0 (.blockWrite [0x41])) { sentBatch := 1 }, .outside (.ticks 10),
    .call (.int14 0 (.blockWrite [0x42])) { sentBatch := 1 }]

/-- A call with a time-out that neither receives nor is written to. -/
theorem timedCall_silent :
    (record (timedCall []) ([], install [.listen 0 2323] true 0)).any (fun r =>
      (r.1.all fun st => decide (clockRuns st.1 st.2)) && timely 0 (callPast 0 1 r.1) &&
        decide ((r.2.sys.ports 0).sock = some 1) &&
        decide (r.2.todo.head? = some (.idleClose 0)) &&
        decide (idleLimit 0 r.2.sys = 18)) = true := by
  decide +kernel

/-- The same call with block writes in between, which stamp no time. -/
theorem timedCall_written :
    (record (timedCall blockTransfer) ([], install [.listen 0 2323] true 0)).any (fun r =>
      (r.1.all fun st => decide (clockRuns st.1 st.2)) &&
        decide ((r.2.sys.ports 0).sock = some 1) &&
        decide (r.2.todo.head? = some (.idleClose 0)) &&
        (callPast 0 1 r.1).any fun st => activeStep 0 st &&
          decide (st.1.sys.tick = r.2.sys.tick)) = true := by
  decide +kernel

/-- The run of the first call: it is closed after its time-out. -/
theorem idle_after_silence_second : ∃ (past : Past) (c : Config), Reached past c ∧
    c.todo.head? = some (.idleClose 0) ∧
      (c.sys.ports 0).connTick.toNat + 18 < c.sys.tick.toNat := by
  obtain ⟨past, c, hReached, hp⟩ := exists_reached timedCall_silent
  simp only [Bool.and_eq_true, decide_eq_true_eq, List.all_eq_true] at hp
  obtain ⟨⟨⟨⟨hRuns, hTimely⟩, hSock⟩, hHead⟩, hLimit⟩ := hp
  refine ⟨past, c, hReached, hHead, ?_⟩
  rw [← hLimit]
  exact (idle_after_silence hReached hRuns hSock hTimely hHead).1

/-- A block transfer in progress is cut: the last block is written in the very tick in which the
call is closed as idle. -/
theorem idle_cuts_transfer : ¬ ∀ i x past c, Reached past c →
    (∀ st ∈ past, clockRuns st.1 st.2) → (c.sys.ports i).sock = some x →
    c.todo.head? = some (.idleClose i) → ∀ st ∈ callPast i x past, activeStep i st →
    st.1.sys.tick.toNat + idleLimit i c.sys < c.sys.tick.toNat := by
  intro hAll
  obtain ⟨past, c, hReached, hp⟩ := exists_reached timedCall_written
  simp only [Bool.and_eq_true, decide_eq_true_eq, List.all_eq_true, List.any_eq_true] at hp
  obtain ⟨⟨⟨hRuns, hSock⟩, hHead⟩, st, hst, hActive, hTick⟩ := hp
  have hOld := hAll 0 1 past c hReached hRuns hSock hHead st hst hActive
  rw [hTick] at hOld
  omega

end Vmodem
