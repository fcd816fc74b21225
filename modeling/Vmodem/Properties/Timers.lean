import Vmodem.Invariants.Runs
import Vmodem.Driver.Script

/-! The timer tests of the driver compare differences of 32-bit readings with a
number of ticks. The counter they read restarts at midnight, long before 32 bits
are used up. -/

namespace Vmodem

/-- The counter at 0040:006Ch takes this many values. -/
def ticksPerDay : Nat := 0x1800B0

/-- Both halves of the idle timeout, the ring interval, the CONNECT delay, the
escape guard and the age of a connection. -/
inductive Timer where
  | idleTx
  | idleRx
  | ring
  | connect
  | escapeGuard
  | age
  deriving DecidableEq, Repr

namespace Timer

/-- The reading the timer was started with. -/
def since (i : PortIdx) (s : Sys) : Timer → Tick
  | idleTx => (s.ports i).lastTxTick
  | idleRx => (s.ports i).lastRxTick
  | ring => (s.ats i).ringTick
  | connect => (s.ats i).connectTick
  | escapeGuard => (s.ats i).lastTxTick
  | age => (s.ports i).connTick

/-- The ticks that have to pass; two of the tests ask for more than a bound. -/
def limit (i : PortIdx) (s : Sys) : Timer → Nat
  | idleTx | idleRx => (s.ports i).idleTimeout.toNat * 18 + 1
  | ring => 110
  | connect => 36
  | escapeGuard => 9
  | age => 183

/-- The test of the source. -/
def passed (i : PortIdx) (now : Tick) (s : Sys) (t : Timer) : Bool :=
  match t with
  | idleTx | idleRx => decide ((s.ports i).idleTimeout.toUInt32 * 18 < now - t.since i s)
  | ring => !decide (now - t.since i s < 110)
  | connect => decide (36 ≤ now - t.since i s)
  | escapeGuard => decide (9 ≤ now - t.since i s)
  | age => decide (182 < now - t.since i s)

end Timer

section Readers

variable (i : PortIdx) (s : Sys) (now : Tick)

/-- The driver decides by these tests: when to close an idle call, -/
theorem idleExpired_passed : idleExpired i now s =
    (decide (0 < (s.ports i).idleTimeout) && s.safe && Timer.passed i now s .idleTx &&
      Timer.passed i now s .idleRx) := rfl

/-- when to deliver CONNECT, -/
theorem atCheckRing_connect (h : (s.ats i).connectPending) :
    (atCheckRing i s).2 ≠ [] ↔ Timer.passed i s.tick s .connect := by
  have hTest : Timer.passed i s.tick s .connect = decide (36 ≤ s.tick - (s.ats i).connectTick) :=
    rfl
  unfold atCheckRing
  rw [hTest]
  simp only [h, ↓reduceIte]
  split_ifs with hDue <;> simp [hDue]

/-- when to ring again or answer, -/
theorem atCheckRing_ring (hPending : (s.ats i).connectPending = false)
    (h : Timer.passed i s.tick s .ring = false) : atCheckRing i s = (s, []) := by
  have hTest : Timer.passed i s.tick s .ring = !decide (s.tick - (s.ats i).ringTick < 110) := rfl
  have hSoon : s.tick - (s.ats i).ringTick < 110 := by
    rw [hTest] at h
    simpa using h
  unfold atCheckRing
  simp [hPending, hSoon]

/-- whether a plus sign may begin an escape, -/
theorem atEscape_guard (h : (s.ats i).plusCount = 0) :
    (atEscape i 0x2B s).2 = .pass ↔ Timer.passed i s.tick s .escapeGuard = false := by
  have hTest : Timer.passed i s.tick s .escapeGuard =
    decide (9 ≤ s.tick - (s.ats i).lastTxTick) := rfl
  unfold atEscape
  rw [hTest]
  simp only [h, ↓reduceIte, true_and, decide_eq_false_iff_not]
  split_ifs with hGuard <;> simp [hGuard]

/-- and whether a call is old enough to be given up, by the poll cycle or by
AH=09h. -/
theorem remoteGone_age (x : SockId) (a : Answer) : remoteGone i x now a s =
    (s.safe && (a.closed || (Timer.passed i now s .age && a.remoteClosed &&
      !s.net.recvDataWaiting x))) := rfl

/-- A young call is not asked to drop by AH=09h. -/
theorem purgeOutput_age (h : Timer.passed i s.tick s .age = false) :
    purgeOutput i s = (fossilClearTx i s).log (.purged i) := by
  have hTest : Timer.passed i s.tick s .age = decide (182 < s.tick - (s.ports i).connTick) := rfl
  have hYoung : ¬ 182 < s.tick - (s.ports i).connTick := by
    rw [hTest] at h
    simpa using h
  have hTick : (fossilClearTx i s).tick = s.tick := by
    unfold fossilClearTx
    dsimp only
    split_ifs <;> rfl
  unfold purgeOutput
  exact if_neg fun hArm => hYoung (by simpa [hTick] using hArm.2.2.2)

end Readers

section Arithmetic

/-- The 32-bit difference of two readings: the ticks between them, unless the
counter has restarted. -/
theorem toNat_sub_reading {now since : Tick} {elapsed : Nat} (hSince : since.toNat < ticksPerDay)
    (hElapsed : elapsed < ticksPerDay)
    (hNow : now.toNat = (since.toNat + elapsed) % ticksPerDay) :
    (now - since).toNat =
      if since.toNat + elapsed < ticksPerDay then elapsed else 2 ^ 32 - ticksPerDay + elapsed := by
  rw [UInt32.toNat_sub, hNow]
  unfold ticksPerDay at *
  split_ifs with hSame
  · rw [Nat.mod_eq_of_lt hSame]
    omega
  · have hWrapped : (since.toNat + elapsed) % 0x1800B0 = since.toNat + elapsed - 0x1800B0 := by
      rw [Nat.mod_eq_sub_mod (by omega), Nat.mod_eq_of_lt (by omega)]
    rw [hWrapped, Nat.mod_eq_of_lt (by omega)]
    omega

theorem toNat_idleLimit (timeout : UInt16) :
    (timeout.toUInt32 * 18).toNat = timeout.toNat * 18 := by
  have hLt := timeout.toNat_lt
  simp only [UInt32.toNat_mul, UInt16.toNat_toUInt32, UInt32.reduceToNat]
  omega

/-- The test asks whether the difference reaches the limit. -/
theorem Timer.passed_iff (t : Timer) (i : PortIdx) (s : Sys) (now : Tick) :
    t.passed i now s ↔ t.limit i s ≤ (now - t.since i s).toNat := by
  cases t with
  | idleTx | idleRx =>
      show decide (_ < _) = true ↔ _
      rw [decide_eq_true_eq, UInt32.lt_iff_toNat_lt, toNat_idleLimit]
      rfl
  | ring =>
      show (!decide (_ < _)) = true ↔ _
      simp [UInt32.lt_iff_toNat_lt, Timer.limit]
  | connect | escapeGuard =>
      show decide (_ ≤ _) = true ↔ _
      rw [decide_eq_true_eq, UInt32.le_iff_toNat_le]
      rfl
  | age =>
      show decide (_ < _) = true ↔ _
      rw [decide_eq_true_eq, UInt32.lt_iff_toNat_lt]
      rfl

/-- The limits are small against the part of 32 bits the counter does not use. -/
theorem Timer.limit_lt (t : Timer) (i : PortIdx) (s : Sys) :
    t.limit i s < 2 ^ 32 - ticksPerDay := by
  have hLt := (s.ports i).idleTimeout.toNat_lt
  cases t <;> simp only [Timer.limit, ticksPerDay] <;> omega

end Arithmetic

/-- A test is right about the ticks that have passed, in less than a day, exactly
when the counter has not restarted since the timer was started or they are enough
anyway. -/
theorem timers_survive_midnight (t : Timer) (i : PortIdx) (s : Sys) (now : Tick) (elapsed : Nat)
    (hSince : (t.since i s).toNat < ticksPerDay) (hElapsed : elapsed < ticksPerDay)
    (hNow : now.toNat = ((t.since i s).toNat + elapsed) % ticksPerDay) :
    (t.passed i now s ↔ t.limit i s ≤ elapsed) ↔
      ((t.since i s).toNat + elapsed < ticksPerDay ∨ t.limit i s ≤ elapsed) := by
  rw [t.passed_iff i s now, toNat_sub_reading hSince hElapsed hNow]
  have hLimit := t.limit_lt i s
  split_ifs with hSame
  · simp [hSame]
  · have hPassed : t.limit i s ≤ 2 ^ 32 - ticksPerDay + elapsed := by omega
    simp only [hPassed, hSame, true_iff, false_or]

/-- A call with an idle timeout of a minute that is in use 20 ticks before
midnight. -/
def busyCall : List Move :=
  answeredCall.take 4 ++
    (bytes "ATS30=60\r").map (fun b => .call (.int14 0 (.transmitNoWait b)) {}) ++
    answeredCall.drop 4 ++
    [.outside (.deliver 1 [0x41]), .call (.mux .poll) { received := 1 },
      .call (.int14 0 (.transmit 0x42)) {}]

/-- A call that was in use 20 ticks before midnight, and the poll 10 ticks after it. -/
theorem busyCall_play :
    ((install [.listen 0 2323] true (0x1800B0 - 60)).play (fun _ _ => true) busyCall).any (fun c =>
      (c.play anyStep [.outside (.ticks 30), .call .int28 {}]).any fun d =>
        decide (c.sys.tick = 0x1800B0 - 20) && decide (Timer.since 0 c.sys .idleRx = c.sys.tick) &&
          decide (Timer.since 0 c.sys .idleTx = c.sys.tick) &&
          decide (Timer.limit 0 c.sys .idleTx = 1081) && decide (d.sys.tick = 10) &&
          decide (.closed 0 1 .idle ∈ d.sys.trace)) = true := by
  decide +kernel

/-- The 30 ticks across midnight count for more than the minute, and the call is
dropped. -/
theorem timers_midnight : (∃ c d : Config, Reachable c ∧ Transition.Run step (fun _ _ => True) c d ∧
      Timer.since 0 c.sys .idleTx = c.sys.tick ∧ Timer.since 0 c.sys .idleRx = c.sys.tick ∧
      d.sys.tick.toNat = (c.sys.tick.toNat + 30) % ticksPerDay ∧ .closed 0 1 .idle ∈ d.sys.trace) ∧
    ¬ ∀ (t : Timer) (i : PortIdx) (s : Sys) (now : Tick) (elapsed : Nat),
      (t.since i s).toNat < ticksPerDay → elapsed < ticksPerDay →
      now.toNat = ((t.since i s).toNat + elapsed) % ticksPerDay →
      (t.passed i now s ↔ t.limit i s ≤ elapsed) := by
  obtain ⟨c, d, hReach, hRun, hp⟩ := exists_segment (P := fun _ _ => True)
    (fun _ _ _ => trivial) busyCall_play
  simp only [Bool.and_eq_true, decide_eq_true_eq] at hp
  obtain ⟨⟨⟨⟨⟨hTick, hRx⟩, hTx⟩, hLimit⟩, hNow⟩, hClosed⟩ := hp
  refine ⟨⟨c, d, hReach, hRun, hTx, hRx, by rw [hTick, hNow]; rfl, hClosed⟩, fun hAll => ?_⟩
  have hTest := hAll .idleTx 0 c.sys 10 30 (by rw [hTx, hTick]; decide) (by decide)
    (by rw [hTx, hTick]; rfl)
  rw [Timer.passed_iff, hLimit, hTx, hTick] at hTest
  exact absurd (hTest.mp (by decide)) (by decide)

theorem timers_survive_evening : ∃ s : Sys,
    (Timer.passed 0 0x1800A0 s .connect ↔ Timer.limit 0 s .connect ≤ 36) ∧
      Timer.since 0 s .connect = 0x18007C := by
  let s := (Sys.zero 0).modAt 0 fun m => { m with connectTick := 0x18007C }
  exact ⟨s, (timers_survive_midnight .connect 0 s 0x1800A0 36 (by decide) (by decide) rfl).mpr
    (.inl (by decide)), rfl⟩

end Vmodem
