import Vmodem.Client.Blocking
import Vmodem.Library.Deadline

/-! `connect` and `gethostbyname` wait for a deadline of the tick counter at 0040:006Ch.
The counter restarts at midnight, and a deadline behind the restart never comes. -/

namespace Vmodem

open BoundedLoop (Pass Ran)
open Deadline (Schedule reading)

/-- The counter counts from 0 to 1800AFh. -/
def biosTicks : Nat := 0x1800B0

/-- The counter at each reading of a call that starts at the tick `start`. -/
def tickAt (start : Nat) (time : Schedule) (k : Nat) : Tick :=
  UInt32.ofNat (reading biosTicks start time k)

/-- The call ends, whatever number of passes it takes, and at most `n` ticks have passed. -/
def ReturnsWithin {Result : Type} (call : Nat → Ran Nat (Returned Result)) (time : Schedule)
    (n : Int) : Prop :=
  ∃ bound r, call bound = .ended r ∧ (time.elapsed r.reading : Int) ≤ n

section Readings

variable {start d k : Nat} {time : Schedule} {deadline : Tick}

/-- The BIOS tick as a number is the reading of a counter that starts again at midnight.
-/
theorem toNat_tickAt : (tickAt start time k).toNat = reading biosTicks start time k := by
  have hLt : reading biosTicks start time k < biosTicks := Deadline.reading_lt (by decide)
  exact UInt32.toNat_ofNat_of_lt' (hLt.trans (by decide))

/-- At its start a call reads the tick it is made at. -/
theorem toNat_tickAt_zero (hStart : start < biosTicks) : (tickAt start time 0).toNat = start := by
  rw [toNat_tickAt, Deadline.reading_of_lt] <;> rw [time.start]
  · rfl
  · exact hStart

/-- The deadline of `connect` lies the timeout behind the start, 18 ticks to a second.
-/
theorem toNat_connectDeadline {timeout : Int16} (hTimeout : 0 ≤ timeout.toInt)
    (hStart : start < biosTicks) :
    (connectDeadline timeout (tickAt start time 0)).toNat = start + timeout.toInt.toNat * 18 := by
  have hWide : 0 ≤ timeout.toInt32 := by
    rw [Int32.le_iff_toInt_le, Int16.toInt_toInt32]
    exact hTimeout
  have hValue : timeout.toInt32.toUInt32.toNat = timeout.toInt.toNat := by
    rw [Int32.toNat_toUInt32_of_le hWide, ← Int32.toNat_toInt, Int16.toInt_toInt32]
  have hSmall : timeout.toInt.toNat < 2 ^ 15 := by
    have := timeout.toInt_lt
    omega
  have hFew : biosTicks < 2 ^ 21 := by decide
  have hSeconds : (18 : UInt32).toNat = 18 := rfl
  unfold connectDeadline
  rw [UInt32.toNat_add, UInt32.toNat_mul, toNat_tickAt_zero hStart, hValue, hSeconds]
  omega

/-- The deadline of `gethostbyname` lies 273 ticks behind the start. -/
theorem toNat_resolveDeadline (hStart : start < biosTicks) :
    (tickAt start time 0 + 273).toNat = start + 273 := by
  have hFew : biosTicks < 2 ^ 21 := by decide
  have hSeconds : (273 : UInt32).toNat = 273 := rfl
  rw [UInt32.toNat_add, toNat_tickAt_zero hStart, hSeconds]
  omega

/-- Without a midnight in between the deadline is reached when its ticks have passed. -/
theorem tickAt_reaches (hDeadline : deadline.toNat ≤ start + d) (h : start + d < biosTicks)
    (hk : time.elapsed k = d) : deadline ≤ tickAt start time k := by
  rw [UInt32.le_iff_toNat_le, toNat_tickAt]
  exact hDeadline.trans (Deadline.reading_reaches h hk)

/-- With midnight before the deadline the tick starts again from zero and stays below
it. -/
theorem tickAt_misses (hDeadline : deadline.toNat = start + d) (hStart : start < biosTicks)
    (h : biosTicks ≤ start + max d 1) (hk : 0 < k) (hLimit : k ≤ d + 1) :
    tickAt start .everyTick k < deadline := by
  rw [UInt32.lt_iff_toNat_lt, toNat_tickAt, hDeadline]
  exact Deadline.reading_misses (by decide) hStart h hk hLimit

/-- The deadline is not a value of the counter. -/
theorem tickAt_never (h : biosTicks ≤ deadline.toNat) : tickAt start time k < deadline := by
  rw [UInt32.lt_iff_toNat_lt, toNat_tickAt]
  exact (Deadline.reading_lt (by decide)).trans_le h

end Readings

section Loops

variable {Result : Type} {body : Nat → Nat → Pass Nat (Returned Result)} {m : Nat}

/-- A loop whose pass before reading `m` is the last, at the latest. -/
theorem run_by (again : ∀ b k, k + 1 < m →
      body b k = .again (k + 1) ∨ ∃ r, body b k = .leave r ∧ r.reading ≤ m)
    (last : ∀ b k, k + 1 = m → ∃ r, body b k = .leave r ∧ r.reading ≤ m) (hm : 0 < m) :
    ∃ r, BoundedLoop.run body m 0 = .ended r ∧ r.reading ≤ m := by
  suffices hAny : ∀ j k, 0 < j → k + j = m →
      ∃ r, BoundedLoop.run body j k = .ended r ∧ r.reading ≤ m from hAny m 0 hm (Nat.zero_add m)
  intro j
  induction j with
  | zero => omega
  | succ j ih =>
      intro k _ hk
      by_cases hLast : k + 1 = m
      · obtain ⟨r, hLeave, hr⟩ := last j k hLast
        exact ⟨r, BoundedLoop.run_leave hLeave, hr⟩
      · rcases again j k (by omega) with hAgain | ⟨r, hLeave, hr⟩
        · rw [BoundedLoop.run_again hAgain]
          exact ih (k + 1) (by omega) (by omega)
        · exact ⟨r, BoundedLoop.run_leave hLeave, hr⟩

/-- A loop that is not left before a reading ends behind it. -/
theorem run_late (again : ∀ b k, k + 1 ≤ m → body b k = .again (k + 1))
    (late : ∀ b k r, body b k = .leave r → k + 1 ≤ r.reading) {bound : Nat} {r : Returned Result}
    (h : BoundedLoop.run body bound 0 = .ended r) : m < r.reading := by
  have hHolds : (BoundedLoop.run body bound 0).Holds (fun _ => True) fun r => m < r.reading := by
    refine BoundedLoop.run_holds (fun _ _ _ _ _ => trivial) ?_ (fun _ _ _ _ _ => trivial) trivial
    intro b k r _ hLeave
    by_contra hEarly
    have hBound := late b k r hLeave
    rw [again b k (by omega)] at hLeave
    cases hLeave
  rw [h] at hHolds
  exact hHolds

/-- A loop that is never left does not end. -/
theorem run_forever (again : ∀ b k, body b k = .again (k + 1)) {bound k : Nat}
    {r : Returned Result} : BoundedLoop.run body bound k ≠ .ended r := by
  induction bound generalizing k with
  | zero => nofun
  | succ bound ih =>
      rw [BoundedLoop.run_again (again bound k)]
      exact ih

end Loops

section Connect

variable {start : Nat} {time : Schedule} {timeout : Int16} {k : ExtIdx} {status : Nat → UInt16}
  {v : Client}

/-- A pass of `connect` goes on only before the deadline, and otherwise returns. -/
theorem connectPass_cases {deadline : Tick} {tick : Nat → Tick} (b pass : Nat) :
    (connectPass k deadline status tick v b pass = .again (pass + 1) ∧ tick (pass + 1) < deadline) ∨
      ∃ r, connectPass k deadline status tick v b pass = .leave r ∧ r.reading = pass + 1 := by
  unfold connectPass
  dsimp only
  split_ifs with hEstablished hError hLate
  · exact .inr ⟨_, rfl, rfl⟩
  · exact .inr ⟨_, rfl, rfl⟩
  · exact .inr ⟨_, rfl, rfl⟩
  · exact .inl ⟨rfl, UInt32.not_le.mp hLate⟩

/-- The loop of `connect` against a deadline in front of the restart. -/
theorem connectLoop_ends (hTimeout : 0 ≤ timeout.toInt) (hStart : start < biosTicks)
    (h : start + max (timeout.toInt.toNat * 18) 1 < biosTicks) :
    ∃ bound r, BoundedLoop.run (connectPass k (connectDeadline timeout (tickAt start time 0)) status
      (tickAt start time) v) bound 0 = .ended r ∧ (time.elapsed r.reading : Int) ≤
        timeout.toInt * 18 + 1 := by
  obtain ⟨m, hm⟩ := time.reaches (max (timeout.toInt.toNat * 18) 1)
  have hDeadline : (connectDeadline timeout (tickAt start time 0)).toNat =
      start + timeout.toInt.toNat * 18 := toNat_connectDeadline hTimeout hStart
  have hReached : connectDeadline timeout (tickAt start time 0) ≤ tickAt start time m :=
    tickAt_reaches (by rw [hDeadline]; omega) h hm
  have hPos : 0 < m := by
    rcases Nat.eq_zero_or_pos m with rfl | hPos
    · rw [time.start] at hm
      omega
    · exact hPos
  have hPasses : ∀ b pass, pass + 1 < m →
      connectPass k (connectDeadline timeout (tickAt start time 0)) status (tickAt start time) v b
        pass = .again (pass + 1) ∨ ∃ r, connectPass k (connectDeadline timeout
          (tickAt start time 0)) status (tickAt start time) v b pass = .leave r ∧
            r.reading ≤ m := by
    intro b pass hPass
    rcases connectPass_cases b pass with ⟨hAgain, _⟩ | ⟨r, hLeave, hr⟩
    · exact .inl hAgain
    · exact .inr ⟨r, hLeave, by omega⟩
  have hLast : ∀ b pass, pass + 1 = m → ∃ r, connectPass k (connectDeadline timeout
      (tickAt start time 0)) status (tickAt start time) v b pass = .leave r ∧ r.reading ≤ m := by
    intro b pass hPass
    rcases connectPass_cases b pass with ⟨_, hEarly⟩ | ⟨r, hLeave, hr⟩
    · rw [hPass] at hEarly
      exact absurd hReached (UInt32.not_le.mpr hEarly)
    · exact ⟨r, hLeave, by omega⟩
  obtain ⟨r, hRun, hReading⟩ := run_by hPasses hLast hPos
  refine ⟨m, r, hRun, ?_⟩
  have hElapsed := time.mono hReading
  omega

/-- A peer that does not answer, and a deadline behind the restart. -/
theorem connectLoop_late (hTimeout : 0 ≤ timeout.toInt) (hStart : start < biosTicks)
    (h : biosTicks ≤ start + max (timeout.toInt.toNat * 18) 1) {bound : Nat} {r : Returned Int}
    (hRun : BoundedLoop.run (connectPass k (connectDeadline timeout (tickAt start .everyTick 0))
      (fun _ => ExtState.connecting.code) (tickAt start .everyTick) v) bound 0 = .ended r) :
    timeout.toInt.toNat * 18 + 1 < r.reading := by
  have hDeadline : (connectDeadline timeout (tickAt start .everyTick 0)).toNat =
      start + timeout.toInt.toNat * 18 := toNat_connectDeadline hTimeout hStart
  refine run_late (fun b pass hPass => ?_) (fun b pass r hLeave => ?_) hRun
  · have hMissed : tickAt start .everyTick (pass + 1) <
        connectDeadline timeout (tickAt start .everyTick 0) :=
      tickAt_misses hDeadline hStart h (Nat.succ_pos pass) hPass
    unfold connectPass
    dsimp only
    rw [if_neg (by decide), if_neg (by decide), if_neg (UInt32.not_le.mpr hMissed)]
  · rcases connectPass_cases b pass with ⟨hAgain, _⟩ | ⟨r', hLeave', hr⟩
    · rw [hAgain] at hLeave
      cases hLeave
    · rw [hLeave'] at hLeave
      cases hLeave
      exact Nat.le_of_eq hr.symm

end Connect

section Resolve

variable {start : Nat} {time : Schedule} {name : CString} {result : Nat → UInt16 × List UInt8}
  {stack : List UInt8} {v : Client}

/-- A pass of `gethostbyname` returns once the deadline is reached, whatever the answer.
-/
theorem resolvePass_cases {deadline : Tick} {tick : Nat → Tick} (b pass : Nat) :
    (∃ r, ¬ tick (pass + 1) < deadline ∧
      resolvePass name deadline result tick stack v b pass = .leave r ∧ r.reading = pass + 1) ∨
    (tick (pass + 1) < deadline ∧
      (resolvePass name deadline result tick stack v b pass = .again (pass + 1) ∨
        ∃ r, resolvePass name deadline result tick stack v b pass = .leave r ∧
          r.reading = pass + 2)) := by
  unfold resolvePass
  by_cases hEarly : tick (pass + 1) < deadline
  · rw [if_pos hEarly]
    dsimp only
    split_ifs
    · exact .inr ⟨hEarly, .inr ⟨_, rfl, rfl⟩⟩
    · exact .inr ⟨hEarly, .inr ⟨_, rfl, rfl⟩⟩
    · exact .inr ⟨hEarly, .inl rfl⟩
  · rw [if_neg hEarly]
    exact .inl ⟨_, hEarly, rfl, rfl⟩

/-- The loop of `gethostbyname` against a deadline in front of the restart. -/
theorem resolveLoop_ends (hStart : start < biosTicks) (h : start + 273 < biosTicks) :
    ∃ bound r, BoundedLoop.run (resolvePass name (tickAt start time 0 + 273) result
      (tickAt start time) stack v) bound 0 = .ended r ∧ (time.elapsed r.reading : Int) ≤ 274 := by
  obtain ⟨m, hm⟩ := time.reaches 273
  have hDeadline : (tickAt start time 0 + 273).toNat = start + 273 := toNat_resolveDeadline hStart
  have hReached : tickAt start time 0 + 273 ≤ tickAt start time m :=
    tickAt_reaches (Nat.le_of_eq hDeadline) h hm
  have hPos : 0 < m := by
    rcases Nat.eq_zero_or_pos m with rfl | hPos
    · rw [time.start] at hm
      omega
    · exact hPos
  have hPasses : ∀ b pass, pass + 1 < m →
      resolvePass name (tickAt start time 0 + 273) result (tickAt start time) stack v b pass =
        .again (pass + 1) ∨ ∃ r, resolvePass name (tickAt start time 0 + 273) result
          (tickAt start time) stack v b pass = .leave r ∧ r.reading ≤ m := by
    intro b pass hPass
    rcases resolvePass_cases b pass with ⟨r, _, hLeave, hr⟩ | ⟨_, hAgain | ⟨r, hLeave, hr⟩⟩
    · exact .inr ⟨r, hLeave, by omega⟩
    · exact .inl hAgain
    · exact .inr ⟨r, hLeave, by omega⟩
  have hLast : ∀ b pass, pass + 1 = m → ∃ r, resolvePass name (tickAt start time 0 + 273) result
      (tickAt start time) stack v b pass = .leave r ∧ r.reading ≤ m := by
    intro b pass hPass
    rcases resolvePass_cases b pass with ⟨r, _, hLeave, hr⟩ | ⟨hEarly, _⟩
    · exact ⟨r, hLeave, by omega⟩
    · rw [hPass] at hEarly
      exact absurd hReached (UInt32.not_le.mpr hEarly)
  obtain ⟨r, hRun, hReading⟩ := run_by hPasses hLast hPos
  refine ⟨m, r, hRun, ?_⟩
  have hElapsed := time.mono hReading
  omega

/-- A query that stays pending, and a deadline behind the restart. -/
theorem resolveLoop_forever (hStart : start < biosTicks) (h : biosTicks ≤ start + 273)
    {bound : Nat} {r : Returned Resolved} :
    BoundedLoop.run (resolvePass name (tickAt start time 0 + 273)
      (fun _ => (dnsResolvePending, [])) (tickAt start time) stack v) bound 0 ≠ .ended r := by
  refine run_forever fun b pass => ?_
  have hEarly : tickAt start time (pass + 1) < tickAt start time 0 + 273 :=
    tickAt_never (by rw [toNat_resolveDeadline hStart]; exact h)
  have hState : (muxResolveResult (dnsResolvePending, []) stack).1 = dnsResolvePending := rfl
  unfold resolvePass
  rw [if_pos hEarly]
  dsimp only
  rw [hState, if_neg (by decide), if_neg (by decide)]

end Resolve

/-- `connect` returns within its timeout, whatever is answered, exactly where the
condition on the timeout and midnight holds. -/
theorem connect_returns {start : Nat} (hStart : start < biosTicks) (sockfd : Int)
    (sin : SockaddrIn) (timeout : Int16) (v : Client) :
    (∀ (answers : ConnectAnswers) (time : Schedule),
      ReturnsWithin (fun bound => connect bound sockfd sin timeout answers (tickAt start time) v)
        time (timeout.toInt * 18 + 1)) ↔
      0 ≤ timeout.toInt ∧ (v.fdToHandle sockfd = none ∨ sin.family ≠ afInet ∨
        start + max (timeout.toInt.toNat * 18) 1 < biosTicks) := by
  constructor
  · intro hAll
    obtain ⟨bound, r, hRun, hTime⟩ :=
      hAll ⟨fun _ _ _ => 0, fun _ => ExtState.connecting.code⟩ .everyTick
    have hNonneg : 0 ≤ timeout.toInt := by omega
    refine ⟨hNonneg, ?_⟩
    by_contra hNot
    obtain ⟨hHandle, hFamily, hLate⟩ : v.fdToHandle sockfd ≠ none ∧ sin.family = afInet ∧
        biosTicks ≤ start + max (timeout.toInt.toNat * 18) 1 := by
      simp only [not_or, not_not, not_lt] at hNot
      exact hNot
    obtain ⟨k, hk⟩ := Option.ne_none_iff_exists'.mp hHandle
    simp only [connect, hk, hFamily, ne_eq, not_true_eq_false, ↓reduceIte] at hRun
    have hBehind := connectLoop_late hNonneg hStart hLate hRun
    have hReading : Schedule.everyTick.elapsed r.reading = r.reading := rfl
    omega
  · rintro ⟨hNonneg, hCond⟩ answers time
    have hAtOnce : ∀ value w, ReturnsWithin (fun _ => Ran.ended (⟨value, w, 0⟩ : Returned Int)) time
        (timeout.toInt * 18 + 1) := fun value w => ⟨0, _, rfl, by rw [time.start]; omega⟩
    cases hk : v.fdToHandle sockfd with
    | none =>
        simp only [connect, hk]
        exact hAtOnce _ _
    | some k =>
        by_cases hFamily : sin.family ≠ afInet
        · simp only [connect, hk, if_pos hFamily]
          exact hAtOnce _ _
        · by_cases hRefused : answers.connect k (addrBytes sin.addr) (ntohs sin.port) ≠ 0
          · simp only [connect, hk, if_neg hFamily, if_pos hRefused]
            exact hAtOnce _ _
          · simp only [connect, hk, if_neg hFamily, if_neg hRefused]
            refine connectLoop_ends hNonneg hStart ?_
            rcases hCond with hNone | hOther | hEarly
            · rw [hk] at hNone
              cases hNone
            · exact absurd hOther hFamily
            · exact hEarly

/-- `gethostbyname` returns in time exactly when it need not ask, or midnight does not
come before its deadline. -/
theorem gethostbyname_returns {start : Nat} (hStart : start < biosTicks) (name : CString)
    (stack : List UInt8) (v : Client) :
    (∀ (answers : ResolveAnswers) (time : Schedule),
      ReturnsWithin (fun bound => gethostbyname bound name answers (tickAt start time) stack v)
        time 274) ↔ inetAddr name ≠ inaddrNone ∨ start + 273 < biosTicks := by
  constructor
  · intro hAll
    obtain ⟨bound, r, hRun, _⟩ := hAll
      ⟨fun _ => dnsResolvePending, (dnsResolvePending, []), fun _ => (dnsResolvePending, [])⟩
      .everyTick
    by_contra hNot
    simp only [not_or, ne_eq, not_not, not_lt] at hNot
    have hState : dnsResolvePending &&& 0xFF = dnsResolvePending := by decide
    have hOther : dnsResolvePending ≠ dnsResolveOk := by decide
    simp only [gethostbyname, hNot.1, ne_eq, not_true_eq_false, ↓reduceIte, hState, hOther] at hRun
    exact resolveLoop_forever hStart hNot.2 hRun
  · intro hCond answers time
    have hAtOnce : ∀ value, ReturnsWithin (fun _ => Ran.ended (⟨value, v, 0⟩ : Returned Resolved))
        time 274 := fun value => ⟨0, _, rfl, by rw [time.start]; decide⟩
    by_cases hNumeric : inetAddr name ≠ inaddrNone
    · simp only [gethostbyname, if_pos hNumeric]
      exact hAtOnce _
    · by_cases hCached : answers.start (hostname name) &&& 0xFF = dnsResolveOk
      · simp only [gethostbyname, if_neg hNumeric, if_pos hCached]
        exact hAtOnce _
      · by_cases hPending : answers.start (hostname name) &&& 0xFF ≠ dnsResolvePending
        · simp only [gethostbyname, if_neg hNumeric, if_neg hCached, if_pos hPending]
          exact hAtOnce _
        · simp only [gethostbyname, if_neg hNumeric, if_neg hCached, if_neg hPending]
          exact resolveLoop_ends hStart (hCond.resolve_left hNumeric)

/-- A call of `connect` is over in time, for all answers of the driver and at all speeds
of the loop, and the same of `gethostbyname`, if and only if the call does not come to
wait for a deadline behind the restart of the counter. -/
theorem blocking_calls_end (start : Fin biosTicks) (v : Client) :
    (∀ (sockfd : Int) (sin : SockaddrIn) (timeout : Int16),
      (∀ (answers : ConnectAnswers) (time : Schedule),
        ReturnsWithin (fun bound => connect bound sockfd sin timeout answers (tickAt start time) v)
          time (timeout.toInt * 18 + 1)) ↔
        0 ≤ timeout.toInt ∧ (v.fdToHandle sockfd = none ∨ sin.family ≠ afInet ∨
          start + max (timeout.toInt.toNat * 18) 1 < biosTicks)) ∧
      ∀ (name : CString) (stack : List UInt8),
        (∀ (answers : ResolveAnswers) (time : Schedule),
          ReturnsWithin (fun bound => gethostbyname bound name answers (tickAt start time) stack v)
            time 274) ↔
          inetAddr name ≠ inaddrNone ∨ start + 273 < biosTicks :=
  ⟨fun sockfd sin timeout => connect_returns start.isLt sockfd sin timeout v,
    fun name stack => gethostbyname_returns start.isLt name stack v⟩

/-- Twenty seconds before midnight a peer does not answer: `connect` waits for ever, with
its timeout of 30 seconds. -/
theorem connect_hangs : ¬ ∃ (time : Schedule) (n : Int), ReturnsWithin (fun bound =>
    connect bound 128 ⟨afInet, 0x1700, 0x0100000A⟩ 30
      ⟨fun _ _ _ => 0, fun _ => ExtState.connecting.code⟩ (tickAt 0x17FF48 time)
      ⟨fun _ => true, [], 0⟩) time n := by
  rintro ⟨time, n, bound, r, hRun, _⟩
  have hDeadline : (connectDeadline 30 (tickAt 0x17FF48 time 0)).toNat =
      0x17FF48 + (30 : Int16).toInt.toNat * 18 :=
    toNat_connectDeadline (by decide) (by decide)
  have hHandle : (Client.mk (fun _ => true) [] 0).fdToHandle 128 = some 0 := by decide
  simp only [connect, hHandle, ne_eq, not_true_eq_false, ↓reduceIte] at hRun
  refine run_forever (fun b pass => ?_) hRun
  have hMissed : tickAt 0x17FF48 time (pass + 1) <
      connectDeadline 30 (tickAt 0x17FF48 time 0) := tickAt_never (by rw [hDeadline]; decide)
  unfold connectPass
  dsimp only
  rw [if_neg (by decide), if_neg (by decide), if_neg (UInt32.not_le.mpr hMissed)]

end Vmodem
