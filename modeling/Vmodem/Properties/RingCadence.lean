import Vmodem.Invariants.Ringing
import Vmodem.Properties.IdleTimeout

/-! The cadence of a call. While an application only reads and asks for the status, the
ring check alone drives the call, whoever makes it: it rings every 110 ticks until the
count in S0 is reached, and answers then, unless the count is one at which it has long
given up. -/

namespace Vmodem

/-- The INT 14h functions that read or report. -/
def Fossil.reads : Fossil → Bool
  | .receive | .status | .peek | .blockRead _ => true
  | _ => false

/-- The application only reads and asks for the status of port `i`, and its FOSSIL driver
is up whenever the ring check runs. -/
def passive (i : PortIdx) (c : Config) : Action → Bool
  | .run _ =>
      match c.todo with
      | .int14 j f :: _ => j ≠ i || f.reads
      | .initFinish j :: _ => j ≠ i
      | .checkRing j :: _ => j ≠ i || (c.sys.fossils i).init
      | _ => true
  | _ => true

/-- A call on port `i` begins to ring with S0 set to `n`. -/
def ringsFor (i : PortIdx) (n : UInt8) (c : Config) : Action → Bool
  | .run _ => c.todo.head? ≠ some (.ring i) || (c.sys.ats i).s0 = n
  | _ => true

/-- No CONNECT of an earlier call is still to come when a call begins to ring. -/
def lineFree (i : PortIdx) (c : Config) : Action → Bool
  | .run _ => c.todo.head? ≠ some (.ring i) || !(c.sys.ats i).connectPending
  | _ => true

/-- The step is an `at_check_ring` of the port. -/
def checksRing (i : PortIdx) (st : Config × Action) : Bool :=
  match st.2, st.1.todo with
  | .run _, .checkRing j :: _ => j = i
  | _, _ => false

/-- The step gives the result RING: the first one, or one of the ring check. -/
def issuesRing (i : PortIdx) (st : Config × Action) : Bool :=
  match st.2, st.1.todo with
  | .run _, .ring j :: _ => j = i
  | .run _, .checkRing j :: _ =>
      j = i && decide ((atCheckRing i st.1.sys).2 = [.raw i (bytes "RING...\r\n")])
  | _, _ => false

/-- The step answers a call that rings. -/
def answersCall (i : PortIdx) (st : Config × Action) : Bool :=
  match st.2, st.1.todo with
  | .run a, b :: _ =>
      (st.1.sys.ats i).ringing && !((exec b a st.1.sys).1.ats i).ringing &&
        ((exec b a st.1.sys).1.ats i).connectPending
  | _, _ => false

/-- The step drops the call as unanswered. -/
def givesUp (i : PortIdx) (st : Config × Action) : Bool :=
  checksRing i st && decide (.ringTimeout i ∈ (atCheckRing i st.1.sys).2)

/-- When the RINGs of a call were given, the latest first. -/
def ringTicks (i : PortIdx) (p : Past) : List Tick :=
  (p.filter (issuesRing i)).map fun st => st.1.sys.tick

/-- A step comes at least one ring interval after the last RING. -/
def Due (i : PortIdx) (older : Past) (st : Config × Action) : Prop :=
  ∀ last ∈ (ringTicks i older).head?, last.toNat + 110 ≤ st.1.sys.tick.toNat

/-- No step so far has answered the call. -/
def Unanswered (i : PortIdx) (older : Past) : Prop := ∀ st ∈ older, ¬ answersCall i st

/-- What a step does to a call after these steps: RINGs are one interval apart, the ring
check gives `n` of them, and the first check that is due after them answers. -/
structure OnCadence (i : PortIdx) (n : UInt8) (older : Past) (st : Config × Action) : Prop where
  spacing : issuesRing i st → Due i older st
  first : issuesRing i st → ¬ checksRing i st → ringTicks i older = []
  rung : n ≠ 0 → checksRing i st → (issuesRing i st ↔
    Unanswered i older ∧ (ringTicks i older).length < n.toNat ∧ Due i older st)
  answered : answersCall i st ↔ n ≠ 0 ∧ checksRing i st ∧ Unanswered i older ∧
    (ringTicks i older).length = n.toNat ∧ Due i older st
  kept : n ≠ 0 → ¬ givesUp i st

/-- A call that rings has been rung as often as it counts. -/
structure Rung (i : PortIdx) (n : UInt8) (p : Past) (s : Sys) : Prop where
  ringing : (s.ats i).ringing
  clear : (s.ats i).connectPending = false
  s0 : (s.ats i).s0 = n
  count : (s.ats i).ringsSent.toNat = (ringTicks i p).length
  most : (ringTicks i p).length ≤ 10
  few : n ≠ 0 → (ringTicks i p).length ≤ n.toNat
  last : (ringTicks i p).head? = some (s.ats i).ringTick
  past : (s.ats i).ringTick.toNat ≤ s.tick.toNat

/-- The state of a call and the history of its RINGs. -/
structure Ringer (i : PortIdx) (n : UInt8) (p : Past) (c : Config) : Prop where
  announced : .ring i ∈ c.todo → ringTicks i p = [] ∧ Unanswered i p
  after : .ring i ∉ c.todo → (Unanswered i p ∧ Rung i n p c.sys) ∨
    ((¬ Unanswered i p ∨ n = 0) ∧ (c.sys.ats i).ringing = false)

section Steps

variable {i : PortIdx} {n : UInt8} {b : Block} {a : Answer} {s t : Sys} {rest todo : List Block}
  {p : Past} {x : SockId}

/-- AH=01h and AH=0Bh on another port. -/
theorem int14_ats_of_ne {j : PortIdx} {f : Fossil} (hj : i ≠ j)
    (hTyped : (∃ v, f = .transmit v) ∨ ∃ v, f = .transmitNoWait v) :
    (int14 j f s).1.ats i = s.ats i := by
  unfold int14
  by_cases hInit : (s.ports j).initialized
  · rw [if_pos hInit]
    rcases hTyped with ⟨v, rfl⟩ | ⟨v, rfl⟩
    · exact (congrArg Registers.modem (transmit_registers v)).trans ((atInput_own j _ v).ats i hj)
    · exact (congrArg Registers.modem (transmitNoWait_registers v)).trans
        ((atInput_own j s v).ats i hj)
  · rw [if_neg hInit]

/-- A port that has hung up waits for no CONNECT. -/
theorem hungUp_ats {t : Sys} (hNone : (t.ports i).sock = none) :
    ((enterIdleMode i (atSendNoCarrier i t)).ats i).connectPending = false ∧
      ((enterIdleMode i (atSendNoCarrier i t)).ports i).sock = none := by
  have hLine : (enterIdleMode i (atSendNoCarrier i t)).line i = (t.line i).run [.onHook] :=
    hungUp_line rfl
  exact ⟨congrArg Line.connectPending hLine, hungUp_sock hNone⟩

/-- A block that is neither the first RING nor a ring check leaves the AT state of a
call alone, or it ends the call. -/
theorem passive_ats (hModes : s.ModesAgree) (hPassive : passive i ⟨s, b :: rest⟩ (.run a))
    (hRing : b ≠ .ring i) (hCheck : b ≠ .checkRing i) :
    (exec b a s).1.ats i = s.ats i ∨
      (((exec b a s).1.ats i).connectPending = false ∧ ((exec b a s).1.ports i).sock = none) := by
  by_cases hSteers : b.steers i
  · cases b with
    | int14 j f =>
        cases f with
        | transmit v | transmitNoWait v =>
            have hj : i ≠ j := by
              rintro rfl
              simp [passive, Fossil.reads] at hPassive
            exact .inl (int14_ats_of_ne hj (by simp))
        | init | dtr al | purgeOutput =>
            obtain rfl : j = i := of_decide_eq_true hSteers
            simp [passive, Fossil.reads] at hPassive
        | _ => cases hSteers
    | ring j =>
        obtain rfl : j = i := of_decide_eq_true hSteers
        exact absurd rfl hRing
    | checkRing j =>
        obtain rfl : j = i := of_decide_eq_true hSteers
        exact absurd rfl hCheck
    | initFinish j =>
        obtain rfl : j = i := of_decide_eq_true hSteers
        simp [passive] at hPassive
    | hunt g =>
        have hAccepts : (Block.hunt g).accepts := rfl
        rcases exec_accepts_registers (a := a) (j := i) hAccepts hModes with hSame | ⟨_, _, hNew⟩
        · exact .inl (congrArg Registers.modem hSame)
        · exact .inl (congrArg Registers.modem hNew)
    | port j =>
        have hAccepts : (Block.port j).accepts := rfl
        rcases exec_accepts_registers (a := a) (j := i) hAccepts hModes with hSame | ⟨_, _, hNew⟩
        · exact .inl (congrArg Registers.modem hSame)
        · exact .inl (congrArg Registers.modem hNew)
    | recv j =>
        refine .inl ?_
        show (pollRecv j a s).1.ats i = s.ats i
        rcases pollRecv_cases j a s with hNone | ⟨y, _, _, _, hSome⟩
        · rw [hNone]
        · rw [hSome]
          split_ifs <;> rfl
    | purgeStatus j =>
        refine .inl ?_
        show (purgeStatus j s).ats i = s.ats i
        unfold purgeStatus
        split_ifs <;> rfl
    | pollClose j silent =>
        obtain rfl : j = i := of_decide_eq_true hSteers
        cases silent with
        | true =>
            have hSame : (exec (.pollClose j true) a s).1.registers j = s.registers j := by
              simp [exec, pollClose]
            exact .inl (congrArg Registers.modem hSame)
        | false => exact .inr (hungUp_ats (by simp))
    | idleClose j =>
        obtain rfl : j = i := of_decide_eq_true hSteers
        exact .inr (hungUp_ats (by simp))
    | disconnected j now =>
        obtain rfl : j = i := of_decide_eq_true hSteers
        show (pollDisconnected j now a s).ats j = s.ats j ∨
          (((pollDisconnected j now a s).ats j).connectPending = false ∧
            ((pollDisconnected j now a s).ports j).sock = none)
        unfold pollDisconnected
        cases (s.ports j).sock with
        | none => exact .inl rfl
        | some y =>
            dsimp only
            split_ifs
            · exact .inr (hungUp_ats (by simp))
            · exact .inl rfl
    | _ => cases hSteers
  · exact .inl (congrArg Registers.modem (exec_registers (by simpa using hSteers)))

/-- What the ring check does to a call that rings, between two RINGs, -/
theorem atCheckRing_early (hRinging : (s.ats i).ringing) (hClear : (s.ats i).connectPending = false)
    (hEarly : s.tick - (s.ats i).ringTick < 110) : atCheckRing i s = (s, []) := by
  unfold atCheckRing
  simp [hRinging, hClear, hEarly]

/-- after the last of them, -/
theorem atCheckRing_answer (hRinging : (s.ats i).ringing)
    (hClear : (s.ats i).connectPending = false)
    (hDue : ¬ s.tick - (s.ats i).ringTick < 110)
    (hEnough : 0 < (s.ats i).s0 ∧ (s.ats i).s0 ≤ (s.ats i).ringsSent ∧ (s.fossils i).init) :
    atCheckRing i s =
      (atSendConnect i (s.modAt i fun m => { m with ringing := false, ringsSent := 0 }), []) := by
  unfold atCheckRing
  simp [hRinging, hClear, hDue, hEnough]

/-- and before. -/
theorem atCheckRing_again (hRinging : (s.ats i).ringing) (hClear : (s.ats i).connectPending = false)
    (hDue : ¬ s.tick - (s.ats i).ringTick < 110)
    (hFew : ¬ (0 < (s.ats i).s0 ∧ (s.ats i).s0 ≤ (s.ats i).ringsSent ∧ (s.fossils i).init))
    (hPatient : ¬ 10 ≤ (s.ats i).ringsSent) :
    atCheckRing i s = ((atResult i "RING" "2" s).modAt i fun m =>
      { m with
        ringsSent := m.ringsSent + 1, ringTick := s.tick }, [.raw i (bytes "RING...\r\n")]) := by
  unfold atCheckRing
  simp only [hRinging, hClear, hDue, hFew, hPatient, Bool.not_true, Bool.false_eq_true, ↓reduceIte]

theorem outside_ats {e : Outside} (h : outside e s = some t) : t.ats = s.ats := by
  rcases outside_cases h with ⟨tick, rfl⟩ | ⟨port, host, remote, rfl⟩ | ⟨y, bs, _, rfl⟩ <;> rfl

/-- The ticks of the RINGs, with the one of the latest step in front. -/
theorem ringTicks_cons (st : Config × Action) (p : Past) : ringTicks i (st :: p) =
    (if issuesRing i st then [st.1.sys.tick] else []) ++ ringTicks i p := by
  cases hIssues : issuesRing i st <;> simp [ringTicks, hIssues]

/-- A past in which nobody answered, step by step. -/
theorem unanswered_cons (st : Config × Action) (p : Past) :
    Unanswered i (st :: p) ↔ ¬ answersCall i st ∧ Unanswered i p := List.forall_mem_cons

/-- A step that is due, in terms of the tick of the last RING. -/
theorem Rung.due_iff (h : Rung i n p s) (todo : List Block) (act : Action) :
    Due i p (⟨s, todo⟩, act) ↔ ¬ s.tick - (s.ats i).ringTick < 110 := by
  have hSub : (s.tick - (s.ats i).ringTick).toNat = s.tick.toNat - (s.ats i).ringTick.toNat :=
    UInt32.toNat_sub_of_le _ _ (UInt32.le_iff_toNat_le.mpr h.past)
  have hPast := h.past
  have hDue : Due i p (⟨s, todo⟩, act) ↔ (s.ats i).ringTick.toNat + 110 ≤ s.tick.toNat := by
    unfold Due
    rw [h.last]
    simp
  rw [hDue, UInt32.lt_iff_toNat_lt, hSub]
  have hLimit : (110 : UInt32).toNat = 110 := rfl
  omega

/-- The ring check of a call that rings. -/
inductive RingCheck (i : PortIdx) (n : UInt8) (p : Past) (s : Sys) : Sys × List Block → Prop
  | early (h : s.tick - (s.ats i).ringTick < 110) : RingCheck i n p s (s, [])
  | answer (h : ¬ s.tick - (s.ats i).ringTick < 110) (hPositive : n ≠ 0)
      (hCount : (ringTicks i p).length = n.toNat) : RingCheck i n p s
      (atSendConnect i (s.modAt i fun m => { m with ringing := false, ringsSent := 0 }), [])
  | again (h : ¬ s.tick - (s.ats i).ringTick < 110) (hCount : (ringTicks i p).length < 10)
      (hFew : n ≠ 0 → (ringTicks i p).length < n.toNat) : RingCheck i n p s
      ((atResult i "RING" "2" s).modAt i fun m =>
        { m with ringsSent := m.ringsSent + 1, ringTick := s.tick }, [.raw i (bytes "RING...\r\n")])
  | giveUp (h : ¬ s.tick - (s.ats i).ringTick < 110) (hZero : n = 0) : RingCheck i n p s
      (s.modAt i fun m => { m with ringing := false, ringsSent := 0 },
        [.raw i (bytes "\r\nThe host didn't answer :(\r\n"), .ringTimeout i])

/-- What the ring check does at a port that has rung so often: ring again, answer, give
up, or wait. -/
theorem Rung.check (h : Rung i n p s) (hInit : (s.fossils i).init) (hn : n ≤ 10) :
    RingCheck i n p s (atCheckRing i s) := by
  obtain ⟨hRinging, hClear, hS0, hCount, hMost, hFew, _, _⟩ := h
  have hTen : n.toNat ≤ 10 := UInt8.le_iff_toNat_le.mp hn
  by_cases hEarly : s.tick - (s.ats i).ringTick < 110
  · rw [atCheckRing_early hRinging hClear hEarly]
    exact .early hEarly
  by_cases hEnough : 0 < (s.ats i).s0 ∧ (s.ats i).s0 ≤ (s.ats i).ringsSent ∧ (s.fossils i).init
  · rw [atCheckRing_answer hRinging hClear hEarly hEnough]
    obtain ⟨hPositive, hReached, _⟩ := hEnough
    rw [hS0] at hPositive hReached
    have hNe : n ≠ 0 := fun hZero => by simp [hZero] at hPositive
    have hLe : n.toNat ≤ (ringTicks i p).length := hCount ▸ UInt8.le_iff_toNat_le.mp hReached
    exact .answer hEarly hNe (Nat.le_antisymm (hFew hNe) hLe)
  have hLess : n ≠ 0 → (ringTicks i p).length < n.toNat := by
    intro hNe
    have hPositive : 0 < n := by
      rw [UInt8.lt_iff_toNat_lt]
      exact Nat.pos_of_ne_zero fun hZero => hNe (UInt8.toNat_inj.mp hZero)
    rw [hS0] at hEnough
    have hNot : ¬ n ≤ (s.ats i).ringsSent := fun hReached => hEnough ⟨hPositive, hReached, hInit⟩
    rw [UInt8.le_iff_toNat_le, hCount] at hNot
    omega
  by_cases hLong : 10 ≤ (s.ats i).ringsSent
  · have hZero : n = 0 := by
      by_contra hNe
      have hReached := UInt8.le_iff_toNat_le.mp hLong
      have hBelow := hLess hNe
      rw [hCount] at hReached
      have hLimit : (10 : UInt8).toNat = 10 := rfl
      omega
    have hValue : atCheckRing i s = (s.modAt i fun m => { m with ringing := false, ringsSent := 0 },
        [.raw i (bytes "\r\nThe host didn't answer :(\r\n"), .ringTimeout i]) := by
      unfold atCheckRing
      simp only [hRinging, hClear, hEarly, hEnough, hLong, Bool.not_true, Bool.false_eq_true,
        ↓reduceIte]
    rw [hValue]
    exact .giveUp hEarly hZero
  · rw [atCheckRing_again hRinging hClear hEarly hEnough hLong]
    rw [UInt8.le_iff_toNat_le, hCount] at hLong
    exact .again hEarly (Nat.lt_of_not_le hLong) hLess

theorem issuesRing_check (i : PortIdx) (s : Sys) (rest : List Block) (a : Answer) :
    issuesRing i (⟨s, .checkRing i :: rest⟩, .run a) =
      decide ((atCheckRing i s).2 = [.raw i (bytes "RING...\r\n")]) := by
  simp [issuesRing]

theorem checksRing_check : checksRing i (⟨s, .checkRing i :: rest⟩, .run a) = true := by
  simp [checksRing]

/-- A ring check answers where the alerting ends and CONNECT is due. -/
theorem answersCall_check (i : PortIdx) (s : Sys) (rest : List Block) (a : Answer) :
    answersCall i (⟨s, .checkRing i :: rest⟩, .run a) =
      ((s.ats i).ringing && !((atCheckRing i s).1.ats i).ringing &&
        ((atCheckRing i s).1.ats i).connectPending) := rfl

theorem atResult_ats (verbose numeric : String) :
    (atResult i verbose numeric s).ats i = s.ats i :=
  congrArg Registers.modem (atResult_registers verbose numeric)

/-- A step that has nothing to do with ringing. -/
theorem OnCadence.of_idle {st : Config × Action} (hIssues : issuesRing i st = false)
    (hChecks : checksRing i st = false) (hAnswers : answersCall i st = false) :
    OnCadence i n p st where
  spacing h := by simp [hIssues] at h
  first h := by simp [hIssues] at h
  rung _ h := by simp [hChecks] at h
  answered := by simp [hChecks, hAnswers]
  kept _ := by simp [givesUp, hChecks]

/-- A ring check. -/
theorem OnCadence.of_check {st : Config × Action} (hChecks : checksRing i st)
    (hSpacing : issuesRing i st → Due i p st)
    (hRung : n ≠ 0 → (issuesRing i st ↔
      Unanswered i p ∧ (ringTicks i p).length < n.toNat ∧ Due i p st))
    (hAnswered : answersCall i st ↔
      n ≠ 0 ∧ Unanswered i p ∧ (ringTicks i p).length = n.toNat ∧ Due i p st)
    (hKept : n ≠ 0 → ¬ givesUp i st) : OnCadence i n p st where
  spacing := hSpacing
  first _ hNot := absurd hChecks hNot
  rung hPositive _ := hRung hPositive
  answered := by
    rw [hAnswered]
    simp [hChecks]
  kept := hKept

/-- A ring check gives up where it leaves the time-out behind. -/
theorem givesUp_check (i : PortIdx) (s : Sys) (rest : List Block) (a : Answer) :
    givesUp i (⟨s, .checkRing i :: rest⟩, .run a) =
      decide (.ringTimeout i ∈ (atCheckRing i s).2) := by
  rw [givesUp, checksRing_check, Bool.true_and]

/-- The ring check keeps the cadence of a call that rings. -/
theorem Rung.onCadence (h : Rung i n p s) (hInit : (s.fossils i).init) (hn : n ≤ 10)
    (hUnanswered : Unanswered i p) :
    OnCadence i n p (⟨s, .checkRing i :: rest⟩, .run a) := by
  have hDue := h.due_iff (.checkRing i :: rest) (.run a)
  have hRinging := h.ringing
  have hCheck := h.check hInit hn
  have hIssues := issuesRing_check i s rest a
  have hAnswers := answersCall_check i s rest a
  have hGivesUp := givesUp_check i s rest a
  generalize atCheckRing i s = r at hCheck hIssues hAnswers hGivesUp
  cases hCheck with
  | early hEarly =>
      have hNotDue : ¬ Due i p (⟨s, .checkRing i :: rest⟩, .run a) :=
        fun hYes => hDue.mp hYes hEarly
      refine .of_check checksRing_check ?_ (fun _ => ?_) ?_ fun _ => ?_
      · simp [hIssues]
      · exact iff_of_false (by simp [hIssues]) fun hAll => hNotDue hAll.2.2
      · exact iff_of_false (by simp [hAnswers]) fun hAll => hNotDue hAll.2.2.2
      · simp [hGivesUp]
  | answer hLate hPositive hCount =>
      have hYes := hDue.mpr hLate
      refine .of_check checksRing_check ?_ (fun _ => ?_) ?_ fun _ => ?_
      · simp [hIssues]
      · exact iff_of_false (by simp [hIssues]) fun hAll => Nat.ne_of_lt hAll.2.1 hCount
      · exact iff_of_true (by simp [hAnswers, hRinging, atSendConnect])
          ⟨hPositive, hUnanswered, hCount, hYes⟩
      · simp [hGivesUp]
  | again hLate hCount hFew =>
      have hYes := hDue.mpr hLate
      refine .of_check checksRing_check ?_ (fun hPositive => ?_) ?_ fun _ => ?_
      · exact fun _ => hYes
      · exact iff_of_true (by simp [hIssues]) ⟨hUnanswered, hFew hPositive, hYes⟩
      · refine iff_of_false ?_ fun hAll => Nat.ne_of_lt (hFew hAll.1) hAll.2.2.1
        simp [hAnswers, hRinging, atResult_ats]
      · simp [hGivesUp]
  | giveUp hLate hZero =>
      refine .of_check checksRing_check ?_ (fun hPositive => absurd hZero hPositive) ?_
        fun hPositive => absurd hZero hPositive
      · simp [hIssues]
      · exact iff_of_false (by simp [hAnswers, h.clear]) fun hAll => hAll.1 hZero

/-- The ring check of a call that does not ring. -/
theorem atCheckRing_off (hOff : (s.ats i).ringing = false) : (atCheckRing i s).2 = [] ∨
    (atCheckRing i s).2 = [.raw i (bytes "Connected!\r\n"), .connectResult i] := by
  unfold atCheckRing
  extract_lets m
  split_ifs with hPending hLate hNot
  · exact .inr rfl
  · exact .inl rfl
  · exact .inl rfl
  all_goals simp [m, hOff] at hNot

/-- After the answer the ring check does not ring. -/
theorem onCadence_off (hOff : (s.ats i).ringing = false) (hOver : ¬ Unanswered i p ∨ n = 0) :
    OnCadence i n p (⟨s, .checkRing i :: rest⟩, .run a) := by
  have hIssues := issuesRing_check i s rest a
  have hAnswers := answersCall_check i s rest a
  have hGivesUp := givesUp_check i s rest a
  have hQuiet : issuesRing i (⟨s, .checkRing i :: rest⟩, .run a) = false ∧
      givesUp i (⟨s, .checkRing i :: rest⟩, .run a) = false := by
    rcases atCheckRing_off hOff with hNone | hConnect
    · simp [hIssues, hGivesUp, hNone]
    · simp [hIssues, hGivesUp, hConnect]
  refine .of_check checksRing_check ?_ (fun hPositive => ?_) ?_ fun _ => ?_
  · simp [hQuiet.1]
  · exact iff_of_false (by simp [hQuiet.1]) fun hAll => hOver.elim (· hAll.1) hPositive
  · exact iff_of_false (by simp [hAnswers, hOff]) fun hAll => hOver.elim (· hAll.2.1) hAll.1
  · simp [hQuiet.2]

/-- The ring check comes after the first RING. -/
theorem checked_announced (hSound : Config.Sound ⟨s, .checkRing i :: rest⟩) :
    .ring i ∉ Block.checkRing i :: rest := by
  intro hMem
  rcases List.mem_cons.mp hMem with hHead | hRest
  · cases hHead
  · have hRaw := (List.pairwise_cons.mp hSound.stack).1 _ hRest
    cases hRaw

/-- A block that has nothing to do with ringing. -/
theorem passive_idle (hModes : s.ModesAgree) (hPassive : passive i ⟨s, b :: rest⟩ (.run a))
    (hRing : b ≠ .ring i) (hCheck : b ≠ .checkRing i) :
    issuesRing i (⟨s, b :: rest⟩, .run a) = false ∧
      checksRing i (⟨s, b :: rest⟩, .run a) = false ∧
        answersCall i (⟨s, b :: rest⟩, .run a) = false := by
  refine ⟨?_, ?_, ?_⟩
  · cases b with
    | ring j => simpa [issuesRing] using hRing
    | checkRing j => simp_all [issuesRing]
    | _ => rfl
  · cases b with
    | checkRing j => simpa [checksRing] using hCheck
    | _ => rfl
  · have hAnswers : answersCall i (⟨s, b :: rest⟩, .run a) = ((s.ats i).ringing &&
        !((exec b a s).1.ats i).ringing && ((exec b a s).1.ats i).connectPending) := rfl
    rw [hAnswers]
    rcases passive_ats hModes hPassive hRing hCheck with hSame | ⟨hClear, _⟩
    · rw [hSame]
      cases (s.ats i).ringing <;> simp
    · rw [hClear, Bool.and_false]

/-- Every step of a ringing call keeps to the cadence. -/
theorem Ringer.onCadence (hSound : Config.Sound ⟨s, b :: rest⟩)
    (hPassive : passive i ⟨s, b :: rest⟩ (.run a)) (hn : n ≤ 10)
    (h : Ringer i n p ⟨s, b :: rest⟩) : OnCadence i n p (⟨s, b :: rest⟩, .run a) := by
  by_cases hRing : b = .ring i
  · subst hRing
    obtain ⟨hNone, _⟩ := h.announced List.mem_cons_self
    have hChecks : checksRing i (⟨s, .ring i :: rest⟩, .run a) = false := rfl
    have hAnswers : answersCall i (⟨s, .ring i :: rest⟩, .run a) = false := by
      simp [answersCall, exec, atSendRing]
    refine ⟨fun _ => ?_, fun _ _ => hNone, fun _ hYes => ?_, ?_, fun _ => ?_⟩
    · simp [Due, hNone]
    · simp [hChecks] at hYes
    · simp [hAnswers, hChecks]
    · simp [givesUp, hChecks]
  by_cases hCheck : b = .checkRing i
  · subst hCheck
    have hAnnounced := checked_announced hSound
    rcases h.after hAnnounced with ⟨hUnanswered, hRung⟩ | ⟨hOver, hOff⟩
    · have hInit : (s.fossils i).init := by simpa [passive] using hPassive
      exact hRung.onCadence hInit hn hUnanswered
    · exact onCadence_off hOff hOver
  · obtain ⟨hIssues, hChecks, hAnswers⟩ := passive_idle hSound.modes hPassive hRing hCheck
    exact .of_idle hIssues hChecks hAnswers

/-- A step without a RING keeps the count and the time of the last one. -/
theorem Rung.keep {q : Past} (h : Rung i n p s) (hTicks : ringTicks i q = ringTicks i p)
    (hAts : t.ats i = s.ats i) (hTick : s.tick.toNat ≤ t.tick.toNat) : Rung i n q t where
  ringing := hAts ▸ h.ringing
  clear := hAts ▸ h.clear
  s0 := hAts ▸ h.s0
  count := by
    rw [hAts, hTicks]
    exact h.count
  most := hTicks ▸ h.most
  few := hTicks ▸ h.few
  last := by
    rw [hAts, hTicks]
    exact h.last
  past := by
    rw [hAts]
    exact h.past.trans hTick

/-- A step that neither rings nor answers. -/
theorem Ringer.skip {st : Config × Action} {c : Config} (h : Ringer i n p ⟨s, todo⟩)
    (hIssues : issuesRing i st = false) (hAnswers : answersCall i st = false)
    (hTodo : .ring i ∈ c.todo ↔ .ring i ∈ todo) (hAts : c.sys.ats i = s.ats i)
    (hTick : s.tick.toNat ≤ c.sys.tick.toNat) : Ringer i n (st :: p) c := by
  have hTicks : ringTicks i (st :: p) = ringTicks i p := by simp [ringTicks_cons, hIssues]
  have hSame : Unanswered i (st :: p) ↔ Unanswered i p := by simp [unanswered_cons, hAnswers]
  refine ⟨fun hMem => ?_, fun hNone => ?_⟩
  · rw [hTicks, hSame]
    exact h.announced (hTodo.mp hMem)
  · rw [hSame, hAts]
    exact (h.after fun hMem => hNone (hTodo.mpr hMem)).imp_left
      fun ⟨hUnanswered, hRung⟩ => ⟨hUnanswered, hRung.keep hTicks hAts hTick⟩

/-- The first RING. -/
theorem Ringer.ring (h : Ringer i n p ⟨s, .ring i :: rest⟩)
    (hFor : ringsFor i n ⟨s, .ring i :: rest⟩ (.run a))
    (hFree : lineFree i ⟨s, .ring i :: rest⟩ (.run a)) (hLeaves : .ring i ∉ rest) :
    Ringer i n ((⟨s, .ring i :: rest⟩, .run a) :: p) ⟨atSendRing i s, rest⟩ := by
  obtain ⟨hNone, hUnanswered⟩ := h.announced List.mem_cons_self
  have hIssues : issuesRing i (⟨s, .ring i :: rest⟩, .run a) = true := by simp [issuesRing]
  have hAnswers : answersCall i (⟨s, .ring i :: rest⟩, .run a) = false := by
    simp [answersCall, exec, atSendRing]
  have hS0 : (s.ats i).s0 = n := by simpa [ringsFor] using hFor
  have hClear : (s.ats i).connectPending = false := by simpa [lineFree] using hFree
  have hTicks : ringTicks i ((⟨s, .ring i :: rest⟩, .run a) :: p) = [s.tick] := by
    rw [ringTicks_cons, if_pos hIssues, hNone, List.append_nil]
  refine ⟨fun hMem => absurd hMem hLeaves, fun _ => .inl ⟨?_, ?_⟩⟩
  · exact (unanswered_cons _ _).mpr ⟨by simp [hAnswers], hUnanswered⟩
  · have hTick : (atSendRing i s).tick = s.tick :=
      congrArg Registers.tick (atResult_registers (i := i) (j := i) "RING" "2")
    refine ⟨?_, ?_, ?_, ?_, ?_, fun hPositive => ?_, ?_, ?_⟩
    · simp [atSendRing]
    · simp [atSendRing, atResult_ats, hClear]
    · simp [atSendRing, atResult_ats, hS0]
    · simp [atSendRing, hTicks]
    · simp [hTicks]
    · rw [hTicks]
      exact Nat.pos_of_ne_zero fun hZero => hPositive (UInt8.toNat_inj.mp hZero)
    · simp [atSendRing, hTicks]
    · show ((atSendRing i s).ats i).ringTick.toNat ≤ (atSendRing i s).tick.toNat
      rw [hTick]
      simp [atSendRing]

/-- A ring check. -/
theorem Ringer.check (h : Ringer i n p ⟨s, .checkRing i :: rest⟩)
    (hSound : Config.Sound ⟨s, .checkRing i :: rest⟩) (hSock : (s.ports i).sock = some x)
    (hInit : (s.fossils i).init) (hn : n ≤ 10) :
    Ringer i n ((⟨s, .checkRing i :: rest⟩, .run a) :: p)
      ⟨(atCheckRing i s).1, (atCheckRing i s).2 ++ rest⟩ := by
  have hAnnounced := checked_announced hSound
  have hLeaves : .ring i ∉ (atCheckRing i s).2 ++ rest := fun hMem =>
    hAnnounced ((ring_leaves hSound a (by simp [hSock])).mp hMem).1
  refine ⟨fun hMem => absurd hMem hLeaves, fun _ => ?_⟩
  have hAnswers := answersCall_check i s rest a
  rcases h.after hAnnounced with ⟨hUnanswered, hRung⟩ | ⟨hOver, hOff⟩
  · have hRung : Rung i n p s := hRung
    have hCheck := hRung.check hInit hn
    have hIssues := issuesRing_check i s rest a
    generalize atCheckRing i s = r at hCheck hIssues hAnswers
    have hTicks := ringTicks_cons (i := i) (⟨s, .checkRing i :: rest⟩, .run a) p
    rw [hIssues] at hTicks
    cases hCheck with
    | early hEarly =>
        refine .inl ⟨?_, hRung.keep ?_ rfl (Nat.le_refl _)⟩
        · exact (unanswered_cons _ _).mpr ⟨by simp [hAnswers], hUnanswered⟩
        · rw [hTicks]
          simp
    | answer hLate hPositive hCount =>
        refine .inr ⟨.inl fun hAll => ?_, by simp [atSendConnect]⟩
        exact ((unanswered_cons _ _).mp hAll).1 (by simp [hAnswers, hRung.ringing, atSendConnect])
    | again hLate hCount hFew =>
        obtain ⟨hRinging, hClear, hS0, hSent, hMost, _, hLast, hPast⟩ := hRung
        refine .inl ⟨?_, ?_⟩
        · exact (unanswered_cons _ _).mpr ⟨by simp [hAnswers, hRinging, atResult_ats], hUnanswered⟩
        · have hNow : ringTicks i ((⟨s, .checkRing i :: rest⟩, .run a) :: p) =
              s.tick :: ringTicks i p := by
            rw [hTicks]
            simp
          have hTick : (atResult i "RING" "2" s).tick = s.tick :=
            congrArg Registers.tick (atResult_registers (i := i) (j := i) "RING" "2")
          have hLength : (ringTicks i p).length + 1 < 256 := by omega
          refine ⟨?_, ?_, ?_, ?_, ?_, fun hPositive => ?_, ?_, ?_⟩
          · simp [atResult_ats, hRinging]
          · simp [atResult_ats, hClear]
          · simp [atResult_ats, hS0]
          · rw [hNow]
            simpa [atResult_ats, hSent] using Nat.mod_eq_of_lt hLength
          · rw [hNow]
            exact hCount
          · rw [hNow]
            exact hFew hPositive
          · rw [hNow]
            simp
          · simp [hTick]
    | giveUp hLate hZero => exact .inr ⟨.inr hZero, by simp⟩
  · refine .inr ⟨hOver.imp_left fun hNot hAll => hNot ((unanswered_cons _ _).mp hAll).2, ?_⟩
    exact ringing_off (b := .checkRing i) hSound.modes (by simp) hOff a

/-- A step of a ringing call keeps count of its RINGs. -/
theorem Ringer.run (h : Ringer i n p ⟨s, b :: rest⟩) (hSound : Config.Sound ⟨s, b :: rest⟩)
    (hPassive : passive i ⟨s, b :: rest⟩ (.run a)) (hFor : ringsFor i n ⟨s, b :: rest⟩ (.run a))
    (hFree : lineFree i ⟨s, b :: rest⟩ (.run a)) (hn : n ≤ 10)
    (hSock : (s.ports i).sock = some x) (hNow : ((exec b a s).1.ports i).sock = some x) :
    Ringer i n ((⟨s, b :: rest⟩, .run a) :: p) ⟨(exec b a s).1, (exec b a s).2 ++ rest⟩ := by
  have hLeaves := ring_leaves hSound a (i := i) (by simp [hSock])
  by_cases hRing : b = .ring i
  · subst hRing
    exact h.ring hFor hFree fun hMem => (hLeaves.mp (List.mem_append_right _ hMem)).2 rfl
  by_cases hCheck : b = .checkRing i
  · subst hCheck
    exact h.check hSound hSock (by simpa [passive] using hPassive) hn
  · obtain ⟨hIssues, _, hAnswers⟩ := passive_idle hSound.modes hPassive hRing hCheck
    have hTick : (exec b a s).1.tick = s.tick := (exec_clock hSound hSock a).1
    have hAts : (exec b a s).1.ats i = s.ats i :=
      (passive_ats hSound.modes hPassive hRing hCheck).resolve_right fun hGone => by
        simp [hNow] at hGone
    exact h.skip hIssues hAnswers (hLeaves.trans (and_iff_left hRing)) hAts (by rw [hTick])

end Steps

/-- The steps of a call whose application is passive, with S0 set to `n` when it begins to
ring on a free line, and that do not pass midnight. -/
structure Patient (i : PortIdx) (n : UInt8) (st : Config × Action) : Prop where
  passive : passive i st.1 st.2
  rings : ringsFor i n st.1 st.2
  runs : clockRuns st.1 st.2

/-- Every step of a call keeps the cadence when S0 is at most ten and the call begins to
ring on a line without a CONNECT to come. -/
theorem ring_cadence {i : PortIdx} {x : SockId} {n : UInt8} {past : Past} {c : Config}
    {act : Action} (h : Reached past c) (hSock : (c.sys.ports i).sock = some x)
    (hPatient : ∀ st ∈ (c, act) :: callPast i x past, Patient i n st)
    (hFree : ∀ st ∈ callPast i x past, lineFree i st.1 st.2) (hn : n ≤ 10) :
    OnCadence i n (callPast i x past) (c, act) := by
  have hRinger : Ringer i n (callPast i x past) c := by
    have hBoth : ∀ st ∈ callPast i x past, Patient i n st ∧ lineFree i st.1 st.2 :=
      fun st hst => ⟨hPatient st (List.mem_cons_of_mem _ hst), hFree st hst⟩
    revert hBoth
    refine h.calls (A := fun _ _ => True)
      (P := fun p c => (∀ st ∈ p, Patient i n st ∧ lineFree i st.1 st.2) → Ringer i n p c)
      ?_ ?_ ?_ ?_ (fun _ _ => trivial) hSock
    · intro s b rest a _ _ _ hTarget _ hNone hNow _
      have hRings := accept_rings a hTarget hNone (by rw [hNow]; rfl)
      exact ⟨fun _ => ⟨rfl, by simp [Unanswered]⟩, fun hMissing =>
        absurd (List.mem_append_left rest hRings) hMissing⟩
    · intro s b p hEntry ih hAll
      obtain ⟨_, hEarlier⟩ := List.forall_mem_cons.mp hAll
      refine (ih hEarlier).skip rfl rfl ?_ rfl (Nat.le_refl _)
      have hNe : Block.ring i ≠ b := by
        rintro rfl
        cases hEntry
      simp [hNe]
    · intro s b rest a p hReach _ hOld hNow ih hAll
      obtain ⟨⟨hStep, hLine⟩, hEarlier⟩ := List.forall_mem_cons.mp hAll
      exact (ih hEarlier).run hReach.sound hStep.passive hStep.rings hLine hn hOld hNow
    · intro s t e todo p _ hOut ih hAll
      obtain ⟨⟨hStep, _⟩, hEarlier⟩ := List.forall_mem_cons.mp hAll
      exact (ih hEarlier).skip rfl rfl Iff.rfl (congrFun (outside_ats hOut) i)
        (outside_tick hOut hStep.runs)
  cases act with
  | call b => exact .of_idle rfl rfl rfl
  | outside e => exact .of_idle rfl rfl rfl
  | run a =>
      obtain ⟨s, todo⟩ := c
      cases todo with
      | nil => exact .of_idle rfl rfl rfl
      | cons b rest =>
          exact hRinger.onCadence h.reachable.sound (hPatient _ List.mem_cons_self).passive hn

instance instDecidablePatient (i : PortIdx) (n : UInt8) (st : Config × Action) :
    Decidable (Patient i n st) :=
  decidable_of_iff (passive i st.1 st.2 ∧ ringsFor i n st.1 st.2 ∧ clockRuns st.1 st.2)
    ⟨fun ⟨hPassive, hRings, hRuns⟩ => ⟨hPassive, hRings, hRuns⟩,
      fun ⟨hPassive, hRings, hRuns⟩ => ⟨hPassive, hRings, hRuns⟩⟩

/-- A call with S0 set by a command, after so many more RINGs, at a ring check that is due. -/
def rungCall (command : String) (more : Nat) : List Move :=
  [.finish {}, .call (.int14 0 .init) {}] ++
    (bytes command).map (fun b => .call (.int14 0 (.transmitNoWait b)) {}) ++
    [.outside (.arrive 0 0x0A000001 5000), .call (.mux .poll) { accepted := some 0 }] ++
    (List.replicate more [.outside (.ticks 110), .call (.int14 0 .status) {}]).flatten ++
    [.outside (.ticks 110), .enter (.int14 0 .status)] ++ List.replicate 6 (.run {})

/-- With S0 at two, the ring check behind the second RING answers. -/
theorem rungCall_two :
    (record (rungCall "ATS0=2\r" 1) ([], install [.listen 0 2323] true 0)).any (fun r =>
      decide ((r.2.sys.ports 0).sock = some 1) && answersCall 0 (r.2, .run {}) &&
        (((r.2, Action.run {}) :: callPast 0 1 r.1).all fun st => decide (Patient 0 2 st)) &&
        (callPast 0 1 r.1).all fun st => lineFree 0 st.1 st.2) = true := by
  decide +kernel

/-- With S0 at eleven, the call is given up at the tenth RING. -/
theorem rungCall_eleven :
    (record (rungCall "ATS0=11\r" 9) ([], install [.listen 0 2323] true 0)).any (fun r =>
      decide ((r.2.sys.ports 0).sock = some 1) && givesUp 0 (r.2, .run {}) &&
        (((r.2, Action.run {}) :: callPast 0 1 r.1).all fun st => decide (Patient 0 11 st)) &&
        (callPast 0 1 r.1).all fun st => lineFree 0 st.1 st.2) = true := by
  decide +kernel

/-- The run of the call that is answered after two. -/
theorem ring_cadence_two : ∃ (past : Past) (c : Config), Reached past c ∧
    answersCall 0 (c, .run {}) ∧ (ringTicks 0 (callPast 0 1 past)).length = 2 := by
  obtain ⟨past, c, hReached, hp⟩ := exists_reached rungCall_two
  simp only [Bool.and_eq_true, decide_eq_true_eq, List.all_eq_true] at hp
  obtain ⟨⟨⟨hSock, hAnswers⟩, hPatient⟩, hFree⟩ := hp
  have hCadence := ring_cadence hReached hSock hPatient hFree (by decide)
  exact ⟨past, c, hReached, hAnswers, (hCadence.answered.mp hAnswers).2.2.2.1⟩

/-- With S0 set to eleven the call is dropped after ten RINGs, at the check that was to
give the eleventh. -/
theorem ring_gives_up : ¬ ∀ i x n past c act, Reached past c → (c.sys.ports i).sock = some x →
    (∀ st ∈ (c, act) :: callPast i x past, Patient i n st) →
    (∀ st ∈ callPast i x past, lineFree i st.1 st.2) →
    OnCadence i n (callPast i x past) (c, act) := by
  intro hAll
  obtain ⟨past, c, hReached, hp⟩ := exists_reached rungCall_eleven
  simp only [Bool.and_eq_true, decide_eq_true_eq, List.all_eq_true] at hp
  obtain ⟨⟨⟨hSock, hGivesUp⟩, hPatient⟩, hFree⟩ := hp
  exact (hAll 0 1 11 past c _ hReached hSock hPatient hFree).kept (by decide) hGivesUp

end Vmodem
