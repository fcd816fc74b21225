import Vmodem.Invariants.Calls

/-! The carrier drop after a purge. AH=09h arms it on a call older than ten seconds,
the status polls of AH=03h count it in, and the counter has eight bits. -/

namespace Vmodem

/-- AH=03h reports no carrier on a call whose drop has been counted in. -/
def reportsDrop (i : PortIdx) (x : SockId) (c : Config) : Bool :=
  decide (c.todo.head? = some (.status i)) && decide ((c.sys.ports i).sock = some x) &&
    decide ((c.sys.ports i).dtrIgnore = false) && decide (3 ≤ (c.sys.fossils i).purgeSeen) &&
    decide (statusWord i c.sys &&& dcdBit = 0)

/-- The call goes on with DTR honoured, and AH=04h is not called. -/
def goesOn (i : PortIdx) (x : SockId) (c : Config) (_ : Action) : Bool :=
  decide ((c.sys.ports i).sock = some x) && decide ((c.sys.ports i).dtrIgnore = false) &&
    decide (c.todo.head? ≠ some (.int14 i .init))

/-- AH=03h is about to count with the counter at its greatest value. -/
def countsFull (i : PortIdx) (c : Config) : Bool :=
  decide (c.todo.head? = some (.purgeStatus i)) && decide ((c.sys.fossils i).purgeSeen = 255)

/-- The drop is counted in, and AH=04h is not under way. -/
structure Config.Dropped (i : PortIdx) (c : Config) : Prop where
  purgeSeen : 3 ≤ (c.sys.fossils i).purgeSeen
  initFinish : .initFinish i ∉ c.todo

section Steps

variable {b : Block} {a : Answer} {s t : Sys} {rest todo : List Block} {i : PortIdx} {x : SockId}
  {c₀ c : Config}

/-- A count of three or more stays so, unless it comes round. -/
theorem next_purgeSeen {n : UInt8} (h : 3 ≤ n) (hFull : n ≠ 255) : 3 ≤ n + 1 := by
  have hNat : (n + 1).toNat = (n.toNat + 1) % 256 := UInt8.toNat_add n 1
  have hSize := n.toNat_lt
  have hNe : n.toNat ≠ 255 := fun hEq => hFull (UInt8.toNat_inj.mp hEq)
  rw [UInt8.le_iff_toNat_le] at h ⊢
  have hThree : (3 : UInt8).toNat = 3 := rfl
  omega

/-- A block keeps a reported drop, except AH=04h and the poll at which the count comes
round. -/
theorem Config.Dropped.run (hModes : s.ModesAgree) (h : Config.Dropped i ⟨s, b :: rest⟩)
    (hInit : b ≠ .int14 i .init) (hFull : ¬ (b = .purgeStatus i ∧ (s.fossils i).purgeSeen = 255)) :
    Config.Dropped i ⟨(exec b a s).1, (exec b a s).2 ++ rest⟩ := by
  have hCount : 3 ≤ (s.fossils i).purgeSeen := h.purgeSeen
  constructor
  · show 3 ≤ ((exec b a s).1.fossils i).purgeSeen
    rcases purgeSeen_cases (j := i) b a hModes with hSame | ⟨_, hFew, _⟩ | ⟨hPoll, _, hNext⟩ |
      ⟨hFinish, _⟩
    · rw [hSame]
      exact hCount
    · exact absurd (UInt8.lt_of_le_of_lt hCount hFew) (UInt8.lt_irrefl _)
    · rw [hNext]
      exact next_purgeSeen hCount fun hMax => hFull ⟨hPoll, hMax⟩
    · exact absurd (by simp [hFinish]) h.initFinish
  · intro hMem
    rcases List.mem_append.mp hMem with hNew | hOld
    · exact hInit (exec_initFinish hNew)
    · exact h.initFinish (List.mem_cons_of_mem _ hOld)

theorem dropped_of_report (hSound : c.Sound) (h : reportsDrop i x c) : c.Dropped i := by
  simp only [reportsDrop, Bool.and_eq_true, decide_eq_true_eq] at h
  obtain ⟨⟨⟨⟨hHead, _⟩, _⟩, hCount⟩, _⟩ := h
  refine ⟨hCount, fun hMem => ?_⟩
  obtain ⟨s, todo⟩ := c
  obtain ⟨rest, rfl⟩ := List.head?_eq_some_iff.mp hHead
  rcases List.mem_cons.mp hMem with hEq | hRest
  · cases hEq
  · rcases (List.pairwise_cons.mp hSound.stack).1 (.initFinish i) hRest with hRaw | hDisc
    · cases hRaw
    · cases hDisc

theorem dropped_run (hReach : Reachable c₀) (hReport : reportsDrop i x c₀)
    (run : Transition.Run step (fun c act => goesOn i x c act ∧ ¬ countsFull i c) c₀ c) :
    c.Dropped i := by
  refine run.invariant_under
    (fun t prior => hReach.extend (prior.mono fun _ _ _ => trivial))
    (dropped_of_report hReach.sound hReport) ?_
  rintro ⟨s, todo⟩ act d hHere hDropped ⟨hOn, hCount⟩ last
  simp only [goesOn, Bool.and_eq_true, decide_eq_true_eq] at hOn
  rcases step_cases last with ⟨b, _, hEntry, rfl, rfl⟩ | ⟨a, b, rest, _, rfl, rfl⟩ |
    ⟨e, t, _, hOut, rfl⟩
  · refine ⟨hDropped.purgeSeen, fun hMem => ?_⟩
    obtain rfl := List.mem_singleton.mp hMem
    cases hEntry
  · exact hDropped.run hHere.sound.modes (by simpa using hOn.2) (by simpa [countsFull] using hCount)
  · refine ⟨?_, hDropped.initFinish⟩
    have hFossils : t.fossils = s.fossils := by
      rcases outside_cases hOut with ⟨tick, rfl⟩ | ⟨port, host, remote, rfl⟩ | ⟨y, bs, _, rfl⟩ <;>
        rfl
    show 3 ≤ (t.fossils i).purgeSeen
    rw [hFossils]
    exact hDropped.purgeSeen

end Steps

/-- Once AH=03h has reported a carrier drop it reports no carrier for the rest of
the call, up to AH=04h, as long as it does not count with the counter full. -/
theorem carrier_drop_latches {i : PortIdx} {x : SockId} {c₀ c : Config} (hReach : Reachable c₀)
    (hReport : reportsDrop i x c₀)
    (run : Transition.Run step (fun c act => goesOn i x c act ∧ ¬ countsFull i c) c₀ c)
    (hIgnore : (c.sys.ports i).dtrIgnore = false) : statusWord i c.sys &&& dcdBit = 0 := by
  by_contra hDcd
  have hCarrier := (statusWord_dcd i c.sys).mp hDcd
  have hCount := (dropped_run hReach hReport run).purgeSeen
  simp only [carrier, Bool.and_eq_true, Bool.or_eq_true, decide_eq_true_eq, hIgnore,
    Bool.false_eq_true, or_false] at hCarrier
  exact UInt8.lt_irrefl _ (UInt8.lt_of_le_of_lt hCount hCarrier.2)

/-- A call is purged after 200 ticks, and the second status poll finds its drop
counted in. -/
def purgedAndPolled : List Move :=
  answeredCall ++
    [.outside (.ticks 200), .call (.int14 0 .purgeOutput) {}, .call (.int14 0 .status) {}] ++
    statusPoll

/-- The application polls the status again. -/
def pollAgain : List Move := .finish {} :: statusPoll

/-- The same after 252 polls in between, so that the counter comes round to 0. -/
def pollRound : List Move :=
  [.finish {}] ++ List.replicate 252 (.call (.int14 0 .status) {}) ++ pollAgain

theorem pollAgain_play :
    ((install [.listen 0 2323] true 0).play (fun _ _ => true) purgedAndPolled).any (fun c =>
      (c.play (fun c act => goesOn 0 1 c act && !countsFull 0 c) pollAgain).any fun d =>
        reportsDrop 0 1 c && decide ((d.sys.ports 0).dtrIgnore = false) &&
          decide (d.todo.head? = some (.status 0))) = true := by
  decide +kernel

/-- A drop reported, and 252 polls later no longer. -/
theorem pollRound_play :
    ((install [.listen 0 2323] true 0).play (fun _ _ => true) purgedAndPolled).any (fun c =>
      (c.play (goesOn 0 1) pollRound).any fun d =>
        reportsDrop 0 1 c && decide ((d.sys.ports 0).dtrIgnore = false) &&
          decide ((d.sys.ports 0).sock = some 1) && decide (d.todo.head? = some (.status 0)) &&
          decide (statusWord 0 d.sys &&& dcdBit ≠ 0)) = true := by
  decide +kernel

theorem carrier_drop_latches_again : ∃ c : Config, Reachable c ∧
    c.todo.head? = some (.status 0) ∧ statusWord 0 c.sys &&& dcdBit = 0 := by
  obtain ⟨c₀, c, hReach, hRun, hp⟩ := exists_segment
    (P := fun c act => goesOn 0 1 c act ∧ ¬ countsFull 0 c) (fun _ _ h => by simpa using h)
    pollAgain_play
  simp only [Bool.and_eq_true, decide_eq_true_eq] at hp
  obtain ⟨⟨hReport, hIgnore⟩, hHead⟩ := hp
  exact ⟨c, hReach.extend (hRun.mono fun _ _ _ => trivial), hHead,
    carrier_drop_latches hReach hReport hRun hIgnore⟩

/-- The 253rd poll after the first report raises carrier again on the same call. -/
theorem carrier_returns : ¬ ∀ i x (c₀ c : Config), Reachable c₀ → reportsDrop i x c₀ →
    Transition.Run step (fun c act => goesOn i x c act) c₀ c → (c.sys.ports i).sock = some x →
    (c.sys.ports i).dtrIgnore = false → c.todo.head? = some (.status i) →
    statusWord i c.sys &&& dcdBit = 0 := by
  intro hAll
  obtain ⟨c₀, c, hReach, hRun, hp⟩ := exists_segment
    (P := fun c act => goesOn 0 1 c act) (fun _ _ h => h) pollRound_play
  simp only [Bool.and_eq_true, decide_eq_true_eq] at hp
  obtain ⟨⟨⟨⟨hReport, hIgnore⟩, hSock⟩, hHead⟩, hDcd⟩ := hp
  exact hDcd (hAll 0 1 c₀ c hReach hReport hRun hSock hIgnore hHead)

end Vmodem
