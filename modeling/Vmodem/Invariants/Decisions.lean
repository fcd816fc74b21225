import Vmodem.Invariants.Line
import Vmodem.Invariants.Runs

/-! Blocks that act on a decision: where on the stack they come from, and what was
known when the decision was made. -/

namespace Vmodem

/-- What has to be true for block `b` to leave behind block `c`. -/
def Block.FollowedBy (b : Block) (s : Sys) : Block → Prop
  | .ringTimeout i => b = .checkRing i ∧ ringEvents i s = [.onHook]
  | .idleClose i => ∃ now, b = .idle i now ∧ idleExpired i now s
  | .idle i now => b = .keepalive i ∧ now = s.tick
  | .retryChar i v =>
      b = .int14 i (.transmit v) ∧
        (atInput i v (s.modPort i fun p => { p with lastTxTick := s.tick })).2 = .pass
  | .write i data _ =>
      b = .int14 i (.blockWrite data) ∨ ∃ v count, b = .write i (v :: data) count ∨
        b = .retryWrite i v data count
  | .retryWrite i v rest count => b = .write i (v :: rest) count
  | .int14 _ _ | .int28 | .mux _ => False
  | _ => True

/-- Blocks that are left behind for no reason of their own. -/
def Block.free : Block → Bool
  | .ringTimeout _ | .idleClose _ | .idle _ _ | .retryChar _ _ | .write _ _ _ => false
  | .retryWrite _ _ _ _ | .int14 _ _ | .int28 | .mux _ => false
  | _ => true

section Pushes

variable {b : Block} {a : Answer} {s : Sys} {i : PortIdx}

/-- Blocks that need no reason may be left behind by any block. -/
theorem followed_of_free {bs : List Block} (h : bs.all Block.free) :
    ∀ c ∈ bs, b.FollowedBy s c := by
  intro c hc
  have hFree := List.all_eq_true.mp h c hc
  cases c with
  | ringTimeout | idleClose | idle | retryChar | write | retryWrite | int14 | int28 | mux =>
      cases hFree
  | _ => trivial

/-- A poll cycle may start anywhere: its blocks decide for themselves. -/
theorem pollCycle_followed {after : List Block} (h : ∀ c ∈ after, b.FollowedBy s c) :
    ∀ c ∈ pollCycle ++ after, b.FollowedBy s c := by
  intro c hc
  rcases List.mem_append.mp hc with hPoll | hAfter
  · simp only [pollCycle, List.cons_append, List.mem_cons, List.mem_append, List.mem_map] at hPoll
    rcases hPoll with rfl | (⟨_, _, rfl⟩ | ⟨_, _, rfl⟩) | ⟨_, _, rfl⟩ <;> trivial
  · exact h c hAfter

/-- A poll inside INT 14h adds blocks that need no reason. -/
theorem pollFrom14_followed {after : List Block} (h : ∀ c ∈ after, b.FollowedBy s c) :
    ∀ c ∈ (pollFrom14 after s).2, b.FollowedBy s c := by
  unfold pollFrom14
  split_ifs
  · exact h
  · exact pollCycle_followed (List.forall_mem_cons.mpr ⟨trivial, h⟩)

theorem writeDone_followed (count : UInt16) : ∀ c ∈ writeDone i count, b.FollowedBy s c := by
  unfold writeDone
  split_ifs <;> exact followed_of_free rfl

/-- The negotiation and the RING behind an accepted call need no reason. -/
theorem acceptCall_followed {t : Sys} (x : SockId) :
    ∀ c ∈ (acceptCall i x t).2, b.FollowedBy s c := by
  rw [acceptCall_snd]
  exact followed_of_free rfl

/-- AH=01h sends a byte again only where the interpreter had passed it. -/
theorem transmit_followed (v : UInt8) :
    ∀ c ∈ (transmit i v s).2, (Block.int14 i (.transmit v)).FollowedBy s c := by
  unfold transmit
  extract_lets r
  cases hTaken : r.2 with
  | consumed | hangup => exact followed_of_free rfl
  | pass =>
      have hPass : (atInput i v (s.modPort i fun p => { p with lastTxTick := s.tick })).2 = .pass :=
        hTaken
      dsimp only
      split_ifs
      · exact followed_of_free rfl
      · split
        next => exact followed_of_free rfl
        next =>
          split
          next => exact followed_of_free rfl
          next =>
            refine List.forall_mem_cons.mpr
              ⟨trivial, List.forall_mem_cons.mpr ⟨?_, followed_of_free rfl⟩⟩
            exact ⟨rfl, hPass⟩

/-- Each INT 14h function leaves behind the blocks its state gives it a reason for. -/
theorem int14_followed (f : Fossil) : ∀ c ∈ (int14 i f s).2, (Block.int14 i f).FollowedBy s c := by
  unfold int14
  by_cases hInit : (s.ports i).initialized
  · rw [if_pos hInit]
    cases f with
    | transmit v => exact transmit_followed v
    | transmitNoWait v =>
        dsimp only
        unfold transmitNoWait
        extract_lets r
        cases r.2 with
        | consumed | hangup => exact followed_of_free rfl
        | pass =>
            dsimp only
            split
            next => exact followed_of_free rfl
            next => split <;> exact followed_of_free rfl
    | receive | status => exact pollFrom14_followed (followed_of_free rfl)
    | init =>
        dsimp only
        unfold initStart
        extract_lets first
        split_ifs <;> exact followed_of_free rfl
    | blockRead max =>
        dsimp only
        split_ifs
        · exact followed_of_free rfl
        · exact pollCycle_followed (followed_of_free rfl)
    | blockWrite data =>
        dsimp only
        unfold blockWrite
        split_ifs
        · exact List.forall_mem_cons.mpr ⟨.inl rfl, followed_of_free rfl⟩
        · exact writeDone_followed 0
    | _ => exact followed_of_free rfl
  · rw [if_neg hInit]
    simp

theorem pollHunt_followed (g : GroupIdx) : ∀ c ∈ (pollHunt g a s).2, b.FollowedBy s c := by
  unfold pollHunt
  split_ifs
  · split
    next => simp
    next =>
      split
      next => exact acceptCall_followed _
      next => simp
  · simp

/-- What a standalone port leaves behind when it takes a caller needs no reason. -/
theorem pollPort_followed : ∀ c ∈ (pollPort i a s).2, b.FollowedBy s c := by
  unfold pollPort
  split
  next =>
    split
    next => simp
    next =>
      split_ifs
      · simp
      · split
        next => simp
        next => exact acceptCall_followed _
    next => split_ifs <;> exact followed_of_free rfl
  next => simp

/-- The ring check gives up a call only where it puts the line on hook. -/
theorem atCheckRing_followed : ∀ c ∈ (atCheckRing i s).2, (Block.checkRing i).FollowedBy s c := by
  unfold atCheckRing
  extract_lets m
  split_ifs with hPending hDue hRinging hEarly hAnswer hTen
  all_goals try exact followed_of_free rfl
  refine List.forall_mem_cons.mpr ⟨trivial, List.forall_mem_cons.mpr ⟨?_, followed_of_free rfl⟩⟩
  refine ⟨rfl, ?_⟩
  unfold ringEvents
  rw [if_neg hPending, if_neg hRinging, if_neg hEarly, if_neg hAnswer, if_pos hTen]

theorem answered_followed : ∀ c ∈ (answered i s).2, b.FollowedBy s c := by
  unfold answered
  split
  next => simp
  next =>
    split
    next =>
      extract_lets silent
      split_ifs <;> exact followed_of_free rfl
    next => exact followed_of_free rfl

theorem pollKeepalive_followed : ∀ c ∈ pollKeepalive i s, (Block.keepalive i).FollowedBy s c := by
  unfold pollKeepalive
  refine List.forall_mem_append.mpr
    ⟨?_, List.forall_mem_cons.mpr ⟨⟨rfl, rfl⟩, followed_of_free rfl⟩⟩
  split_ifs <;> exact followed_of_free rfl

/-- The idle disconnect follows only an idle test that came out true. -/
theorem pollIdle_followed (now : Tick) :
    ∀ c ∈ pollIdle i now s, (Block.idle i now).FollowedBy s c := by
  unfold pollIdle
  split_ifs with hIdle
  · refine List.forall_mem_cons.mpr ⟨trivial, List.forall_mem_cons.mpr ⟨?_, followed_of_free rfl⟩⟩
    exact ⟨now, rfl, hIdle⟩
  · exact followed_of_free rfl

/-- A block leaves behind only what it has decided on. -/
theorem exec_followed (b : Block) (a : Answer) (s : Sys) :
    ∀ c ∈ (exec b a s).2, b.FollowedBy s c := by
  cases b with
  | int14 i f => exact int14_followed f
  | int28 =>
      unfold exec
      dsimp only
      split_ifs
      · simp
      · exact pollCycle_followed (followed_of_free rfl)
  | mux m =>
      cases m with
      | poll =>
          simp only [exec, mux]
          split_ifs
          · simp
          · exact pollCycle_followed (followed_of_free rfl)
      | _ => simp [exec, mux]
  | checkRing i => exact atCheckRing_followed
  | closing n => cases n <;> exact followed_of_free rfl
  | hunt g => exact pollHunt_followed g
  | port i => exact pollPort_followed
  | answered i => exact answered_followed
  | recv i =>
      simp only [exec, pollRecv]
      split
      next => simp
      next => split_ifs <;> exact followed_of_free rfl
  | rx i x tmp drop => cases tmp <;> exact followed_of_free rfl
  | keepalive i => exact pollKeepalive_followed
  | idle i now => exact pollIdle_followed now
  | spin i =>
      simp only [exec, spin]
      split_ifs <;> exact followed_of_free rfl
  | spinLoop i start =>
      simp only [exec, spinLoop]
      split_ifs
      · exact pollCycle_followed (followed_of_free rfl)
      · simp
  | spinCheck i start =>
      simp only [exec, spinCheck]
      split_ifs <;> exact followed_of_free rfl
  | write i data count =>
      simp only [exec]
      unfold writeNext
      split
      next => exact writeDone_followed count
      next => exact writeDone_followed count
      next v rest x _ =>
        split
        next => exact List.forall_mem_cons.mpr ⟨.inr ⟨v, count, .inl rfl⟩, followed_of_free rfl⟩
        next =>
          exact List.forall_mem_cons.mpr
            ⟨trivial, List.forall_mem_cons.mpr ⟨rfl, followed_of_free rfl⟩⟩
  | retryWrite i v data count =>
      simp only [exec]
      unfold retryWrite
      split
      next => exact writeDone_followed count
      next =>
        split
        next => exact List.forall_mem_cons.mpr ⟨.inr ⟨v, count, .inr rfl⟩, followed_of_free rfl⟩
        next => exact writeDone_followed count
  | _ => exact followed_of_free rfl

end Pushes

/-- Ends of a call that the caller is told about first. -/
def Block.announced : Block → Bool
  | .ringTimeout _ | .idleClose _ => true
  | _ => false

/-- Only the announcement may stand above the end it announces. -/
def Block.defersTo (b d : Block) : Prop := d.announced → b.isRaw

section Stack

variable {b : Block} {a : Answer} {s : Sys} {rest : List Block} {i : PortIdx}

/-- A write to a socket leaves no block behind and does nothing to a line. -/
theorem exec_raw (h : b.isRaw) : (exec b a s).2 = [] ∧ ∀ j, b.lineEvents a s j = [] := by
  cases b with
  | raw i buf => exact ⟨rfl, fun _ => rfl⟩
  | _ => cases h

/-- The ring check that gives up tells the caller so and nothing else. -/
theorem atCheckRing_giveUp (h : ringEvents i s = [.onHook]) : (atCheckRing i s).2 =
    [.raw i (bytes "\r\nThe host didn't answer :(\r\n"), .ringTimeout i] := by
  unfold ringEvents at h
  unfold atCheckRing
  dsimp only at h ⊢
  split_ifs at h ⊢
  all_goals simp_all

/-- Among the blocks one block leaves, only the announcement stands above the end it
announces. -/
theorem exec_announced : (exec b a s).2.Pairwise Block.defersTo := by
  by_cases hAny : ∃ d ∈ (exec b a s).2, d.announced
  · obtain ⟨d, hMem, hAnnounced⟩ := hAny
    have hFollowed := exec_followed b a s d hMem
    cases d with
    | ringTimeout i =>
        obtain ⟨rfl, hGiveUp⟩ := hFollowed
        show (atCheckRing i s).2.Pairwise _
        rw [atCheckRing_giveUp hGiveUp]
        simp [Block.defersTo, Block.isRaw]
    | idleClose i =>
        obtain ⟨now, rfl, hIdle⟩ := hFollowed
        simp [exec, pollIdle, hIdle, Block.defersTo, Block.isRaw]
    | _ => cases hAnnounced
  · exact List.pairwise_of_forall_mem_list fun _ _ d hd hAnnounced =>
      absurd ⟨d, hd, hAnnounced⟩ hAny

/-- Blocks that are left behind only under blocks with nothing to leave behind have nothing
else above them. -/
theorem stack_deferred (upper later : Block → Bool)
    (hUpper : ∀ b a s, upper b → (exec b a s).2 = []) (hBoots : ∀ d, d.boots → later d = false)
    (hPush : ∀ b a s, (exec b a s).2.Pairwise fun c d => later d → upper c) {c : Config}
    (h : Reachable c) : c.todo.Pairwise fun c d => later d → upper c := by
  refine h.induct (P := fun c => c.todo.Pairwise fun c d => later d → upper c)
    (fun args eager tick => ?_) (fun _ _ _ _ => List.pairwise_singleton _ _)
    (fun s b rest a _ _ ih => ?_) fun _ _ _ _ _ ih => ih
  · refine List.pairwise_of_forall_mem_list fun _ _ d hd hLater => ?_
    rw [hBoots d (install_boots args eager tick d hd)] at hLater
    cases hLater
  · obtain ⟨hHead, hRest⟩ := List.pairwise_cons.mp ih
    rw [List.pairwise_append]
    refine ⟨hPush b a s, hRest, fun c hc d hd hLater => ?_⟩
    rw [hUpper b a s (hHead d hd hLater)] at hc
    cases hc

/-- Nothing stands between the announcement and the end it announces. -/
theorem stack_announced {c : Config} (h : Reachable c) :
    c.todo.Pairwise Block.defersTo := by
  refine stack_deferred Block.isRaw Block.announced (fun _ _ _ hRaw => (exec_raw hRaw).1)
    (fun d hBoots => ?_) (fun _ _ _ => exec_announced) h
  cases d <;> simp_all [Block.boots, Block.announced]

/-- A close request does not outlive INIT-DISC. -/
theorem stack_initFinish {c : Config} (h : Reachable c) (hMem : .initFinish i ∈ c.todo) :
    (c.sys.ports i).pendingClose = 0 := by
  revert i
  refine h.induct (P := fun c => ∀ {i}, .initFinish i ∈ c.todo → (c.sys.ports i).pendingClose = 0)
    (fun args eager tick i hMem => ?_) (fun s b hEntry _ i hMem => ?_)
    (fun s b rest a hReach _ ih i hMem => ?_) fun s t e todo hOut ih i hMem => ?_
  · cases install_boots args eager tick _ hMem
  · obtain rfl := List.mem_singleton.mp hMem
    cases hEntry
  · rcases List.mem_append.mp hMem with hNew | hOld
    · rcases (exec_pushed a s b).mem hNew with hPlain | ⟨j, _, hEq⟩ | ⟨j, silent, _, hEq⟩ |
        ⟨j, rfl, hEq | hEq⟩ | ⟨j, x, tmp, drop, hEq, _⟩
      · cases hPlain
      · cases hEq
      · cases hEq
      · cases hEq
      · obtain rfl := Block.initFinish.inj hEq
        show ((int14 i .init s).1.ports i).pendingClose = 0
        have hNew : .initFinish i ∈ (int14 i .init s).2 := hNew
        unfold int14 at hNew ⊢
        by_cases hInit : (s.ports i).initialized
        · rw [if_pos hInit] at hNew ⊢
          dsimp only
          unfold initStart
          extract_lets cleared
          split_ifs with hClose
          all_goals simp_all
        · rw [if_neg hInit] at hNew
          cases hNew
      · cases hEq
    · have hZero := ih (List.mem_cons_of_mem _ hOld)
      rcases (List.pairwise_cons.mp hReach.sound.stack).1 (.initFinish i) hOld with hRaw | rfl
      · cases b with
        | raw k buf =>
            show ((telnetSendRaw k buf a s).ports i).pendingClose = 0
            rw [(telnetSendRaw_frame k a s buf).1]
            exact hZero
        | _ => cases hRaw
      · show ((initDisc i s).ports i).pendingClose = 0
        simpa [initDisc, enterIdleMode] using hZero
  · rw [outside_ports hOut]
    exact ih hMem

/-- The announcement of an accepted call comes from its acceptance. -/
theorem exec_ring_target (h : .ring i ∈ (exec b a s).2) : b.target s = some i := by
  cases b with
  | hunt g =>
      have hMem : .ring i ∈ (pollHunt g a s).2 := h
      unfold pollHunt at hMem
      show (if (s.huntGroups g).active ∧ (s.huntGroups g).listenSock.isSome then
        freeMember (s.huntGroups g).portMask s else none) = some i
      split_ifs at hMem ⊢ with hOpen
      · split at hMem
        next => cases hMem
        next =>
          split at hMem
          next j hMember =>
            have hj : i = j := by simpa [acceptCall_snd] using hMem
            rw [hj]
            exact hMember
          next => cases hMem
      · cases hMem
  | port k =>
      have hMem : .ring i ∈ (pollPort k a s).2 := h
      unfold pollPort at hMem
      by_cases hInit : (s.ports k).initialized
      · rw [if_pos hInit] at hMem
        cases hMode : (s.ports k).mode with
        | disc => simp [hMode] at hMem
        | listen =>
            rw [hMode] at hMem
            dsimp only at hMem
            by_cases hHunt : (s.ports k).huntGroupIdx.isSome
            · rw [if_pos hHunt] at hMem
              cases hMem
            · rw [if_neg hHunt] at hMem
              split at hMem
              next => cases hMem
              next =>
                have hk : i = k := by simpa [acceptCall_snd] using hMem
                rw [hk]
                exact if_pos ⟨hInit, hMode, by simpa using hHunt⟩
        | conn =>
            rw [hMode] at hMem
            dsimp only at hMem
            split_ifs at hMem <;> simp at hMem
      · rw [if_neg hInit] at hMem
        cases hMem
  | _ =>
      rcases (exec_pushed a s _).mem h with hPlain | ⟨j, hAccepts, _⟩ | ⟨j, silent, _, hEq⟩ |
        ⟨j, _, hEq | hEq⟩ | ⟨j, x, tmp, drop, hEq, _⟩
      · cases hPlain
      · cases hAccepts
      all_goals cases hEq

end Stack

end Vmodem
