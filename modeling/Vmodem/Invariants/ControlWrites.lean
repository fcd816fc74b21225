import Vmodem.Invariants.Runs
import Vmodem.Library.TelnetReceiver

/-! What the driver sends of its own accord: option negotiations, the keepalive,
and texts for the caller. Each of these writes is complete in itself. -/

namespace Vmodem

/-- The texts of `telnet_send_text`. -/
def statusTexts : List (List UInt8) :=
  [bytes "\r\nRinging the host, please wait...\r\n", bytes "RING...\r\n", bytes "Connected!\r\n",
    bytes "\r\nThe host didn't answer :(\r\n", bytes "\r\nSession finished.\r\n",
    bytes "\r\nClosing idle connection.\r\n"]

/-- The buffers handed to `telnet_send_raw`. -/
inductive ControlWrite : List UInt8 → Prop where
  | offers : ControlWrite connectOffers
  | requests : ControlWrite connectRequests
  | keepalive : ControlWrite nop
  | reply (verb opt : UInt8) (h : verb ∈ [telWill, telWont, telDo, telDont]) :
      ControlWrite (response verb opt)
  | ttype : ControlWrite ttypeRequest
  | text (buf : List UInt8) (h : buf ∈ statusTexts) : ControlWrite buf

/-- Every buffer of the driver is a sequence of whole pieces of a telnet stream. -/
theorem ControlWrite.complete {buf : List UInt8} (h : ControlWrite buf) :
    TelnetReceiver.Complete buf := by
  cases h with
  | offers | requests | keepalive | ttype => decide
  | reply verb opt h =>
      have hVerb : 251 ≤ verb ∧ verb ≠ TelnetReceiver.iac := by
        simp only [List.mem_cons, List.not_mem_nil, or_false] at h
        rcases h with rfl | rfl | rfl | rfl <;> decide
      exact TelnetReceiver.complete_option hVerb.1 hVerb.2 opt
  | text buf h =>
      have hAll : ∀ buf ∈ statusTexts, TelnetReceiver.Complete buf := by decide +kernel
      exact hAll buf h

theorem ControlWrite.ne_nil {buf : List UInt8} (h : ControlWrite buf) : buf ≠ [] := by
  cases h with
  | offers | requests | keepalive | ttype => decide
  | reply verb opt h => simp [response]
  | text buf h =>
      have hAll : ∀ buf ∈ statusTexts, buf ≠ [] := by decide +kernel
      exact hAll buf h

/-- Whatever is sent in answer is one of the driver's own writes. -/
def AnswersWell (r : PortState × Option (List UInt8)) : Prop :=
  ∀ buf, r.2 = some buf → ControlWrite buf

/-- The answer to an option is one of the driver's own writes, for every command and
every option. -/
theorem telnetHandleOption_answersWell (p : PortState) (cmd opt : UInt8) :
    AnswersWell (telnetHandleOption p cmd opt) := by
  unfold telnetHandleOption
  repeat' refine iteInduction (motive := AnswersWell) (fun _ => ?_) fun _ => ?_
  all_goals
    intro buf h
    cases h
  all_goals first | exact .ttype | exact .reply _ _ (by decide)

/-- The answer to an option is one of the four verbs, or the request for the
terminal type. -/
theorem telnetFilter_reply {p : PortState} {v : UInt8} {buf : List UInt8}
    (h : (telnetFilter p v).reply = some buf) : ControlWrite buf := by
  unfold telnetFilter at h
  cases hState : p.iacState with
  | sawCmd =>
      rw [hState] at h
      exact telnetHandleOption_answersWell p p.iacCmd v buf h
  | _ =>
      rw [hState] at h
      dsimp only at h
      split_ifs at h

/-- A block that sends control bytes sends one of the driver's own writes. -/
def Block.WritesWell : Block → Prop
  | .raw _ buf => ControlWrite buf
  | _ => True

section Pushes

variable {b : Block} {a : Answer} {s : Sys} {i : PortIdx}

/-- A poll cycle sends nothing of its own before its blocks run. -/
theorem pollCycle_writesWell {after : List Block} (h : ∀ c ∈ after, c.WritesWell) :
    ∀ c ∈ pollCycle ++ after, c.WritesWell := by
  intro c hc
  rcases List.mem_append.mp hc with hPoll | hAfter
  · simp only [pollCycle, List.cons_append, List.mem_cons, List.mem_append, List.mem_map] at hPoll
    rcases hPoll with rfl | (⟨_, _, rfl⟩ | ⟨_, _, rfl⟩) | ⟨_, _, rfl⟩ <;> trivial
  · exact h c hAfter

/-- A poll inside INT 14h sends nothing of its own before its blocks run. -/
theorem pollFrom14_writesWell {after : List Block} (h : ∀ c ∈ after, c.WritesWell) :
    ∀ c ∈ (pollFrom14 after s).2, c.WritesWell := by
  unfold pollFrom14
  split_ifs
  · exact h
  · exact pollCycle_writesWell (by simpa [Block.WritesWell] using h)

/-- The farewell before an idle disconnect is one of the driver's texts. -/
theorem sessionFinished_writesWell :
    Block.WritesWell (.raw i (bytes "\r\nSession finished.\r\n")) :=
  .text _ (by decide)

theorem writeDone_writesWell (count : UInt16) : ∀ c ∈ writeDone i count, c.WritesWell := by
  unfold writeDone
  split_ifs <;> simp [Block.WritesWell]

/-- What an accepted call is sent at once is the driver's own. -/
theorem acceptCall_writesWell (x : SockId) : ∀ c ∈ (acceptCall i x s).2, c.WritesWell := by
  intro c hc
  simp only [acceptCall_snd, List.mem_cons, List.not_mem_nil, or_false] at hc
  rcases hc with rfl | rfl | rfl | rfl
  · exact ControlWrite.offers
  · exact ControlWrite.requests
  · exact ControlWrite.text _ (by decide)
  · trivial

/-- No INT 14h function sends control bytes by itself. -/
theorem int14_writesWell (f : Fossil) : ∀ c ∈ (int14 i f s).2, c.WritesWell := by
  unfold int14
  by_cases hInit : (s.ports i).initialized
  · rw [if_pos hInit]
    cases f with
    | transmit v =>
        dsimp only
        unfold transmit
        extract_lets r
        cases r.2 with
        | consumed | hangup => simp [Block.WritesWell]
        | pass =>
            dsimp only
            split_ifs
            · simp [Block.WritesWell]
            · split
              next => simp [Block.WritesWell]
              next => split <;> simp [Block.WritesWell]
    | transmitNoWait v =>
        dsimp only
        unfold transmitNoWait
        extract_lets r
        cases r.2 with
        | consumed | hangup => simp [Block.WritesWell]
        | pass =>
            dsimp only
            split
            next => simp [Block.WritesWell]
            next => split <;> simp [Block.WritesWell]
    | receive | status => exact pollFrom14_writesWell (by simp [Block.WritesWell])
    | init =>
        dsimp only
        unfold initStart
        extract_lets first
        split_ifs
        · intro c hc
          simp only [List.cons_append, List.nil_append, List.mem_cons, List.not_mem_nil,
            or_false] at hc
          rcases hc with rfl | rfl | rfl
          · exact sessionFinished_writesWell
          · trivial
          · trivial
        all_goals simp [Block.WritesWell]
    | blockRead max =>
        dsimp only
        split_ifs
        · simp [Block.WritesWell]
        · exact pollCycle_writesWell (by simp [Block.WritesWell])
    | blockWrite data =>
        dsimp only
        unfold blockWrite
        split_ifs
        · simp [Block.WritesWell]
        · exact writeDone_writesWell 0
    | _ => simp [Block.WritesWell]
  · rw [if_neg hInit]
    simp

/-- A hunt group that takes a caller sends what an accepted call is sent. -/
theorem pollHunt_writesWell (g : GroupIdx) : ∀ c ∈ (pollHunt g a s).2, c.WritesWell := by
  unfold pollHunt
  split_ifs
  · split
    next => simp
    next =>
      split
      next => exact acceptCall_writesWell _
      next => simp
  · simp

theorem pollPort_writesWell : ∀ c ∈ (pollPort i a s).2, c.WritesWell := by
  unfold pollPort
  split
  next =>
    split
    next => simp
    next =>
      split_ifs
      · simp
      · split
        next => simp
        next => exact acceptCall_writesWell _
    next => split_ifs <;> simp [Block.WritesWell]
  next => simp

/-- The ring check sends no more than one of the driver's texts. -/
theorem atCheckRing_writesWell : ∀ c ∈ (atCheckRing i s).2, c.WritesWell := by
  unfold atCheckRing
  extract_lets m
  split_ifs
  all_goals
    simp only [List.mem_cons, List.not_mem_nil, or_false, forall_eq_or_imp, forall_eq,
      IsEmpty.forall_iff, implies_true, Block.WritesWell, and_true]
  all_goals exact .text _ (by decide)

theorem answered_writesWell : ∀ c ∈ (answered i s).2, c.WritesWell := by
  unfold answered
  split
  next => simp
  next =>
    split
    next =>
      extract_lets silent
      intro c hc
      rcases List.mem_append.mp hc with hWrite | hClose
      · split_ifs at hWrite
        · cases hWrite
        · obtain rfl := List.mem_singleton.mp hWrite
          exact sessionFinished_writesWell
      · obtain rfl := List.mem_singleton.mp hClose
        trivial
    next => simp [Block.WritesWell]

theorem pollKeepalive_writesWell : ∀ c ∈ pollKeepalive i s, c.WritesWell := by
  intro c hc
  unfold pollKeepalive at hc
  rcases List.mem_append.mp hc with hWrite | hIdle
  · split_ifs at hWrite
    · obtain rfl := List.mem_singleton.mp hWrite
      exact ControlWrite.keepalive
    · cases hWrite
  · obtain rfl := List.mem_singleton.mp hIdle
    trivial

/-- The idle disconnect announces itself with the driver's own text. -/
theorem pollIdle_writesWell (now : Tick) : ∀ c ∈ pollIdle i now s, c.WritesWell := by
  intro c hc
  unfold pollIdle at hc
  split_ifs at hc
  · simp only [List.mem_cons, List.not_mem_nil, or_false] at hc
    rcases hc with rfl | rfl
    · exact ControlWrite.text _ (by decide)
    · trivial
  · obtain rfl := List.mem_singleton.mp hc
    trivial

/-- The blocks that come next send the driver's own writes only. -/
theorem exec_writesWell (b : Block) (a : Answer) (s : Sys) :
    ∀ c ∈ (exec b a s).2, c.WritesWell := by
  cases b with
  | int14 i f => exact int14_writesWell f
  | int28 =>
      unfold exec
      dsimp only
      split_ifs
      · simp
      · exact pollCycle_writesWell (by simp [Block.WritesWell])
  | mux m =>
      cases m with
      | poll =>
          simp only [exec, mux]
          split_ifs
          · simp
          · exact pollCycle_writesWell (by simp [Block.WritesWell])
      | _ => simp [exec, mux]
  | checkRing i => exact atCheckRing_writesWell
  | closing n => cases n <;> simp [exec, Block.WritesWell]
  | hunt g => exact pollHunt_writesWell g
  | port i => exact pollPort_writesWell
  | answered i => exact answered_writesWell
  | recv i =>
      simp only [exec, pollRecv]
      split
      next => simp
      next => split_ifs <;> simp [Block.WritesWell]
  | rx i x tmp drop => cases tmp <;> simp [exec, pollRx, Block.WritesWell]
  | keepalive i => exact pollKeepalive_writesWell
  | idle i now => exact pollIdle_writesWell now
  | spin i =>
      simp only [exec, spin]
      split_ifs <;> simp [Block.WritesWell]
  | spinLoop i start =>
      simp only [exec, spinLoop]
      split_ifs
      · exact pollCycle_writesWell (by simp [Block.WritesWell])
      · simp
  | spinCheck i start =>
      simp only [exec, spinCheck]
      split_ifs <;> simp [Block.WritesWell]
  | write i data count =>
      simp only [exec]
      unfold writeNext
      split
      next => exact writeDone_writesWell count
      next => exact writeDone_writesWell count
      next => split <;> simp [Block.WritesWell]
  | retryWrite i v data count =>
      simp only [exec]
      unfold retryWrite
      split
      next => exact writeDone_writesWell count
      next =>
        split
        next => simp [Block.WritesWell]
        next => exact writeDone_writesWell count
  | _ => simp [exec, Block.WritesWell]

end Pushes

/-- In every reachable state the blocks still to run send nothing but the driver's own
writes. -/
theorem stack_writesWell {c : Config} (h : Reachable c) : ∀ b ∈ c.todo, b.WritesWell := by
  refine h.induct (P := fun c => ∀ b ∈ c.todo, b.WritesWell) (fun args eager tick b hb => ?_)
    (fun s b hEntry _ c hc => ?_) (fun s b rest a _ _ ih c hc => ?_) fun _ _ _ _ _ ih => ih
  · have hBoots := install_boots args eager tick b hb
    cases b <;> trivial
  · obtain rfl := List.mem_singleton.mp hc
    cases c <;> trivial
  · rcases List.mem_append.mp hc with hNew | hOld
    · exact exec_writesWell b a s c hNew
    · exact ih c (by simp [hOld])

end Vmodem
