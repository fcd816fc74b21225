import Vmodem.Invariants.Execution
import Mathlib.Data.List.Pairwise

/-! The order in which blocks lie on the stack. The receive loop never has
anything above it, and nothing but writes to the socket stands between a
decision to end or announce a call and its execution. -/

namespace Vmodem

/-- Nothing but a write to a socket. -/
def Block.isRaw : Block → Bool
  | .raw _ _ => true
  | _ => false

/-- The blocks whose place on the stack matters. -/
def Block.special : Block → Bool
  | .rx _ _ _ _ | .pollClose _ _ | .initDisc _ | .ring _ | .initFinish _ | .preallocate _ _
  | .preallocateHunt _ _ => true
  | _ => false

/-- Whether the second block may wait below the first. -/
def Block.above (b : Block) : Block → Prop
  | .rx _ _ _ _ => False
  | .pollClose _ _ | .initDisc _ | .ring _ => b.isRaw
  | .initFinish i => b.isRaw ∨ b = .initDisc i
  | _ => True

/-- Opening listen sockets, while the driver is being installed. -/
def Block.preallocates : Block → Bool
  | .preallocate _ _ | .preallocateHunt _ _ => true
  | _ => false

def Block.boots : Block → Bool
  | .preallocate _ _ | .preallocateHunt _ _ | .mux (.listen _ _) | .mux (.huntListen _ _) => true
  | _ => false

theorem Block.above_of_plain {b c : Block} (h : c.special = false) : b.above c := by
  cases c with
  | ring | initDisc | initFinish | rx | pollClose => cases h
  | _ => trivial

theorem pairwise_of_plain {bs : List Block} (h : ∀ c ∈ bs, c.special = false) :
    bs.Pairwise Block.above :=
  List.pairwise_of_forall_mem_list fun _ _ c hc => Block.above_of_plain (h c hc)

theorem pollCycle_plain {c : Block} (h : c ∈ pollCycle) : c.special = false := by
  simp only [pollCycle, List.cons_append, List.mem_cons, List.mem_append, List.mem_map] at h
  rcases h with rfl | (⟨_, _, rfl⟩ | ⟨_, _, rfl⟩) | ⟨_, _, rfl⟩ <;> rfl

theorem pollCycle_append_plain {after : List Block} (h : ∀ c ∈ after, c.special = false) :
    ∀ c ∈ pollCycle ++ after, c.special = false := by
  intro c hc
  rcases List.mem_append.mp hc with hPoll | hAfter
  · exact pollCycle_plain hPoll
  · exact h c hAfter

/-- The lists of blocks a block may leave behind. -/
inductive Pushed : Block → List Block → Prop where
  | plain {b : Block} {bs : List Block} (h : ∀ c ∈ bs, c.special = false)
      (hb : b.isRaw ∨ b.preallocates ∨ (∃ i, b = .initDisc i) → bs = []) : Pushed b bs
  | accept {b : Block} (i : PortIdx) (hb : b.accepts) :
      Pushed b [.raw i connectOffers, .raw i connectRequests,
        .raw i (bytes "\r\nRinging the host, please wait...\r\n"), .ring i]
  | close (i : PortIdx) (silent : Bool) (writes : List Block) (h : ∀ c ∈ writes, c.isRaw) :
      Pushed (.answered i) (writes ++ [.pollClose i silent])
  | init (i : PortIdx) : Pushed (.int14 i .init) [.initFinish i]
  | initDisc (i : PortIdx) (writes : List Block) (h : ∀ c ∈ writes, c.isRaw) :
      Pushed (.int14 i .init) (writes ++ [.initDisc i, .initFinish i])
  | receive (i : PortIdx) (x : SockId) (tmp : List UInt8) (drop : Bool) :
      Pushed (.recv i) [.rx i x tmp drop, .recv i]
  | filter (i : PortIdx) (x : SockId) (v : UInt8) (tmp : List UInt8) (drop : Bool) :
      Pushed (.rx i x (v :: tmp) drop) [.rx i x tmp drop]

/-- A block that is nothing but a write is one of `telnet_send_raw`. -/
theorem Block.raw_of_isRaw {b : Block} (h : b.isRaw) : ∃ i buf, b = .raw i buf := by
  cases b with
  | raw i buf => exact ⟨i, buf, rfl⟩
  | _ => cases h

theorem raw_plain {writes : List Block} (h : ∀ c ∈ writes, c.isRaw) :
    ∀ c ∈ writes, c.special = false := by
  intro c hc
  obtain ⟨i, buf, rfl⟩ := Block.raw_of_isRaw (h c hc)
  rfl

/-- What a block leaves behind is in order by itself. -/
theorem Pushed.pairwise {b : Block} {bs : List Block} (h : Pushed b bs) :
    bs.Pairwise Block.above := by
  cases h with
  | plain h _ => exact pairwise_of_plain h
  | accept i _ => simp [Block.above, Block.isRaw]
  | close i silent writes h =>
      rw [List.pairwise_append]
      refine ⟨pairwise_of_plain (raw_plain h), by simp, fun c hc d hd => ?_⟩
      obtain rfl := List.mem_singleton.mp hd
      exact h c hc
  | init i => simp
  | initDisc i writes h =>
      rw [List.pairwise_append]
      refine ⟨pairwise_of_plain (raw_plain h), by simp [Block.above], fun c hc d hd => ?_⟩
      simp only [List.mem_cons, List.not_mem_nil, or_false] at hd
      rcases hd with rfl | rfl
      · exact h c hc
      · exact .inl (h c hc)
  | receive i x tmp drop => simp [Block.above]
  | filter i x v tmp drop => simp

/-- Where a block on the stack can come from. -/
theorem Pushed.mem {b c : Block} {bs : List Block} (h : Pushed b bs) (hc : c ∈ bs) :
    c.special = false ∨ (∃ i, b.accepts ∧ c = .ring i) ∨
      (∃ i silent, b = .answered i ∧ c = .pollClose i silent) ∨
      (∃ i, b = .int14 i .init ∧ (c = .initDisc i ∨ c = .initFinish i)) ∨
      ∃ i x tmp drop, c = .rx i x tmp drop ∧
        (b = .recv i ∨ ∃ v, b = .rx i x (v :: tmp) drop) := by
  cases h with
  | plain h _ => exact .inl (h c hc)
  | accept i hb =>
      simp only [List.mem_cons, List.not_mem_nil, or_false] at hc
      rcases hc with rfl | rfl | rfl | rfl
      · exact .inl rfl
      · exact .inl rfl
      · exact .inl rfl
      · exact .inr (.inl ⟨i, hb, rfl⟩)
  | close i silent writes h =>
      rcases List.mem_append.mp hc with hWrite | hClose
      · exact .inl (raw_plain h c hWrite)
      · exact .inr (.inr (.inl ⟨i, silent, rfl, List.mem_singleton.mp hClose⟩))
  | init i => exact .inr (.inr (.inr (.inl ⟨i, rfl, .inr (List.mem_singleton.mp hc)⟩)))
  | initDisc i writes h =>
      rcases List.mem_append.mp hc with hWrite | hDisc
      · exact .inl (raw_plain h c hWrite)
      · exact .inr (.inr (.inr (.inl ⟨i, rfl, by simpa using hDisc⟩)))
  | receive i x tmp drop =>
      simp only [List.mem_cons, List.not_mem_nil, or_false] at hc
      rcases hc with rfl | rfl
      · exact .inr (.inr (.inr (.inr ⟨i, x, tmp, drop, rfl, .inl rfl⟩)))
      · exact .inl rfl
  | filter i x v tmp drop =>
      exact .inr (.inr (.inr (.inr
        ⟨i, x, tmp, drop, List.mem_singleton.mp hc, .inr ⟨v, rfl⟩⟩)))

/-- Writes, installations and the hangup of AH=04h leave nothing behind. -/
theorem Pushed.eq_nil {b : Block} {bs : List Block} (h : Pushed b bs)
    (hb : b.isRaw ∨ b.preallocates ∨ ∃ i, b = .initDisc i) : bs = [] := by
  cases h with
  | plain _ hNil => exact hNil hb
  | accept i hAccepts =>
      rcases hb with hRaw | hAlloc | ⟨j, rfl⟩
      · cases b <;> simp_all [Block.isRaw, Block.accepts]
      · cases b <;> simp_all [Block.preallocates, Block.accepts]
      · simp [Block.accepts] at hAccepts
  | _ => simp [Block.isRaw, Block.preallocates] at hb

/-- A block takes over the place of the block that left it behind. -/
theorem Pushed.above {b : Block} {bs : List Block} (h : Pushed b bs) {c d : Block} (hc : c ∈ bs)
    (hAbove : b.above d) : c.above d := by
  have hBusy : ¬ (b.isRaw ∨ b.preallocates ∨ ∃ i, b = .initDisc i) := by
    intro hb
    simp [h.eq_nil hb] at hc
  cases d with
  | rx i x tmp drop => exact hAbove.elim
  | pollClose i silent | initDisc i | ring i => exact absurd (.inl hAbove) hBusy
  | initFinish i => exact absurd (hAbove.imp_right fun hb => .inr ⟨i, hb⟩) hBusy
  | _ => trivial

/-- Put on top of the stack, what a block leaves behind keeps the whole stack in order.
-/
theorem Pushed.stack {b : Block} {bs rest : List Block} (h : Pushed b bs)
    (hStack : (b :: rest).Pairwise Block.above) : (bs ++ rest).Pairwise Block.above := by
  obtain ⟨hHead, hRest⟩ := List.pairwise_cons.mp hStack
  rw [List.pairwise_append]
  exact ⟨h.pairwise, hRest, fun c hc d hd => h.above hc (hHead d hd)⟩

section Pushes

variable (i : PortIdx) (a : Answer) (s : Sys)

/-- A poll inside INT 14h is made of plain blocks. -/
theorem pollFrom14_plain {after : List Block} (h : ∀ c ∈ after, c.special = false) :
    ∀ c ∈ (pollFrom14 after s).2, c.special = false := by
  unfold pollFrom14
  split_ifs
  · exact h
  · exact pollCycle_append_plain (by simpa [Block.special] using h)

/-- AH=01h leaves plain blocks behind, its retry among them. -/
theorem transmit_plain (v : UInt8) : ∀ c ∈ (transmit i v s).2, c.special = false := by
  unfold transmit
  extract_lets r
  cases r.2 with
  | consumed | hangup => simp [Block.special]
  | pass =>
      dsimp only
      split_ifs
      · simp [Block.special]
      · split
        next => simp [Block.special]
        next => split <;> simp [Block.special]

theorem transmitNoWait_plain (v : UInt8) : ∀ c ∈ (transmitNoWait i v s).2, c.special = false := by
  unfold transmitNoWait
  extract_lets r
  cases r.2 with
  | consumed | hangup => simp [Block.special]
  | pass =>
      dsimp only
      split
      next => simp [Block.special]
      next => split <;> simp [Block.special]

theorem writeDone_plain (count : UInt16) : ∀ c ∈ writeDone i count, c.special = false := by
  unfold writeDone
  split_ifs <;> simp [Block.special]

theorem blockWrite_plain (data : List UInt8) :
    ∀ c ∈ (blockWrite i data s).2, c.special = false := by
  unfold blockWrite
  split_ifs
  · simp [Block.special]
  · exact writeDone_plain i 0

/-- AH=19h leaves plain blocks behind, its retry among them. -/
theorem writeNext_plain (data : List UInt8) (count : UInt16) :
    ∀ c ∈ (writeNext i data count s).2, c.special = false := by
  unfold writeNext
  split
  next => exact writeDone_plain i count
  next => exact writeDone_plain i count
  next => split <;> simp [Block.special]

theorem retryWrite_plain (v : UInt8) (rest : List UInt8) (count : UInt16) :
    ∀ c ∈ (retryWrite i v rest count s).2, c.special = false := by
  unfold retryWrite
  split
  next => exact writeDone_plain i count
  next =>
    split
    next => simp [Block.special]
    next => exact writeDone_plain i count

/-- The ring check leaves plain blocks behind, the time-out among them. -/
theorem atCheckRing_plain : ∀ c ∈ (atCheckRing i s).2, c.special = false := by
  unfold atCheckRing
  extract_lets m
  split_ifs <;> simp [Block.special]

/-- What an accepted call is sent, with RING at the end. -/
theorem acceptCall_snd (x : SockId) : (acceptCall i x s).2 =
    [.raw i connectOffers, .raw i connectRequests,
      .raw i (bytes "\r\nRinging the host, please wait...\r\n"), .ring i] := rfl

/-- AH=04h hangs up first where it must, and finishes behind that. -/
theorem initStart_pushed : Pushed (.int14 i .init) (initStart i s).2 := by
  unfold initStart
  extract_lets first
  split_ifs
  · exact .initDisc i [.raw i (bytes "\r\nSession finished.\r\n")] (by simp [Block.isRaw])
  · exact .initDisc i [] (by simp)
  · exact .init i

/-- Each INT 14h function leaves behind one of the known lists. One case for each
function. -/
theorem int14_pushed (f : Fossil) : Pushed (.int14 i f) (int14 i f s).2 := by
  have hPlain : ∀ {bs : List Block}, (∀ c ∈ bs, c.special = false) → Pushed (.int14 i f) bs :=
    fun h => .plain h (by simp [Block.isRaw, Block.preallocates])
  unfold int14
  by_cases hInit : (s.ports i).initialized
  · rw [if_pos hInit]
    cases f with
    | transmit v => exact hPlain (transmit_plain i s v)
    | receive | status => exact hPlain (pollFrom14_plain s (by simp [Block.special]))
    | init => exact initStart_pushed i s
    | transmitNoWait v => exact hPlain (transmitNoWait_plain i s v)
    | blockRead max =>
        dsimp only
        split_ifs
        · exact hPlain (by simp [Block.special])
        · exact hPlain (pollCycle_append_plain (by simp [Block.special]))
    | blockWrite data => exact hPlain (blockWrite_plain i s data)
    | _ => exact hPlain (by simp [Block.special])
  · rw [if_neg hInit]
    exact hPlain (by simp)

theorem mux_plain (m : Mux) : ∀ c ∈ (mux m a s).2, c.special = false := by
  cases m with
  | poll =>
      unfold mux
      dsimp only
      split_ifs
      · simp
      · exact pollCycle_append_plain (by simp [Block.special])
  | _ => simp [mux]

/-- The poll of a group leaves what follows a call, or nothing. -/
theorem pollHunt_pushed (g : GroupIdx) : Pushed (.hunt g) (pollHunt g a s).2 := by
  have hNil : Pushed (.hunt g) [] := .plain (by simp) (by simp)
  unfold pollHunt
  split_ifs
  · split
    next => exact hNil
    next =>
      split
      next j _ => exact .accept j rfl
      next => exact hNil
  · exact hNil

/-- The poll of a port leaves what follows a call or an answer, or nothing. -/
theorem pollPort_pushed : Pushed (.port i) (pollPort i a s).2 := by
  have hPlain : ∀ {bs : List Block}, (∀ c ∈ bs, c.special = false) → Pushed (.port i) bs :=
    fun h => .plain h (by simp [Block.isRaw, Block.preallocates])
  unfold pollPort
  split
  next =>
    split
    next => exact hPlain (by simp)
    next =>
      split_ifs
      · exact hPlain (by simp)
      · split
        next => exact hPlain (by simp)
        next => exact .accept i rfl
    next => split_ifs <;> exact hPlain (by simp [Block.special])
  next => exact hPlain (by simp)

/-- The service of a call leaves the teardown or the transfer of data. -/
theorem answered_pushed : Pushed (.answered i) (answered i s).2 := by
  have hPlain : ∀ {bs : List Block}, (∀ c ∈ bs, c.special = false) → Pushed (.answered i) bs :=
    fun h => .plain h (by simp [Block.isRaw, Block.preallocates])
  unfold answered
  split
  next => exact hPlain (by simp)
  next =>
    split
    next =>
      extract_lets silent
      exact .close i silent _ (by split_ifs <;> simp [Block.isRaw])
    next => exact hPlain (by simp [Block.special])

/-- A receive leaves the chunk to be parsed, and itself behind it. -/
theorem pollRecv_pushed : Pushed (.recv i) (pollRecv i a s).2 := by
  have hPlain : ∀ {bs : List Block}, (∀ c ∈ bs, c.special = false) → Pushed (.recv i) bs :=
    fun h => .plain h (by simp [Block.isRaw, Block.preallocates])
  unfold pollRecv
  split
  next => exact hPlain (by simp)
  next =>
    split
    next => exact hPlain (by simp [Block.special])
    next => exact .receive i _ _ _

/-- The first byte of a chunk leaves the rest of it to be parsed. -/
theorem pollRx_pushed (x : SockId) (tmp : List UInt8) (drop : Bool) :
    Pushed (.rx i x tmp drop) (pollRx i x tmp drop a s).2 := by
  cases tmp with
  | nil => exact .plain (by simp [pollRx]) (by simp [Block.isRaw, Block.preallocates])
  | cons v rest => exact .filter i x v rest drop

theorem spinLoop_plain (start : Tick) : ∀ c ∈ spinLoop i start s, c.special = false := by
  unfold spinLoop
  split_ifs
  · exact pollCycle_append_plain (by simp [Block.special])
  · simp

/-- Every block leaves behind one of the known lists. One case for each block. -/
theorem exec_pushed (b : Block) : Pushed b (exec b a s).2 := by
  cases b with
  | int14 i f => exact int14_pushed i s f
  | int28 =>
      refine .plain ?_ (by simp [Block.isRaw, Block.preallocates])
      unfold exec
      dsimp only
      split_ifs
      · simp
      · exact pollCycle_append_plain (by simp [Block.special])
  | mux m => exact .plain (mux_plain a s m) (by simp [Block.isRaw, Block.preallocates])
  | preallocate | preallocateHunt | raw => exact .plain (by simp [exec]) (by simp [exec])
  | initDisc j => exact .plain (by simp [exec]) (by simp [exec])
  | checkRing i => exact .plain (atCheckRing_plain i s) (by simp [Block.isRaw, Block.preallocates])
  | pollStart =>
      exact .plain (by simp [exec, Block.special]) (by simp [Block.isRaw, Block.preallocates])
  | closing n =>
      refine .plain ?_ (by simp [Block.isRaw, Block.preallocates])
      cases n <;> simp [exec, Block.special]
  | hunt g => exact pollHunt_pushed a s g
  | port i => exact pollPort_pushed i a s
  | answered i => exact answered_pushed i s
  | recv i => exact pollRecv_pushed i a s
  | rx i x tmp drop => exact pollRx_pushed i a s x tmp drop
  | keepalive i =>
      refine .plain ?_ (by simp [Block.isRaw, Block.preallocates])
      simp only [exec, pollKeepalive]
      split_ifs <;> simp [Block.special]
  | idle i now =>
      refine .plain ?_ (by simp [Block.isRaw, Block.preallocates])
      simp only [exec, pollIdle]
      split_ifs <;> simp [Block.special]
  | spin i =>
      refine .plain ?_ (by simp [Block.isRaw, Block.preallocates])
      simp only [exec, spin]
      split_ifs <;> simp [Block.special]
  | spinLoop i start =>
      exact .plain (spinLoop_plain i s start) (by simp [Block.isRaw, Block.preallocates])
  | spinCheck i start =>
      refine .plain ?_ (by simp [Block.isRaw, Block.preallocates])
      simp only [exec, spinCheck]
      split_ifs <;> simp [Block.special]
  | write i rest count =>
      exact .plain (writeNext_plain i s rest count) (by simp [Block.isRaw, Block.preallocates])
  | retryWrite i v rest count =>
      exact .plain (retryWrite_plain i s v rest count) (by simp [Block.isRaw, Block.preallocates])
  | _ => exact .plain (by simp [exec]) (by simp [Block.isRaw, Block.preallocates])

end Pushes

end Vmodem
