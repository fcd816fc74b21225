import Vmodem.Invariants.Transmit

/-! The bytes the driver has accepted for a port, and how the functions that
write tell the application which bytes these are. -/

namespace Vmodem

/-- The bytes accepted for a port since its latest call was accepted, as long as
its output has not been discarded on request. -/
def accepted (i : PortIdx) : List Event → Option (List TxByte)
  | [] => none
  | .attached j _ :: older => if j = i then some [] else accepted i older
  | .purged j :: older => if j = i then none else accepted i older
  | .stored j v :: older =>
      if j = i then (accepted i older).map (· ++ [v]) else accepted i older
  | _ :: older => accepted i older

/-- What an event tells the application about the room for its next byte. -/
def Event.promises (i : PortIdx) : Event → Option Bool
  | .status j word => if j = i then some (decide (word &&& threBit ≠ 0)) else none
  | .stored j _ => if j = i then some false else none
  | _ => none

/-- The latest status word of the port has THRE set, and nothing was written
since. -/
def Ready (i : PortIdx) (trace : List Event) : Prop :=
  trace.findSome? (Event.promises i) = some true

/-- A status word with THRE set is a promise that is kept. -/
def Sys.KeepsPromises (s : Sys) : Prop :=
  ∀ i, Ready i s.trace → (s.fossils i).tx.count < txRingSize

/-- Byte `v` is accepted for port `i` between two states. -/
def Accepts (i : PortIdx) (v : UInt8) (s t : Sys) : Prop :=
  ∃ x, (s.ports i).sock = some x ∧
    accepted i t.trace = (accepted i s.trace).map (· ++ [⟨v, i, x⟩])

section Promises

variable {b : Block} {a : Answer} {s t : Sys} {i : PortIdx}

/-- Events that do not concern the output of a port leave its accepted bytes alone. -/
theorem accepted_append {newer : List Event} (h : ∀ e ∈ newer, e.OffLine) (older : List Event) :
    accepted i (newer ++ older) = accepted i older := by
  induction newer with
  | nil => rfl
  | cons e newer ih =>
      have hRest := ih fun e' he => h e' (by simp [he])
      have hHead := h e (by simp)
      cases e with
      | attached j x | stored j v | purged j => exact hHead.elim
      | _ => exact hRest

theorem LineIdle.accepted (h : LineIdle s t) : accepted i t.trace = accepted i s.trace := by
  obtain ⟨newer, hTrace, hOff⟩ := h.trace
  rw [hTrace, accepted_append hOff]

theorem Quiet.accepted (h : Quiet s t) : accepted i t.trace = accepted i s.trace := by
  obtain ⟨newer, hTrace, hMinor⟩ := h.trace
  rw [hTrace, accepted_append fun e he => ?_]
  have hEvent := hMinor e he
  cases e <;> trivial

/-- A flush only takes bytes out of the transmit ring. -/
theorem fossilFlushTx_count (j : PortIdx) :
    ((fossilFlushTx i a s).fossils j).tx.count ≤ (s.fossils j).tx.count := by
  rcases fossilFlushTx_cases i a s with hNone | ⟨x, _, _, _, ⟨_, hOnly⟩ | ⟨_, hBoth⟩⟩
  · rw [hNone]
  · rw [hOnly]
    simp
  · rw [hBoth, flushRing_tx]
    split_ifs with hj
    · rw [CircularBuffer.getMany_of_count_le (Nat.le_refl _)]
      exact Nat.zero_le _
    · simp

/-- Unless a byte is stored, the transmit rings do not grow. -/
theorem Effect.tx_count (h : Effect b a s t) : (t.fossils i).tx.count ≤ (s.fossils i).tx.count ∨
    ∃ v, t.trace = .stored i v :: s.trace := by
  cases h.transmit with
  | idle h => exact .inl (by rw [h.tx])
  | store j x v hSock hRoom ht =>
      subst ht
      by_cases hj : i = j
      · exact .inr ⟨⟨v, j, x⟩, by rw [hj]; rfl⟩
      · exact .inl (by simp [Sys.stored, hj])
  | purge j hb ht =>
      subst ht
      refine .inl ?_
      by_cases hj : i = j <;> simp [Sys.purged, hj]
  | flush j hb ht =>
      subst ht
      exact .inl (fossilFlushTx_count i)
  | attach j x net hb hSock hAccept ht =>
      subst ht
      refine .inl ?_
      by_cases hj : i = j <;> simp [hj]

/-- One effect keeps the promise of THRE: room only shrinks by a write, and a write ends
the promise. -/
theorem Effect.keepsPromises (h : Effect b a s t) (hRings : s.RingsOk) (hs : s.KeepsPromises) :
    t.KeepsPromises := by
  intro i hReady
  rcases h.tx_count (i := i) with hLe | ⟨v, hTrace⟩
  · refine Nat.lt_of_le_of_lt hLe ?_
    obtain ⟨newer, hTrace, hFrom⟩ := h.logged hRings
    unfold Ready at hReady
    rw [hTrace, List.findSome?_append, Option.or_eq_some_iff] at hReady
    rcases hReady with hNew | ⟨_, hOld⟩
    · obtain ⟨e, he, hPromise⟩ := List.exists_of_findSome?_eq_some hNew
      have hOrigin := hFrom e he
      cases e with
      | status j word =>
          simp only [Event.promises] at hPromise
          split_ifs at hPromise with hj
          subst hj
          exact hOrigin (of_decide_eq_true (Option.some.inj hPromise))
      | stored j v =>
          simp only [Event.promises] at hPromise
          split_ifs at hPromise
          simp at hPromise
      | _ => cases hPromise
    · exact hs i hOld
  · simp [Ready, hTrace, Event.promises] at hReady

end Promises

/-- The promise of THRE holds in every reachable state, together with the regularity it
rests on. -/
theorem Sys.KeepsPromises.stable : Stable fun s => s.Regular ∧ s.KeepsPromises := by
  refine Sys.Regular.stable.strengthen (fun tick i hReady => by simp [Ready, Sys.zero] at hReady)
    (fun hEffect hRegular hs => hEffect.keepsPromises hRegular.rings hs) fun {e s t} hOut _ hs => ?_
  rcases outside_cases hOut with ⟨tick, rfl⟩ | ⟨port, host, remote, rfl⟩ | ⟨x, bs, hx, rfl⟩
  · exact hs
  · exact hs
  · intro i hReady
    have hOld : Ready i (.delivered x bs :: s.trace) := hReady
    rw [Ready, List.findSome?_cons] at hOld
    exact hs i hOld

section Writers

variable {i : PortIdx} {a : Answer} {s t : Sys} {v : UInt8}

/-- A byte passes the AT interpreter only in data mode. -/
theorem atInput_pass (h : (atInput i v s).2 = .pass) : ∃ x, callSock i (atInput i v s).1 = some x ∧
    (s.ports i).sock = some x ∧ ((atInput i v s).1.ats i).ringing = false := by
  have hQuiet := atInput_quiet i s v
  by_cases hMode : dataMode i s
  · have hData := hMode
    simp only [dataMode, Bool.and_eq_true, decide_eq_true_eq, Bool.not_eq_true'] at hData
    obtain ⟨⟨⟨hConn, hSome⟩, hRinging⟩, _⟩ := hData
    obtain ⟨x, hSock⟩ := Option.isSome_iff_exists.mp hSome
    refine ⟨x, ?_, hSock, ?_⟩
    · unfold callSock
      rw [if_pos ((hQuiet.port i).mode.trans hConn), (hQuiet.port i).sock, hSock]
    · unfold atInput at h ⊢
      rw [if_pos hMode] at h ⊢
      unfold atEscape at h ⊢
      dsimp only at h ⊢
      split_ifs at h ⊢ <;> simp_all
  · exfalso
    unfold atInput at h
    rw [if_neg hMode] at h
    unfold atEdit at h
    dsimp only at h
    split_ifs at h

/-- A byte the ring takes is accepted for its port, and nothing else is. -/
theorem storeTx_accepts {x : SockId} (hSock : (s.ports i).sock = some x)
    (hAccepted : accepted i t.trace = accepted i s.trace) {u : Sys} (h : storeTx i x v t = some u) :
    Accepts i v s u := by
  obtain ⟨_, rfl⟩ := storeTx_eq_some h
  refine ⟨x, hSock, ?_⟩
  show accepted i (.stored i ⟨v, i, x⟩ :: t.trace) = _
  rw [← hAccepted]
  simp [accepted]

/-- AH=01h accepts a byte that passes whenever the ring has room. -/
theorem transmit_accepts (hRoom : (s.fossils i).tx.count < txRingSize)
    (hPass : (atInput i v (s.modPort i fun p => { p with lastTxTick := s.tick })).2 = .pass) :
    Accepts i v s (transmit i v s).1 := by
  unfold transmit
  extract_lets r
  have hQuiet : Quiet s r.1 := (stampTx_quiet s i).trans (atInput_quiet i _ v)
  obtain ⟨x, hCall, hSock, hRinging⟩ := atInput_pass hPass
  have hStore := storeTx_isSome (s := r.1) (i := i) x v (by rw [hQuiet.tx]; exact hRoom)
  obtain ⟨t, hStore⟩ := Option.isSome_iff_exists.mp hStore
  have hr : r.2 = .pass := hPass
  have hCall : callSock i r.1 = some x := hCall
  have hRinging : (r.1.ats i).ringing = false := hRinging
  simp only [hr, hRinging, Bool.false_eq_true, if_false, hCall, hStore]
  exact storeTx_accepts (by simpa using hSock) hQuiet.accepted hStore

/-- AH=0Bh accepts a byte that passes exactly when it returns 1. -/
theorem transmitNoWait_accepts (hPass : (atInput i v s).2 = .pass) :
    ((transmitNoWait i v s).2 = [.ret i 1] ∧ Accepts i v s (transmitNoWait i v s).1) ∨
      ((transmitNoWait i v s).2 = [.ret i 0] ∧
        accepted i (transmitNoWait i v s).1.trace = accepted i s.trace) := by
  obtain ⟨x, hCall, hSock, _⟩ := atInput_pass hPass
  have hQuiet := atInput_quiet i s v
  unfold transmitNoWait
  simp only [hPass, hCall]
  cases hStore : storeTx i x v (atInput i v s).1 with
  | none => exact .inr ⟨rfl, hQuiet.accepted⟩
  | some t => exact .inl ⟨rfl, storeTx_accepts hSock hQuiet.accepted hStore⟩

end Writers

section BlockWrites

variable {i : PortIdx} {x : SockId} {data : List UInt8} {s₀ : Sys} {k : Nat} {c d : Config}

/-- No other driver call begins. -/
def sameCall (_ : Config) : Action → Bool
  | .call _ => false
  | _ => true

/-- What AH=19h still has to do after it has taken `k` bytes of its buffer. -/
inductive WriteTodo (i : PortIdx) (data : List UInt8) : Nat → List Block → Prop where
  | entry : WriteTodo i data 0 [.int14 i (.blockWrite data)]
  | next (k : Nat) : WriteTodo i data k [.write i (data.drop k) (.ofNat k)]
  | full (k : Nat) (v : UInt8) (rest : List UInt8) (h : data.drop k = v :: rest) :
      WriteTodo i data k [.flush i, .retryWrite i v rest (.ofNat k)]
  | retry (k : Nat) (v : UInt8) (rest : List UInt8) (h : data.drop k = v :: rest) :
      WriteTodo i data k [.retryWrite i v rest (.ofNat k)]
  | send (k : Nat) : WriteTodo i data k [.flush i, .ret i (.ofNat k)]
  | ret (k : Nat) : WriteTodo i data k [.ret i (.ofNat k)]
  | done (k : Nat) : WriteTodo i data k []

/-- AH=19h after it has taken `k` bytes of its buffer. -/
structure Writing (i : PortIdx) (x : SockId) (data : List UInt8) (s₀ : Sys) (k : Nat)
    (c : Config) : Prop where
  ports : c.sys.ports = s₀.ports
  bound : k ≤ data.length
  told : accepted i c.sys.trace =
    (accepted i s₀.trace).map (· ++ (data.take k).map fun v => ⟨v, i, x⟩)
  todo : WriteTodo i data k c.todo

/-- After the last byte of AH=19h only its result is left to report. -/
theorem writeDone_todo (k : Nat) : WriteTodo i data k (writeDone i (.ofNat k)) := by
  unfold writeDone
  split_ifs
  · exact .send k
  · exact .ret k

/-- Taking the next byte of the buffer. -/
theorem Writing.take {s t : Sys} {v : UInt8} {rest : List UInt8} {todo : List Block}
    (h : Writing i x data s₀ k ⟨s, todo⟩) (hNext : data.drop k = v :: rest)
    (hStore : storeTx i x v s = some t) :
    Writing i x data s₀ (k + 1) ⟨t, [.write i rest (.ofNat k + 1)]⟩ := by
  have hLt : k < data.length := by
    have hLen := congrArg List.length hNext
    simp at hLen
    omega
  have hElem : data[k] = v := by
    have hHead := congrArg List.head? hNext
    simpa [List.head?_drop, hLt] using hHead
  have hTake : data.take (k + 1) = data.take k ++ [v] := by
    rw [List.take_succ_eq_append_getElem hLt, hElem]
  have hRest : data.drop (k + 1) = rest := by
    rw [← List.drop_drop, hNext]
    rfl
  obtain ⟨_, rfl⟩ := storeTx_eq_some hStore
  refine ⟨h.ports, hLt, ?_, ?_⟩
  · have hTold : accepted i s.trace = _ := h.told
    show accepted i (.stored i ⟨v, i, x⟩ :: s.trace) = _
    simp only [accepted, ↓reduceIte, hTold, hTake]
    cases accepted i s₀.trace <;> simp
  · have hCount : (UInt16.ofNat k + 1 : UInt16) = .ofNat (k + 1) := by
      rw [UInt16.ofNat_add]
      rfl
    rw [hCount, ← hRest]
    exact .next (k + 1)

/-- Each block of AH=19h leads back to a state of the same write. -/
theorem Writing.run {s : Sys} {b : Block} {rest : List Block} (a : Answer)
    (hInit : (s₀.ports i).initialized) (hCall : callSock i s₀ = some x)
    (h : Writing i x data s₀ k ⟨s, b :: rest⟩) :
    ∃ k', Writing i x data s₀ k' ⟨(exec b a s).1, (exec b a s).2 ++ rest⟩ := by
  have hPorts : s.ports = s₀.ports := h.ports
  have hSock : (s.ports i).sock = some x := by
    rw [hPorts]
    exact (callSock_eq_some hCall).2
  have hTodo : WriteTodo i data k (b :: rest) := h.todo
  generalize hBlocks : b :: rest = todo at hTodo
  cases hTodo with
  | entry =>
      obtain ⟨rfl, rfl⟩ := List.cons.inj hBlocks
      have hHere : callSock i s = some x := by
        unfold callSock at hCall ⊢
        rwa [hPorts]
      have hExec : exec (.int14 i (.blockWrite data)) a s = (s, [.write i data 0]) := by
        show int14 i (.blockWrite data) s = _
        unfold int14 blockWrite
        rw [hPorts, if_pos hInit, hHere]
        rfl
      rw [hExec]
      exact ⟨0, hPorts, Nat.zero_le _, h.told, .next 0⟩
  | next k =>
      obtain ⟨rfl, rfl⟩ := List.cons.inj hBlocks
      show ∃ k', Writing i x data s₀ k' ⟨(writeNext i (data.drop k) (.ofNat k) s).1,
        (writeNext i (data.drop k) (.ofNat k) s).2 ++ []⟩
      rw [List.append_nil]
      cases hNext : data.drop k with
      | nil => exact ⟨k, hPorts, h.bound, h.told, writeDone_todo k⟩
      | cons v rest =>
          unfold writeNext
          rw [hSock]
          dsimp only
          cases hStore : storeTx i x v s with
          | none => exact ⟨k, hPorts, h.bound, h.told, .full k v rest hNext⟩
          | some t => exact ⟨k + 1, h.take hNext hStore⟩
  | full k v later hNext =>
      obtain ⟨rfl, rfl⟩ := List.cons.inj hBlocks
      refine ⟨k, ?_, h.bound, ?_, .retry k v later hNext⟩
      · exact (by simp [exec] : _ = s.ports).trans hPorts
      · have hTold : accepted i s.trace = _ := h.told
        simpa [exec] using hTold
  | retry k v later hNext =>
      obtain ⟨rfl, rfl⟩ := List.cons.inj hBlocks
      show ∃ k', Writing i x data s₀ k' ⟨(retryWrite i v later (.ofNat k) s).1,
        (retryWrite i v later (.ofNat k) s).2 ++ []⟩
      rw [List.append_nil]
      unfold retryWrite
      rw [hSock]
      dsimp only
      cases hStore : storeTx i x v s with
      | none => exact ⟨k, hPorts, h.bound, h.told, writeDone_todo k⟩
      | some t => exact ⟨k + 1, h.take hNext hStore⟩
  | send k =>
      obtain ⟨rfl, rfl⟩ := List.cons.inj hBlocks
      refine ⟨k, ?_, h.bound, ?_, .ret k⟩
      · exact (by simp [exec] : _ = s.ports).trans hPorts
      · have hTold : accepted i s.trace = _ := h.told
        simpa [exec] using hTold
  | ret k =>
      obtain ⟨rfl, rfl⟩ := List.cons.inj hBlocks
      exact ⟨k, hPorts, h.bound, h.told, .done k⟩
  | done k => cases hBlocks

/-- AH=19h returns the number of bytes it has taken from the front of its
buffer. -/
theorem blockWrite_counts (hTodo : c.todo = [.int14 i (.blockWrite data)])
    (hInit : (c.sys.ports i).initialized) (hCall : callSock i c.sys = some x)
    (run : Transition.Run step (fun c act => sameCall c act) c d) :
    ∃ k, Writing i x data c.sys k d := by
  induction run with
  | refl =>
      refine ⟨0, rfl, Nat.zero_le _, ?_, hTodo ▸ .entry⟩
      cases accepted i c.sys.trace <;> simp
  | @tail middle last act _ ok hStep ih =>
      obtain ⟨k, hWriting⟩ := ih
      obtain ⟨s, todo⟩ := middle
      rcases step_cases hStep with ⟨b, rfl, _⟩ | ⟨a, b, rest, rfl, rfl, rfl⟩ |
        ⟨e, t, rfl, hOut, rfl⟩
      · cases ok
      · exact hWriting.run a hInit hCall
      · refine ⟨k, (outside_ports hOut).trans hWriting.ports, hWriting.bound, ?_, hWriting.todo⟩
        rw [← hWriting.told]
        rcases outside_cases hOut with ⟨tick, rfl⟩ | ⟨port, host, remote, rfl⟩ | ⟨y, bs, _, rfl⟩ <;>
          rfl

end BlockWrites

end Vmodem
