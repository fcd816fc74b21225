import Vmodem.Invariants.Modes

/-! From effects to runs. `Config.Sound` holds of every reachable configuration
and makes `exec_effects` available at every block; `Stable` collects what has
to be shown of a property of states for it to hold in all of them. -/

namespace Vmodem

/-- The control invariant of the machine. -/
structure Config.Sound (c : Config) : Prop where
  stack : c.todo.Pairwise Block.above
  modes : c.sys.ModesAgree
  /-- A port about to ring is in a call. -/
  ring : ∀ i, .ring i ∈ c.todo → (c.sys.ports i).mode = .conn
  /-- Received bytes are handled while their connection is the current one. -/
  rx : ∀ i x tmp drop rest, c.todo = .rx i x tmp drop :: rest → (c.sys.ports i).sock = some x
  /-- No call exists while the driver is being installed. -/
  boot : ∀ b ∈ c.todo, b.preallocates →
    (∀ d ∈ c.todo, d.boots) ∧ ∀ j, (c.sys.ports j).sock = none

section Step

variable {b : Block} {a : Answer} {s t : Sys}

/-- Outside `accept()`, a port keeps its connection or loses it. -/
theorem Effect.sock_mono (h : Effect b a s t) (hAccepts : b.accepts = false) (j : PortIdx) :
    (t.ports j).sock = (s.ports j).sock ∨ (t.ports j).sock = none := by
  cases h with
  | quiet h => exact .inl (h.port j).sock
  | store i x v hSock h => simp [(storeTx_eq_some h).2]
  | filter i x tmp drop hb => exact .inl (pollRx_call i a s x tmp drop j).2.1
  | receive i hb =>
      rcases pollRecv_cases i a s with hNone | ⟨x, _, _, _, hSome⟩
      · simp [hNone]
      · rw [hSome]
        by_cases hj : j = i <;> split_ifs <;> simp [hj]
  | attach i x net hb => simp [Block.accepts_of_target hb] at hAccepts
  | reject x net msg hb => simp [Block.accepts_of_refuses hb] at hAccepts
  | reconfigure i f hb hf => by_cases hj : j = i <;> simp [hj, (hf _).sock]
  | read i n | clearRx i hb | clearRemote i hb | close i why hb | listenPort i tcpPort x net hb =>
      by_cases hj : j = i <;> simp [hj]
  | _ => simp

/-- A block that accepts nothing leaves a port its connection or takes it away. -/
theorem Effects.sock_mono (h : Effects b a s t) (hAccepts : b.accepts = false) (j : PortIdx) :
    (t.ports j).sock = (s.ports j).sock ∨ (t.ports j).sock = none := by
  induction h with
  | refl => exact .inl rfl
  | tail _ last ih =>
      rcases last.sock_mono hAccepts j with hSame | hNone
      · exact ih.imp hSame.trans hSame.trans
      · exact .inr hNone

/-- RING follows a caller on the member that has got it. -/
theorem pollHunt_ring {g : GroupIdx} {i : PortIdx} (h : .ring i ∈ (pollHunt g a s).2) :
    ((pollHunt g a s).1.ports i).mode = .conn := by
  unfold pollHunt at h ⊢
  split_ifs at h ⊢
  · split at h
    next => simp at h
    next =>
      split at h
      next hMember =>
        simp only [acceptCall_snd, List.mem_cons, reduceCtorEq, Block.ring.injEq, false_or,
          List.not_mem_nil, or_false] at h
        simp_all [telnetReset]
      next => simp at h
  · simp at h

/-- RING follows a caller on the port that has got it. -/
theorem pollPort_ring {i j : PortIdx} (h : .ring i ∈ (pollPort j a s).2) :
    ((pollPort j a s).1.ports i).mode = .conn := by
  unfold pollPort at h ⊢
  by_cases hInit : (s.ports j).initialized
  · rw [if_pos hInit] at h ⊢
    cases hMode : (s.ports j).mode with
    | disc => simp [hMode] at h
    | listen =>
        simp only [hMode] at h ⊢
        split_ifs at h ⊢
        · simp at h
        · split at h
          next => simp at h
          next =>
            simp only [acceptCall_snd, List.mem_cons, reduceCtorEq, Block.ring.injEq, false_or,
              List.not_mem_nil, or_false] at h
            simp_all [telnetReset]
    | conn =>
        simp only [hMode] at h
        split_ifs at h <;> simp at h
  · rw [if_neg hInit] at h
    simp at h

/-- Only an accepted call is announced. -/
theorem exec_ring {i : PortIdx} (h : .ring i ∈ (exec b a s).2) :
    ((exec b a s).1.ports i).mode = .conn := by
  cases b with
  | hunt g => exact pollHunt_ring h
  | port j => exact pollPort_ring h
  | _ =>
      rcases (exec_pushed a s _).mem h with hPlain | ⟨j, hAccepts, _⟩ | ⟨j, silent, _, hEq⟩ |
        ⟨j, _, hEq | hEq⟩ | ⟨j, x, tmp, drop, hEq, _⟩
      · cases hPlain
      · cases hAccepts
      all_goals cases hEq

end Step

theorem Config.Sound.idle {c : Config} (h : c.Sound) (i : PortIdx)
    (hMode : (c.sys.ports i).mode = .listen) : (c.sys.ports i).sock = none :=
  h.modes.sock_eq_none (by simp [hMode])

/-- At a sound configuration the next block is a sequence of effects. -/
theorem Config.Sound.effects {b : Block} {rest : List Block} {s : Sys}
    (h : Config.Sound ⟨s, b :: rest⟩) (a : Answer) : Effects b a s (exec b a s).1 :=
  exec_effects b a s h.idle (fun i hb => h.ring i (by simp [hb]))
    fun i x tmp drop hb => h.rx i x tmp drop rest (by simp [hb])

/-- A chunk is handed on for the connection it was received on. -/
theorem pollRecv_rx {i : PortIdx} {a : Answer} {s : Sys} {x : SockId} {tmp : List UInt8}
    {drop : Bool} {rest : List Block} (h : (pollRecv i a s).2 = .rx i x tmp drop :: rest) :
    ((pollRecv i a s).1.ports i).sock = some x := by
  unfold pollRecv at h ⊢
  cases hSock : (s.ports i).sock with
  | none => simp [hSock] at h
  | some y =>
      simp only [hSock] at h ⊢
      by_cases hStop : s.net.recvDataWaiting y = false ∨ ringSize - 256 < (s.ports i).rx.count ∨
          a.received ≤ 0
      · rw [if_pos hStop] at h
        simp at h
      · rw [if_neg hStop] at h ⊢
        simp only [List.cons.injEq, Block.rx.injEq] at h
        obtain ⟨⟨_, rfl, _⟩, _⟩ := h
        split_ifs <;> simpa using hSock

/-- The bytes given to the receive loop come from the port's connection. -/
theorem exec_rx {b : Block} {a : Answer} {s : Sys} {i : PortIdx} {x : SockId} {tmp : List UInt8}
    {drop : Bool} {rest : List Block} (h : (exec b a s).2 = .rx i x tmp drop :: rest)
    (hRx : ∀ i x tmp drop, b = .rx i x tmp drop → (s.ports i).sock = some x) :
    ((exec b a s).1.ports i).sock = some x := by
  rcases (exec_pushed a s b).mem (c := .rx i x tmp drop) (by simp [h]) with hPlain | ⟨j, _, hEq⟩ |
    ⟨j, silent, _, hEq⟩ | ⟨j, _, hEq | hEq⟩ | ⟨j, y, bs, drop', hEq, hFrom⟩
  · cases hPlain
  · cases hEq
  · cases hEq
  · cases hEq
  · cases hEq
  · obtain ⟨rfl, rfl, rfl, rfl⟩ := Block.rx.inj hEq
    rcases hFrom with rfl | ⟨v, rfl⟩
    · exact pollRecv_rx h
    · exact (pollRx_call i a s x (v :: tmp) drop i).2.1.trans (hRx i x (v :: tmp) drop rfl)

theorem Block.calls_of_boots {b : Block} (h : b.boots) : b.accepts = false := by
  cases b with
  | hunt _ | port _ => cases h
  | _ => rfl

/-- Opening the listen sockets of an installation leaves no block behind. -/
theorem exec_boots {b : Block} (h : b.boots) {a : Answer} {s : Sys} : (exec b a s).2 = [] := by
  cases b with
  | mux m =>
      cases m with
      | listen _ _ | huntListen _ _ => rfl
      | _ => cases h
  | preallocate _ _ | preallocateHunt _ _ => rfl
  | _ => cases h

/-- An installation begins with nothing but its listen sockets. -/
theorem install_boots (args : List PortArg) (eager : Bool) (tick : Tick) :
    ∀ b ∈ (install args eager tick).todo, b.boots := by
  intro b hb
  simp only [install, List.mem_append, List.mem_map] at hb
  rcases hb with (⟨arg, _, rfl⟩ | ⟨i, _, rfl⟩) | ⟨g, _, rfl⟩
  · cases arg <;> rfl
  · rfl
  · rfl

/-- What an installation has still to open may wait below anything. -/
theorem Block.above_of_boots {b c : Block} (h : c.boots) : b.above c := by
  cases c with
  | mux m => trivial
  | preallocate i eager => trivial
  | preallocateHunt g eager => trivial
  | _ => cases h

theorem install_sound (args : List PortArg) (eager : Bool) (tick : Tick) :
    (install args eager tick).Sound where
  stack := List.pairwise_of_forall_mem_list fun _ _ c hc =>
    Block.above_of_boots (install_boots args eager tick c hc)
  modes := fun j => by simp [install, Sys.zero, PortState.zero]
  ring := fun i h => by cases install_boots args eager tick _ h
  rx := fun i x tmp drop rest h => by
    cases install_boots args eager tick (.rx i x tmp drop) (by simp [h])
  boot := fun _ _ _ => ⟨install_boots args eager tick, fun _ => rfl⟩

/-- A block keeps the control invariant, with the blocks it leaves behind. -/
theorem run_sound {s : Sys} {b : Block} {rest : List Block} (h : Config.Sound ⟨s, b :: rest⟩)
    (a : Answer) : Config.Sound ⟨(exec b a s).1, (exec b a s).2 ++ rest⟩ := by
  have hEffects := h.effects a
  have hPushed := exec_pushed a s b
  have hHead := (List.pairwise_cons.mp h.stack).1
  have hRx : ∀ i x tmp drop, b = .rx i x tmp drop → (s.ports i).sock = some x :=
    fun i x tmp drop hb => h.rx i x tmp drop rest (by simp [hb])
  refine ⟨hPushed.stack h.stack, ?_, fun i hRing => ?_, fun i x tmp drop later hTodo => ?_,
    fun d hd hAlloc => ?_⟩
  · exact exec_modes h.modes (fun i hb => h.ring i (by simp [hb])) hRx
      fun hAlloc => (h.boot b (by simp) hAlloc).2
  · rcases List.mem_append.mp hRing with hNew | hOld
    · exact exec_ring hNew
    · -- only writes to the socket stand above the ring
      have hRaw : b.isRaw := hHead _ hOld
      obtain ⟨i', buf, rfl⟩ := Block.raw_of_isRaw hRaw
      rw [(hEffects.calls rfl rfl i rfl).1]
      exact h.ring i (by simp [hOld])
  · cases hNew : (exec b a s).2 with
    | nil =>
        have hOld : rest = .rx i x tmp drop :: later := by simpa [hNew] using hTodo
        exact (hHead (.rx i x tmp drop) (by simp [hOld])).elim
    | cons first others =>
        have hFirst : first = .rx i x tmp drop := by
          rw [hNew] at hTodo
          exact (List.cons.inj hTodo).1
        exact exec_rx (hFirst ▸ hNew) hRx
  · rcases List.mem_append.mp hd with hNew | hOld
    · have hSpecial : d.special := by cases d <;> first | rfl | cases hAlloc
      rcases hPushed.mem hNew with hPlain | ⟨i, _, rfl⟩ | ⟨i, silent, _, rfl⟩ |
        ⟨i, _, rfl | rfl⟩ | ⟨i, x, tmp, drop, rfl, _⟩
      · simp [hSpecial] at hPlain
      all_goals cases hAlloc
    · obtain ⟨hBoots, hFree⟩ := h.boot d (by simp [hOld]) hAlloc
      have hb : b.boots := hBoots b (by simp)
      refine ⟨fun e he => ?_, fun j => ?_⟩
      · rcases List.mem_append.mp he with hNew | hRest
        · rw [exec_boots hb] at hNew
          cases hNew
        · exact hBoots e (by simp [hRest])
      · rcases hEffects.sock_mono (Block.calls_of_boots hb) j with hSame | hNone
        · exact hSame.trans (hFree j)
        · exact hNone

/-- What happens outside the driver, as updates of the state. -/
theorem outside_cases {e : Outside} {s t : Sys} (h : outside e s = some t) :
    (∃ tick, t = { s with tick := tick }) ∨
      (∃ port host remote, t = s.setNet (s.net.arrive port host remote)) ∨
        ∃ x bs, x < s.net.next ∧ t = (s.setNet (s.net.deliver x bs)).log (.delivered x bs) := by
  cases e with
  | ticks n => exact .inl ⟨_, (Option.some.inj h).symm⟩
  | arrive l host remote =>
      simp only [outside] at h
      split at h
      · cases h
      · exact .inr (.inl ⟨_, _, _, (Option.some.inj h).symm⟩)
  | deliver x bs =>
      simp only [outside] at h
      split_ifs at h with hx
      exact .inr (.inr ⟨x, bs, hx, (Option.some.inj h).symm⟩)

theorem outside_ports {e : Outside} {s t : Sys} (h : outside e s = some t) :
    t.ports = s.ports := by
  rcases outside_cases h with ⟨tick, rfl⟩ | ⟨port, host, remote, rfl⟩ | ⟨x, bs, _, rfl⟩ <;> rfl

theorem step_sound {act : Action} {c d : Config} (h : c.Sound) (hStep : step act c = some d) :
    d.Sound := by
  cases act with
  | call b =>
      simp only [step] at hStep
      split_ifs at hStep with hCall
      obtain rfl := Option.some.inj hStep
      refine ⟨by simp, h.modes, fun i hRing => ?_, fun i x tmp drop rest hTodo => ?_,
        fun e he hAlloc => ?_⟩
      · obtain rfl := List.mem_singleton.mp hRing
        simp [Block.entry] at hCall
      · obtain ⟨rfl, _⟩ := List.cons.inj hTodo
        simp [Block.entry] at hCall
      · obtain rfl := List.mem_singleton.mp he
        cases e <;> simp_all [Block.preallocates, Block.entry]
  | run a =>
      obtain ⟨s, todo⟩ := c
      cases todo with
      | nil => cases hStep
      | cons b rest =>
          obtain rfl := Option.some.inj hStep
          exact run_sound h a
  | outside e =>
      simp only [step, Option.map_eq_some_iff] at hStep
      obtain ⟨t, hOut, rfl⟩ := hStep
      have hPorts := outside_ports hOut
      refine ⟨h.stack, h.modes.congr fun j => by simp [hPorts], fun i hRing => ?_,
        fun i x tmp drop rest hTodo => ?_, fun b hb hAlloc => ?_⟩
      · simpa [hPorts] using h.ring i hRing
      · simpa [hPorts] using h.rx i x tmp drop rest hTodo
      · simpa [hPorts] using h.boot b hb hAlloc

/-- The three kinds of step. -/
theorem step_cases {act : Action} {c d : Config} (h : step act c = some d) :
    (∃ b, act = .call b ∧ b.entry ∧ c.todo = [] ∧ d = ⟨c.sys, [b]⟩) ∨
      (∃ a b rest, act = .run a ∧ c.todo = b :: rest ∧
        d = ⟨(exec b a c.sys).1, (exec b a c.sys).2 ++ rest⟩) ∨
      ∃ e t, act = .outside e ∧ outside e c.sys = some t ∧ d = ⟨t, c.todo⟩ := by
  cases act with
  | call b =>
      simp only [step] at h
      split_ifs at h with hCall
      exact .inl ⟨b, rfl, hCall.2, hCall.1, (Option.some.inj h).symm⟩
  | run a =>
      simp only [step] at h
      cases hTodo : c.todo with
      | nil => simp [hTodo] at h
      | cons b rest =>
          rw [hTodo] at h
          exact .inr (.inl ⟨a, b, rest, rfl, rfl, (Option.some.inj h).symm⟩)
  | outside e =>
      simp only [step, Option.map_eq_some_iff] at h
      obtain ⟨t, hOut, hd⟩ := h
      exact .inr (.inr ⟨e, t, rfl, hOut, hd.symm⟩)

/-- The control invariant holds wherever a run can get. -/
theorem ReachableBy.sound {allowed : Config → Action → Prop} {c : Config}
    (h : ReachableBy allowed c) : c.Sound := by
  obtain ⟨args, eager, tick, run⟩ := h
  exact run.invariant (install_sound args eager tick) fun _ _ _ hSound _ hStep =>
    step_sound hSound hStep

/-- Induction over the runs whose steps are allowed. A step may use everything
known of reachable configurations. -/
theorem ReachableBy.induct {allowed : Config → Action → Prop} {P : Config → Prop}
    (start : ∀ args eager tick, P (install args eager tick))
    (call : ∀ s b, b.entry → P ⟨s, []⟩ → P ⟨s, [b]⟩)
    (run : ∀ s b rest a, ReachableBy allowed ⟨s, b :: rest⟩ → allowed ⟨s, b :: rest⟩ (.run a) →
      P ⟨s, b :: rest⟩ → P ⟨(exec b a s).1, (exec b a s).2 ++ rest⟩)
    (out : ∀ s t e todo, outside e s = some t → P ⟨s, todo⟩ → P ⟨t, todo⟩)
    {c : Config} (h : ReachableBy allowed c) : P c := by
  obtain ⟨args, eager, tick, hRun⟩ := h
  induction hRun with
  | refl => exact start args eager tick
  | @tail c d act prior ok last ih =>
      obtain ⟨s, todo⟩ := c
      rcases step_cases last with ⟨b, _, hEntry, rfl, rfl⟩ | ⟨a, b, rest, rfl, rfl, rfl⟩ |
        ⟨e, t, _, hOut, rfl⟩
      · exact call s b hEntry ih
      · exact run s b rest a ⟨args, eager, tick, prior⟩ ok ih
      · exact out s t e todo hOut ih

/-- A state reached under a condition on the steps is reachable. -/
theorem ReachableBy.reachable {allowed : Config → Action → Prop} {c : Config}
    (h : ReachableBy allowed c) : Reachable c := by
  obtain ⟨args, eager, tick, run⟩ := h
  exact ⟨args, eager, tick, run.mono fun _ _ _ => trivial⟩

/-- A run from a reachable state leads to reachable states. -/
theorem Reachable.extend {allowed : Config → Action → Prop} {c d : Config} (h : Reachable c)
    (run : Transition.Run step allowed c d) : Reachable d := by
  obtain ⟨args, eager, tick, prior⟩ := h
  exact ⟨args, eager, tick, prior.trans (run.mono fun _ _ _ => trivial)⟩

/-- What has to be shown of a property for it to hold in every reachable
state. -/
structure Stable (P : Sys → Prop) : Prop where
  start : ∀ tick, P (.zero tick)
  effect : ∀ {b a s t}, Effect b a s t → P s → P t
  out : ∀ {e s t}, outside e s = some t → P s → P t

/-- A stable property survives all effects of a block. The induction is on the effects.
-/
theorem Stable.effects {P : Sys → Prop} (h : Stable P) {b : Block} {a : Answer} {s t : Sys}
    (hEffects : Effects b a s t) (hs : P s) : P t := by
  induction hEffects with
  | refl => exact hs
  | tail _ last ih => exact h.effect last ih

theorem Stable.reachable {P : Sys → Prop} (h : Stable P) {c : Config} (hc : Reachable c) :
    P c.sys := by
  refine hc.induct (P := fun c => P c.sys) (fun _ _ tick => h.start tick) (fun _ _ _ hs => hs)
    (fun s b rest a hReach _ hs => ?_) fun _ _ _ _ hOut hs => h.out hOut hs
  exact h.effects (hReach.sound.effects a) hs

/-- A stable property may be assumed while another one is proved. -/
theorem Stable.strengthen {B P : Sys → Prop} (hB : Stable B) (start : ∀ tick, P (.zero tick))
    (effect : ∀ {b a s t}, Effect b a s t → B s → P s → P t)
    (out : ∀ {e s t}, outside e s = some t → B s → P s → P t) : Stable fun s => B s ∧ P s where
  start tick := ⟨hB.start tick, start tick⟩
  effect h hs := ⟨hB.effect h hs.1, effect h hs.1 hs.2⟩
  out h hs := ⟨hB.out h hs.1, out h hs.1 hs.2⟩

end Vmodem
