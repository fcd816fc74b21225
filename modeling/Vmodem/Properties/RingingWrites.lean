import Vmodem.Invariants.Ringing
import Vmodem.Invariants.Sessions
import Vmodem.Properties.TransmitPath

/-! Writes to a call that still rings. The interpreter consumes the bytes of AH=01h and
AH=0Bh, so none of them can reach the caller. AH=19h has no such guard: its bytes are
held back while the call rings and sent once it is answered. -/

namespace Vmodem

/-- A write function that has bytes left for the transmit ring of the port. -/
def Block.carries : Block → Option PortIdx
  | .retryChar i _ | .write i (_ :: _) _ | .retryWrite i _ _ _ => some i
  | _ => none

/-- AH=19h is not given bytes for a ringing port. -/
def sparesRinging (i : PortIdx) (c : Config) : Action → Bool
  | .run _ =>
      match c.todo.head? with
      | some (.int14 j (.blockWrite data)) => j ≠ i || data.isEmpty || !(c.sys.ats i).ringing
      | _ => true
  | _ => true

/-- Bytes are taken only for connections that were or are the call of a port. -/
def Sys.StoredSpent (s : Sys) : Prop := ∀ x, storedFor x s.trace ≠ [] → s.Spent x

/-- What was queued on a socket, and what still waits for it, was taken for it before. -/
structure Sys.Queued (s : Sys) : Prop where
  wire : ∀ y, y < s.net.next →
    (dataBytes (s.net.sockets y).wire).Sublist ((storedFor y s.trace).flatMap escape)
  output : ∀ i y, (s.ports i).sock = some y →
    (dataBytes (s.net.sockets y).wire ++ s.output i).Sublist ((storedFor y s.trace).flatMap escape)

section Queue

variable {b : Block} {a : Answer} {s t : Sys} {i : PortIdx} {x : SockId}

/-- Sending control bytes takes no byte from the application. -/
theorem LineIdle.unstored (h : LineIdle s t) : Unstored s t := by
  obtain ⟨newer, hTrace, hOff⟩ := h.trace
  refine .of_newer _ hTrace fun e he x => ?_
  have hEvent := hOff e he
  cases e <;> first | rfl | exact hEvent.elim

/-- A stored byte goes behind those stored for its connection. -/
theorem storedFor_store (j : PortIdx) (v : UInt8) (y : SockId) :
    storedFor x (s.stored j y v).trace = storedFor x s.trace ++ if y =
      x then [⟨v, j, y⟩] else [] := by
  by_cases hyx : y = x <;> simp [Sys.stored, storedFor, Event.storedFor, hyx]

/-- A flush moves bytes from the ring to the wire and keeps their order. -/
theorem Sys.Queued.flush (hs : s.Queued) (hRegular : s.Regular) (i : PortIdx) (a : Answer) :
    (fossilFlushTx i a s).Queued := by
  obtain ⟨sent, hOwn, _, hOthers, hWire⟩ := fossilFlushTx_spec hRegular.rings i a
  have hTrace : (fossilFlushTx i a s).trace = s.trace := by simp
  have hSent : (dataBytes sent).Sublist sent := List.filter_sublist
  refine ⟨fun y hy => ?_, fun j y hSock => ?_⟩
  · rw [hWire y, dataBytes_append, hTrace]
    by_cases hCall : (s.ports i).sock = some y
    · rw [if_pos hCall]
      refine List.Sublist.trans ?_ (hs.output i y hCall)
      rw [← hOwn]
      exact (List.Sublist.refl _).append (hSent.trans (List.sublist_append_left _ _))
    · rw [if_neg hCall]
      have hOld : y < s.net.next := (fossilFlushTx_next i a).1 ▸ hy
      simpa [dataBytes] using hs.wire y hOld
  · have hOld : (s.ports j).sock = some y := by simpa using hSock
    rw [hWire y, dataBytes_append, hTrace]
    refine List.Sublist.trans ?_ (hs.output j y hOld)
    by_cases hj : j = i
    · subst hj
      rw [if_pos hOld, ← hOwn, List.append_assoc]
      exact (List.Sublist.refl _).append (hSent.append (List.Sublist.refl _))
    · have hOther : (s.ports i).sock ≠ some y := fun hi => hj (hRegular.ledger.sock_inj hOld hi)
      rw [if_neg hOther]
      have hRest : ((fossilFlushTx i a s).output j).Sublist (s.output j) := by
        rcases hOthers j hj with hSame | ⟨_, hLost⟩
        · rw [hSame]
        · unfold Sys.output
          rw [hLost, fossilFlushTx_tx_other i a s hj]
          exact List.sublist_append_right _ _
      simpa [dataBytes] using (List.Sublist.refl (dataBytes (s.net.sockets y).wire)).append hRest

/-- Every effect keeps wire and ring a part of what was stored, in order. -/
theorem Effect.queued (h : Effect b a s t) (hRegular : s.Regular) (hs : s.Queued) : t.Queued := by
  cases h.transmit with
  | idle hIdle =>
      have hSame : ∀ y, y < s.net.next →
          dataBytes (t.net.sockets y).wire = dataBytes (s.net.sockets y).wire := by
        intro y hy
        obtain ⟨out, hWire, hControl⟩ := hIdle.wire h hRegular hy
        rw [hWire, dataBytes_append, dataBytes_control hControl, List.append_nil]
      refine ⟨fun y hy => ?_, fun j y hSock => ?_⟩
      · rcases h.fresh hy with hOld | hEmpty
        · rw [hSame y hOld, hIdle.unstored y]
          exact hs.wire y hOld
        · rw [hEmpty]
          exact List.nil_sublist _
      · have hOld : (s.ports j).sock = some y := by
          rcases hIdle.sock j with hEq | hNone
          · rwa [hEq] at hSock
          · simp [hNone] at hSock
        rw [hSame y (hRegular.ledger.sock_lt hOld), hIdle.unstored y, hIdle.output]
        exact hs.output j y hOld
  | store j z v hSock hRoom ht =>
      subst ht
      refine ⟨fun y hy => ?_, fun k y hCall => ?_⟩
      · rw [storedFor_store, List.flatMap_append]
        exact (hs.wire y hy).trans (List.sublist_append_left _ _)
      · have hCall : (s.ports k).sock = some y := hCall
        rw [storedFor_store, List.flatMap_append, stored_output (hRegular.rings.tx j) hRoom]
        by_cases hk : k = j
        · subst hk
          obtain rfl : z = y := Option.some.inj (hSock.symm.trans hCall)
          rw [if_pos rfl, if_pos rfl, ← List.append_assoc]
          exact (hs.output k z hCall).append (by simp)
        · rw [if_neg hk]
          exact (hs.output k y hCall).trans (List.sublist_append_left _ _)
  | purge j hb ht =>
      subst ht
      have hSame : Unstored s (s.purged j) :=
        .of_newer [.purged j] (by simp [Sys.purged]) (by simp [Event.storedFor])
      refine ⟨fun y hy => ?_, fun k y hCall => ?_⟩
      · rw [hSame y]
        simpa [Sys.purged] using hs.wire y (by simpa [Sys.purged] using hy)
      · have hOld := hs.output k y (by simpa [Sys.purged] using hCall)
        rw [hSame y, purged_output]
        split_ifs
        · rw [List.append_nil]
          exact (List.sublist_append_left _ _).trans (by simpa [Sys.purged] using hOld)
        · simpa [Sys.purged] using hOld
  | flush j hb ht =>
      subst ht
      exact hs.flush hRegular j a
  | attach j z net hb hNone hAccept ht =>
      subst ht
      have hPending := accept_mem hAccept
      have hSame : Unstored s (acceptCall j z (s.setNet net)).1 :=
        (setNet_unstored net).trans (acceptCall_unstored z)
      obtain ⟨n, _, rfl⟩ := accept_eq_some hAccept
      refine ⟨fun y hy => ?_, fun k y hCall => ?_⟩
      · rw [hSame y]
        simpa using hs.wire y (by simpa using hy)
      · rw [hSame y, acceptCall_output]
        by_cases hk : k = j
        · obtain rfl : z = y := by simpa [hk, telnetReset] using hCall
          rw [if_pos hk]
          simp [hRegular.unsent z hPending, dataBytes]
        · rw [if_neg hk]
          simpa using hs.output k y (by simpa [hk] using hCall)

theorem Sys.Queued.out {e : Outside} (hOut : outside e s = some t) (hRegular : s.Regular)
    (hs : s.Queued) : t.Queued := by
  rcases outside_cases hOut with ⟨tick, rfl⟩ | ⟨port, host, remote, rfl⟩ | ⟨z, bs, _, rfl⟩
  · exact ⟨hs.wire, hs.output⟩
  · refine ⟨fun y hy => ?_, fun j y hSock => ?_⟩
    · by_cases hNew : y = s.net.next
      · simp [Mtcp.arrive, hNew, TcpSocket.zero, dataBytes]
      · have hLe : y < s.net.next + 1 := hy
        have hOld := hs.wire y (Nat.lt_of_le_of_ne (Nat.le_of_lt_succ hLe) hNew)
        simpa [Mtcp.arrive, hNew] using hOld
    · have hOld : (s.ports j).sock = some y := hSock
      have hNe : y ≠ s.net.next := Nat.ne_of_lt (hRegular.ledger.sock_lt hOld)
      have hSame : (s.setNet (s.net.arrive port host remote)).net.sockets y = s.net.sockets y := by
        simp [Mtcp.arrive, hNe]
      rw [hSame]
      exact hs.output j y hOld
  · have hSame : ∀ y, (((s.setNet (s.net.deliver z bs)).log (.delivered z bs)).net.sockets y).wire =
        (s.net.sockets y).wire := by
      intro y
      by_cases hy : y = z <;> simp [hy]
    have hStored : Unstored s ((s.setNet (s.net.deliver z bs)).log (.delivered z bs)) :=
      (setNet_unstored (s.net.deliver z bs)).trans (.log _ fun _ => rfl)
    refine ⟨fun y hy => ?_, fun j y hSock => ?_⟩
    · rw [hSame y, hStored y]
      exact hs.wire y hy
    · rw [hSame y, hStored y]
      exact hs.output j y hSock

end Queue

/-- In every reachable state the wire of a connection and the ring behind it are a
sublist of what was stored for it. -/
theorem Sys.Queued.stable : Stable fun s => s.Regular ∧ s.Queued := by
  refine Sys.Regular.stable.strengthen (fun tick => ⟨fun y hy => ?_, fun i y hSock => ?_⟩)
    (fun hEffect hRegular hs => hEffect.queued hRegular hs)
    fun hOut hRegular hs => hs.out hOut hRegular
  · simp [Sys.zero, Mtcp.zero] at hy
  · simp [Sys.zero, PortState.zero] at hSock

section Phase

variable {b : Block} {a : Answer} {s t : Sys} {rest : List Block} {i : PortIdx} {x : SockId}

/-- Bytes are stored only for connections that are in use. -/
theorem Effect.storedSpent (h : Effect b a s t) (hRegular : s.Regular) (hs : s.StoredSpent) :
    t.StoredSpent := by
  have hKeep : ∀ y, s.Spent y → t.Spent y := fun y hSpent =>
    ⟨Nat.lt_of_lt_of_le hSpent.1 h.next_le, fun hMem => hSpent.2 (h.pending hMem)⟩
  have hUnstored : Unstored s t → t.StoredSpent := fun hSame y hStored =>
    hKeep y (hs y (by rwa [hSame y] at hStored))
  cases h.transmit with
  | idle hIdle => exact hUnstored hIdle.unstored
  | store j z v hSock hRoom ht =>
      intro y hStored
      rw [ht, storedFor_store] at hStored
      refine hKeep y ?_
      by_cases hOld : storedFor y s.trace = []
      · have hzy : z = y := by
          by_contra hNe
          simp [hOld, hNe] at hStored
        have hSock : (s.ports j).sock = some y := hzy ▸ hSock
        exact ⟨hRegular.ledger.sock_lt hSock, hRegular.ledger.not_pending (held_of_sock hSock)⟩
      · exact hs y hOld
  | purge j hb ht =>
      exact hUnstored (.of_newer [.purged j] (by simp [ht, Sys.purged])
        (by simp [Event.storedFor]))
  | flush j hb ht => exact hUnstored (.of_trace (by simp [ht]))
  | attach j z net hb hNone hAccept ht =>
      subst ht
      exact hUnstored ((setNet_unstored net).trans (acceptCall_unstored z))

/-- In every reachable state nothing was stored for a waiting connection. -/
theorem Sys.StoredSpent.stable : Stable fun s => s.Regular ∧ s.StoredSpent := by
  refine Sys.Regular.stable.strengthen (fun tick y hStored => absurd rfl hStored)
    (fun hEffect hRegular hs => hEffect.storedSpent hRegular hs) fun {e s t} hOut _ hs y hStored =>
      ?_
  refine outside_spent hOut (hs y ?_)
  rcases outside_cases hOut with ⟨tick, rfl⟩ | ⟨port, host, remote, rfl⟩ | ⟨z, bs, _, rfl⟩
  · exact hStored
  · exact hStored
  · have hSame : Unstored s ((s.setNet (s.net.deliver z bs)).log (.delivered z bs)) :=
      (setNet_unstored (s.net.deliver z bs)).trans (.log _ fun _ => rfl)
    rwa [hSame y] at hStored

/-- A connection is taken from those that wait. -/
theorem accepted_pending (hSound : Config.Sound ⟨s, b :: rest⟩) (hNone : (s.ports i).sock ≠ some x)
    (hNow : ((exec b a s).1.ports i).sock = some x) : b.accepts ∧ x ∈ s.net.pending := by
  cases hAccepts : b.accepts with
  | false =>
      rcases (hSound.effects a).sock_mono hAccepts i with hSame | hGone
      · exact absurd (hSame ▸ hNow) hNone
      · simp [hGone] at hNow
  | true =>
      refine ⟨rfl, ?_⟩
      have hEffect := exec_accepts a s hAccepts hSound.idle
      generalize (exec b a s).1 = t at hEffect hNow
      cases hEffect with
      | refl => exact absurd hNow hNone
      | single hOne =>
          rcases (hOne.call_source hNow).2 with hSame | ⟨_, net, hAccept⟩
          · exact absurd hSame hNone
          · exact accept_mem hAccept

/-- A connection that has been used stays so. -/
theorem run_spent {allowed : Config → Action → Prop} {c d : Config} (h : Reachable c)
    (run : Transition.Run step allowed c d) (hSpent : c.sys.Spent x) : d.sys.Spent x := by
  induction run with
  | refl => exact hSpent
  | @tail middle _ _ prior ok last ih =>
      obtain ⟨s, todo⟩ := middle
      rcases step_cases last with ⟨b, _, _, _, rfl⟩ | ⟨a, b, rest, _, hTodo, rfl⟩ | ⟨e, t,
        _, hOut, rfl⟩
      · exact ih
      · obtain rfl : todo = b :: rest := hTodo
        exact ((h.extend prior).sound.effects a).spent ih
      · exact outside_spent hOut ih

/-- What a step leaves to be written is left while the call does not ring. -/
theorem carries_source {d : Block} (hMem : d ∈ (exec b a s).2) (hCarries : d.carries = some i)
    (hSpares : sparesRinging i ⟨s, b :: rest⟩ (.run a))
    (hBefore : b.carries = some i → (s.ats i).ringing = false) :
    b ≠ .ring i ∧ (s.ats i).ringing = false := by
  have hFollowed := exec_followed b a s d hMem
  cases d with
  | retryChar j v =>
      obtain rfl : j = i := Option.some.inj hCarries
      obtain ⟨rfl, hPass⟩ := hFollowed
      exact ⟨by simp, atInput_pass_stamped hPass⟩
  | write j data count =>
      cases data with
      | nil => cases hCarries
      | cons v left =>
          obtain rfl : j = i := Option.some.inj hCarries
          rcases hFollowed with rfl | ⟨v', count', rfl | rfl⟩
          · exact ⟨by simp, by simpa [sparesRinging] using hSpares⟩
          · exact ⟨by simp, hBefore rfl⟩
          · exact ⟨by simp, hBefore rfl⟩
  | retryWrite j v left count =>
      obtain rfl : j = i := Option.some.inj hCarries
      obtain rfl : b = .write j (v :: left) count := hFollowed
      exact ⟨by simp, hBefore rfl⟩
  | _ => cases hCarries

/-- What goes on writing belongs to an answered call. -/
theorem carries_answered {c : Config} (h : ReachableBy (fun c act => sparesRinging i c act) c) :
    ∀ d ∈ c.todo, d.carries = some i → (c.sys.ats i).ringing = false := by
  refine h.induct (P := fun c => ∀ d ∈ c.todo, d.carries = some i → (c.sys.ats i).ringing = false)
    (fun args eager tick d hMem hCarries => ?_) (fun s b hEntry _ d hMem hCarries => ?_)
    (fun s b rest a hReach ok ih d hMem hCarries => ?_) fun s t e todo hOut ih d hMem hCarries => ?_
  · have hBoots := install_boots args eager tick d hMem
    cases d <;> simp_all [Block.boots, Block.carries]
  · obtain rfl := List.mem_singleton.mp hMem
    cases d <;> simp_all [Block.entry, Block.carries]
  · have hOff : (s.ats i).ringing = false → b ≠ .ring i →
        ((exec b a s).1.ats i).ringing = false := fun hBefore hRing =>
      ringing_off hReach.sound.modes hRing hBefore a
    rcases List.mem_append.mp hMem with hNew | hOld
    · obtain ⟨hRing, hBefore⟩ := carries_source hNew hCarries ok fun hb =>
        ih b List.mem_cons_self hb
      exact hOff hBefore hRing
    · have hResumes : d.resumes.isSome := by
        cases d with
        | write j data count => rfl
        | retryChar j v | retryWrite j v rest' count => rfl
        | _ => cases hCarries
      have hFlush : b.flushes := (List.pairwise_cons.mp (stack_resumes hReach.reachable)).1 d
        hOld hResumes
      refine hOff (ih d (List.mem_cons_of_mem _ hOld) hCarries) fun hRing => ?_
      rw [hRing] at hFlush
      cases hFlush
  · have hLine := congrArg Line.ringing (outside_line (j := i) hOut)
    exact hLine.trans (ih d hMem hCarries)

/-- A step that takes a byte for the call of a port finds the call answered. -/
theorem fills_answered (hReach : ReachableBy (fun c act => sparesRinging i c act) ⟨s, b :: rest⟩)
    (hFills : b.fills = some i) (hStored : StoredOne i s (exec b a s).1)
    (hTyped : ∀ f, b = .int14 i f → (s.ats i).ringing = false) : (s.ats i).ringing = false := by
  have hCarries : b.carries = some i → (s.ats i).ringing = false :=
    carries_answered hReach b List.mem_cons_self
  cases b with
  | int14 j f =>
      cases f with
      | transmit v | transmitNoWait v =>
          obtain rfl : j = i := Option.some.inj hFills
          exact hTyped _ rfl
      | _ => cases hFills
  | retryChar j v | retryWrite j v rest' count => exact hCarries hFills
  | write j data count =>
      cases data with
      | cons v rest' => exact hCarries hFills
      | nil =>
          obtain ⟨y, v, _, hAll⟩ := hStored
          have hOne := hAll y
          have hSame : (exec (.write j [] count) a s).1 = s := by simp [exec, writeNext]
          rw [hSame, if_pos rfl] at hOne
          simp at hOne
  | _ => cases hFills

/-- No step takes a byte for a call that rings. -/
theorem ringing_unstored (hReach : ReachableBy (fun c act => sparesRinging i c act) ⟨s, b :: rest⟩)
    (hSock : (s.ports i).sock = some x) (hRinging : (s.ats i).ringing) (a : Answer) :
    storedFor x (exec b a s).1.trace = storedFor x s.trace := by
  cases hFills : b.fills with
  | none => exact exec_unstored hFills a s x
  | some j =>
      rcases exec_stored hFills a s with hSame | ⟨hStored, hTyped⟩
      · exact hSame x
      · obtain ⟨y, v, hCall, hAll⟩ := hStored
        by_cases hyx : y = x
        · subst hyx
          have hRegular := Sys.Regular.stable.reachable hReach.reachable
          obtain rfl : j = i := hRegular.ledger.sock_inj hCall hSock
          have hOff := fills_answered hReach hFills ⟨y, v, hCall, hAll⟩ hTyped
          exact absurd (hOff.symm.trans hRinging) (by simp)
        · rw [hAll x, if_neg hyx, List.append_nil]

/-- Nothing is taken for a call before it is answered. -/
theorem unanswered_unstored {c : Config}
    (h : ReachableBy (fun c act => sparesRinging i c act) c) (hSock : (c.sys.ports i).sock = some x)
    (hRings : (c.sys.ats i).ringing ∨ .ring i ∈ c.todo) : storedFor x c.sys.trace = [] := by
  revert hSock hRings
  refine h.induct (P := fun c => (c.sys.ports i).sock = some x →
      ((c.sys.ats i).ringing ∨ .ring i ∈ c.todo) → storedFor x c.sys.trace = [])
    (fun args eager tick hSock => ?_) (fun s b hEntry ih hSock hRings => ?_)
    (fun s b rest a hReach ok ih hSock hRings => ?_) fun s t e todo hOut ih hSock hRings => ?_
  · simp [install, Sys.zero, PortState.zero] at hSock
  · refine ih hSock (hRings.imp_right fun hMem => ?_)
    obtain rfl := List.mem_singleton.mp hMem
    cases hEntry
  · have hSound := hReach.sound
    by_cases hOld : (s.ports i).sock = some x
    · have hIsSome : (s.ports i).sock.isSome := by simp [hOld]
      have hBefore : (s.ats i).ringing ∨ .ring i ∈ b :: rest := by
        rcases hRings with hRinging | hMem
        · by_contra hNot
          rw [not_or, Bool.not_eq_true] at hNot
          have hNe : b ≠ .ring i := fun hb => hNot.2 (by simp [hb])
          have hOff := ringing_off hSound.modes hNe hNot.1 a
          exact absurd (hOff.symm.trans hRinging) (by simp)
        · exact .inr ((ring_leaves hSound a hIsSome).mp hMem).1
      have hNone : storedFor x s.trace = [] := ih hOld hBefore
      rcases hBefore with hRinging | hMem
      · exact (ringing_unstored hReach hOld hRinging a).trans hNone
      · refine (exec_unstored ?_ a s x).trans hNone
        rcases List.mem_cons.mp hMem with rfl | hRest
        · rfl
        · have hRaw : b.isRaw := (List.pairwise_cons.mp hSound.stack).1 _ hRest
          obtain ⟨k, buf, rfl⟩ := Block.raw_of_isRaw hRaw
          rfl
    · obtain ⟨hAccepts, hPending⟩ := accepted_pending hSound hOld hSock
      have hFills : b.fills = none := by cases b <;> simp_all [Block.accepts, Block.fills]
      refine (exec_unstored hFills a s x).trans ?_
      by_contra hStored
      exact ((Sys.StoredSpent.stable.reachable hReach.reachable).2 x hStored).2 hPending
  · have hRinging : (t.ats i).ringing = (s.ats i).ringing :=
      congrArg Line.ringing (outside_line (j := i) hOut)
    have hNone := ih (outside_ports hOut ▸ hSock) (hRinging ▸ hRings)
    rcases outside_cases hOut with ⟨tick, rfl⟩ | ⟨port, host, remote, rfl⟩ | ⟨z, bs, _, rfl⟩
    · exact hNone
    · exact hNone
    · have hSame : Unstored s ((s.setNet (s.net.deliver z bs)).log (.delivered z bs)) :=
        (setNet_unstored (s.net.deliver z bs)).trans (.log _ fun _ => rfl)
      exact (hSame x).trans hNone

end Phase

/-- In every run in which AH=19h spares ringing calls: what runs while a call rings takes
nothing for it and leaves nothing to be written, and what is ever queued on its socket
stems from bytes that were taken after any moment at which it rang. -/
theorem ringing_writes_stay {i : PortIdx} {x : SockId} {c d : Config}
    (h : ReachableBy (fun c act => sparesRinging i c act) c)
    (hSock : (c.sys.ports i).sock = some x) (hRinging : (c.sys.ats i).ringing)
    (run : Transition.Run step (fun c act => sparesRinging i c act) c d) :
    (∀ b rest, c.todo = b :: rest → ∀ a, sparesRinging i c (.run a) →
      storedFor x (exec b a c.sys).1.trace = [] ∧
        ∀ next ∈ (exec b a c.sys).2 ++ rest, next.carries ≠ some i) ∧
    (dataBytes (d.sys.net.sockets x).wire).Sublist
      (((storedFor x d.sys.trace).drop (storedFor x c.sys.trace).length).flatMap escape) := by
  have hNone := unanswered_unstored h hSock (.inl hRinging)
  have hLedger := (Sys.Regular.stable.reachable h.reachable).ledger
  have hIdle : ∀ next ∈ c.todo, next.carries ≠ some i := fun next hMem hCarries =>
    absurd ((carries_answered h next hMem hCarries).symm.trans hRinging) (by simp)
  constructor
  · obtain ⟨s, todo⟩ := c
    intro b rest hTodo a hSpares
    obtain rfl : todo = b :: rest := hTodo
    refine ⟨(ringing_unstored h hSock hRinging a).trans hNone, fun next hMem hCarries => ?_⟩
    rcases List.mem_append.mp hMem with hNew | hOld
    · have hOff := (carries_source hNew hCarries hSpares fun hb =>
        absurd hb (hIdle b List.mem_cons_self)).2
      exact absurd (hOff.symm.trans hRinging) (by simp)
    · exact hIdle next (List.mem_cons_of_mem _ hOld) hCarries
  · have hSpent : d.sys.Spent x :=
      run_spent h.reachable run ⟨hLedger.sock_lt hSock, hLedger.not_pending (held_of_sock hSock)⟩
    rw [hNone]
    exact (Sys.Queued.stable.reachable (h.reachable.extend run)).2.wire x hSpent.1

/-- A byte typed at the interpreter while the port rings, and one written after the
answer. -/
theorem typedWhileRinging_play :
    ((install [.listen 0 2323] true 0).play (sparesRinging 0) (answeredCall.take 4)).any (fun c =>
      (c.play (sparesRinging 0) (.call (.int14 0 (.transmitNoWait 0x41)) {} ::
          answeredCall.drop 4 ++ [.call (.int14 0 (.blockWrite [0x42])) { sentBatch := 1 }])).any
        fun d => decide ((c.sys.ports 0).sock = some 1) && (c.sys.ats 0).ringing &&
          decide ((d.sys.net.sockets 1).wire.any fun w => w.val == 0x42)) = true := by
  decide +kernel

/-- A byte written by AH=19h while the port rings, sent after the answer. -/
theorem blockWhileRinging_play :
    ((install [.listen 0 2323] true 0).play (fun _ _ => true)
        (answeredCall.take 4 ++ [.call (.int14 0 (.blockWrite [0x41])) {}])).any (fun c =>
      (c.play anyStep (answeredCall.drop 4 ++ [.call (.int14 0 .flush) { sent := 1 }])).any fun d =>
        decide ((c.sys.ports 0).sock = some 1) && (c.sys.ats 0).ringing &&
          decide ((storedFor 1 d.sys.trace).length ≤ (storedFor 1 c.sys.trace).length) &&
          !(dataBytes (d.sys.net.sockets 1).wire).isEmpty) = true := by
  decide +kernel

/-- The run of the first: the byte on the wire was written after the answer. -/
theorem ringing_writes_stay_typed : ∃ c d : Config, (c.sys.ats 0).ringing ∧
    (∃ w ∈ (d.sys.net.sockets 1).wire, w.val = 0x42) ∧
      (dataBytes (d.sys.net.sockets 1).wire).Sublist
        (((storedFor 1 d.sys.trace).drop (storedFor 1 c.sys.trace).length).flatMap escape) := by
  obtain ⟨c, d, hReach, hRun, hp⟩ := exists_continued
    (Q := fun c act => sparesRinging 0 c act) (P := fun c act => sparesRinging 0 c act)
    (fun _ _ h => h) (fun _ _ h => h) typedWhileRinging_play
  simp only [Bool.and_eq_true, decide_eq_true_eq, List.any_eq_true, beq_iff_eq] at hp
  obtain ⟨⟨hSock, hRinging⟩, hSent⟩ := hp
  exact ⟨c, d, hRinging, hSent, (ringing_writes_stay hReach hSock hRinging hRun).2⟩

/-- A byte of AH=19h waits in the transmit ring while the call rings and is sent to the
caller after the answer. -/
theorem block_leaks_to_caller : ¬ ∀ i x c d, Reachable c → (c.sys.ports i).sock = some x →
    (c.sys.ats i).ringing → Transition.Run step (fun _ _ => True) c d →
    (dataBytes (d.sys.net.sockets x).wire).Sublist
      (((storedFor x d.sys.trace).drop (storedFor x c.sys.trace).length).flatMap escape) := by
  intro hAll
  obtain ⟨c, d, hReach, hRun, hp⟩ := exists_segment (P := fun _ _ => True)
    (fun _ _ _ => trivial) blockWhileRinging_play
  simp only [Bool.and_eq_true, decide_eq_true_eq, Bool.not_eq_true'] at hp
  obtain ⟨⟨⟨hSock, hRinging⟩, hLength⟩, hSent⟩ := hp
  have hSublist := hAll 0 1 c d hReach hSock hRinging hRun
  rw [List.drop_eq_nil_of_le hLength] at hSublist
  rw [List.eq_nil_of_sublist_nil hSublist] at hSent
  cases hSent

end Vmodem
