import Vmodem.Driver.Past
import Vmodem.Invariants.LineSteps
import Vmodem.Invariants.Network

/-! What the steps of a run say about its calls. A connection is attached to a port
once, so the steps taken while it was there are the history of one call. -/

namespace Vmodem

/-- Induction over the steps of a run, all of which are allowed. -/
theorem Reached.induct {A : Config → Action → Prop} {P : Past → Config → Prop}
    (start : ∀ args eager tick, P [] (install args eager tick))
    (call : ∀ past s b, Reached past ⟨s, []⟩ → A ⟨s, []⟩ (.call b) → b.entry → P past ⟨s, []⟩ →
      P ((⟨s, []⟩, .call b) :: past) ⟨s, [b]⟩)
    (run : ∀ past s b rest a, Reached past ⟨s, b :: rest⟩ → A ⟨s, b :: rest⟩ (.run a) →
      P past ⟨s, b :: rest⟩ →
      P ((⟨s, b :: rest⟩, .run a) :: past) ⟨(exec b a s).1, (exec b a s).2 ++ rest⟩)
    (out : ∀ past s t e todo, Reached past ⟨s, todo⟩ → A ⟨s, todo⟩ (.outside e) →
      outside e s = some t → P past ⟨s, todo⟩ → P ((⟨s, todo⟩, .outside e) :: past) ⟨t, todo⟩)
    {past : Past} {c : Config} (h : Reached past c) (hAllowed : ∀ st ∈ past, A st.1 st.2) :
    P past c := by
  obtain ⟨args, eager, tick, path⟩ := h
  apply path.invariant hAllowed (start args eager tick)
  intro past c act d prior hPrior ok last
  obtain ⟨s, todo⟩ := c
  rcases step_cases last with ⟨b, rfl, hEntry, rfl, rfl⟩ | ⟨a, b, rest, rfl, rfl, rfl⟩ |
    ⟨e, t, rfl, hOut, rfl⟩
  · exact call past s b ⟨args, eager, tick, prior⟩ ok hEntry hPrior
  · exact run past s b rest a ⟨args, eager, tick, prior⟩ ok hPrior
  · exact out past s t e todo ⟨args, eager, tick, prior⟩ ok hOut hPrior

/-- Every step of a recorded past was taken in a state that was itself reached. -/
theorem Reached.before {past : Past} {c : Config} (h : Reached past c) {st : Config × Action}
    (hMem : st ∈ past) : ∃ earlier, Reached earlier st.1 := by
  obtain ⟨args, eager, tick, path⟩ := h
  obtain ⟨earlier, _, hPath, _⟩ := path.before hMem
  exact ⟨earlier, args, eager, tick, hPath⟩

/-- A step taken while the port had this connection. -/
def onCall (i : PortIdx) (x : SockId) (st : Config × Action) : Bool :=
  (st.1.sys.ports i).sock = some x

/-- The steps of a call so far. -/
def callPast (i : PortIdx) (x : SockId) (past : Past) : Past := past.filter (onCall i x)

/-- What a step did to the line of a port. -/
def stepEvents (j : PortIdx) (st : Config × Action) : List LineEvent :=
  match st.2, st.1.todo with
  | .run a, b :: _ => b.lineEvents a st.1.sys j
  | _, _ => []

/-- What the steps did to the line of a port, oldest first. -/
def lineEvents (j : PortIdx) (past : Past) : List LineEvent := past.reverse.flatMap (stepEvents j)

section Events

variable {i j : PortIdx} {x : SockId} {st : Config × Action} {past : Past}

@[simp] theorem lineEvents_nil : lineEvents j [] = [] := rfl

@[simp] theorem lineEvents_cons :
    lineEvents j (st :: past) = lineEvents j past ++ stepEvents j st := by
  simp [lineEvents]

/-- A step taken on the call is part of its past. -/
theorem callPast_on (h : (st.1.sys.ports i).sock = some x) :
    callPast i x (st :: past) = st :: callPast i x past :=
  List.filter_cons_of_pos (by simpa [onCall] using h)

/-- A step taken outside the call is none of its past. -/
theorem callPast_off (h : (st.1.sys.ports i).sock ≠ some x) :
    callPast i x (st :: past) = callPast i x past :=
  List.filter_cons_of_neg (by simpa [onCall] using h)

end Events

section Sockets

variable {b : Block} {a : Answer} {s t : Sys}

/-- Socket identities are never given back. -/
theorem Effect.next_le (h : Effect b a s t) : s.net.next ≤ t.net.next := by
  cases h with
  | quiet h => rw [h.net]
  | store i x v hSock h =>
      obtain ⟨_, rfl⟩ := storeTx_eq_some h
      exact Nat.le_refl _
  | purge i hb => simp
  | flush i hb => rw [(fossilFlushTx_next i a).1]
  | write i buf hb => rw [(telnetSendRaw_next i buf a).1]
  | filter i x tmp drop hb => rw [(pollRx_next i x tmp drop a).1]
  | receive i hb =>
      rcases pollRecv_cases i a s with hNone | ⟨x, _, _, _, hSome⟩
      · rw [hNone]
      · rw [hSome]
        split_ifs <;> simp
  | close i why hb => rw [(closeSock_next i why).1]
  | attach i x net hb hSock hAccept =>
      obtain ⟨k, _, rfl⟩ := accept_eq_some hAccept
      simp
  | reject x net msg hb hAccept =>
      obtain ⟨k, _, rfl⟩ := accept_eq_some hAccept
      unfold rejectCall
      rw [(sockCloseFast_next x).1]
      simp
  | listenPort i tcpPort x net hb hFree hGet | listenHunt g tcpPort x net hb hFree hActive hGet
  | waste x net hGet | extAlloc k x net hFree hGet =>
      obtain ⟨_, _, hNext, _⟩ := getSocket_eq_some hGet
      simp [hNext]
  | drain n =>
      unfold closingDrain
      split
      next => exact Nat.le_refl _
      next => split_ifs <;> simp
  | extClose k x hSock => simp [(sockCloseFast_next x).1]
  | reconfigure i f hb hf => simp
  | read i n => simp
  | _ => exact Nat.le_refl _

/-- A connection that is in use, or has been, is not waiting to be accepted. -/
def Sys.Spent (s : Sys) (x : SockId) : Prop := x < s.net.next ∧ x ∉ s.net.pending

/-- No block puts a used connection back among the waiting ones. -/
theorem Effects.spent (h : Effects b a s t) {x : SockId} (hs : s.Spent x) : t.Spent x := by
  induction h with
  | refl => exact hs
  | tail _ last ih => exact ⟨Nat.lt_of_lt_of_le ih.1 last.next_le,
      fun hMem => ih.2 (last.pending hMem)⟩

/-- Nor does anything outside the driver: a new caller is a new connection. -/
theorem outside_spent {e : Outside} (hOut : outside e s = some t) {x : SockId} (hs : s.Spent x) :
    t.Spent x := by
  rcases outside_cases hOut with ⟨tick, rfl⟩ | ⟨port, host, remote, rfl⟩ | ⟨y, bs, _, rfl⟩
  · exact hs
  · refine ⟨Nat.lt_succ_of_lt hs.1, fun hMem => ?_⟩
    rcases List.mem_append.mp hMem with hOld | hNew
    · exact hs.2 hOld
    · exact Nat.ne_of_lt hs.1 (List.mem_singleton.mp hNew)
  · exact hs

/-- Every connection a port had in the past is spent, so a call is not accepted twice.
-/
theorem Reached.spent {past : Past} {c : Config} (h : Reached past c) :
    ∀ st ∈ past, ∀ i x, (st.1.sys.ports i).sock = some x → c.sys.Spent x := by
  have hHere : ∀ {past : Past} {c : Config}, Reached past c → ∀ i x,
      (c.sys.ports i).sock = some x → c.sys.Spent x := by
    intro past c hc i x hSock
    have hRegular := Sys.Regular.stable.reachable hc.reachable
    exact ⟨hRegular.ledger.sock_lt hSock, hRegular.ledger.not_pending (held_of_sock hSock)⟩
  refine h.induct (A := fun _ _ => True)
    (P := fun past c => ∀ st ∈ past, ∀ i x, (st.1.sys.ports i).sock = some x → c.sys.Spent x)
    (fun _ _ _ => by simp) ?_ ?_ ?_ fun _ _ => trivial
  · intro past s b hReach _ _ ih st hst i x hSock
    rcases List.mem_cons.mp hst with rfl | hOld
    · exact hHere hReach i x hSock
    · exact ih st hOld i x hSock
  · intro past s b rest a hReach _ ih st hst i x hSock
    have hEffects := hReach.reachable.sound.effects a
    rcases List.mem_cons.mp hst with rfl | hOld
    · exact hEffects.spent (hHere hReach i x hSock)
    · exact hEffects.spent (ih st hOld i x hSock)
  · intro past s t e todo hReach _ hOut ih st hst i x hSock
    rcases List.mem_cons.mp hst with rfl | hOld
    · exact outside_spent hOut (hHere hReach i x hSock)
    · exact outside_spent hOut (ih st hOld i x hSock)

end Sockets

/-- The port a block connects the next caller to has no call. -/
theorem Block.target_sock {b : Block} {s : Sys} {i : PortIdx} (h : b.target s = some i)
    (hIdle : ∀ i, (s.ports i).mode = .listen → (s.ports i).sock = none) :
    (s.ports i).sock = none := by
  cases b with
  | hunt g =>
      simp only [Block.target] at h
      split_ifs at h
      exact (freeMember_spec h).2.2
  | port k =>
      simp only [Block.target] at h
      split_ifs at h with hListen
      exact hIdle i (Option.some.inj h ▸ hListen.2.1)
  | _ => cases h

/-- The connection of a port after a block was there before, or has just been
accepted and was never there before. -/
theorem Reached.call_cases {past : Past} {s : Sys} {b : Block} {rest : List Block}
    (h : Reached past ⟨s, b :: rest⟩) (a : Answer) {i : PortIdx} {x : SockId}
    (hSock : ((exec b a s).1.ports i).sock = some x) :
    (s.ports i).sock = some x ∨
      (b.accepts ∧ b.target s = some i ∧ (s.net.accept a.accepted).isSome ∧
        (s.ports i).sock = none ∧ callPast i x past = []) := by
  have hSound := h.reachable.sound
  cases hAccepts : b.accepts with
  | false =>
      rcases (hSound.effects a).sock_mono hAccepts i with hSame | hNone
      · exact .inl (hSame ▸ hSock)
      · simp [hNone] at hSock
  | true =>
      have hEffect := exec_accepts a s hAccepts hSound.idle
      generalize (exec b a s).1 = t at hEffect hSock
      cases hEffect with
      | refl => exact .inl hSock
      | single hOne =>
          rcases (hOne.call_source hSock).2 with hSame | ⟨hTarget, net, hAccept⟩
          · exact .inl hSame
          · refine .inr ⟨rfl, hTarget, by simp [hAccept], b.target_sock hTarget hSound.idle, ?_⟩
            rw [callPast, List.filter_eq_nil_iff]
            intro st hst hOn
            have hBefore : (st.1.sys.ports i).sock = some x := by simpa [onCall] using hOn
            exact (h.spent st hst i x hBefore).2 (accept_mem hAccept)

end Vmodem
