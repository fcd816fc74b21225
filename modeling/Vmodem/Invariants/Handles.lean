import Vmodem.Invariants.Delivery
import Vmodem.Invariants.External
import Vmodem.Invariants.Past

/-! The connection behind a socket handle of the MUX_SOCK functions. Nothing but
the functions of that handle queues bytes on it or reads from it. -/

namespace Vmodem

/-- The function that queues bytes on the connection of a handle. -/
def Block.sendsOn (b : Block) (k : ExtIdx) : Bool :=
  match b with
  | .mux (.sockSend j _) => decide (j = k)
  | _ => false

/-- The function that reads from the connection of a handle. -/
def Block.receivesOn (b : Block) (k : ExtIdx) : Bool :=
  match b with
  | .mux (.sockRecv j _) => decide (j = k)
  | _ => false

/-- A connection that no port and no other handle refers to, or ever will. -/
structure Sys.HeldBy (s : Sys) (k : ExtIdx) (x : SockId) : Prop where
  spent : s.Spent x
  ports : ∀ i, (s.ports i).sock ≠ some x
  handles : ∀ j, (s.extSockets j).sock = some x → j = k

/-- The handle refers to this connection, or to none any more. -/
def Sys.Current (s : Sys) (k : ExtIdx) (x : SockId) : Prop :=
  ∀ y, (s.extSockets k).sock = some y → y = x

/-- What is queued on a connection did not change. -/
def SameWire (x : SockId) (s t : Sys) : Prop := (t.net.sockets x).wire = (s.net.sockets x).wire

/-- Nothing was read from a connection: what TCP delivered is waiting behind the rest. -/
def InboxGrew (x : SockId) (s t : Sys) : Prop :=
  ∃ newer, t.trace = newer ++ s.trace ∧
    (t.net.sockets x).inbox = (s.net.sockets x).inbox ++ delivered x newer

section Handles

variable {b : Block} {a : Answer} {s t u : Sys} {j k : ExtIdx} {x y : SockId}

theorem InboxGrew.refl (x : SockId) (s : Sys) : InboxGrew x s s :=
  ⟨[], rfl, (List.append_nil _).symm⟩

/-- An inbox that only grew in two stretches only grew in both together. -/
theorem InboxGrew.trans (left : InboxGrew x s t) (right : InboxGrew x t u) : InboxGrew x s u := by
  obtain ⟨first, hFirst, hInbox⟩ := left
  obtain ⟨second, hSecond, hInbox'⟩ := right
  refine ⟨second ++ first, ?_, ?_⟩
  · rw [hSecond, hFirst, List.append_assoc]
  · rw [hInbox', hInbox, delivered_append, List.append_assoc]

/-- A handle that refers to a connection referred to it before, or has just been
allocated. -/
theorem Effect.handle_back (h : Effect b a s t) (hSock : (t.extSockets j).sock = some x) :
    (s.extSockets j).sock = some x ∨ (b = .mux .sockAlloc ∧ x = s.net.next) := by
  cases h with
  | quiet h => exact .inl (h.extSockets ▸ hSock)
  | store i y v _ h =>
      obtain ⟨_, rfl⟩ := storeTx_eq_some h
      exact .inl hSock
  | receive i hb =>
      left
      rwa [show (pollRecv i a s).1.extSockets = s.extSockets from pollRecv_extSockets] at hSock
  | extTouch l f hf =>
      by_cases hj : j = l
      · simp only [hj, Sys.modExt_extSockets, ↓reduceIte, hf] at hSock ⊢
        exact .inl hSock
      · exact .inl (by simpa [hj] using hSock)
  | extAlloc l y net hFree hGet hb =>
      obtain ⟨rfl, _⟩ := getSocket_eq_some hGet
      by_cases hj : j = l
      · have hxy : s.net.next = x := by simpa [hj] using hSock
        exact .inr ⟨hb, hxy.symm⟩
      · exact .inl (by simpa [hj] using hSock)
  | extClose l y hOld =>
      by_cases hj : j = l
      · simp [hj] at hSock
      · exact .inl (by simpa [hj] using hSock)
  | _ => exact .inl (by simpa using hSock)

theorem Effect.heldBy (h : Effect b a s t) (hHeld : s.HeldBy k x) : t.HeldBy k x := by
  refine ⟨⟨Nat.lt_of_lt_of_le hHeld.spent.1 h.next_le, fun hMem => hHeld.spent.2 (h.pending hMem)⟩,
    fun i hSock => hHeld.ports i (h.sock_back hHeld.spent.2 hSock), fun j hSock => ?_⟩
  rcases h.handle_back hSock with hOld | ⟨_, hNew⟩
  · exact hHeld.handles j hOld
  · exact absurd hHeld.spent.1 (hNew ▸ Nat.lt_irrefl _)

/-- Only the send functions of its handle queue bytes on a held connection. -/
theorem Effect.sameWire (h : Effect b a s t) (hRegular : s.Regular) (hHeld : s.HeldBy k x)
    (hSends : b.sendsOn k = false) : SameWire x s t := by
  obtain ⟨out, hWire, hSent⟩ := (h.traffic hRegular.ledger hRegular.rings hHeld.spent.1).wire
  cases hSent with
  | nothing => exact hWire.trans (List.append_nil _)
  | flush i _ _ hSock => exact absurd hSock (hHeld.ports i)
  | write i _ _ hSock => exact absurd hSock (hHeld.ports i)
  | reject _ hPending => exact absurd hPending hHeld.spent.2
  | ext j _ hSock _ hb =>
      obtain ⟨data, rfl⟩ := hb
      obtain rfl := hHeld.handles j hSock
      simp [Block.sendsOn] at hSends

/-- Only the receive functions of its handle take bytes from a held connection. -/
theorem Effect.inboxGrew (h : Effect b a s t) (hRegular : s.Regular) (hHeld : s.HeldBy k x)
    (hReceives : b.receivesOn k = false) : InboxGrew x s t := by
  obtain ⟨newer, hTrace, hFrom⟩ := h.logged hRegular.rings
  refine ⟨newer, hTrace, ?_⟩
  have hNone : delivered x newer = [] := by
    refine delivered_eq_nil fun e he => ?_
    have hOrigin := hFrom e he
    cases e with
    | delivered y bs => exact hOrigin.elim
    | _ => rfl
  rw [hNone, List.append_nil]
  rcases (h.traffic hRegular.ledger hRegular.rings hHeld.spent.1).inbox with
    hSame | ⟨i, _, hSock⟩ | ⟨j, hSock, max, rfl⟩
  · exact hSame
  · exact absurd hSock (hHeld.ports i)
  · obtain rfl := hHeld.handles j hSock
    simp [Block.receivesOn] at hReceives

/-- A handle in use is not given out again. -/
theorem sockAlloc_current (h : (s.extSockets k).sock ≠ none) :
    ((sockAlloc a s).extSockets k).sock = (s.extSockets k).sock := by
  unfold sockAlloc
  split
  next => rfl
  next l hFind =>
    have hFree := List.find?_some hFind
    simp only [Bool.and_eq_true, Option.isNone_iff_eq_none, decide_eq_true_eq] at hFree
    have hNe : k ≠ l := by
      rintro rfl
      exact h hFree.2
    split
    next => rfl
    next => split_ifs <;> simp [hNe]

/-- No two handles refer to one connection, as the sockets are counted once. -/
theorem Sys.Ledger.ext_inj (h : s.Ledger) (hj : (s.extSockets j).sock = some x)
    (hk : (s.extSockets k).sock = some x) : j = k := by
  by_contra hNe
  have hPair := Accounting.add_le_sum hNe fun l => Accounting.holds (s.extSockets l).sock x
  simp only [hj, hk, Accounting.holds_some, ↓reduceIte] at hPair
  have hLe := h.held_le x
  unfold Sys.held at hLe
  omega

/-- The connection of a handle is held by that handle only. -/
theorem Sys.Regular.heldBy (h : s.Regular) (hSock : (s.extSockets k).sock = some x) :
    s.HeldBy k x := by
  have hHeld := held_of_ext hSock
  exact ⟨⟨h.ledger.lt_next (by omega), h.ledger.not_pending hHeld⟩,
    fun i hPort => h.ledger.sock_ne_ext hPort hSock, fun j hOther => h.ledger.ext_inj hOther hSock⟩

/-- What a block does to a held connection. -/
structure Rests (k : ExtIdx) (x : SockId) (b : Block) (s t : Sys) : Prop where
  held : t.HeldBy k x
  wire : b.sendsOn k = false → SameWire x s t
  inbox : b.receivesOn k = false → InboxGrew x s t

/-- A block leaves a held connection as a send or a receive of its handle would at most.
The induction is on its effects. -/
theorem Effects.rests (h : Effects b a s t) (hRegular : s.Regular) (hHeld : s.HeldBy k x) :
    Rests k x b s t := by
  suffices hAll : t.Regular ∧ Rests k x b s t from hAll.2
  induction h with
  | refl => exact ⟨hRegular, hHeld, fun _ => rfl, fun _ => .refl x s⟩
  | tail _ last ih =>
      obtain ⟨hMiddle, hRests⟩ := ih
      refine ⟨Sys.Regular.stable.effect last hMiddle, last.heldBy hRests.held,
        fun hSends => ?_, fun hReceives => ?_⟩
      · exact (last.sameWire hMiddle hRests.held hSends).trans (hRests.wire hSends)
      · exact (hRests.inbox hReceives).trans (last.inboxGrew hMiddle hRests.held hReceives)

/-- Except by MUX_SOCK_ALLOC a handle never gets another connection. -/
theorem Effects.current (h : Effects b a s t) (hAlloc : b ≠ .mux .sockAlloc)
    (hCurrent : s.Current k x) : t.Current k x := by
  induction h with
  | refl => exact hCurrent
  | tail _ last ih =>
      intro y hSock
      rcases last.handle_back hSock with hOld | ⟨hNew, _⟩
      · exact ih y hOld
      · exact absurd hNew hAlloc

theorem outside_extSockets {e : Outside} (hOut : outside e s = some t) :
    t.extSockets = s.extSockets := by
  rcases outside_cases hOut with ⟨tick, rfl⟩ | ⟨port, host, remote, rfl⟩ | ⟨y, bs, _, rfl⟩ <;> rfl

/-- Outside the driver a held connection can only be delivered bytes. -/
theorem outside_rests {e : Outside} (hOut : outside e s = some t) (hHeld : s.HeldBy k x) :
    t.HeldBy k x ∧ SameWire x s t ∧ InboxGrew x s t := by
  have hOld : x ≠ s.net.next := Nat.ne_of_lt hHeld.spent.1
  refine ⟨⟨outside_spent hOut hHeld.spent, outside_ports hOut ▸ hHeld.ports,
    outside_extSockets hOut ▸ hHeld.handles⟩, ?_, ?_⟩
  · rcases outside_cases hOut with ⟨tick, rfl⟩ | ⟨port, host, remote, rfl⟩ | ⟨y, bs, _, rfl⟩
    · rfl
    · simp [SameWire, Mtcp.arrive, hOld]
    · by_cases hxy : x = y <;> simp [SameWire, hxy]
  · rcases outside_cases hOut with ⟨tick, rfl⟩ | ⟨port, host, remote, rfl⟩ | ⟨y, bs, _, rfl⟩
    · exact ⟨[], rfl, (List.append_nil _).symm⟩
    · exact ⟨[], rfl, by simp [Mtcp.arrive, hOld, delivered]⟩
    · refine ⟨[.delivered y bs], rfl, ?_⟩
      by_cases hxy : x = y
      · simp [hxy, delivered, Event.deliveredTo]
      · have hyx : ¬ y = x := fun hEq => hxy hEq.symm
        simp [hxy, hyx, delivered, Event.deliveredTo]

/-- The next block is not one of these, and does not give the handle to somebody else. -/
def exclusive (k : ExtIdx) (others : Block → ExtIdx → Bool) (c : Config) (_ : Action) : Bool :=
  c.todo.head?.all fun b =>
    !others b k && (decide (b ≠ .mux .sockAlloc) || (c.sys.extSockets k).sock.isSome)

/-- What exclusive use of a handle says about the next block. -/
theorem exclusive_cons {others : Block → ExtIdx → Bool} {rest : List Block} {act : Action}
    (h : exclusive k others ⟨s, b :: rest⟩ act) :
    others b k = false ∧ (b = .mux .sockAlloc → (s.extSockets k).sock ≠ none) := by
  simp only [exclusive, List.head?_cons, Option.all_some, Bool.and_eq_true, Bool.not_eq_true',
    Bool.or_eq_true, decide_eq_true_eq] at h
  refine ⟨h.1, fun hAlloc => ?_⟩
  rcases h.2 with hNot | hSome
  · exact absurd hAlloc hNot
  · exact Option.isSome_iff_ne_none.mp hSome

/-- While nobody else is given the handle, it does not come to refer to another connection. -/
theorem Reachable.current {others : Block → ExtIdx → Bool} {c d : Config} (h : Reachable c)
    (run : Transition.Run step (fun c act => exclusive k others c act) c d)
    (hCurrent : c.sys.Current k x) : d.sys.Current k x := by
  induction run with
  | refl => exact hCurrent
  | @tail c' d act prior ok last ih =>
      obtain ⟨s, todo⟩ := c'
      rcases step_cases last with ⟨b, _, hEntry, rfl, rfl⟩ | ⟨a, b, rest, _, rfl, rfl⟩ |
        ⟨e, t, _, hOut, rfl⟩
      · exact ih
      · by_cases hAlloc : b = .mux .sockAlloc
        · have hUsed := (exclusive_cons ok).2 hAlloc
          subst hAlloc
          intro y hSock
          exact ih y ((sockAlloc_current hUsed).symm.trans hSock)
        · exact ((h.extend prior).sound.effects a).current hAlloc ih
      · exact fun y hSock => ih y (outside_extSockets hOut ▸ hSock)

/-- What a stretch of a run leaves of a held connection. -/
theorem Reachable.rests {others : Block → ExtIdx → Bool} {c d : Config} (h : Reachable c)
    (run : Transition.Run step (fun c act => exclusive k others c act) c d)
    (hHeld : c.sys.HeldBy k x) : d.sys.HeldBy k x ∧
      ((∀ b, b.sendsOn k → others b k) → SameWire x c.sys d.sys) ∧
      ((∀ b, b.receivesOn k → others b k) → InboxGrew x c.sys d.sys) := by
  have hNever : ∀ {p q : Bool}, q = false → (p = true → q = true) → p = false := by
    intro p q hq hCovers
    cases p with
    | false => rfl
    | true => exact (Bool.eq_false_iff.mp hq (hCovers rfl)).elim
  induction run with
  | refl => exact ⟨hHeld, fun _ => rfl, fun _ => .refl x _⟩
  | @tail c' d act prior ok last ih =>
      obtain ⟨hStill, hWire, hInbox⟩ := ih
      have hHere := h.extend prior
      obtain ⟨s, todo⟩ := c'
      rcases step_cases last with ⟨b, _, hEntry, rfl, rfl⟩ | ⟨a, b, rest, _, rfl, rfl⟩ |
        ⟨e, t, _, hOut, rfl⟩
      · exact ⟨hStill, hWire, hInbox⟩
      · have hRests := (hHere.sound.effects a).rests (Sys.Regular.stable.reachable hHere) hStill
        have hOthers := (exclusive_cons ok).1
        exact ⟨hRests.held,
          fun hCovers => (hRests.wire (hNever hOthers (hCovers b))).trans (hWire hCovers),
          fun hCovers => (hInbox hCovers).trans (hRests.inbox (hNever hOthers (hCovers b)))⟩
      · obtain ⟨hAfter, hSame, hGrew⟩ := outside_rests hOut hStill
        exact ⟨hAfter, fun hCovers => hSame.trans (hWire hCovers),
          fun hCovers => (hInbox hCovers).trans hGrew⟩

end Handles

end Vmodem
