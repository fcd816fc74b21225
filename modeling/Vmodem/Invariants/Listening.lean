import Vmodem.Invariants.Network

/-! The listen sockets. A port or a group that holds a listen socket holds one that
listens on its own TCP port, and a standalone port that answers callers holds one. -/

namespace Vmodem

/-- Port or group that holds the socket to listen on a TCP port. -/
def Sys.Listener (s : Sys) (x : SockId) (tcpPort : UInt16) : Prop :=
  (∃ i, (s.ports i).listenSock = some x ∧ (s.ports i).localPort = tcpPort) ∨
    ∃ g, (s.huntGroups g).listenSock = some x ∧ (s.huntGroups g).tcpPort = tcpPort

/-- Every listen socket that is held listens on the TCP port of its holder. -/
def Sys.ListensRight (s : Sys) : Prop :=
  ∀ x tcpPort, s.Listener x tcpPort → (s.net.sockets x).listenPort = some tcpPort

/-- Nobody but the listeners has to do with the socket, so nobody frees it. -/
structure Sys.Untouched (s : Sys) (x : SockId) : Prop where
  lt_next : x < s.net.next
  pending : x ∉ s.net.pending
  ports : ∀ i, (s.ports i).sock ≠ some x
  handles : ∀ k, (s.extSockets k).sock ≠ some x
  closing : x ∉ s.closing

/-- Port `i` is configured the same in both states. -/
structure SameLine (i : PortIdx) (s t : Sys) : Prop where
  initialized : (t.ports i).initialized = (s.ports i).initialized
  localPort : (t.ports i).localPort = (s.ports i).localPort
  huntGroupIdx : (t.ports i).huntGroupIdx = (s.ports i).huntGroupIdx

section Holding

variable {s : Sys} {x : SockId} {tcpPort : UInt16}

/-- A listen socket counts once among the listen sockets alone. -/
theorem Sys.Listener.held (h : s.Listener x tcpPort) :
    0 < (∑ j, Accounting.holds (s.ports j).listenSock x) +
      ∑ g, Accounting.holds (s.huntGroups g).listenSock x := by
  rcases h with ⟨i, hHeld, _⟩ | ⟨g, hHeld, _⟩
  · have hSum := Accounting.le_sum i fun j => Accounting.holds (s.ports j).listenSock x
    simp only [hHeld, Accounting.holds_some, ↓reduceIte] at hSum
    omega
  · have hSum := Accounting.le_sum g fun g => Accounting.holds (s.huntGroups g).listenSock x
    simp only [hHeld, Accounting.holds_some, ↓reduceIte] at hSum
    omega

/-- The ledger has no room for a second holder of a listen socket. -/
theorem Sys.Ledger.untouched (h : s.Ledger) (hListener : s.Listener x tcpPort) :
    s.Untouched x := by
  have hPart := hListener.held
  have hSplit : (∑ j, (s.ports j).held x) = (∑ j, Accounting.holds (s.ports j).sock x) +
      ∑ j, Accounting.holds (s.ports j).listenSock x := by
    simp only [PortState.held, Finset.sum_add_distrib]
  have hLe := h.held_le x
  have hHeld : s.held x = (∑ j, (s.ports j).held x) +
      (∑ g, Accounting.holds (s.huntGroups g).listenSock x) +
      (∑ k, Accounting.holds (s.extSockets k).sock x) + s.closing.count x := rfl
  have hPos : 0 < s.held x := by omega
  refine ⟨h.lt_next (by omega), h.not_pending hPos, fun i hSock => ?_, fun k hSock => ?_,
    fun hMem => ?_⟩
  · have hSum := Accounting.le_sum i fun j => Accounting.holds (s.ports j).sock x
    simp only [hSock, Accounting.holds_some, ↓reduceIte] at hSum
    omega
  · have hSum := Accounting.le_sum k fun k => Accounting.holds (s.extSockets k).sock x
    simp only [hSock, Accounting.holds_some, ↓reduceIte] at hSum
    omega
  · have hCount := List.count_pos_iff.mpr hMem
    omega

end Holding

section Sockets

variable {b : Block} {a : Answer} {s t : Sys} {x y : SockId} {tcpPort : UInt16}

/-- Sending leaves every socket listening as it was. -/
theorem send_listenPort (net : Mtcp) (out : List WireByte) (rc : Int) :
    ((net.send x out rc).sockets y).listenPort = (net.sockets y).listenPort := by
  by_cases hy : y = x <;> simp [hy]

/-- Closing one socket does not stop another from listening. -/
theorem sockCloseFast_listenPort (hy : y ≠ x) :
    ((sockCloseFast x s).net.sockets y).listenPort = (s.net.sockets y).listenPort := by
  unfold sockCloseFast
  split_ifs <;> simp [hy]

/-- Sending does not change what a socket listens on. -/
theorem telnetSendRaw_listenPort (i : PortIdx) (buf : List UInt8) :
    ((telnetSendRaw i buf a s).net.sockets y).listenPort = (s.net.sockets y).listenPort := by
  unfold telnetSendRaw
  cases (s.ports i).sock with
  | none => rfl
  | some x =>
      dsimp only
      split_ifs
      · rfl
      · exact send_listenPort _ _ _

theorem fossilFlushTx_listenPort (i : PortIdx) :
    ((fossilFlushTx i a s).net.sockets y).listenPort = (s.net.sockets y).listenPort := by
  have hLeft : ∀ x, ((flushLeftover i x a s).net.sockets y).listenPort =
      (s.net.sockets y).listenPort := by
    intro x
    unfold flushLeftover
    dsimp only
    by_cases hy : y = x <;> split_ifs <;> simp [hy]
  have hRing : ∀ (x : SockId) (u : Sys), ((flushRing i x a u).net.sockets y).listenPort =
      (u.net.sockets y).listenPort := by
    intro x u
    unfold flushRing
    dsimp only
    by_cases hy : y = x <;> split_ifs <;> simp [hy]
  rcases fossilFlushTx_cases i a s with hNone | ⟨x, _, _, _, ⟨_, hOnly⟩ | ⟨_, hBoth⟩⟩
  · rw [hNone]
  · rw [hOnly]
    exact hLeft x
  · rw [hBoth]
    exact (hRing x _).trans (hLeft x)

theorem pollRx_listenPort (i : PortIdx) (tmp : List UInt8) (drop : Bool) :
    ((pollRx i x tmp drop a s).1.net.sockets y).listenPort = (s.net.sockets y).listenPort := by
  cases tmp with
  | nil => rfl
  | cons v rest =>
      rw [pollRx_net]
      unfold replied
      cases (telnetFilter (s.ports i) v).reply with
      | none => rfl
      | some buf => exact telnetSendRaw_listenPort i buf

/-- No effect changes how an untouched socket listens. -/
theorem Effect.listenPort_kept (h : Effect b a s t) (hy : s.Untouched y) :
    (t.net.sockets y).listenPort = (s.net.sockets y).listenPort := by
  have hFresh : ∀ {x : SockId} {net : Mtcp}, s.net.getSocket a.obtained = some (x, net) →
      net.sockets y = s.net.sockets y ∧ y ≠ x := by
    intro x net hGet
    obtain ⟨rfl, _, _, hSockets⟩ := getSocket_eq_some hGet
    have hNe : y ≠ s.net.next := Nat.ne_of_lt hy.lt_next
    exact ⟨by rw [hSockets, if_neg hNe], hNe⟩
  cases h with
  | quiet h => rw [h.net]
  | store i x v hSock h =>
      obtain ⟨_, rfl⟩ := storeTx_eq_some h
      rfl
  | purge i hb => simp
  | flush i hb => exact fossilFlushTx_listenPort i
  | write i buf hb => exact telnetSendRaw_listenPort i buf
  | filter i x tmp drop hb => exact pollRx_listenPort i tmp drop
  | receive i hb =>
      rcases pollRecv_cases i a s with hNone | ⟨x, hSock, _, _, hSome⟩
      · rw [hNone]
      · have hNe : y ≠ x := fun hyx => hy.ports i (hyx ▸ hSock)
        rw [hSome]
        split_ifs <;> simp [hNe]
  | close i why hb =>
      unfold closeSock
      cases hSock : (s.ports i).sock with
      | none => rfl
      | some x =>
          have hNe : y ≠ x := fun hyx => hy.ports i (hyx ▸ hSock)
          exact sockCloseFast_listenPort hNe
  | attach i x net hb hSock hAccept =>
      obtain ⟨k, _, rfl⟩ := accept_eq_some hAccept
      simp
  | reject x net msg hb hAccept =>
      have hNe : y ≠ x := fun hyx => hy.pending (hyx ▸ accept_mem hAccept)
      obtain ⟨k, _, rfl⟩ := accept_eq_some hAccept
      refine (sockCloseFast_listenPort hNe).trans ?_
      simp [hNe]
  | listenPort i tcpPort x net hb hFree hGet | listenHunt g tcpPort x net hb hFree hActive hGet
  | waste x net hGet =>
      obtain ⟨hSame, hNe⟩ := hFresh hGet
      simp [hNe, hSame]
  | drain n =>
      unfold closingDrain
      cases hEntry : s.closing[n]? with
      | none => rfl
      | some x =>
          have hNe : y ≠ x := fun hyx => hy.closing (hyx ▸ List.mem_of_getElem? hEntry)
          dsimp only
          split_ifs <;> simp [hNe]
  | extAlloc k x net hFree hGet =>
      obtain ⟨hSame, _⟩ := hFresh hGet
      simp [hSame]
  | extConnect k x hSock | extRecv k x hSock size rc hb =>
      have hNe : y ≠ x := fun hyx => hy.handles k (hyx ▸ hSock)
      simp [hNe]
  | extClose k x hSock =>
      have hNe : y ≠ x := fun hyx => hy.handles k (hyx ▸ hSock)
      exact sockCloseFast_listenPort hNe
  | extSend k x hSock out rc hb => exact send_listenPort _ _ _
  | _ => simp

/-- The listen socket of a port is kept, given up by a listen command, or opened on
the TCP port of the port. -/
theorem Effect.port_listen (h : Effect b a s t) (j : PortIdx) :
    ((t.ports j).listenSock = (s.ports j).listenSock ∧
        (t.ports j).localPort = (s.ports j).localPort) ∨
      (b.renews j ∧ (t.ports j).mode = .disc ∧ (t.ports j).listenSock = none) ∨
      ((s.ports j).listenSock = none ∧ (t.ports j).localPort = (s.ports j).localPort ∧
        ∃ x, (t.ports j).listenSock = some x ∧
          (t.net.sockets x).listenPort = some (s.ports j).localPort) := by
  cases h with
  | quiet h => exact .inl ⟨(h.port j).listenSock, (h.port j).localPort⟩
  | store i x v hSock h =>
      obtain ⟨_, rfl⟩ := storeTx_eq_some h
      exact .inl ⟨rfl, rfl⟩
  | filter i x tmp drop hb =>
      obtain ⟨_, _, hListen, _, _, hLocal, _⟩ := pollRx_call i a s x tmp drop j
      exact .inl ⟨hListen, hLocal⟩
  | receive i hb =>
      rcases pollRecv_cases i a s with hNone | ⟨x, _, _, _, hSome⟩
      · rw [hNone]
        exact .inl ⟨rfl, rfl⟩
      · rw [hSome]
        by_cases hj : j = i <;> split_ifs <;> exact .inl ⟨by simp [hj], by simp [hj]⟩
  | read i n | clearRx i hb | clearRemote i hb | close i why hb =>
      by_cases hj : j = i <;> exact .inl ⟨by simp [hj], by simp [hj]⟩
  | attach i x net hb hNone hAccept =>
      by_cases hj : j = i <;>
        exact .inl ⟨by simp [hj, telnetReset], by simp [hj, telnetReset]⟩
  | reconfigure i f hb hf =>
      by_cases hj : j = i
      · subst hj
        exact .inr (.inl ⟨hb, by simp [(hf _).mode], by simp [(hf _).listenSock]⟩)
      · exact .inl ⟨by simp [hj], by simp [hj]⟩
  | listenPort i tcpPort x net hb hFree hGet hPort =>
      by_cases hj : j = i
      · subst hj
        exact .inr (.inr ⟨hFree, by simp, x, by simp, by simp [hPort]⟩)
      · exact .inl ⟨by simp [hj], by simp [hj]⟩
  | modes f hb => exact .inl ⟨rfl, rfl⟩
  | _ => exact .inl ⟨by simp, by simp⟩

/-- The same for the listen socket of a group. -/
theorem Effect.group_listen (h : Effect b a s t) (g : GroupIdx) :
    t.huntGroups g = s.huntGroups g ∨ (t.huntGroups g).listenSock = none ∨
      ∃ x, (t.huntGroups g).listenSock = some x ∧
        (t.net.sockets x).listenPort = some (t.huntGroups g).tcpPort := by
  cases h with
  | quiet h => exact .inl (by rw [h.huntGroups])
  | store i x v hSock h =>
      obtain ⟨_, rfl⟩ := storeTx_eq_some h
      exact .inl rfl
  | receive i hb =>
      rcases pollRecv_cases i a s with hNone | ⟨x, _, _, _, hSome⟩
      · rw [hNone]
        exact .inl rfl
      · rw [hSome]
        split_ifs <;> exact .inl rfl
  | group g' tcpPort mask hb hFree =>
      by_cases hg : g = g'
      · exact .inr (.inl (by simp [hg]))
      · exact .inl (by simp [hg])
  | listenHunt g' tcpPort x net hb hFree hActive hGet hPort =>
      by_cases hg : g = g'
      · subst hg
        exact .inr (.inr ⟨x, by simp, by simp [hPort]⟩)
      · exact .inl (by simp [hg])
  | _ => exact .inl (by simp)

end Sockets

section Configuration

variable {b : Block} {a : Answer} {s t : Sys} {i : PortIdx}

theorem SameLine.refl (i : PortIdx) (s : Sys) : SameLine i s s := ⟨rfl, rfl, rfl⟩

theorem SameLine.trans {u : Sys} (left : SameLine i s t) (right : SameLine i t u) :
    SameLine i s u where
  initialized := right.initialized.trans left.initialized
  localPort := right.localPort.trans left.localPort
  huntGroupIdx := right.huntGroupIdx.trans left.huntGroupIdx

theorem SameLine.of_eq (h : t.ports i = s.ports i) : SameLine i s t := by
  constructor <;> rw [h]

theorem pollRx_sameLine (j : PortIdx) (x : SockId) (tmp : List UInt8) (drop : Bool) :
    SameLine i s (pollRx j x tmp drop a s).1 := by
  by_cases hi : i = j
  · subst hi
    cases tmp with
    | nil => exact .refl i s
    | cons v rest =>
        obtain ⟨_, _, _, _, _, _, hLocal, hInit, hHunt, _⟩ := telnetFilter_frame (s.ports i) v
        rw [pollRx_cons]
        dsimp only
        split_ifs <;> exact ⟨by simp [hInit], by simp [hLocal], by simp [hHunt]⟩
  · exact .of_eq (by simp [hi])

/-- Only the two listen commands change how a port is configured. -/
theorem Effect.sameLine (h : Effect b a s t) (i : PortIdx) :
    SameLine i s t ∨ (b.renews i ∧ (t.ports i).mode = .disc) := by
  cases h with
  | quiet h => exact .inl ⟨(h.port i).initialized, (h.port i).localPort, (h.port i).huntGroupIdx⟩
  | store j x v hSock h =>
      obtain ⟨_, rfl⟩ := storeTx_eq_some h
      exact .inl (.of_eq rfl)
  | filter j x tmp drop hb => exact .inl (pollRx_sameLine j x tmp drop)
  | receive j hb =>
      rcases pollRecv_cases j a s with hNone | ⟨x, _, _, _, hSome⟩
      · rw [hNone]
        exact .inl (.refl i s)
      · rw [hSome]
        by_cases hi : i = j <;> split_ifs <;>
          exact .inl ⟨by simp [hi], by simp [hi], by simp [hi]⟩
  | read j n | clearRx j hb | clearRemote j hb | close j why hb
  | listenPort j tcpPort y net hb hFree hGet =>
      by_cases hi : i = j <;> exact .inl ⟨by simp [hi], by simp [hi], by simp [hi]⟩
  | attach j x net hb hNone hAccept =>
      by_cases hi : i = j <;>
        exact .inl ⟨by simp [hi, telnetReset], by simp [hi, telnetReset], by simp [hi, telnetReset]⟩
  | reconfigure j f hRenews hf =>
      by_cases hi : i = j
      · subst hi
        exact .inr ⟨hRenews, by simp [(hf _).mode]⟩
      · exact .inl (.of_eq (by simp [hi]))
  | modes f hb => exact .inl ⟨rfl, rfl, rfl⟩
  | _ => exact .inl (.of_eq (by simp))

/-- Only the control commands configure a port. The induction is on the effects of the
block. -/
theorem Effects.sameLine (h : Effects b a s t) (hb : b.reconfigures = false) (i : PortIdx) :
    SameLine i s t := by
  induction h with
  | refl => exact .refl i s
  | tail _ last ih =>
      rcases last.sameLine i with hSame | ⟨hRenews, _⟩
      · exact ih.trans hSame
      · simp [Block.reconfigures_of_renews hRenews] at hb

/-- A listen socket that is held stays held. -/
theorem Effects.listens_mono (h : Effects b a s t) (hb : b.reconfigures = false)
    (hSome : (s.ports i).listenSock.isSome) : (t.ports i).listenSock.isSome := by
  induction h with
  | refl => exact hSome
  | tail _ last ih =>
      rcases last.port_listen i with ⟨hSame, _⟩ | ⟨hRenews, _⟩ | ⟨_, _, x, hNew, _⟩
      · rw [hSame]
        exact ih
      · simp [Block.reconfigures_of_renews hRenews] at hb
      · rw [hNew]
        rfl

end Configuration

/-- Held listen sockets listen where their holders say, in every reachable state. -/
theorem Sys.ListensRight.stable : Stable fun s => s.Ledger ∧ s.ListensRight := by
  refine Sys.Ledger.stable.strengthen (fun tick x tcpPort h => ?_) ?_ ?_
  · rcases h with ⟨i, hHeld, _⟩ | ⟨g, hHeld, _⟩ <;> cases hHeld
  · intro b a s t hEffect hLedger h x tcpPort hListener
    have hKept : s.Listener x tcpPort → (t.net.sockets x).listenPort = some tcpPort :=
      fun hOld => (hEffect.listenPort_kept (hLedger.untouched hOld)).trans (h x tcpPort hOld)
    rcases hListener with ⟨i, hHeld, rfl⟩ | ⟨g, hHeld, rfl⟩
    · rcases hEffect.port_listen i
        with ⟨hSock, hPort⟩ | ⟨_, _, hNone⟩ | ⟨_, hPort, y, hNew, hListens⟩
      · exact hKept (.inl ⟨i, hSock ▸ hHeld, hPort.symm⟩)
      · rw [hNone] at hHeld
        cases hHeld
      · obtain rfl := Option.some.inj (hNew.symm.trans hHeld)
        rw [hPort]
        exact hListens
    · rcases hEffect.group_listen g with hSame | hNone | ⟨y, hNew, hListens⟩
      · exact hKept (.inr ⟨g, hSame ▸ hHeld, by rw [hSame]⟩)
      · rw [hNone] at hHeld
        cases hHeld
      · obtain rfl := Option.some.inj (hNew.symm.trans hHeld)
        exact hListens
  · intro e s t hOut hLedger h x tcpPort hListener
    rcases outside_cases hOut with ⟨tick, rfl⟩ | ⟨port, host, remote, rfl⟩ | ⟨y, bs, _, rfl⟩
    · exact h x tcpPort hListener
    · have hNe : x ≠ s.net.next := Nat.ne_of_lt (hLedger.untouched hListener).lt_next
      simpa [Mtcp.arrive, hNe] using h x tcpPort hListener
    · have hOld := h x tcpPort hListener
      by_cases hxy : x = y <;> simpa [hxy] using hOld

/-- A standalone port that takes callers, or has one, holds a listen socket. -/
def PortState.Ready (p : PortState) : Prop :=
  p.huntGroupIdx = none → p.mode ≠ .disc → p.listenSock.isSome

/-- Every port in the list of a group belongs to a group. -/
def Sys.MasksMatch (s : Sys) : Prop :=
  ∀ g j, (s.huntGroups g).active → hasPort (s.huntGroups g).portMask j →
    (s.ports j).huntGroupIdx ≠ none

/-- Ports that have begun to take callers hold a listen socket or share that of a
group. -/
def Sys.Relists (s t : Sys) : Prop :=
  ∀ j, (t.ports j).mode = .disc ∨ (s.ports j).mode ≠ .disc ∨ (t.ports j).listenSock.isSome ∨
    (t.ports j).huntGroupIdx ≠ none

section Relisting

variable {b : Block} {a : Answer} {s t u : Sys} {i j : PortIdx} {rest : List Block}

/-- A port whose mode did not change has not begun to take callers. -/
theorem relists_of_mode (h : (t.ports j).mode = (s.ports j).mode) :
    (t.ports j).mode = .disc ∨ (s.ports j).mode ≠ .disc ∨ (t.ports j).listenSock.isSome ∨
      (t.ports j).huntGroupIdx ≠ none := by
  rw [h]
  exact (em _).imp_right .inl

/-- Where no mode changes, no port begins to take callers. -/
theorem Sys.Relists.of_modes (h : ∀ j, (t.ports j).mode = (s.ports j).mode) : s.Relists t :=
  fun j => relists_of_mode (h j)

/-- A port that is given a listen socket may begin to take callers. -/
theorem Sys.Relists.opened (hOpen : u.ports = s.ports) (f : PortState → PortState)
    (hListens : (f (s.ports i)).listenSock.isSome) : s.Relists (u.modPort i f) := by
  intro j
  by_cases hj : j = i
  · exact .inr (.inr (.inl (by simpa [hj, hOpen] using hListens)))
  · exact relists_of_mode (by simp [hj, hOpen])

/-- A port without a call listens when it has something to listen on. -/
theorem enterIdleMode_relists (hMode : ∀ j, (u.ports j).mode = (s.ports j).mode) :
    s.Relists (enterIdleMode i u) := by
  intro j
  by_cases hj : j = i
  · subst hj
    simp only [enterIdleMode, Sys.modPort_ports, ↓reduceIte, PortState.idleMode]
    split_ifs with hListen hHunt
    · exact .inr (.inr (.inl hListen))
    · exact .inr (.inr (.inr (Option.isSome_iff_ne_none.mp hHunt)))
    · exact .inl rfl
  · exact relists_of_mode (by simpa [enterIdleMode, hj] using hMode j)

/-- A port that accepts a call took callers before, or shares the socket of its group.
-/
theorem acceptCall_relists (x : SockId)
    (hTakes : (s.ports i).mode ≠ .disc ∨ (s.ports i).huntGroupIdx ≠ none) :
    s.Relists (acceptCall i x s).1 := by
  intro j
  by_cases hj : j = i
  · subst hj
    rcases hTakes with hMode | hHunt
    · exact .inr (.inl hMode)
    · exact .inr (.inr (.inr (by simpa [telnetReset] using hHunt)))
  · exact relists_of_mode (by simp [hj])

/-- A hunt group connects its callers to members, and members share its socket. -/
theorem pollHunt_relists (g : GroupIdx) (hMasks : s.MasksMatch) :
    s.Relists (pollHunt g a s).1 := by
  unfold pollHunt
  split_ifs with hOpen
  · split
    next => exact .of_modes fun _ => rfl
    next x net _ =>
      split
      next j hMember =>
        have hLists := List.find?_some hMember
        simp only [Bool.and_eq_true, decide_eq_true_eq] at hLists
        exact acceptCall_relists (s := s.setNet net) x (.inr (hMasks g j hOpen.1 hLists.1.1))
      next => exact .of_modes fun j => by simp
  · exact .of_modes fun _ => rfl

/-- A standalone port accepts a call on a listen socket of its own. -/
theorem pollPort_relists (hModes : s.ModesAgree) : s.Relists (pollPort i a s).1 := by
  unfold pollPort
  by_cases hInit : (s.ports i).initialized
  · rw [if_pos hInit]
    cases hMode : (s.ports i).mode with
    | disc => exact .of_modes fun _ => rfl
    | listen =>
        have hSock := hModes.sock_eq_none (i := i) (by simp [hMode])
        dsimp only
        by_cases hHunt : (s.ports i).huntGroupIdx.isSome
        · rw [if_pos hHunt]
          exact .of_modes fun _ => rfl
        · rw [if_neg hHunt]
          split
          next => exact .of_modes fun _ => rfl
          next x net _ =>
            rw [closeSock_of_none (s := s.setNet net) i hSock]
            exact acceptCall_relists (s := s.setNet net) x (.inl (by simp [hMode]))
    | conn =>
        dsimp only
        rw [if_neg (Option.isSome_iff_ne_none.mp ((hModes i).mp hMode))]
        have hReject : (rejectBusy i a s).ports = s.ports := by
          unfold rejectBusy
          split_ifs
          · split
            next => rfl
            next x net _ => exact (rejectCall_frame x (s.setNet net) lineBusyMsg a).1
          · rfl
        exact .of_modes fun j => by rw [hReject]
  · rw [if_neg hInit]
    exact .of_modes fun _ => rfl

/-- A port that goes back to its idle mode listens only where it can. -/
theorem answered_relists : s.Relists (answered i s).1 := by
  unfold answered
  split_ifs
  · exact .of_modes fun _ => rfl
  · exact enterIdleMode_relists fun _ => rfl
  · exact .of_modes fun j => by by_cases hj : j = i <;> simp [hj]
  · exact .of_modes fun _ => rfl

/-- AH=04h lets a port listen on the socket it has just opened, or on that of its group.
-/
theorem initListen_relists : s.Relists (initListen i a s) := by
  unfold initListen
  cases hHunt : (s.ports i).huntGroupIdx with
  | some g =>
      dsimp -zeta only
      extract_lets opened
      have hPorts : ∀ j, opened.ports j = s.ports j := by
        intro j
        unfold opened
        split
        next =>
          have hOpen := openListen_ports (a := a) (s := s) (s.huntGroups g).tcpPort
          rcases hRes : openListen (s.huntGroups g).tcpPort a s with ⟨u, _ | x⟩ <;> simp_all
        next => rfl
      intro j
      by_cases hj : j = i
      · subst hj
        refine .inr (.inr (.inr ?_))
        split_ifs <;> simp [hPorts, hHunt]
      · refine relists_of_mode ?_
        split_ifs <;> simp [hPorts, hj]
  | none =>
      dsimp only
      split
      next =>
        split
        next =>
          have hOpen := openListen_ports (a := a) (s := s) (s.ports i).localPort
          rcases hRes : openListen (s.ports i).localPort a s with ⟨u, _ | x⟩
          · rw [hRes] at hOpen
            exact .of_modes fun j => by rw [hOpen]
          · rw [hRes] at hOpen
            exact .opened hOpen _ rfl
        next hHeld =>
          exact .opened rfl _ (Option.isSome_iff_ne_none.mpr hHeld)
      next => exact .of_modes fun _ => rfl

/-- A port that listens from the installation on has its socket opened with it. -/
theorem preallocate_relists (eager : Bool) : s.Relists (preallocate i eager a s) := by
  unfold preallocate
  split
  next =>
    have hOpen := openListen_ports (a := a) (s := s) (s.ports i).localPort
    rcases hRes : openListen (s.ports i).localPort a s with ⟨u, _ | x⟩
    · rw [hRes] at hOpen
      exact .of_modes fun j => by rw [hOpen]
    · rw [hRes] at hOpen
      exact .opened hOpen _ rfl
  next => exact .of_modes fun _ => rfl

/-- Members of a group that listen from the installation on share the socket of the
group. -/
theorem preallocateHunt_relists (g : GroupIdx) (eager : Bool) (hMasks : s.MasksMatch) :
    s.Relists (preallocateHunt g eager a s) := by
  unfold preallocateHunt
  split
  next hActive =>
    have hOpen := openListen_ports (a := a) (s := s) (s.huntGroups g).tcpPort
    rcases hRes : openListen (s.huntGroups g).tcpPort a s with ⟨u, _ | x⟩
    · rw [hRes] at hOpen
      exact .of_modes fun j => by rw [hOpen]
    · have hGroups : u.huntGroups = s.huntGroups := by
        rcases openListen_cases (s.huntGroups g).tcpPort a s with hNone | ⟨_, _, _, hSome | hFail⟩
        · simp [hNone] at hRes
        · obtain rfl : s.setNet _ = u := congrArg Prod.fst (hSome.symm.trans hRes)
          rfl
        · simp [hFail] at hRes
      simp only [hRes] at hOpen
      cases eager with
      | false => exact .of_modes fun j => by simp [hOpen]
      | true =>
          intro j
          by_cases hj : hasPort (s.huntGroups g).portMask j
          · have hMember := hMasks g j hActive.1 hj
            exact .inr (.inr (.inr (by simpa [hOpen, hGroups, hj] using hMember)))
          · exact relists_of_mode (by simp [hOpen, hGroups, hj])
  next => exact .of_modes fun _ => rfl

/-- The blocks that change the mode of a port do so for a listen socket. -/
theorem exec_relists (hSound : Config.Sound ⟨s, b :: rest⟩) (hMasks : s.MasksMatch)
    (hSets : b.setsMode ∨ b.accepts) : s.Relists (exec b a s).1 := by
  cases b with
  | preallocate i eager => exact preallocate_relists eager
  | preallocateHunt g eager => exact preallocateHunt_relists g eager hMasks
  | ringTimeout i =>
      refine enterIdleMode_relists (u := atNoCarrier i (clearRx i (closeSock i .ringTimeout s)))
        fun j => (((atNoCarrier_quiet i _).port j).mode).trans ?_
      by_cases hj : j = i <;> simp [hj]
  | hunt g => exact pollHunt_relists g hMasks
  | port i => exact pollPort_relists hSound.modes
  | answered i => exact answered_relists
  | pollClose i silent =>
      cases silent with
      | true => exact enterIdleMode_relists fun j => (closed_calls i .pollClose j).1
      | false =>
          exact enterIdleMode_relists fun j =>
            (((atSendNoCarrier_quiet i _).port j).mode).trans (closed_calls i .pollClose j).1
  | idleClose i =>
      exact enterIdleMode_relists fun j =>
        (((atSendNoCarrier_quiet i _).port j).mode).trans (closed_calls i .idle j).1
  | disconnected i now =>
      show s.Relists (pollDisconnected i now a s)
      unfold pollDisconnected
      cases (s.ports i).sock with
      | none => exact .of_modes fun _ => rfl
      | some x =>
          dsimp only
          split_ifs
          · exact enterIdleMode_relists fun j =>
              (((atSendNoCarrier_quiet i _).port j).mode).trans (closed_calls i .remote j).1
          · exact .of_modes fun _ => rfl
  | initDisc i =>
      refine enterIdleMode_relists (u := clearRemote i (closeSock i .initDisc s)) fun j => ?_
      by_cases hj : j = i <;> simp [hj]
  | initFinish i =>
      have hReset := initReset_quiet i s
      have hListen := initListen_relists (i := i) (a := a) (s := initReset i s)
      intro j
      rw [← (hReset.port j).mode]
      exact hListen j
  | _ => simp [Block.setsMode, Block.accepts] at hSets

/-- Ports that take callers go on holding a listen socket. -/
theorem exec_ready (hSound : Config.Sound ⟨s, b :: rest⟩) (hMasks : s.MasksMatch) (a : Answer)
    (h : ∀ j, (s.ports j).Ready) (j : PortIdx) : ((exec b a s).1.ports j).Ready := by
  have hEffects := hSound.effects a
  by_cases hSets : b.setsMode ∨ b.accepts
  · have hb : b.reconfigures = false := by
      cases b with
      | mux m => simp [Block.setsMode, Block.accepts] at hSets
      | _ => rfl
    intro hHunt hMode
    have hLine := hEffects.sameLine hb j
    rcases exec_relists (a := a) hSound hMasks hSets j with hDisc | hOld | hListen | hGroup
    · exact absurd hDisc hMode
    · exact hEffects.listens_mono hb (h j (hLine.huntGroupIdx ▸ hHunt) hOld)
    · exact hListen
    · exact absurd hHunt hGroup
  · rw [not_or, Bool.not_eq_true, Bool.not_eq_true] at hSets
    generalize (exec b a s).1 = t at hEffects ⊢
    induction hEffects with
    | refl => exact h j
    | tail _ last ih =>
        intro hHunt hMode
        rcases last.sameLine j with hLine | ⟨_, hDisc⟩
        · rcases last.calls hSets.1 hSets.2 j with ⟨hSame, _⟩ | ⟨_, hDisc, _⟩
          · have hSome := ih (hLine.huntGroupIdx ▸ hHunt) (hSame ▸ hMode)
            rcases last.port_listen j with ⟨hKept, _⟩ | ⟨_, hDisc, _⟩ | ⟨hNone, _⟩
            · rw [hKept]
              exact hSome
            · exact absurd hDisc hMode
            · simp [hNone] at hSome
          · exact absurd hDisc hMode
        · exact absurd hDisc hMode

end Relisting

end Vmodem
