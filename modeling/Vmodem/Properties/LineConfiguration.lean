import Vmodem.Invariants.Listening
import Vmodem.Invariants.Past

/-! The line configuration: which TCP port a COM port answers. A hunt group keeps
its members in a mask and every member keeps its group, and MUX_LISTEN and
MUX_HUNT_LISTEN each write only some of this. -/

namespace Vmodem

/-- A listen command, as one of the ports it names sees it. -/
inductive ListenCommand where
  | listen (port : UInt16)
  | hunt (port : UInt16)
  deriving DecidableEq, Repr

/-- The TCP port it asks for. -/
def ListenCommand.port : ListenCommand → UInt16
  | .listen port | .hunt port => port

/-- The listen command for port `i` that a step carries out. -/
def listenCommand (i : PortIdx) (st : Config × Action) : Option ListenCommand :=
  match st.2, st.1.todo with
  | .run _, .mux (.listen j port) :: _ => if j = i then some (.listen port) else none
  | .run _, .mux (.huntListen mask port) :: _ => if hasPort mask i then some (.hunt port) else none
  | _, _ => none

/-- The last listen command for port `i`. -/
def lastListen (i : PortIdx) (past : Past) : Option ListenCommand :=
  past.findSome? (listenCommand i)

/-- No group lists the port and the port is in no group. -/
def Sys.Standalone (s : Sys) (i : PortIdx) : Prop :=
  (s.ports i).huntGroupIdx = none ∧
    ∀ g, (s.huntGroups g).active → hasPort (s.huntGroups g).portMask i = false

/-- The port is in one active group, the only one to list it, and on its TCP port. -/
def Sys.Member (s : Sys) (i : PortIdx) (g : GroupIdx) : Prop :=
  (s.ports i).huntGroupIdx = some g ∧ (s.ports i).localPort = (s.huntGroups g).tcpPort ∧
    ∀ g', ((s.huntGroups g').active ∧ hasPort (s.huntGroups g').portMask i) ↔ g' = g

instance (s : Sys) (i : PortIdx) : Decidable (s.Standalone i) := inferInstanceAs (Decidable (_ ∧ _))

instance (s : Sys) (i : PortIdx) (g : GroupIdx) : Decidable (s.Member i g) :=
  inferInstanceAs (Decidable (_ ∧ _))

/-- The TCP port on which AH=04h listens for a COM port. -/
def Sys.listensOn (s : Sys) (i : PortIdx) : Option UInt16 :=
  match (s.ports i).huntGroupIdx with
  | some g => if (s.huntGroups g).active then some (s.huntGroups g).tcpPort else none
  | none => if (s.ports i).localPort = 0 then none else some (s.ports i).localPort

/-- The listen socket AH=04h uses for a port: its own or that of its group. -/
def Sys.heldListen (s : Sys) (i : PortIdx) : Option SockId :=
  match (s.ports i).huntGroupIdx with
  | some g => (s.huntGroups g).listenSock
  | none => (s.ports i).listenSock

/-- The port takes callers, or has one, and a socket listens for it on a TCP port. -/
structure Sys.AnswersOn (s : Sys) (i : PortIdx) (tcpPort : UInt16) : Prop where
  mode : (s.ports i).mode ≠ .disc
  socket : ∃ x, s.heldListen i = some x ∧ (s.net.sockets x).listenPort = some tcpPort

/-- The configuration of a port is what the last listen command for it asked for. -/
def Sys.Configured (s : Sys) (i : PortIdx) : Option ListenCommand → Prop
  | none => (s.ports i).initialized = false ∧ s.Standalone i
  | some (.listen port) =>
      (s.ports i).initialized ∧ s.Standalone i ∧ (s.ports i).localPort = port
  | some (.hunt port) =>
      (s.ports i).initialized ∧ ∃ g, s.Member i g ∧ (s.huntGroups g).tcpPort = port

/-- A listen command of this step names only ports that are in no hunt group, and finds
a free slot if it is to make one. -/
def namesFreePorts (c : Config) (act : Action) : Bool :=
  match act, c.todo with
  | .run _, .mux (.listen i _) :: _ => (c.sys.ports i).huntGroupIdx = none
  | .run _, .mux (.huntListen mask _) :: _ =>
      (freeGroup c.sys).isSome &&
        decide (∀ i, hasPort mask i → (c.sys.ports i).huntGroupIdx = none)
  | _, _ => true

/-- The groups are the same but for their listen sockets. -/
def SameGroups (s t : Sys) : Prop :=
  ∀ g, ∃ sock, t.huntGroups g = { s.huntGroups g with listenSock := sock }

section Frame

variable {b : Block} {a : Answer} {s t : Sys} {i : PortIdx}

theorem SameGroups.refl (s : Sys) : SameGroups s s := fun g => ⟨(s.huntGroups g).listenSock, rfl⟩

theorem SameGroups.of_eq (h : t.huntGroups = s.huntGroups) : SameGroups s t := by
  intro g
  exact ⟨(s.huntGroups g).listenSock, by rw [h]⟩

theorem SameGroups.trans {u : Sys} (left : SameGroups s t) (right : SameGroups t u) :
    SameGroups s u := by
  intro g
  obtain ⟨first, hFirst⟩ := left g
  obtain ⟨second, hSecond⟩ := right g
  exact ⟨second, by rw [hSecond, hFirst]⟩

theorem Effect.sameGroups (h : Effect b a s t) (hb : b.reconfigures = false) : SameGroups s t := by
  cases h with
  | quiet h => exact .of_eq h.huntGroups
  | store j x v hSock h =>
      obtain ⟨_, rfl⟩ := storeTx_eq_some h
      exact .of_eq rfl
  | receive j hb =>
      rcases pollRecv_cases j a s with hNone | ⟨x, _, _, _, hSome⟩
      · rw [hNone]
        exact .refl s
      · rw [hSome]
        split_ifs <;> exact .of_eq rfl
  | group g tcpPort mask hGroup => simp [hb] at hGroup
  | reconfigure j f hRenews hf => simp [Block.reconfigures_of_renews hRenews] at hb
  | listenHunt g tcpPort x net hb hFree hActive hGet =>
      intro g'
      by_cases hg : g' = g
      · exact ⟨some x, by simp [hg]⟩
      · exact ⟨(s.huntGroups g').listenSock, by simp [hg]⟩
  | attach j x net | reject x net msg | waste x net => exact .of_eq (by simp [Sys.setNet])
  | purge => exact .of_eq (by simp [Sys.log])
  | extClose => exact .of_eq (by simp [Sys.modExt])
  | flush | write | filter | read | clearRx | close | drain => exact .of_eq (by simp)
  | clearRemote | modes | listenPort | extTouch | extAlloc | extConnect | extSend | extRecv =>
      exact .of_eq rfl

theorem Effects.sameGroups (h : Effects b a s t) (hb : b.reconfigures = false) :
    SameGroups s t := by
  induction h with
  | refl => exact .refl s
  | tail _ last ih => exact ih.trans (last.sameGroups hb)

/-- What the listen commands write is all that the configuration is read from. -/
theorem Sys.Configured.congr {command : Option ListenCommand} (hLine : SameLine i s t)
    (hGroups : SameGroups s t) (h : s.Configured i command) : t.Configured i command := by
  have hGroup : ∀ g, (t.huntGroups g).active = (s.huntGroups g).active ∧
      (t.huntGroups g).portMask = (s.huntGroups g).portMask ∧
      (t.huntGroups g).tcpPort = (s.huntGroups g).tcpPort := by
    intro g
    obtain ⟨_, hg⟩ := hGroups g
    rw [hg]
    exact ⟨rfl, rfl, rfl⟩
  cases command with
  | none =>
      simpa [Sys.Configured, Sys.Standalone, hLine.initialized, hLine.huntGroupIdx, hGroup] using h
  | some command =>
      cases command with
      | listen port =>
          simpa [Sys.Configured, Sys.Standalone, hLine.initialized, hLine.huntGroupIdx,
            hLine.localPort, hGroup] using h
      | hunt port =>
          simpa [Sys.Configured, Sys.Member, hLine.initialized, hLine.huntGroupIdx,
            hLine.localPort, hGroup] using h

end Frame

section Commands

variable {a : Answer} {s : Sys} {i : PortIdx}

theorem cmdListen_sameLine {j : PortIdx} (hj : j ≠ i) (tcpPort : UInt16) :
    SameLine i s (cmdListen j tcpPort s) := by
  have hQuiet := cmdDisconnect_quiet j s
  have hLine : SameLine i s (cmdDisconnect j s) :=
    ⟨(hQuiet.port i).initialized, (hQuiet.port i).localPort, (hQuiet.port i).huntGroupIdx⟩
  refine hLine.trans ?_
  unfold cmdListen
  exact .of_eq (by simp [hj.symm])

theorem cmdListen_port (tcpPort : UInt16) :
    ((cmdListen i tcpPort s).ports i).initialized ∧
      ((cmdListen i tcpPort s).ports i).localPort = tcpPort ∧
      ((cmdListen i tcpPort s).ports i).huntGroupIdx = (s.ports i).huntGroupIdx := by
  have hHunt := ((cmdDisconnect_quiet i s).port i).huntGroupIdx
  simp [cmdListen, hHunt]

theorem cmdListen_groups (j : PortIdx) (tcpPort : UInt16) :
    (cmdListen j tcpPort s).huntGroups = s.huntGroups := by
  have hDropped : (logDropped j (cmdDisconnect j s)).huntGroups =
    (cmdDisconnect j s).huntGroups := by
    simp
  exact hDropped.trans (cmdDisconnect_quiet j s).huntGroups

/-- The loop of `cmd_hunt_listen` over the member ports. -/
theorem joinAll_spec (g : GroupIdx) (tcpPort : UInt16) (members : List PortIdx) (s : Sys) :
    let t := members.foldl (fun s i => joinGroup g tcpPort i s) s
    t.huntGroups = s.huntGroups ∧ ∀ i, if i ∈ members then
      (t.ports i).initialized ∧ (t.ports i).localPort = tcpPort ∧ (t.ports i).huntGroupIdx = some g
      else SameLine i s t := by
  induction members generalizing s with
  | nil => exact ⟨rfl, fun i => by simpa using SameLine.refl i s⟩
  | cons j members ih =>
      obtain ⟨hGroups, hPorts⟩ := ih (joinGroup g tcpPort j s)
      have hJoin : (joinGroup g tcpPort j s).huntGroups = s.huntGroups := by
        have hDropped : (logDropped j s).huntGroups = s.huntGroups := by simp
        exact hDropped
      refine ⟨hGroups.trans hJoin, fun i => ?_⟩
      have hOld := hPorts i
      by_cases hMem : i ∈ members
      · rw [if_pos hMem] at hOld
        rwa [if_pos (List.mem_cons_of_mem j hMem)]
      · rw [if_neg hMem] at hOld
        by_cases hi : i = j
        · subst hi
          rw [if_pos List.mem_cons_self]
          refine ⟨hOld.initialized.trans (by simp [joinGroup]),
            hOld.localPort.trans (by simp [joinGroup]),
            hOld.huntGroupIdx.trans (by simp [joinGroup])⟩
        · rw [if_neg (by simp [hi, hMem])]
          exact SameLine.trans (.of_eq (by simp [joinGroup, hi])) hOld

/-- MUX_HUNT_LISTEN fills the free group and makes the ports in its list members. -/
theorem cmdHuntListen_spec {mask : UInt8} {tcpPort : UInt16} {g : GroupIdx}
    (hFree : freeGroup s = some g) :
    let t := cmdHuntListen mask tcpPort s
    (∀ g', t.huntGroups g' = if g' = g then ⟨none, tcpPort, mask, true⟩ else s.huntGroups g') ∧
      ∀ i, if hasPort mask i then
        (t.ports i).initialized ∧ (t.ports i).localPort = tcpPort ∧
          (t.ports i).huntGroupIdx = some g
        else SameLine i s t := by
  have hJoin := joinAll_spec g tcpPort ((List.finRange 4).filter (hasPort mask))
    (s.modHunt g fun _ => ⟨none, tcpPort, mask, true⟩)
  simp only [cmdHuntListen, hFree]
  refine ⟨fun g' => ?_, fun i => ?_⟩
  · rw [hJoin.1]
    simp
  · have hPort := hJoin.2 i
    by_cases hi : hasPort mask i
    · rw [if_pos (by simp [hi])] at hPort
      rwa [if_pos hi]
    · rw [if_neg (by simp [hi])] at hPort
      rw [if_neg hi]
      refine SameLine.trans ?_ hPort
      exact .of_eq rfl

theorem freeGroup_inactive {g : GroupIdx} (h : freeGroup s = some g) :
    (s.huntGroups g).active = false := by
  simpa using List.find?_some h

end Commands

section Runs

variable {past : Past} {c : Config} {i : PortIdx} {s : Sys} {command : Option ListenCommand}

/-- A port that is in no group is in no group's list either. -/
theorem Sys.Configured.standalone (h : s.Configured i command)
    (hNone : (s.ports i).huntGroupIdx = none) : s.Standalone i := by
  cases command with
  | none => exact h.2
  | some command =>
      cases command with
      | listen port => exact h.2.1
      | hunt port =>
          obtain ⟨_, g, hMember, _⟩ := h
          simp [hMember.1] at hNone

/-- A new group changes nothing for the ports it does not list. -/
theorem Sys.Configured.keep {mask : UInt8} {tcpPort : UInt16} {g : GroupIdx}
    (h : s.Configured i command) (hFree : freeGroup s = some g) (hi : hasPort mask i = false) :
    (cmdHuntListen mask tcpPort s).Configured i command := by
  obtain ⟨hGroups, hPorts⟩ := @cmdHuntListen_spec s mask tcpPort _ hFree
  have hInactive := freeGroup_inactive hFree
  have hLine := hPorts i
  rw [if_neg (by simp [hi])] at hLine
  have hStandalone : s.Standalone i → (cmdHuntListen mask tcpPort s).Standalone i := by
    intro hOld
    refine ⟨hLine.huntGroupIdx.trans hOld.1, fun g' hActive => ?_⟩
    rw [hGroups g'] at hActive ⊢
    by_cases hg : g' = g
    · rw [if_pos hg]
      exact hi
    · rw [if_neg hg] at hActive ⊢
      exact hOld.2 g' hActive
  have hMember : ∀ k, s.Member i k → (cmdHuntListen mask tcpPort s).Member i k ∧
      ((cmdHuntListen mask tcpPort s).huntGroups k).tcpPort = (s.huntGroups k).tcpPort := by
    intro k hOld
    have hActive : (s.huntGroups k).active := ((hOld.2.2 k).mpr rfl).1
    have hk : k ≠ g := by
      intro hk
      simp [hk, hInactive] at hActive
    have hSame := hGroups k
    rw [if_neg hk] at hSame
    refine ⟨⟨hLine.huntGroupIdx.trans hOld.1, ?_, fun g' => ?_⟩, by rw [hSame]⟩
    · rw [hSame]
      exact hLine.localPort.trans hOld.2.1
    · rw [hGroups g']
      by_cases hg : g' = g
      · rw [if_pos hg]
        refine ⟨fun hLists => ?_, fun hEq => absurd (hEq.symm.trans hg) hk⟩
        simp [hi] at hLists
      · rw [if_neg hg]
        exact hOld.2.2 g'
  cases command with
  | none => exact ⟨hLine.initialized.trans h.1, hStandalone h.2⟩
  | some command =>
      cases command with
      | listen port =>
          exact ⟨hLine.initialized.trans h.1, hStandalone h.2.1, hLine.localPort.trans h.2.2⟩
      | hunt port =>
          obtain ⟨hInit, k, hOld, hPort⟩ := h
          obtain ⟨hNew, hSame⟩ := hMember k hOld
          exact ⟨hLine.initialized.trans hInit, k, hNew, hSame.trans hPort⟩

/-- The ports a new group lists are its members when they were in none before. -/
theorem Sys.Standalone.join {mask : UInt8} {tcpPort : UInt16} {g : GroupIdx}
    (h : s.Standalone i) (hFree : freeGroup s = some g) (hi : hasPort mask i) :
    (cmdHuntListen mask tcpPort s).Configured i (some (.hunt tcpPort)) := by
  obtain ⟨hGroups, hPorts⟩ := @cmdHuntListen_spec s mask tcpPort _ hFree
  have hPort := hPorts i
  rw [if_pos hi] at hPort
  have hNew := hGroups g
  rw [if_pos rfl] at hNew
  refine ⟨hPort.1, g, ⟨hPort.2.2, by rw [hNew]; exact hPort.2.1, fun g' => ?_⟩, by rw [hNew]⟩
  rw [hGroups g']
  by_cases hg : g' = g
  · rw [if_pos hg]
    exact ⟨fun _ => hg, fun _ => ⟨rfl, hi⟩⟩
  · rw [if_neg hg]
    refine ⟨fun hLists => ?_, fun hEq => absurd hEq hg⟩
    simp [h.2 g' hLists.1] at hLists

/-- MUX_LISTEN for a port that is in no group. -/
theorem Sys.Standalone.listen {tcpPort : UInt16} (h : s.Standalone i) :
    (cmdListen i tcpPort s).Configured i (some (.listen tcpPort)) := by
  obtain ⟨hInit, hPort, hHunt⟩ := cmdListen_port (s := s) (i := i) tcpPort
  refine ⟨hInit, ⟨hHunt.trans h.1, fun g hActive => ?_⟩, hPort⟩
  rw [cmdListen_groups] at hActive ⊢
  exact h.2 g hActive

/-- A block leaves the configuration of every port the one its last listen command
asked for, unless it moves a port out of a group. -/
theorem configured_exec {b : Block} {rest : List Block} {a : Answer}
    (hReach : Reachable ⟨s, b :: rest⟩) (hFree : namesFreePorts ⟨s, b :: rest⟩ (.run a))
    (h : ∀ i, s.Configured i (lastListen i past)) (i : PortIdx) :
    (exec b a s).1.Configured i (lastListen i ((⟨s, b :: rest⟩, .run a) :: past)) := by
  have hEffects := hReach.sound.effects a
  have hOld := h i
  by_cases hb : b.reconfigures
  · cases b with
    | mux m =>
        cases m with
        | listen j port =>
            by_cases hj : j = i
            · subst hj
              have hNone : (s.ports j).huntGroupIdx = none := of_decide_eq_true hFree
              have hLast : lastListen j ((⟨s, .mux (.listen j port) :: rest⟩, .run a) :: past) =
                  some (.listen port) := by simp [lastListen, listenCommand]
              rw [hLast]
              exact (hOld.standalone hNone).listen
            · have hLast : lastListen i ((⟨s, .mux (.listen j port) :: rest⟩, .run a) :: past) =
                  lastListen i past := by simp [lastListen, listenCommand, hj]
              rw [hLast]
              exact hOld.congr (cmdListen_sameLine hj port) (.of_eq (cmdListen_groups j port))
        | huntListen mask port =>
            obtain ⟨hSlot, hNone⟩ := (Bool.and_eq_true _ _).mp hFree
            obtain ⟨g, hg⟩ := Option.isSome_iff_exists.mp hSlot
            by_cases hi : hasPort mask i
            · have hLast : lastListen i
                  ((⟨s, .mux (.huntListen mask port) :: rest⟩, .run a) :: past) =
                  some (.hunt port) := by simp [lastListen, listenCommand, hi]
              rw [hLast]
              exact (hOld.standalone (of_decide_eq_true hNone i hi)).join hg hi
            · have hLast : lastListen i
                  ((⟨s, .mux (.huntListen mask port) :: rest⟩, .run a) :: past) =
                  lastListen i past := by simp [lastListen, listenCommand, hi]
              rw [hLast]
              exact hOld.keep hg (by simpa using hi)
        | _ => cases hb
    | _ => cases hb
  · have hNot : b.reconfigures = false := by simpa using hb
    have hNothing : listenCommand i (⟨s, b :: rest⟩, .run a) = none := by
      cases b with
      | mux m =>
          cases m with
          | listen _ _ | huntListen _ _ => cases hNot
          | _ => rfl
      | _ => rfl
    have hLast : lastListen i ((⟨s, b :: rest⟩, .run a) :: past) = lastListen i past := by
      unfold lastListen
      rw [List.findSome?_cons, hNothing]
    rw [hLast]
    exact hOld.congr (hEffects.sameLine hNot i) (hEffects.sameGroups hNot)

/-- What the listen commands leave behind: every port is configured as the last of
them asked, and holds a listen socket if it takes callers. -/
structure Config.Consistent (past : Past) (c : Config) : Prop where
  configured : ∀ i, c.sys.Configured i (lastListen i past)
  ready : ∀ i, (c.sys.ports i).Ready

/-- The list of a group names only ports that belong to a group. -/
theorem Config.Consistent.masksMatch (h : c.Consistent past) : c.sys.MasksMatch := by
  intro g j hActive hLists hNone
  have hStandalone := (h.configured j).standalone hNone
  simp [hStandalone.2 g hActive] at hLists

/-- Every port stays configured as its last listen command asked for, in runs that
never move a port out of a group. -/
theorem consistent_of_reached (h : Reached past c)
    (hSteps : ∀ st ∈ past, namesFreePorts st.1 st.2) : c.Consistent past := by
  refine h.induct (A := fun c act => namesFreePorts c act) (P := fun past c => c.Consistent past)
    (fun _ _ _ => ⟨fun _ => ⟨rfl, rfl, fun _ hActive => nomatch hActive⟩,
      fun _ _ hMode => absurd rfl hMode⟩)
    (fun _ _ _ _ _ _ ih => ⟨ih.configured, ih.ready⟩)
    (fun past s b rest a hReach hFree ih => ?_) (fun past s t e todo _ _ hOut ih => ?_) hSteps
  · exact ⟨configured_exec hReach.reachable hFree ih.configured,
      exec_ready hReach.reachable.sound ih.masksMatch a ih.ready⟩
  · have hGroups : t.huntGroups = s.huntGroups := by
      rcases outside_cases hOut with ⟨tick, rfl⟩ | ⟨port, host, remote, rfl⟩ | ⟨x, bs, _, rfl⟩ <;>
        rfl
    have hPorts := outside_ports hOut
    refine ⟨fun i => ?_, fun i => ?_⟩
    · exact (ih.configured i).congr (.of_eq (by rw [hPorts])) (.of_eq hGroups)
    · show (t.ports i).Ready
      rw [hPorts]
      exact ih.ready i

end Runs

section Opening

variable {i : PortIdx} {a : Answer} {s : Sys} {tcpPort : UInt16}

/-- AH=04h ends in the block that opens the listen socket. -/
theorem int14_init_last (hInit : (s.ports i).initialized) :
    (int14 i .init s).2.getLast? = some (.initFinish i) := by
  unfold int14 initStart
  rw [if_pos hInit]
  dsimp only
  split_ifs <;> simp

/-- The listening part of AH=04h leaves a port that is configured with a listen socket. -/
theorem initListen_holds (hPort : s.listensOn i = some tcpPort) (hReady : (s.ports i).Ready)
    (hOpen : s.heldListen i = none → a.obtained ∧ a.succeeded) :
    ((initListen i a s).heldListen i).isSome ∧ ((initListen i a s).ports i).mode ≠ .disc := by
  unfold Sys.listensOn at hPort
  unfold Sys.heldListen at hOpen
  cases hHunt : (s.ports i).huntGroupIdx with
  | some g =>
      simp only [hHunt] at hPort hOpen
      split_ifs at hPort with hActive
      cases hHeld : (s.huntGroups g).listenSock with
      | none =>
          obtain ⟨hGot, hOk⟩ := hOpen hHeld
          by_cases hConn : (s.ports i).mode = .conn <;>
            simp [initListen, openListen, Mtcp.getSocket, Sys.heldListen, hHunt, hActive, hHeld,
              hGot, hOk, hConn]
      | some x =>
          by_cases hConn : (s.ports i).mode = .conn <;>
            simp [initListen, Sys.heldListen, hHunt, hHeld, hConn]
  | none =>
      simp only [hHunt] at hPort hOpen
      split_ifs at hPort with hZero
      cases hHeld : (s.ports i).listenSock with
      | none =>
          obtain ⟨hGot, hOk⟩ := hOpen hHeld
          by_cases hConn : (s.ports i).mode = .conn
          · have hSome := hReady hHunt (by simp [hConn])
            simp [hHeld] at hSome
          · simp [initListen, openListen, Mtcp.getSocket, Sys.heldListen, hHunt, hHeld, hGot,
              hOk, hConn, hZero]
      | some x =>
          by_cases hConn : (s.ports i).mode = .conn <;>
            simp [initListen, Sys.heldListen, hHunt, hHeld, hConn, hZero]

/-- A socket that is held for a configured port listens on the TCP port of the port. -/
theorem Sys.ListensRight.answersOn (h : s.ListensRight) (hPort : s.listensOn i = some tcpPort)
    (hHeld : (s.heldListen i).isSome) (hMode : (s.ports i).mode ≠ .disc) :
    s.AnswersOn i tcpPort := by
  obtain ⟨x, hx⟩ := Option.isSome_iff_exists.mp hHeld
  refine ⟨hMode, x, hx, ?_⟩
  unfold Sys.listensOn at hPort
  unfold Sys.heldListen at hx
  cases hHunt : (s.ports i).huntGroupIdx with
  | some g =>
      simp only [hHunt] at hPort hx
      split_ifs at hPort
      exact h x tcpPort (.inr ⟨g, hx, Option.some.inj hPort⟩)
  | none =>
      simp only [hHunt] at hPort hx
      split_ifs at hPort
      exact h x tcpPort (.inl ⟨i, hx, Option.some.inj hPort⟩)

/-- The TCP port of the last listen command is the one AH=04h listens on. -/
theorem Sys.Configured.listensOn {command : ListenCommand} (h : s.Configured i (some command))
    (hZero : command ≠ .listen 0) : s.listensOn i = some command.port := by
  cases command with
  | listen port =>
      obtain ⟨_, hStandalone, rfl⟩ := h
      have hPort : (s.ports i).localPort ≠ 0 := fun hEq => hZero (by rw [hEq])
      simp [Sys.listensOn, hStandalone.1, hPort, ListenCommand.port]
  | hunt port =>
      obtain ⟨_, g, hMember, rfl⟩ := h
      have hActive : (s.huntGroups g).active := ((hMember.2.2 g).mpr rfl).1
      simp [Sys.listensOn, hMember.1, hActive, ListenCommand.port]

/-- The reset in AH=04h is no matter of listen sockets. -/
theorem initReset_listens : (initReset i s).listensOn i = s.listensOn i ∧
    (initReset i s).heldListen i = s.heldListen i ∧
      ((s.ports i).Ready → ((initReset i s).ports i).Ready) := by
  have hQuiet := initReset_quiet i s
  have hPort := hQuiet.port i
  refine ⟨?_, ?_, ?_⟩
  · simp only [Sys.listensOn, hPort.huntGroupIdx, hPort.localPort, hQuiet.huntGroups]
  · simp only [Sys.heldListen, hPort.huntGroupIdx, hPort.listenSock, hQuiet.huntGroups]
  · simp only [PortState.Ready, hPort.huntGroupIdx, hPort.mode, hPort.listenSock]
    exact id

/-- At the end of AH=04h the port answers on the TCP port of its last listen command,
when a socket could be had for it. -/
theorem initFinish_answersOn {past : Past} {rest : List Block} {command : ListenCommand}
    (hReach : Reachable ⟨s, .initFinish i :: rest⟩)
    (hConsistent : Config.Consistent past ⟨s, .initFinish i :: rest⟩)
    (hOpen : s.heldListen i = none → a.obtained ∧ a.succeeded)
    (hLast : lastListen i past = some command) (hZero : command ≠ .listen 0) :
    (exec (.initFinish i) a s).1.AnswersOn i command.port := by
  have hEffects := hReach.sound.effects a
  have hConfigured : s.Configured i (some command) := hLast ▸ hConsistent.configured i
  have hRight := (Sys.ListensRight.stable.effects hEffects
    (Sys.ListensRight.stable.reachable hReach)).2
  have hPort := ((hConfigured.congr (hEffects.sameLine rfl i)
    (hEffects.sameGroups rfl)).listensOn hZero)
  obtain ⟨hSame, hHeld, hReady⟩ := initReset_listens (i := i) (s := s)
  have hHolds := initListen_holds (a := a) (hSame.trans (hConfigured.listensOn hZero))
    (hReady (hConsistent.ready i)) (hHeld.symm ▸ hOpen)
  exact hRight.answersOn hPort hHolds.1 hHolds.2

end Opening

/-- A port that is managed is a standalone port on the TCP port of the last MUX_LISTEN
for it, or in the one group that the last MUX_HUNT_LISTEN for it made, as long as
listen commands name ports that are in no group. The last listen command takes effect
at every AH=04h that has a listen socket or can get one: with the block it ends in, the
port takes callers on a socket that listens on the TCP port the command asked for. -/
theorem line_configuration {past : Past} {c : Config} (h : Reached past c)
    (hSteps : ∀ st ∈ past, namesFreePorts st.1 st.2) (i : PortIdx)
    (hManaged : (c.sys.ports i).initialized) :
    ((c.sys.Standalone i ∧ lastListen i past = some (.listen (c.sys.ports i).localPort) ∧
        ((c.sys.ports i).localPort ≠ 0 → c.sys.listensOn i = some (c.sys.ports i).localPort)) ∨
      ∃ g, c.sys.Member i g ∧ lastListen i past = some (.hunt (c.sys.huntGroups g).tcpPort) ∧
        c.sys.listensOn i = some (c.sys.huntGroups g).tcpPort) ∧
    (∀ a, (exec (.int14 i .init) a c.sys).2.getLast? = some (.initFinish i)) ∧
    ∀ a command, c.todo.head? = some (.initFinish i) →
      (c.sys.heldListen i = none → a.obtained ∧ a.succeeded) →
      lastListen i past = some command → command ≠ .listen 0 →
      (exec (.initFinish i) a c.sys).1.AnswersOn i command.port := by
  have hConsistent := consistent_of_reached h hSteps
  have hConfigured := hConsistent.configured i
  refine ⟨?_, fun _ => int14_init_last hManaged, fun a command hHead hOpen hLast hZero => ?_⟩
  · cases hLast : lastListen i past with
    | none =>
        rw [hLast] at hConfigured
        simp [hConfigured.1] at hManaged
    | some command =>
        rw [hLast] at hConfigured
        cases command with
        | listen port =>
            obtain ⟨_, hStandalone, hPort⟩ := hConfigured
            refine .inl ⟨hStandalone, by rw [hPort], fun hZero => ?_⟩
            simp [Sys.listensOn, hStandalone.1, hZero]
        | hunt port =>
            obtain ⟨_, g, hMember, hPort⟩ := hConfigured
            have hActive : (c.sys.huntGroups g).active := ((hMember.2.2 g).mpr rfl).1
            refine .inr ⟨g, hMember, by rw [hPort], ?_⟩
            simp [Sys.listensOn, hMember.1, hActive]
  · obtain ⟨s, todo⟩ := c
    obtain ⟨rest, rfl⟩ := List.head?_eq_some_iff.mp hHead
    exact initFinish_answersOn h.reachable hConsistent hOpen hLast hZero

/-- `/L:1:2323 /L:2-3:6400`; the first port is moved to 2424, and AH=04h on it comes
to the point where it listens. -/
def movedLine : List Move :=
  [.finish {}, .call (.mux (.listen 0 2424)) {}, .enter (.int14 0 .init), .run {}]

/-- A line moved to another TCP port, up to the next AH=04h. -/
theorem movedLine_record :
    ((record movedLine ([], install [.listen 0 2323, .hunt 6 6400] false 0)).any fun r =>
      r.1.all (fun st => namesFreePorts st.1 st.2) && (r.2.sys.ports 0).initialized &&
        decide (r.2.todo.head? = some (.initFinish 0)) && decide (r.2.sys.heldListen 0 = none) &&
        decide (lastListen 0 r.1 = some (.listen 2424))) = true := by
  decide +kernel

/-- The run of that line: AH=04h makes it answer on the new port. -/
theorem line_configuration_moved : ∃ past c, Reached past c ∧
    lastListen 0 past = some (.listen 2424) ∧ c.todo.head? = some (.initFinish 0) ∧
    (c.sys.Standalone 0 ∨ ∃ g, c.sys.Member 0 g) ∧ c.sys.heldListen 0 = none ∧
    (exec (.initFinish 0) {} c.sys).1.AnswersOn 0 2424 := by
  obtain ⟨past, c, hReach, hShown⟩ := exists_reached movedLine_record
  simp only [Bool.and_eq_true, List.all_eq_true, decide_eq_true_eq] at hShown
  obtain ⟨⟨⟨⟨hSteps, hManaged⟩, hHead⟩, hNone⟩, hLast⟩ := hShown
  obtain ⟨hLine, _, hTakesEffect⟩ := line_configuration hReach hSteps 0 hManaged
  refine ⟨past, c, hReach, hLast, hHead, ?_, hNone, ?_⟩
  · exact hLine.imp (fun hAlone => hAlone.1) fun ⟨g, hGroup, _⟩ => ⟨g, hGroup⟩
  · exact hTakesEffect {} (.listen 2424) hHead (fun _ => ⟨rfl, rfl⟩) hLast (by decide)

/-- `/L:1-2:6400`; later the first port is given a line of its own, 2323. -/
def takenFromGroup : List Move :=
  [.finish {}, .call (.mux (.listen 0 2323)) {}, .call (.int14 0 .init) {}]

/-- A line taken out of its group by MUX_LISTEN alone, which does not leave the group.
-/
theorem takenFromGroup_record :
    ((record takenFromGroup ([], install [.hunt 3 6400] false 0)).any fun r =>
      (r.2.sys.ports 0).initialized && decide (¬ r.2.sys.Standalone 0) &&
        decide (∀ g, ¬ r.2.sys.Member 0 g) &&
        decide (lastListen 0 r.1 = some (.listen 2323) ∧ r.2.sys.listensOn 0 = some 6400)) =
      true := by
  decide +kernel

/-- The first port answers neither as a line of its own nor as a member of the group:
AH=04h still listens on the TCP port of the group. -/
theorem line_lost_to_group : ∃ past c, Reached past c ∧ (c.sys.ports 0).initialized ∧
    ¬ (c.sys.Standalone 0 ∨ ∃ g, c.sys.Member 0 g) ∧
    lastListen 0 past = some (.listen 2323) ∧ c.sys.listensOn 0 = some 6400 := by
  obtain ⟨past, c, hReach, hShown⟩ := exists_reached takenFromGroup_record
  simp only [Bool.and_eq_true, decide_eq_true_eq] at hShown
  obtain ⟨⟨⟨hManaged, hNot⟩, hNone⟩, hLast⟩ := hShown
  exact ⟨past, c, hReach, hManaged, fun h => h.elim hNot fun ⟨g, hg⟩ => hNone g hg, hLast⟩

end Vmodem
