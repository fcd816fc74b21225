import Vmodem.Invariants.External
import Vmodem.Invariants.Past

/-! What becomes of MUX_SOCK_CLOSE. The request is the state CLOSING of the handle until
the service step of the poll cycle finds it there, and other requests write the same
state. -/

namespace Vmodem

/-- What a step does to a close request of handle `k`. -/
inductive HandleEvent where
  | close
  | overwrite
  deriving DecidableEq, Repr

/-- MUX_SOCK_CLOSE asks for the close; MUX_SOCK_CONNECT writes the state over, and so does
MUX_SOCK_STATUS when mTCP calls the socket connected or closed. -/
def handleEvent (k : ExtIdx) (st : Config × Action) : Option HandleEvent :=
  if (st.1.sys.extSockets k).sock = none then none
  else
    match st.2, st.1.todo with
    | .run _, .mux (.sockClose j) :: _ => if j = k then some .close else none
    | .run _, .mux (.sockConnect j _ _) :: _ => if j = k then some .overwrite else none
    | .run a, .mux (.sockStatus j) :: _ =>
        if j = k ∧ (a.connectComplete ∨ a.closed) then some .overwrite else none
    | _, _ => none

/-- The service step of the poll cycle for handle `k`. -/
def serves (k : ExtIdx) (st : Config × Action) : Bool :=
  match st.2, st.1.todo with
  | .run _, .ext j :: _ => j = k
  | _, _ => false

/-- The steps since the handle was last served. -/
def sinceService (k : ExtIdx) (past : Past) : Past := past.takeWhile fun st => !serves k st

/-- The last thing that happened to a close request. -/
def closeRequest (k : ExtIdx) (past : Past) : Option HandleEvent :=
  (sinceService k past).findSome? (handleEvent k)

/-- The handle is in the state CLOSING exactly when the last request was to close it. -/
structure Config.CloseNoted (k : ExtIdx) (past : Past) (c : Config) : Prop where
  closing : (c.sys.extSockets k).state = .closing ↔ closeRequest k past = some .close
  allocated : closeRequest k past ≠ none → (c.sys.extSockets k).sock.isSome

section Steps

variable {k : ExtIdx} {past : Past} {s : Sys} {b : Block} {rest : List Block} {a : Answer}
  {st : Config × Action}

/-- A step that does not serve the handle adds its own event or leaves the request as it
was. -/
theorem closeRequest_cons (hServes : serves k st = false) :
    closeRequest k (st :: past) = (handleEvent k st).or (closeRequest k past) := by
  unfold closeRequest sinceService
  rw [List.takeWhile_cons_of_pos (by simp [hServes]), List.findSome?_cons]
  cases handleEvent k st <;> rfl

theorem closeRequest_served (hServes : serves k st) : closeRequest k (st :: past) = none := by
  unfold closeRequest sinceService
  rw [List.takeWhile_cons_of_neg (by simp [hServes])]
  rfl

/-- Only the socket calls and the service are events of a handle. -/
theorem handleEvent_of_not_external (hb : b.external = false) :
    handleEvent k (⟨s, b :: rest⟩, .run a) = none := by
  unfold handleEvent
  split_ifs
  · rfl
  · cases b with
    | mux m =>
        cases m with
        | sockClose | sockConnect | sockStatus => cases hb
        | _ => rfl
    | _ => rfl

/-- A status query leaves the handle CLOSING unless mTCP says otherwise. -/
theorem observedState_closing {x : SockId} :
    observedState k x a s = .closing ↔
      (s.extSockets k).state = .closing ∧ ¬ (a.connectComplete ∨ a.closed) := by
  unfold observedState
  cases a.connectComplete <;> cases a.closed <;>
    cases (s.extSockets k).state <;> cases a.remoteClosed <;>
    cases s.net.recvDataWaiting x <;> simp

/-- The deferred connect of a handle, which may fail. -/
theorem extConnect_state (x : SockId) :
    ((extConnect k x a s).extSockets k).state =
      if (s.extSockets k).pendingConnect ∧ ¬ a.succeeded then
        .error else (s.extSockets k).state := by
  unfold extConnect
  by_cases hPending : (s.extSockets k).pendingConnect
  · by_cases hOk : a.succeeded <;> simp [hPending, hOk]
  · simp [hPending]

/-- What serving a handle makes of it. -/
theorem pollExt_served {x : SockId} (hSock : (s.extSockets k).sock = some x) :
    ((extConnect k x a s).extSockets k).state = .closing ∧
        pollExt k a s = (sockCloseFast x (extConnect k x a s)).modExt k
          (fun e => { e with sock := none, state := .free }) ∨
      ((extConnect k x a s).extSockets k).state ≠ .closing ∧
        ((pollExt k a s).extSockets k).state ≠ .closing ∧
        ((pollExt k a s).extSockets k).sock = some x := by
  have hSame : ((extConnect k x a s).extSockets k).sock = some x :=
    (extConnect_sock k x).trans hSock
  unfold pollExt
  rw [hSock]
  dsimp only
  cases hState : ((extConnect k x a s).extSockets k).state with
  | closing => exact .inl ⟨rfl, rfl⟩
  | connecting => refine .inr ⟨by simp, ?_⟩; split_ifs <;> simp [hSame, hState]
  | established => refine .inr ⟨by simp, ?_⟩; split_ifs <;> simp [hSame, hState]
  | free | remoteClosed | error => exact .inr ⟨by simp, by simp [hState], hSame⟩

theorem pollExt_other {j : ExtIdx} (hj : k ≠ j) :
    (pollExt j a s).extSockets k = s.extSockets k := by
  have hConnect : ∀ x, (extConnect j x a s).extSockets k = s.extSockets k := by
    intro x
    unfold extConnect
    split_ifs <;> simp [hj]
  unfold pollExt
  cases (s.extSockets j).sock with
  | none => rfl
  | some x =>
      dsimp only
      split
      next => simp [hj, hConnect]
      next => split_ifs <;> simp [hj, hConnect]
      next => split_ifs <;> simp [hj, hConnect]
      next => exact hConnect x

/-- Allocation takes a slot without a socket. -/
theorem sockAlloc_cases :
    (sockAlloc a s).extSockets k = s.extSockets k ∨
      (s.extSockets k).sock = none ∧ ((sockAlloc a s).extSockets k).state = .free := by
  unfold sockAlloc
  split
  next => exact .inl rfl
  next j hFind =>
    have hFree : (s.extSockets j).sock = none := by
      have hFound := List.find?_some hFind
      simp only [Bool.and_eq_true, Option.isNone_iff_eq_none] at hFound
      exact hFound.2
    split
    next => exact .inl rfl
    next x net _ =>
      split_ifs
      · by_cases hk : k = j
        · subst hk
          exact .inr ⟨hFree, by simp⟩
        · exact .inl (by simp [hk])
      · exact .inl rfl

/-- A step that is no request for the handle and leaves it as it is. -/
theorem Config.CloseNoted.keep {c d : Config} {act : Action} (h : c.CloseNoted k past)
    (hServes : serves k (c, act) = false) (hEvent : handleEvent k (c, act) = none)
    (hSame : d.sys.extSockets k = c.sys.extSockets k) : d.CloseNoted k ((c, act) :: past) := by
  constructor
  · rw [closeRequest_cons hServes, hEvent, hSame]
    exact h.closing
  · rw [closeRequest_cons hServes, hEvent, hSame]
    exact h.allocated

/-- A request for the handle. -/
theorem Config.CloseNoted.request {c d : Config} {act : Action} {e : HandleEvent}
    (hServes : serves k (c, act) = false) (hEvent : handleEvent k (c, act) = some e)
    (hState : (d.sys.extSockets k).state = .closing ↔ e = .close)
    (hSock : (d.sys.extSockets k).sock.isSome) : d.CloseNoted k ((c, act) :: past) := by
  constructor
  · rw [closeRequest_cons hServes, hEvent]
    simpa using hState
  · exact fun _ => hSock

/-- The handle has no socket, so there is no request to note. -/
theorem Config.CloseNoted.closeRequest_none {c : Config} (h : c.CloseNoted k past)
    (hSock : (c.sys.extSockets k).sock = none) : closeRequest k past = none := by
  by_contra hSome
  exact absurd (h.allocated hSome) (by simp [hSock])

/-- A request for another handle. -/
theorem requests_other {j : ExtIdx} (hj : k ≠ j) :
    (∀ ip port, (sockConnect j ip port s).extSockets k = s.extSockets k) ∧
      (∀ a, (sockStatus j a s).extSockets k = s.extSockets k) ∧
      (sockClose j s).extSockets k = s.extSockets k := by
  refine ⟨fun ip port => ?_, fun a => ?_, ?_⟩
  · unfold sockConnect
    split_ifs <;> simp [hj]
  · unfold sockStatus
    split <;> simp [hj]
  · unfold sockClose
    split_ifs <;> simp [hj]

/-- A connect is noted, and takes back an earlier request to close. -/
theorem Config.CloseNoted.connect {ip : IpAddr} {port : UInt16}
    (h : Config.CloseNoted k past ⟨s, .mux (.sockConnect k ip port) :: rest⟩) :
    Config.CloseNoted k ((⟨s, .mux (.sockConnect k ip port) :: rest⟩, .run a) :: past)
      ⟨sockConnect k ip port s, rest⟩ := by
  by_cases hSock : (s.extSockets k).sock = none
  · refine h.keep rfl (by simp [handleEvent, hSock]) ?_
    show (sockConnect k ip port s).extSockets k = s.extSockets k
    simp [sockConnect, hSock]
  · refine .request (e := .overwrite) rfl (by simp [handleEvent, hSock]) ?_ ?_
    · simp [sockConnect, hSock]
    · simpa [sockConnect, hSock] using Option.isSome_iff_ne_none.mpr hSock

theorem Config.CloseNoted.close (h : Config.CloseNoted k past ⟨s, .mux (.sockClose k) :: rest⟩) :
    Config.CloseNoted k ((⟨s, .mux (.sockClose k) :: rest⟩, .run a) :: past)
      ⟨sockClose k s, rest⟩ := by
  by_cases hSock : (s.extSockets k).sock = none
  · refine h.keep rfl (by simp [handleEvent, hSock]) ?_
    show (sockClose k s).extSockets k = s.extSockets k
    simp [sockClose, hSock]
  · refine .request (e := .close) rfl (by simp [handleEvent, hSock]) ?_ ?_
    · simp [sockClose, hSock]
    · simpa [sockClose, hSock] using Option.isSome_iff_ne_none.mpr hSock

/-- A status call notes what it finds, and may overwrite a request to close. -/
theorem Config.CloseNoted.status (h : Config.CloseNoted k past ⟨s, .mux (.sockStatus k) :: rest⟩) :
    Config.CloseNoted k ((⟨s, .mux (.sockStatus k) :: rest⟩, .run a) :: past)
      ⟨sockStatus k a s, rest⟩ := by
  have hServes : serves k (⟨s, .mux (.sockStatus k) :: rest⟩, .run a) = false := rfl
  cases hSock : (s.extSockets k).sock with
  | none =>
      refine h.keep hServes (by simp [handleEvent, hSock]) ?_
      show (sockStatus k a s).extSockets k = s.extSockets k
      simp [sockStatus, hSock]
  | some x =>
      have hState : ((sockStatus k a s).extSockets k).state = observedState k x a s := by
        simp [sockStatus, hSock]
      have hSome : ((sockStatus k a s).extSockets k).sock.isSome := by simp [sockStatus, hSock]
      by_cases hOver : a.connectComplete ∨ a.closed
      · refine .request (e := .overwrite) hServes (by simp [handleEvent, hSock, hOver]) ?_ hSome
        simp [hState, observedState_closing, hOver]
      · refine ⟨?_, fun _ => hSome⟩
        have hEvent : handleEvent k (⟨s, .mux (.sockStatus k) :: rest⟩, .run a) = none := by
          simp [handleEvent, hOver]
        rw [closeRequest_cons hServes, hEvent, hState, observedState_closing, Option.none_or,
          ← h.closing, and_iff_left hOver]

/-- A handle that is given out anew has no request. -/
theorem Config.CloseNoted.alloc (h : Config.CloseNoted k past ⟨s, .mux .sockAlloc :: rest⟩) :
    Config.CloseNoted k ((⟨s, .mux .sockAlloc :: rest⟩, .run a) :: past) ⟨sockAlloc a s, rest⟩ := by
  have hServes : serves k (⟨s, .mux .sockAlloc :: rest⟩, .run a) = false := rfl
  rcases sockAlloc_cases (k := k) (s := s) (a := a) with hSame | ⟨hNone, hState⟩
  · exact h.keep hServes (by simp [handleEvent]) hSame
  · have hEvent : handleEvent k (⟨s, .mux .sockAlloc :: rest⟩, .run a) = none := by
      simp [handleEvent]
    have hNothing : closeRequest k ((⟨s, .mux .sockAlloc :: rest⟩, .run a) :: past) = none := by
      rw [closeRequest_cons hServes, hEvent, h.closeRequest_none hNone]
      rfl
    exact ⟨by simp [hNothing, hState], fun hSome => absurd hNothing hSome⟩

/-- Every multiplex function notes its event. One case for each function. -/
theorem Config.CloseNoted.muxRequest {m : Mux} (h : Config.CloseNoted k past ⟨s, .mux m :: rest⟩) :
    Config.CloseNoted k ((⟨s, .mux m :: rest⟩, .run a) :: past)
      ⟨(mux m a s).1, (mux m a s).2 ++ rest⟩ := by
  by_cases hExternal : (Block.mux m).external = false
  · exact h.keep rfl (handleEvent_of_not_external hExternal) (congrFun (mux_extSockets hExternal) k)
  · cases m with
    | sockAlloc => exact h.alloc
    | sockConnect j ip port =>
        by_cases hj : k = j
        · subst hj
          exact h.connect
        · exact h.keep rfl (by simp [handleEvent, Ne.symm hj]) ((requests_other hj).1 ip port)
    | sockStatus j =>
        by_cases hj : k = j
        · subst hj
          exact h.status
        · exact h.keep rfl (by simp [handleEvent, Ne.symm hj]) ((requests_other hj).2.1 a)
    | sockClose j =>
        by_cases hj : k = j
        · subst hj
          exact h.close
        · exact h.keep rfl (by simp [handleEvent, Ne.symm hj]) (requests_other hj).2.2
    | _ => exact absurd rfl hExternal

/-- The service of a handle carries out what was noted. -/
theorem Config.CloseNoted.service {j : ExtIdx} (h : Config.CloseNoted k past ⟨s, .ext j :: rest⟩) :
    Config.CloseNoted k ((⟨s, .ext j :: rest⟩, .run a) :: past) ⟨pollExt j a s, rest⟩ := by
  by_cases hj : k = j
  · subst hj
    have hNone : closeRequest k ((⟨s, .ext k :: rest⟩, .run a) :: past) = none :=
      closeRequest_served (decide_eq_true rfl)
    have hState : ((pollExt k a s).extSockets k).state ≠ .closing := by
      cases hSock : (s.extSockets k).sock with
      | none =>
          have hFree := h.closing
          rw [h.closeRequest_none hSock] at hFree
          simpa [pollExt, hSock] using hFree
      | some x =>
          rcases pollExt_served (a := a) hSock with ⟨_, hClosed⟩ | ⟨_, hOpen, _⟩
          · rw [hClosed]
            simp
          · exact hOpen
    exact ⟨by simp [hNone, hState], fun hSome => absurd hNone hSome⟩
  · have hServes : serves k (⟨s, .ext j :: rest⟩, .run a) = false := decide_eq_false (Ne.symm hj)
    exact h.keep hServes (by simp [handleEvent]) (pollExt_other hj)

end Steps

/-- In every reachable state a handle is closing exactly if that is its latest request.
The induction is on the record. -/
theorem closeNoted_of_reached (k : ExtIdx) {past : Past} {c : Config} (h : Reached past c) :
    c.CloseNoted k past := by
  refine h.induct (A := fun _ _ => True) (P := fun past c => c.CloseNoted k past)
    (fun _ _ _ => ⟨by simp [install, Sys.zero, ExtSocket.zero, closeRequest, sinceService],
      fun hSome => absurd rfl hSome⟩)
    (fun past s b _ _ _ ih => ih.keep rfl ?_ rfl) (fun past s b rest a _ _ ih => ?_)
    (fun past s t e todo _ _ hOut ih => ?_) fun _ _ => trivial
  · simp [handleEvent]
  · cases b with
    | mux m => exact ih.muxRequest
    | ext j => exact ih.service
    | _ =>
        exact ih.keep rfl (handleEvent_of_not_external rfl) (congrFun (exec_extSockets rfl) k)
  · have hSame : t.extSockets = s.extSockets := by
      rcases outside_cases hOut with ⟨tick, rfl⟩ | ⟨port, host, remote, rfl⟩ | ⟨x, bs, _, rfl⟩ <;>
        rfl
    exact ih.keep rfl (by simp [handleEvent]) (congrFun hSame k)

/-- The close of the socket is started, or done at once when the queue is full, and the
slot is free. -/
structure CloseCarried (k : ExtIdx) (x : SockId) (s t : Sys) : Prop where
  sock : (t.extSockets k).sock = none
  state : (t.extSockets k).state = .free
  started : t.closing = s.closing ++ [x] ∨ t.trace = .freed x :: .queueFull x :: s.trace

theorem extConnect_keeps {k : ExtIdx} {x : SockId} {a : Answer} {s : Sys} :
    (extConnect k x a s).closing = s.closing ∧ (extConnect k x a s).trace = s.trace := by
  unfold extConnect
  split_ifs <;> exact ⟨rfl, rfl⟩

/-- The close puts the connection into the queue, or gives it back. -/
theorem sockCloseFast_carried {k : ExtIdx} {x : SockId} {s : Sys} :
    CloseCarried k x s
      ((sockCloseFast x s).modExt k fun e => { e with sock := none, state := .free }) := by
  refine ⟨by simp, by simp, ?_⟩
  unfold sockCloseFast freeSocket
  split_ifs
  · exact .inl rfl
  · exact .inr rfl

/-- The service step of a poll cycle closes the socket and frees the slot exactly when
MUX_SOCK_CLOSE is the last request that wrote the state of the handle since it was last
served, and mTCP does not refuse a connect that is still to be made. -/
theorem socket_close {past : Past} {k : ExtIdx} {s : Sys} {rest : List Block}
    (h : Reached past ⟨s, .ext k :: rest⟩) (a : Answer) :
    (∃ x, (s.extSockets k).sock = some x ∧ CloseCarried k x s (exec (.ext k) a s).1) ↔
      closeRequest k past = some .close ∧ ((s.extSockets k).pendingConnect → a.succeeded) := by
  have hNoted := closeNoted_of_reached k h
  have hExec : (exec (.ext k) a s).1 = pollExt k a s := rfl
  rw [hExec]
  constructor
  · rintro ⟨x, hSock, hCarried⟩
    rcases pollExt_served (a := a) hSock with ⟨hClosing, _⟩ | ⟨_, _, hKept⟩
    · rw [extConnect_state] at hClosing
      split_ifs at hClosing with hRefused
      exact ⟨hNoted.closing.mp hClosing, fun hPending => by simpa [hPending] using hRefused⟩
    · exact absurd (hCarried.sock.symm.trans hKept) (by simp)
  · rintro ⟨hRequest, hConnect⟩
    obtain ⟨x, hSock⟩ := Option.isSome_iff_exists.mp (hNoted.allocated (by simp [hRequest]))
    refine ⟨x, hSock, ?_⟩
    rcases pollExt_served (a := a) hSock with ⟨_, hServed⟩ | ⟨hOpen, _⟩
    · obtain ⟨hSock', hState, hStarted⟩ :=
        sockCloseFast_carried (k := k) (x := x) (s := extConnect k x a s)
      rw [extConnect_keeps.1, extConnect_keeps.2] at hStarted
      rw [hServed]
      exact ⟨hSock', hState, hStarted⟩
    · refine absurd ?_ hOpen
      rw [extConnect_state, if_neg fun hRefused => hRefused.2 (hConnect hRefused.1)]
      exact hNoted.closing.mpr hRequest

/-- A connection made by the application and closed by it. -/
def openAndClose : List Move :=
  [.finish {}, .call (.mux .sockAlloc) {}, .call (.mux (.sockConnect 0 0 80)) {},
    .call (.mux .poll) { connectComplete := true }, .call (.mux (.sockClose 0)) {}]

/-- A poll cycle up to its service of the first handle. -/
def untilService : List Move := .enter (.mux .poll) :: List.replicate 9 (.run {})

/-- The connection is asked to close, and its service comes next. -/
theorem openAndClose_record :
    ((record (openAndClose ++ untilService) ([], install [] false 0)).any fun r =>
      decide (r.2.todo.head? = some (.ext 0)) && decide (closeRequest 0 r.1 = some .close) &&
        !(r.2.sys.extSockets 0).pendingConnect) = true := by
  decide +kernel

theorem socket_close_served : ∃ past s rest, Reached past ⟨s, .ext 0 :: rest⟩ ∧
    ∃ x, (s.extSockets 0).sock = some x ∧ CloseCarried 0 x s (exec (.ext 0) {} s).1 := by
  obtain ⟨past, ⟨s, todo⟩, hReach, hShown⟩ := exists_reached openAndClose_record
  simp only [Bool.and_eq_true, decide_eq_true_eq, Bool.not_eq_true'] at hShown
  obtain ⟨⟨hHead, hRequest⟩, hPending⟩ := hShown
  obtain ⟨rest, rfl⟩ := List.head?_eq_some_iff.mp hHead
  exact ⟨past, s, rest, hReach, (socket_close hReach {}).mpr ⟨hRequest, by simp [hPending]⟩⟩

/-- The application asks for the status of the connection once more; mTCP still calls it
connected. -/
def closeThenStatus : List Move :=
  openAndClose ++ .call (.mux (.sockStatus 0)) { connectComplete := true } :: untilService

/-- The status has overwritten the request, and the service leaves the connection open.
-/
theorem closeThenStatus_record :
    ((record closeThenStatus ([], install [] false 0)).any fun r =>
      decide (r.2.todo.head? = some (.ext 0)) &&
        ((sinceService 0 r.1).any fun st => decide (handleEvent 0 st = some .close)) &&
        decide (((exec (.ext 0) {} r.2.sys).1.extSockets 0).sock.isSome ∧
          ((exec (.ext 0) {} r.2.sys).1.extSockets 0).state = .established)) = true := by
  decide +kernel

/-- The close was accepted since the last poll, and the next poll leaves the connection
established. -/
theorem close_lost_to_status : ∃ past s rest, Reached past ⟨s, .ext 0 :: rest⟩ ∧
    (∃ st ∈ sinceService 0 past, handleEvent 0 st = some .close) ∧
    ¬ ∃ x, (s.extSockets 0).sock = some x ∧ CloseCarried 0 x s (exec (.ext 0) {} s).1 := by
  obtain ⟨past, ⟨s, todo⟩, hReach, hShown⟩ := exists_reached closeThenStatus_record
  simp only [Bool.and_eq_true, decide_eq_true_eq, List.any_eq_true] at hShown
  obtain ⟨⟨hHead, hAsked⟩, hSock, _⟩ := hShown
  obtain ⟨rest, rfl⟩ := List.head?_eq_some_iff.mp hHead
  refine ⟨past, s, rest, hReach, hAsked, fun ⟨x, _, hCarried⟩ => ?_⟩
  rw [hCarried.sock] at hSock
  cases hSock

end Vmodem
