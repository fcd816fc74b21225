import Vmodem.Invariants.Transmit

/-! Which call a byte belongs to. A port's session is its latest accepted
connection; everything in the port's buffers stems from that session, also
after the call is over, because accepting the next call empties them. -/

namespace Vmodem

def Event.attachedTo (i : PortIdx) : Event → Option SockId
  | .attached j x => if j = i then some x else none
  | _ => none

/-- The latest connection accepted on a port. -/
def lastAttached (i : PortIdx) (trace : List Event) : Option SockId :=
  trace.findSome? (Event.attachedTo i)

/-- The byte was written on its port while its connection was the latest
accepted there. -/
def Written (b : TxByte) (trace : List Event) : Prop :=
  ∃ newer older, trace = newer ++ .stored b.port b :: older ∧
    lastAttached b.port older = some b.conn

/-- The application byte a byte on the wire stands for. -/
def WireByte.byte? (w : WireByte) : Option TxByte :=
  match w.origin with
  | .app b | .escape b => some b
  | .control => none

/-- Bytes of TCP origin are read from the session they were received in. -/
def ReadInSession : Event → List Event → Prop
  | .read i c, older => ∀ y, c.src = some y → lastAttached i older = some y
  | _, _ => True

structure Sys.Sessions (s : Sys) : Prop where
  sock : ∀ i x, (s.ports i).sock = some x → lastAttached i s.trace = some x
  rx : ∀ i, ∀ c ∈ (s.ports i).rx.contents, ∀ y, c.src = some y → lastAttached i s.trace = some y
  output : ∀ i, ∀ w ∈ s.output i, ∀ b, w.byte? = some b →
    b.port = i ∧ lastAttached i s.trace = some b.conn ∧ Written b s.trace
  wire : ∀ y, y < s.net.next → ∀ w ∈ (s.net.sockets y).wire, ∀ b, w.byte? = some b →
    b.conn = y ∧ Written b s.trace
  reads : History.Each ReadInSession s.trace

section Sessions

variable {b : Block} {a : Answer} {s t : Sys} {i : PortIdx}

theorem Written.append {v : TxByte} {trace : List Event} (h : Written v trace)
    (newer : List Event) : Written v (newer ++ trace) := by
  obtain ⟨middle, older, hTrace, hLast⟩ := h
  exact ⟨newer ++ middle, older, by rw [hTrace, List.append_assoc], hLast⟩

/-- Events that attach nothing leave the latest connection the latest. -/
theorem lastAttached_append {N older : List Event}
    (h : ∀ e ∈ N, e.attachedTo i = none) :
    lastAttached i (N ++ older) = lastAttached i older := by
  unfold lastAttached
  rw [List.findSome?_append, List.findSome?_eq_none_iff.mpr h]
  rfl

theorem lastAttached_attached (x : SockId) (older : List Event) :
    lastAttached i (.attached i x :: older) = some x := by
  simp [lastAttached, Event.attachedTo]

theorem byte?_of_control {out : List WireByte} (h : AllControl out) {w : WireByte} (hw : w ∈ out)
    {v : TxByte} : w.byte? ≠ some v := by
  simp [WireByte.byte?, h w hw]

/-- The wire bytes of an application byte stand for that byte and for no other. -/
theorem escape_byte? {v b : TxByte} {w : WireByte} (hw : w ∈ escape v) (h : w.byte? = some b) :
    b = v := by
  unfold escape at hw
  split_ifs at hw <;> simp only [List.mem_cons, List.not_mem_nil, or_false] at hw
  · rcases hw with rfl | rfl <;> exact (Option.some.inj h).symm
  · subst hw
    exact (Option.some.inj h).symm

/-- A socket that an effect creates has been sent nothing. -/
theorem Effect.fresh (h : Effect b a s t) {y : SockId} (hy : y < t.net.next) :
    y < s.net.next ∨ (t.net.sockets y).wire = [] := by
  have hGet : ∀ {x : SockId} {net : Mtcp}, s.net.getSocket a.obtained = some (x, net) →
      y < net.next → y < s.net.next ∨ (net.sockets y).wire = [] := by
    intro x net hGet hLt
    obtain ⟨rfl, _, hNext, hSockets⟩ := getSocket_eq_some hGet
    by_cases hNew : y = s.net.next
    · exact .inr (by simp [hSockets, hNew, TcpSocket.zero])
    · refine .inl ?_
      have hLe : y < s.net.next + 1 := hNext ▸ hLt
      exact Nat.lt_of_le_of_ne (Nat.le_of_lt_succ hLe) hNew
  cases h with
  | quiet h => exact .inl (h.net ▸ hy)
  | store i x v hSock h =>
      obtain ⟨_, rfl⟩ := storeTx_eq_some h
      exact .inl hy
  | purge i hb => exact .inl (by simpa using hy)
  | flush i hb => exact .inl ((fossilFlushTx_next i a).1 ▸ hy)
  | write i buf hb => exact .inl ((telnetSendRaw_next i buf a).1 ▸ hy)
  | filter i x tmp drop hb => exact .inl ((pollRx_next i x tmp drop a).1 ▸ hy)
  | receive i hb =>
      rcases pollRecv_cases i a s with hNone | ⟨x, _, _, _, hSome⟩
      · exact .inl (hNone ▸ hy)
      · rw [hSome] at hy
        split_ifs at hy <;> exact .inl (by simpa using hy)
  | read i n => exact .inl (by simpa using hy)
  | close i why hb => exact .inl ((closeSock_next i why).1 ▸ hy)
  | attach i x net hb hSock hAccept =>
      obtain ⟨k, _, rfl⟩ := accept_eq_some hAccept
      exact .inl (by simpa using hy)
  | reject x net msg hb hAccept =>
      obtain ⟨k, _, rfl⟩ := accept_eq_some hAccept
      unfold rejectCall at hy
      rw [(sockCloseFast_next x).1] at hy
      exact .inl (by simpa using hy)
  | reconfigure i f hb hf => exact .inl (by simpa using hy)
  | listenPort i tcpPort x net hb hFree hGet' | listenHunt g tcpPort x net hb hFree hActive hGet'
  | waste x net hGet' | extAlloc k x net hFree hGet' =>
      refine (hGet hGet' (by simpa using hy)).imp_right fun hEmpty => ?_
      by_cases hyx : y = x <;> simpa [hyx] using hEmpty
  | drain n =>
      unfold closingDrain at hy
      split at hy
      next => exact .inl hy
      next => split_ifs at hy <;> exact .inl (by simpa using hy)
  | extClose k x hSock => exact .inl (by simpa [(sockCloseFast_next x).1] using hy)
  | _ => exact .inl (by simpa using hy)

/-- Data reaches a socket only from the output of the port it is attached to. -/
theorem Effect.wire_session (h : Effect b a s t) (hRegular : s.Regular) (hs : s.Sessions)
    {y : SockId} (hy : y < t.net.next) {w : WireByte} (hw : w ∈ (t.net.sockets y).wire)
    {v : TxByte} (hv : w.byte? = some v) : v.conn = y ∧ Written v s.trace := by
  rcases h.fresh hy with hOld | hEmpty
  · obtain ⟨out, hWire, hSent⟩ := (h.traffic hRegular.ledger hRegular.rings hOld).wire
    rw [hWire] at hw
    rcases List.mem_append.mp hw with hBefore | hNew
    · exact hs.wire y hOld w hBefore v hv
    · cases hSent with
      | nothing => simp at hNew
      | flush i out hb hSock hOut =>
          obtain ⟨_, hLast, hWritten⟩ :=
            hs.output i w (by rw [← hOut]; exact List.mem_append_left _ hNew) v hv
          have hSame := hLast.symm.trans (hs.sock i y hSock)
          exact ⟨Option.some.inj hSame, hWritten⟩
      | write i out hb hSock hControl => exact absurd hv (byte?_of_control hControl hNew)
      | reject out _ _ hControl => exact absurd hv (byte?_of_control hControl hNew)
      | ext k out _ hControl => exact absurd hv (byte?_of_control hControl hNew)
  · simp [hEmpty] at hw

/-- Without a new call, only what enters the buffers has to be looked at. -/
theorem Sys.Sessions.keep (h : s.Sessions) (hRegular : s.Regular) (hEffect : Effect b a s t)
    (hSock : ∀ i x, (t.ports i).sock = some x → (s.ports i).sock = some x)
    (hRx : ∀ i, ∀ c ∈ (t.ports i).rx.contents, ∀ y, c.src = some y →
      c ∈ (s.ports i).rx.contents ∨ (s.ports i).sock = some y)
    (hOutput : ∀ i, ∀ w ∈ t.output i, ∀ v, w.byte? = some v → w ∈ s.output i ∨
      (v.port = i ∧ (s.ports i).sock = some v.conn ∧ .stored i v :: s.trace = t.trace)) :
    t.Sessions := by
  obtain ⟨newer, hTrace, hFrom⟩ := hEffect.logged hRegular.rings
  have hNone : ∀ i, ∀ e ∈ newer, e.attachedTo i = none := by
    intro i e he
    have hOrigin := hFrom e he
    cases e with
    | attached j x =>
        obtain ⟨_, hFree, _, hNew⟩ := hOrigin
        have hOld := hSock j x hNew
        rw [hFree] at hOld
        cases hOld
    | _ => rfl
  have hLast : ∀ i, lastAttached i t.trace = lastAttached i s.trace := fun i => by
    rw [hTrace, lastAttached_append (hNone i)]
  refine ⟨fun i x hx => ?_, fun i c hc y hy => ?_, fun i w hw v hv => ?_, fun y hy w hw v hv => ?_,
    ?_⟩
  · rw [hLast]
    exact h.sock i x (hSock i x hx)
  · rw [hLast]
    rcases hRx i c hc y hy with hOld | hNew
    · exact h.rx i c hOld y hy
    · exact h.sock i y hNew
  · rw [hLast]
    rcases hOutput i w hw v hv with hOld | ⟨hPort, hConn, hStored⟩
    · obtain ⟨hPort, hAttached, hWritten⟩ := h.output i w hOld v hv
      exact ⟨hPort, hAttached, hTrace ▸ hWritten.append newer⟩
    · have hAttached := h.sock i v.conn hConn
      exact ⟨hPort, hAttached, [], s.trace, by rw [← hStored, hPort]; rfl, by rw [hPort, hAttached]⟩
  · obtain ⟨hConn, hWritten⟩ := hEffect.wire_session hRegular h hy hw hv
    exact ⟨hConn, hTrace ▸ hWritten.append newer⟩
  · rw [hTrace]
    refine .extend (fun e he middle hMiddle => ?_) h.reads
    have hOrigin := hFrom e he
    cases e with
    | read i c =>
        intro y hy
        rw [lastAttached_append fun e' he' => hNone i e' (hMiddle e' he')]
        exact h.rx i c hOrigin.1 y hy
    | _ => trivial

/-- A cell of a ring was there before or has just been put in. -/
theorem mem_putAll {r : RingBuf} (h : r.WellFormed) {cells : List RxByte} {c : RxByte}
    (hc : c ∈ (r.putAll cells).contents) : c ∈ r.contents ∨ c ∈ cells := by
  obtain ⟨kept, hSub, hEq⟩ := CircularBuffer.contents_putAll h cells
  rw [hEq] at hc
  exact (List.mem_append.mp hc).imp_right fun hKept => hSub.subset hKept

/-- A cell left in a ring was there before. -/
theorem mem_getMany_rest {r : RingBuf} (h : r.WellFormed) {n : Nat} {c : RxByte}
    (hc : c ∈ (r.getMany n).2.contents) : c ∈ r.contents := by
  rw [CircularBuffer.contents_getMany h n]
  exact List.mem_append_right _ hc

/-- The cells of a receive ring after a round of the receive loop. -/
theorem mem_pollRx (hRings : s.RingsOk) {x : SockId} {tmp : List UInt8} {drop : Bool} {c : RxByte}
    (hc : c ∈ ((pollRx i x tmp drop a s).1.ports i).rx.contents) :
    c ∈ (s.ports i).rx.contents ∨ (c.src = some x ∧ drop = false) := by
  cases tmp with
  | nil => exact .inl hc
  | cons v rest =>
      obtain ⟨_, _, _, hSame, _⟩ := telnetFilter_frame (s.ports i) v
      rw [pollRx_port hRings] at hc
      cases drop with
      | true => exact .inl (by simpa [hSame] using hc)
      | false =>
          refine (mem_putAll (hRings.rx i) hc).imp_right fun hNew => ?_
          obtain ⟨u, _, rfl⟩ := List.mem_map.mp hNew
          exact ⟨rfl, rfl⟩

/-- Accepting a call starts a new session with empty buffers. -/
theorem Sys.Sessions.attach (h : s.Sessions) (hRegular : s.Regular) {x : SockId} {net : Mtcp}
    (hEffect : Effect b a s (acceptCall i x (s.setNet net)).1) :
    (acceptCall i x (s.setNet net)).1.Sessions := by
  have hTrace : (acceptCall i x (s.setNet net)).1.trace = .attached i x :: s.trace := by simp
  have hOther : ∀ j, j ≠ i → lastAttached j (.attached i x :: s.trace) =
    lastAttached j s.trace := by
    intro j hj
    have hNe : ¬ i = j := fun hEq => hj hEq.symm
    simp [lastAttached, Event.attachedTo, hNe]
  refine ⟨fun j y hy => ?_, fun j c hc y hy => ?_, fun j w hw v hv => ?_,
    fun y hy w hw v hv => ?_, ?_⟩
  · rw [hTrace]
    by_cases hj : j = i
    · subst hj
      rw [lastAttached_attached]
      simpa [telnetReset] using hy
    · rw [hOther j hj]
      exact h.sock j y (by simpa [hj] using hy)
  · rw [hTrace]
    by_cases hj : j = i
    · simp [hj, telnetReset] at hc
    · rw [hOther j hj]
      exact h.rx j c (by simpa [hj] using hc) y hy
  · rw [acceptCall_output] at hw
    by_cases hj : j = i
    · simp [hj] at hw
    · rw [if_neg hj] at hw
      obtain ⟨hPort, hLast, hWritten⟩ := h.output j w hw v hv
      rw [hTrace, hOther j hj]
      exact ⟨hPort, hLast, hWritten.append [.attached i x]⟩
  · obtain ⟨hConn, hWritten⟩ := hEffect.wire_session hRegular h hy hw hv
    rw [hTrace]
    exact ⟨hConn, hWritten.append [.attached i x]⟩
  · rw [hTrace]
    exact h.reads.cons trivial

/-- A receive ring only gains text of the modem and, in the receive loop of an
answered call, bytes of the port's connection. -/
theorem Effect.rx_cells (h : Effect b a s t) (hRings : s.RingsOk) {c : RxByte}
    (hc : c ∈ (t.ports i).rx.contents) : c ∈ (s.ports i).rx.contents ∨ c.src = none ∨
      ∃ x tmp, c.src = some x ∧ (s.ports i).sock = some x ∧ b = .rx i x tmp false := by
  cases h with
  | quiet h =>
      obtain ⟨text, hRx⟩ := h.rx i
      rw [hRx] at hc
      refine (mem_putAll (hRings.rx i) hc).imp_right fun hText => .inl ?_
      obtain ⟨u, _, rfl⟩ := List.mem_map.mp hText
      rfl
  | store j x v hSock h => exact .inl (by simpa [(storeTx_eq_some h).2] using hc)
  | filter j x tmp drop hb hSock =>
      by_cases hj : i = j
      · subst hj
        refine (mem_pollRx hRings hc).imp_right fun ⟨hSrc, hDrop⟩ => .inr ⟨x, tmp, hSrc, hSock, ?_⟩
        rw [hb, hDrop]
      · exact .inl (by simpa [hj] using hc)
  | receive j hb =>
      rcases pollRecv_cases j a s with hNone | ⟨x, _, _, _, hSome⟩
      · exact .inl (hNone ▸ hc)
      · rw [hSome] at hc
        refine .inl ?_
        by_cases hj : i = j <;> split_ifs at hc <;> simpa [hj] using hc
  | read j n =>
      refine .inl ?_
      by_cases hj : i = j
      · subst hj
        exact mem_getMany_rest (hRings.rx i) (by simpa using hc)
      · simpa [hj] using hc
  | clearRx j hb | clearRemote j hb | close j why hb | listenPort j tcpPort x net hb =>
      refine .inl ?_
      by_cases hj : i = j <;> simp [hj] at hc ⊢ <;> exact hc
  | attach j x net hb hSock hAccept =>
      refine .inl ?_
      by_cases hj : i = j
      · simp [hj, telnetReset] at hc
      · simpa [hj] using hc
  | reconfigure j f hb hf =>
      refine .inl ?_
      by_cases hj : i = j
      · simp [hj, (hf _).rx] at hc
      · simpa [hj] using hc
  | _ => exact .inl (by simpa using hc)

/-- A cell of TCP origin enters the ring with a received chunk or was there before. The
induction is on the effects. -/
theorem Effects.rx_cells (h : Effects b a s t) (hRings : s.RingsOk) {c : RxByte}
    (hc : c ∈ (t.ports i).rx.contents) (hSrc : c.src.isSome) : c ∈ (s.ports i).rx.contents ∨
      ∃ x tmp, b = .rx i x tmp false := by
  suffices hAll : t.RingsOk ∧ ∀ c ∈ (t.ports i).rx.contents, c.src.isSome →
      c ∈ (s.ports i).rx.contents ∨ ∃ x tmp, b = .rx i x tmp false from hAll.2 c hc hSrc
  clear hc
  induction h with
  | refl => exact ⟨hRings, fun c hc _ => .inl hc⟩
  | tail _ last ih =>
      obtain ⟨hMiddle, hBefore⟩ := ih
      refine ⟨Sys.RingsOk.stable.effect last hMiddle, fun c hc hSrc => ?_⟩
      rcases last.rx_cells hMiddle hc with hOld | hText | ⟨x, tmp, _, _, hb⟩
      · exact hBefore c hOld hSrc
      · simp [hText] at hSrc
      · exact .inr ⟨x, tmp, hb⟩

end Sessions

/-- Reading and writing stay within their session in every reachable state. -/
theorem Sys.Sessions.stable : Stable fun s => s.Regular ∧ s.Sessions := by
  refine Sys.Regular.stable.strengthen (fun tick => ?_) ?_ ?_
  · refine ⟨fun i x hx => by simp [Sys.zero, PortState.zero] at hx, fun i c hc => ?_,
      fun i w hw => ?_, fun y hy => by simp [Sys.zero, Mtcp.zero] at hy, History.Each.nil⟩
    · exact absurd hc List.not_mem_nil
    · rw [show (Sys.zero tick).output i = [] by
        simp [Sys.output, Sys.unsent, Sys.leftover, Sys.zero, FossilState.zero,
          CircularBuffer.contents]] at hw
      exact absurd hw List.not_mem_nil
  · intro b a s t hEffect hRegular h
    have hRx : ∀ i, ∀ c ∈ (t.ports i).rx.contents, ∀ y, c.src = some y →
        c ∈ (s.ports i).rx.contents ∨ (s.ports i).sock = some y := by
      intro i c hc y hy
      rcases hEffect.rx_cells hRegular.rings hc with hOld | hText | ⟨x, _, hx, hSock, _⟩
      · exact .inl hOld
      · rw [hText] at hy
        cases hy
      · obtain rfl := Option.some.inj (hx.symm.trans hy)
        exact .inr hSock
    cases hEffect.transmit with
    | idle hIdle =>
        refine h.keep hRegular hEffect (fun i x hx => ?_) hRx fun i w hw v _ => .inl ?_
        · rcases hIdle.sock i with hSame | hNone
          · rwa [hSame] at hx
          · rw [hNone] at hx
            cases hx
        · rwa [hIdle.output i] at hw
    | store i x v hSock hRoom ht =>
        subst ht
        refine h.keep hRegular hEffect (fun i x hx => hx) hRx fun j w hw u hu => ?_
        rw [stored_output (hRegular.rings.tx i) hRoom] at hw
        by_cases hj : j = i
        · rw [if_pos hj] at hw
          rcases List.mem_append.mp hw with hOld | hNew
          · exact .inl hOld
          · obtain rfl := escape_byte? hNew hu
            exact .inr ⟨hj.symm, hj ▸ hSock, by rw [hj]; rfl⟩
        · rw [if_neg hj] at hw
          exact .inl hw
    | purge i hb ht =>
        subst ht
        refine h.keep hRegular hEffect (fun i x hx => by simpa [Sys.purged] using hx) hRx
          fun j w hw _ _ => .inl ?_
        rw [purged_output] at hw
        split_ifs at hw
        · simp at hw
        · exact hw
    | flush i hb ht =>
        subst ht
        refine h.keep hRegular hEffect (fun i x hx => by simpa using hx) hRx fun j w hw _ _ =>
          .inl ?_
        obtain ⟨sent, hOwn, _, hOthers, _⟩ := fossilFlushTx_spec hRegular.rings i a
        by_cases hj : j = i
        · subst hj
          rw [← hOwn]
          exact List.mem_append_right _ hw
        · rcases hOthers j hj with hSame | ⟨_, hLost⟩
          · rwa [hSame] at hw
          · have hTx : ((fossilFlushTx i a s).fossils j).tx = (s.fossils j).tx :=
              fossilFlushTx_tx_other i a s hj
            simp only [Sys.output, hLost, hTx, List.nil_append] at hw
            exact List.mem_append_right _ hw
    | attach i x net hb hSock hAccept ht =>
        subst ht
        exact h.attach hRegular hEffect
  · intro e s t hOut hRegular h
    rcases outside_cases hOut with ⟨tick, rfl⟩ | ⟨port, host, remote, rfl⟩ | ⟨x, bs, hx, rfl⟩
    · exact ⟨h.sock, h.rx, h.output, h.wire, h.reads⟩
    · refine { h with wire := fun y hy w hw v hv => ?_ }
      by_cases hNew : y = s.net.next
      · simp [Mtcp.arrive, hNew, TcpSocket.zero] at hw
      · have hLt : y < s.net.next := by
          have hLe : y < s.net.next + 1 := hy
          exact Nat.lt_of_le_of_ne (Nat.le_of_lt_succ hLe) hNew
        exact h.wire y hLt w (by simpa [Mtcp.arrive, hNew] using hw) v hv
    · have hLast : ∀ i, lastAttached i (.delivered x bs :: s.trace) = lastAttached i s.trace :=
        fun i => lastAttached_append (N := [.delivered x bs]) (by simp [Event.attachedTo])
      refine ⟨fun i y hy => (hLast i).trans (h.sock i y hy),
        fun i c hc y hy => (hLast i).trans (h.rx i c hc y hy), fun i w hw v hv => ?_,
        fun y hy w hw v hv => ?_, h.reads.cons trivial⟩
      · obtain ⟨hPort, hAttached, hWritten⟩ := h.output i w hw v hv
        exact ⟨hPort, (hLast i).trans hAttached, hWritten.append [.delivered x bs]⟩
      · have hOld : w ∈ (s.net.sockets y).wire := by
          by_cases hyx : y = x <;> simpa [hyx] using hw
        obtain ⟨hConn, hWritten⟩ := h.wire y hy w hOld v hv
        exact ⟨hConn, hWritten.append [.delivered x bs]⟩

end Vmodem
