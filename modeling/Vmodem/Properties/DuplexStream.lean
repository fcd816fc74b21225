import Vmodem.Properties.ByteStream
import Vmodem.Properties.RecordRoundTrip
import Vmodem.Properties.SendRecords

/-! Both directions of a TLS connection at once: the programs at its ends call `vtls_send` and
`vtls_recv` in any order, and each gets the bytes of the other. -/

namespace Vmodem.Tls

/-- A program's side of a connection, with all it has sent and received. -/
structure Side where
  conn : VTlsConn
  app : AppBuffer
  sent : List UInt8
  received : List UInt8

/-- Both sides, and the bytes on their way between them. -/
structure Link where
  near : Side
  far : Side
  toFar : List UInt8
  toNear : List UInt8

inductive Call where
  | send (buf iv : List UInt8) (alloc : Nat → Bool)
  | recv (len : Nat) (ready : Bool)

/-- Data for one record, and an IV of 16 bytes. -/
def Call.Legal : Call → Prop
  | send buf iv _ => buf.length ≤ maxRecord ∧ iv.length = 16
  | recv _ _ => True

namespace Link

/-- A connection nothing was sent on. -/
def start (near far : VTlsConn) : Link := ⟨⟨near, .empty, [], []⟩, ⟨far, .empty, [], []⟩, [], []⟩

def swap (l : Link) : Link := ⟨l.far, l.near, l.toNear, l.toFar⟩

/-- The near side's `vtls_recv`; `none` while it waits for a record. -/
def recv (l : Link) (len : Nat) (ready : Bool) : Option (Received × AppBuffer × VTlsConn × Feed) :=
  vtlsRecv (recordReader id) len ready l.near.app (l.near.conn, ⟨l.toNear, false⟩)

/-- A call of the near side. A call that does not return changes nothing. -/
def call (l : Link) : Call → Link
  | .send buf iv alloc =>
      match vtlsSend l.near.conn buf iv alloc none with
      | none => l
      | some out =>
          { l with
            near := { l.near with
              conn := out.conn, sent := l.near.sent ++ if out.ret = buf.length then buf else [] }
            toFar := l.toFar ++ out.wire }
  | .recv len ready =>
      match l.recv len ready with
      | none => l
      | some (got, app, conn, feed) =>
          { l with
            near := { l.near with
            conn := conn, app := app, received := l.near.received ++ got.stored }
            toNear := feed.bytes }

/-- A call of either side. -/
def act (l : Link) (c : Bool × Call) : Link := if c.1 then l.call c.2 else (l.swap.call c.2).swap

def run (l : Link) (calls : List (Bool × Call)) : Link := calls.foldl act l

end Link

section Wire

variable {w w' r : VTlsConn} {plains : List (List UInt8)} {wire data iv : List UInt8}

/-- Records of application data that the writer `w` has written, which is `w'` behind them. -/
inductive Underway : VTlsConn → List (List UInt8) → List UInt8 → VTlsConn → Prop where
  | nil (w : VTlsConn) : Underway w [] [] w
  | cons {w w' : VTlsConn} {data iv rest : List UInt8} {plains : List (List UInt8)}
      (hIv : iv.length = 16)
      (hData : data.length ≤ maxRecord)
        (hRest : Underway (wrote w rtApplication data iv) plains rest w') :
      Underway w (data :: plains) (sentRecord w data iv ++ rest) w'

/-- A record sent now goes behind those on their way. -/
theorem Underway.snoc (h : Underway w plains wire w') (hIv : iv.length = 16)
    (hData : data.length ≤ maxRecord) :
    Underway w (plains ++ [data]) (wire ++ sentRecord w' data iv)
      (wrote w' rtApplication data iv) := by
  induction h with
  | nil w =>
      have hOne := Underway.cons hIv hData (.nil (wrote w rtApplication data iv))
      rwa [List.append_nil] at hOne
  | cons hIv' hData' _ ih =>
      rw [List.cons_append, List.append_assoc]
      exact .cons hIv' hData' ih

/-- Records on their way do not change whether there are keys. -/
theorem Underway.cipher (h : Underway w plains wire w') : w'.cipherActive = w.cipherActive := by
  induction h with
  | nil w => rfl
  | cons hIv hData _ ih =>
      rw [ih, wrote]

/-- Two connections that write alike. -/
structure SendsAlike (c c' : VTlsConn) : Prop where
  key : c'.encKey = c.encKey
  mac : c'.macEncKey = c.macEncKey
  seq : c'.seqSend = c.seqSend
  cipher : c'.cipherActive = c.cipherActive

theorem SendsAlike.refl (c : VTlsConn) : SendsAlike c c := ⟨rfl, rfl, rfl, rfl⟩

/-- Two connections that send like a third send alike. -/
theorem SendsAlike.trans {c c' c'' : VTlsConn} (h : SendsAlike c c') (h' : SendsAlike c' c'') :
    SendsAlike c c'' :=
  ⟨h'.key.trans h.key, h'.mac.trans h.mac, h'.seq.trans h.seq, h'.cipher.trans h.cipher⟩

theorem SendsAlike.sentRecord (h : SendsAlike w w') :
    sentRecord w' data iv = sentRecord w data iv := by
  unfold Tls.sentRecord payload ciphertext sealed
  rw [h.key, h.mac, h.seq]

theorem SendsAlike.wrote (h : SendsAlike w w') :
    SendsAlike (wrote w rtApplication data iv) (wrote w' rtApplication data iv) := by
  unfold Tls.wrote
  exact ⟨h.key, h.mac, congrArg (· + 1) h.seq, h.cipher⟩

/-- What a side reads leaves its writing alone. -/
theorem SendsAlike.opened (h : SendsAlike w w') (body : List UInt8) :
    SendsAlike w (opened w' body) := by
  unfold Tls.opened chained
  exact ⟨h.key, h.mac, h.seq, h.cipher⟩

/-- What a side writes leaves its reading alone. -/
theorem Mirrored.wrote_right (h : Mirrored w r) : Mirrored w (wrote r rtApplication data iv) := by
  unfold Tls.wrote
  exact ⟨h.key, h.mac, h.seq, h.writes, h.reads⟩

/-- All that comes of a `vtls_send`. -/
theorem vtlsSend_whole (hCipher : w.cipherActive) (hData : data.length ≤ maxRecord)
    (alloc : Nat → Bool) :
    vtlsSend w data iv alloc none = some ⟨-1, [], w⟩ ∨
      vtlsSend w data iv alloc none =
        some ⟨data.length, sentRecord w data iv, wrote w rtApplication data iv⟩ := by
  have hSmall := hData
  rw [maxRecord] at hSmall
  unfold vtlsSend
  rw [if_neg (show ¬ (w.cipherActive ∧ 32768 ≤ 13 + data.length) by omega),
    tlsWriteRecord_payload hCipher hData]
  dsimp only
  split_ifs
  · exact .inl rfl
  · exact .inl rfl
  · exact .inr rfl
  · exact .inl rfl

/-- A record that is read is handed on whole. -/
theorem recordReader_done {s : VTlsConn × Feed} {out : Record × VTlsConn × Feed}
    (h : tlsReadRecord s.1 s.2 = .done out) :
    recordReader id s = some (some ⟨out.1, tlsReadRecord_whole_buffer h⟩, out.2) := by
  unfold recordReader
  split
  · rename_i hHangs
    rw [h] at hHangs
    cases hHangs
  · rename_i hFails
    rw [h] at hFails
    cases hFails
  · rename_i out' hDone
    rw [h] at hDone
    cases hDone
    rfl

/-- Where nothing has arrived, there is no record to read. -/
theorem recordReader_empty (c : VTlsConn) : recordReader id (c, ⟨[], false⟩) = none := by
  have hHangs : tlsReadRecord c ⟨[], false⟩ = .hangs := rfl
  unfold recordReader
  split
  · rfl
  · rename_i hFails
    rw [hHangs] at hFails
    cases hFails
  · rename_i hDone
    rw [hHangs] at hDone
    cases hDone

end Wire

section Directions

variable {l : Link} {c d : Side} {wire buf iv : List UInt8} {plains : List (List UInt8)} {len : Nat}
  {ready : Bool}

/-- What `c` has sent was received by `d`, waits in its buffer, or is under way. -/
structure Carries (c d : Side) (wire : List UInt8) (plains : List (List UInt8)) : Prop where
  sound : d.app.Sound
  underway : ∃ w w', Mirrored w d.conn ∧ Underway w plains wire w' ∧ SendsAlike w' c.conn
  bytes : d.received ++ d.app.pending ++ plains.flatten = c.sent

/-- What is left to receive, and how many records it comes in. -/
def left (d : Side) (plains : List (List UInt8)) : Nat :=
  d.app.pending.length + plains.flatten.length + plains.length

/-- A side that sends, and what it puts on the wire. -/
theorem Carries.send (h : Carries l.near l.far l.toFar plains) (hData : buf.length ≤ maxRecord)
    (hIv : iv.length = 16) (alloc : Nat → Bool) :
    ∃ plains', Carries (l.call (.send buf iv alloc)).near (l.call (.send buf iv alloc)).far
      (l.call (.send buf iv alloc)).toFar plains' := by
  obtain ⟨w, w', hMirrored, hWire, hAlike⟩ := h.underway
  have hCipher : l.near.conn.cipherActive := by
    rw [hAlike.cipher, hWire.cipher]
    exact hMirrored.writes
  rcases vtlsSend_whole hCipher hData alloc with hSend | hSend
  · refine ⟨plains, ?_⟩
    rw [Link.call, hSend]
    dsimp only
    rw [if_neg (show ¬ ((-1 : Int) = buf.length) by omega), List.append_nil, List.append_nil]
    exact h
  · refine ⟨plains ++ [buf], ?_⟩
    rw [Link.call, hSend]
    dsimp only
    rw [if_pos rfl, hAlike.sentRecord]
    refine ⟨h.sound, ⟨w, _, hMirrored, hWire.snoc hIv hData, hAlike.wrote⟩, ?_⟩
    rw [List.flatten_concat, ← List.append_assoc, h.bytes]

/-- The side that sends goes on reading as before. -/
theorem Carries.send_other (h : Carries l.far l.near l.toNear plains)
    (hData : buf.length ≤ maxRecord)
    (alloc : Nat → Bool) :
    Carries (l.call (.send buf iv alloc)).far (l.call (.send buf iv alloc)).near
      (l.call (.send buf iv alloc)).toNear plains := by
  obtain ⟨w, w', hMirrored, hWire, hAlike⟩ := h.underway
  rcases vtlsSend_whole hMirrored.reads hData alloc with hSend | hSend
  · rw [Link.call, hSend]
    exact ⟨h.sound, ⟨w, w', hMirrored, hWire, hAlike⟩, h.bytes⟩
  · rw [Link.call, hSend]
    exact ⟨h.sound, ⟨w, w', hMirrored.wrote_right, hWire, hAlike⟩, h.bytes⟩

/-- One `vtls_recv`: it waits where nothing is left, or goes on in the stream. -/
theorem Carries.recv (h : Carries l.far l.near l.toNear plains) (len : Nat) (ready : Bool) :
    (l.recv len ready = none ∧ left l.near plains = 0) ∨
      ∃ got app conn bytes plains', l.recv len ready = some (got, app, conn, ⟨bytes, false⟩) ∧
        got.ret = got.stored.length ∧ SendsAlike l.near.conn conn ∧
        Carries l.far { l.near with
          conn := conn, app := app, received := l.near.received ++ got.stored } bytes
          plains' ∧
        (0 < len → ready = true → left { l.near with
          conn := conn, app := app } plains' < left l.near plains) := by
  obtain ⟨w, w', hMirrored, hWire, hAlike⟩ := h.underway
  have hBytes := h.bytes
  by_cases hPending : l.near.app.pending = []
  · have hNone : ¬ (l.near.app.buf.isSome ∧ l.near.app.pos < l.near.app.len) := fun hSome =>
      h.sound.pending_ne.mp hSome hPending
    cases ready with
    | false =>
        right
        refine ⟨⟨0, []⟩, l.near.app, l.near.conn, l.toNear, plains, ?_, rfl, .refl _, ?_,
          fun _ hReady => ?_⟩
        · rw [Link.recv, vtlsRecv, if_neg hNone, if_neg Bool.false_ne_true]
        · exact ⟨h.sound, ⟨w, w', hMirrored, hWire, hAlike⟩, by rw [List.append_nil]; exact hBytes⟩
        · cases hReady
    | true =>
        generalize hToNear : l.toNear = wire at hWire
        cases hWire with
        | nil =>
            left
            refine ⟨?_, ?_⟩
            · rw [Link.recv, hToNear, vtlsRecv, if_neg hNone, if_pos rfl, recordReader_empty]
            · rw [left, hPending]
              rfl
        | @cons _ _ data iv rest plains hIv hData hRest =>
            right
            obtain ⟨record, hType, hContent, hRead⟩ :=
              @tlsReadRecord_payload w l.near.conn rtApplication data iv
              hMirrored hIv hData (by decide) rest false
            have hReader :=
              @recordReader_done (l.near.conn, ⟨sentRecord w data iv ++ rest, false⟩) _ hRead
            obtain ⟨app, hRecv, hRest', hSound⟩ := vtlsRecv_fresh len h.sound hPending hReader hType
            rw [hContent] at hRecv hRest'
            refine ⟨⟨(data.take len).length, data.take len⟩, app, _, rest, plains, ?_, rfl,
              (SendsAlike.refl _).opened _,
              ⟨hSound, ⟨_, w', hMirrored.step, hRest, hAlike⟩, ?_⟩, fun _ _ => ?_⟩
            · rw [Link.recv, hToNear]
              exact hRecv
            · rw [hPending, List.append_nil, List.flatten_cons] at hBytes
              dsimp only
              rw [hRest', List.append_assoc l.near.received, List.take_append_drop,
                List.append_assoc]
              exact hBytes
            · simp only [left, hRest', hPending, List.length_drop, List.flatten_cons,
                List.length_append,
                List.length_cons, List.length_nil]
              omega
  · right
    obtain ⟨app, hRecv, hRest, hSound⟩ := vtlsRecv_buffered (recordReader id) len ready
      (l.near.conn, ⟨l.toNear, false⟩) h.sound hPending
    refine ⟨_, app, l.near.conn, l.toNear, plains, hRecv, rfl, .refl _,
      ⟨hSound, ⟨w, w', hMirrored, hWire, hAlike⟩, ?_⟩,
      fun hLen _ => ?_⟩
    · dsimp only
      rw [hRest, List.append_assoc l.near.received, List.take_append_drop]
      exact hBytes
    · have hSome := List.length_pos_iff.mpr hPending
      simp only [left, hRest, List.length_drop]
      omega

/-- The side that receives goes on sending as before. -/
theorem Carries.recv_other (h : Carries l.near l.far l.toFar plains) {app : AppBuffer}
    {conn : VTlsConn}
    {received : List UInt8} (hAlike : SendsAlike l.near.conn conn) :
    Carries { l.near with
      conn := conn, app := app, received := received } l.far l.toFar plains := by
  obtain ⟨w, w', hMirrored, hWire, hBefore⟩ := h.underway
  exact ⟨h.sound, ⟨w, w', hMirrored, hWire, hBefore.trans hAlike⟩, h.bytes⟩

/-- Both directions carry. -/
def Link.Sound (l : Link) : Prop :=
  (∃ plains, Carries l.near l.far l.toFar plains) ∧ ∃ plains, Carries l.far l.near l.toNear plains

/-- A sound link is sound seen from its other end. -/
theorem Link.Sound.swap (h : l.Sound) : l.swap.Sound := ⟨h.2, h.1⟩

/-- One call keeps the link sound, in both directions. -/
theorem Link.Sound.call (h : l.Sound) {c : Call} (hLegal : c.Legal) : (l.call c).Sound := by
  obtain ⟨⟨plainsTo, hTo⟩, ⟨plainsFrom, hFrom⟩⟩ := h
  cases c with
  | send buf iv alloc =>
      exact ⟨hTo.send hLegal.1 hLegal.2 alloc, plainsFrom, hFrom.send_other hLegal.1 alloc⟩
  | recv len ready =>
      rcases hFrom.recv len ready with ⟨hNone, -⟩ | ⟨got, app, conn, bytes, plains, hRecv, -,
        hAlike, hNext, -⟩
      · rw [Link.call, hNone]
        exact ⟨⟨plainsTo, hTo⟩, plainsFrom, hFrom⟩
      · rw [Link.call, hRecv]
        exact ⟨⟨plainsTo, hTo.recv_other hAlike⟩, plains, hNext⟩

/-- So do all calls of a conversation. The induction is on the calls. -/
theorem Link.Sound.run (h : l.Sound) {calls : List (Bool × Call)}
    (hLegal : ∀ c ∈ calls, c.2.Legal) :
    (l.run calls).Sound := by
  induction calls generalizing l with
  | nil => exact h
  | cons c calls ih =>
      apply ih _ fun c' hMem => hLegal c' (List.mem_cons_of_mem _ hMem)
      have hFirst := hLegal c List.mem_cons_self
      unfold Link.act
      split_ifs
      · exact h.call hFirst
      · exact (h.swap.call hFirst).swap

/-- An end that has nothing left has read everything that was sent. -/
theorem left_zero (h : left d plains = 0) : d.app.pending = [] ∧ plains.flatten = [] := by
  unfold left at h
  exact ⟨List.eq_nil_of_length_eq_zero (by omega), List.eq_nil_of_length_eq_zero (by omega)⟩

/-- Enough calls of `vtls_recv` receive all. -/
theorem Carries.drained (h : Carries l.far l.near l.toNear plains) (hLen : 0 < len) {n : Nat}
    (hEnough : left l.near plains ≤ n) :
    ((List.replicate n (Call.recv len true)).foldl Link.call l).near.received = l.far.sent := by
  induction n generalizing l plains with
  | zero =>
      obtain ⟨hPending, hPlains⟩ := left_zero (Nat.le_zero.mp hEnough)
      have hBytes := h.bytes
      rwa [hPending, hPlains, List.append_nil, List.append_nil] at hBytes
  | succ n ih =>
      rw [List.replicate_succ, List.foldl_cons]
      rcases h.recv len true with ⟨hNone, hLeft⟩ | ⟨got, app, conn, bytes, plains', hRecv, -, -,
        hNext, hLess⟩
      · have hStay : l.call (.recv len true) = l := by rw [Link.call, hNone]
        rw [hStay]
        exact ih h (by omega)
      · rw [Link.call, hRecv]
        have hLess := hLess hLen rfl
        exact ih (l := { l with
          near := { l.near with
          conn := conn, app := app, received := l.near.received ++ got.stored }
          toNear := bytes }) hNext (Nat.le_of_lt_succ (Nat.lt_of_lt_of_le hLess hEnough))

end Directions

/-- The near side gets what the far side sends: in order and nothing else, no call of it fails,
and it can have all. -/
structure Link.Faithful (l : Link) : Prop where
  order : l.near.received <+: l.far.sent
  answers : ∀ len ready got rest, l.recv len ready = some (got, rest) → got.ret = got.stored.length
  all : ∀ len, 0 < len → ∃ n, ∀ m, n ≤ m →
    ((List.replicate m (Call.recv len true)).foldl Link.call l).near.received = l.far.sent

/-- On a sound link each end has received a first part of what the other has sent. -/
theorem Link.Sound.faithful {l : Link} (h : l.Sound) : l.Faithful := by
  obtain ⟨-, plains, hCarries⟩ := h
  refine ⟨?_, fun len ready got rest hRecv => ?_, fun len hLen => ⟨left l.near plains, fun m hLe =>
    hCarries.drained hLen hLe⟩⟩
  · rw [← hCarries.bytes, List.append_assoc]
    exact List.prefix_append _ _
  · rcases hCarries.recv len ready
      with ⟨hNone, -⟩ | ⟨got', app, conn, bytes, plains', hSome, hRet, -⟩
    · rw [hNone] at hRecv
      cases hRecv
    · rw [hSome] at hRecv
      cases hRecv
      exact hRet

/-- Between two sides with each other's keys, whatever they call in whatever order, each receives
what the other sends. -/
theorem tls_duplex (near far : VTlsConn) (hTo : Mirrored near far) (hFrom : Mirrored far near)
    (calls : List (Bool × Call)) (hLegal : ∀ c ∈ calls, c.2.Legal) :
    ((Link.start near far).run calls).Faithful ∧
    ((Link.start near far).run calls).swap.Faithful := by
  have hStart : (Link.start near far).Sound :=
    ⟨⟨[], .inl rfl, ⟨near, near, hTo, .nil near, .refl near⟩, rfl⟩,
      [], .inl rfl, ⟨far, far, hFrom, .nil far, .refl far⟩, rfl⟩
  have hRun := hStart.run hLegal
  exact ⟨hRun.faithful, hRun.swap.faithful⟩

/-- A question and its answer. -/
theorem tls_duplex_loopback :
    let calls : List (Bool × Call) :=
      [(true, .send [0x41, 0x54] (List.replicate 16 5) fun _ => true), (false, .recv 1 true),
        (false, .send [0x4F, 0x4B] (List.replicate 16 6) fun _ => true), (true, .recv 8 true)]
    ((Link.start loopback loopback).run calls).Faithful ∧
      ((Link.start loopback loopback).run calls).swap.Faithful :=
  tls_duplex loopback loopback mirrored_loopback mirrored_loopback _
    (by simp [Call.Legal, maxRecord])

end Vmodem.Tls
