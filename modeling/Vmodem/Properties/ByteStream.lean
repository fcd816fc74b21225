import Vmodem.Tls.Stream

/-! `vtls_recv` as a byte stream: whatever the records and whatever is asked for, the bytes
handed out are the application data in order. -/

namespace Vmodem.Tls

/-- The bytes a call has not handed out yet. -/
def AppBuffer.pending (app : AppBuffer) : List UInt8 :=
  ((app.buf.getD []).take app.len).drop app.pos

/-- NULL, or a buffer with bytes left. -/
def AppBuffer.Sound (app : AppBuffer) : Prop :=
  app = .empty ∨ ∃ buf, app.buf = some buf ∧ app.pos < app.len ∧ app.len ≤ buf.length

/-- The application data of a record that was read. -/
def plaintext : Option WholeRecord → List UInt8
  | some r => if r.val.ct = rtApplication then r.val.content else []
  | none => []

/-- The same reader, keeping what it reads. -/
def noted {Source : Type} (read : Source → Option (Option WholeRecord × Source))
    (s : Source × List (Option WholeRecord)) :
    Option (Option WholeRecord × Source × List (Option WholeRecord)) :=
  (read s.1).map fun r => (r.1, r.2, s.2 ++ [r.1])

/-- A connection after some calls of `vtls_recv`. -/
structure RecvRun (Source : Type) where
  delivered : List UInt8
  app : AppBuffer
  src : Source
  /-- Every record read so far, `none` for a failure. -/
  records : List (Option WholeRecord)

section Calls

variable {Source : Type} {read : Source → Option (Option WholeRecord × Source)} {len : Nat}
  {ready : Bool} {r r' : RecvRun Source} {got : Received}

/-- One call, with its answer. -/
def recvCall (read : Source → Option (Option WholeRecord × Source)) (len : Nat) (ready : Bool)
    (r : RecvRun Source) : Option (Received × RecvRun Source) :=
  (vtlsRecv (noted read) len ready r.app (r.src, r.records)).map fun out =>
    (out.1, ⟨r.delivered ++ out.1.stored, out.2.1, out.2.2.1, out.2.2.2⟩)

/-- The calls that return, in order. -/
def recvCalls (read : Source → Option (Option WholeRecord × Source)) :
    List (Nat × Bool) → RecvRun Source → RecvRun Source
  | [], r => r
  | call :: calls, r =>
      match recvCall read call.1 call.2 r with
      | none => r
      | some (_, r') => recvCalls read calls r'

/-- A connection nothing was received on. -/
def RecvRun.start (src : Source) : RecvRun Source := ⟨[], .empty, src, []⟩

/-- Handed out and pending bytes are the application data read. -/
structure RecvRun.Streams (r : RecvRun Source) : Prop where
  sound : r.app.Sound
  stream : r.delivered ++ r.app.pending = r.records.flatMap plaintext

/-- What one call does. -/
inductive RecvStep (len : Nat) (r : RecvRun Source) (got : Received) (r' : RecvRun Source) :
    Prop where
  /-- Bytes of an earlier record; no record is read. -/
  | buffered (hPending : r.app.pending ≠ []) (hSrc : r'.src = r.src)
      (hRecords : r'.records = r.records)
      (hRet : got.ret = got.stored.length) (hStored : got.stored = r.app.pending.take len)
      (hRest : r'.app.pending = r.app.pending.drop len) (hSound : r'.app.Sound)
  /-- Bytes of the record that is read. -/
  | fresh (x : WholeRecord) (hPending : r.app.pending = [])
      (hRecords : r'.records = r.records ++ [some x])
      (hRet : got.ret = got.stored.length) (hStored : got.stored = (plaintext (some x)).take len)
      (hRest : r'.app.pending = (plaintext (some x)).drop len) (hSound : r'.app.Sound)
  /-- Nothing to read, a failure, or a record of another type. -/
  | nothing (hPending : r.app.pending = []) (hStored : got.stored = [])
      (hRet : got.ret = 0 ∨ got.ret = -1) (hApp : r'.app = r.app)
      (hRecords : r'.records = r.records ∨ ∃ x, plaintext x = [] ∧ r'.records = r.records ++ [x])

/-- The test of `vtls_recv` for unread bytes asks whether there are any. -/
theorem AppBuffer.Sound.pending_ne {app : AppBuffer} (h : app.Sound) :
    (app.buf.isSome ∧ app.pos < app.len) ↔ app.pending ≠ [] := by
  rcases h with rfl | ⟨buf, hBuf, hPos, hLen⟩
  · exact iff_of_false (fun h => nomatch h.1) (fun h => h rfl)
  · refine iff_of_true ⟨by rw [hBuf]; rfl, hPos⟩ ?_
    rw [AppBuffer.pending, hBuf, ← List.length_pos_iff, List.length_drop, Option.getD_some,
      List.length_take]
    omega

theorem length_min (len n : Nat) : (if len < n then len else n) = min len n := by
  split_ifs <;> omega

/-- The buffered bytes, cut by what is asked for. -/
theorem vtlsRecv_buffered {Source : Type} (read : Source → Option (Option WholeRecord × Source))
    (len : Nat) (ready : Bool) (src : Source) {app : AppBuffer} (h : app.Sound)
    (hPending : app.pending ≠ []) : ∃ app', vtlsRecv read len ready app src =
        some (⟨(app.pending.take len).length, app.pending.take len⟩, app', src) ∧
      app'.pending = app.pending.drop len ∧ app'.Sound := by
  have hSome := h.pending_ne.mpr hPending
  obtain ⟨buffer, appLen, pos⟩ := app
  rcases h with hEmpty | ⟨buf, hBuf, hPos, hLen⟩
  · exact absurd (by rw [hEmpty]; rfl) hPending
  obtain rfl : buffer = some buf := hBuf
  change pos < appLen at hPos
  change appLen ≤ buf.length at hLen
  have hHere : (AppBuffer.mk (some buf) appLen pos).pending = (buf.take appLen).drop pos := rfl
  have hTaken : (buf.drop pos).take (min len (appLen - pos)) =
    ((buf.take appLen).drop pos).take len := by
    rw [List.drop_take, List.take_take]
  have hLength : (((buf.take appLen).drop pos).take len).length = min len (appLen - pos) := by
    rw [List.length_take, List.length_drop, List.length_take]
    omega
  refine ⟨if appLen ≤ pos + min len (appLen - pos) then .empty
      else ⟨some buf, appLen, pos + min len (appLen - pos)⟩, ?_, ?_, ?_⟩
  · unfold vtlsRecv
    rw [if_pos hSome]
    dsimp only [Option.getD_some]
    rw [length_min, hHere, hLength, hTaken]
  · rw [hHere]
    split_ifs with hAll
    · rw [List.drop_drop, List.drop_of_length_le]
      · rfl
      · rw [List.length_take]
        omega
    · show (buf.take appLen).drop (pos + min len (appLen - pos)) = _
      rw [List.drop_drop]
      congr 1
      omega
  · split_ifs with hAll
    · exact .inl rfl
    · exact .inr ⟨buf, rfl, Nat.lt_of_not_le hAll, hLen⟩

/-- A record that is read: what is asked for, and the rest. -/
theorem vtlsRecv_fresh {Source : Type} {read : Source → Option (Option WholeRecord × Source)}
    (len : Nat) {src src' : Source} {x : WholeRecord} {app : AppBuffer} (h : app.Sound)
    (hPending : app.pending = []) (hRead : read src = some (some x, src'))
    (hType : x.val.ct = rtApplication) : ∃ app', vtlsRecv read len true app src =
        some (⟨(x.val.content.take len).length, x.val.content.take len⟩, app', src') ∧
      app'.pending = x.val.content.drop len ∧ app'.Sound := by
  have hNone : ¬ (app.buf.isSome ∧ app.pos < app.len) := fun hSome =>
    h.pending_ne.mp hSome hPending
  obtain ⟨⟨ct, buf, recLen⟩, hWhole⟩ := x
  change recLen ≤ buf.length at hWhole
  obtain rfl : ct = rtApplication := hType
  have hContent : (Record.mk rtApplication buf recLen).content = buf.take recLen := rfl
  have hTaken : buf.take (min len recLen) = (buf.take recLen).take len := by rw [List.take_take]
  have hLength : ((buf.take recLen).take len).length = min len recLen := by
    rw [List.length_take, List.length_take]
    omega
  refine ⟨if min len recLen < recLen then ⟨some buf, recLen, min len recLen⟩ else app, ?_, ?_, ?_⟩
  · unfold vtlsRecv
    rw [if_neg hNone, if_pos rfl, hRead]
    dsimp only
    rw [if_pos rfl, length_min, hContent, hLength, hTaken]
  · rw [hContent]
    split_ifs with hMore
    · show (buf.take recLen).drop (min len recLen) = _
      congr 1
      omega
    · rw [hPending, List.drop_of_length_le]
      rw [List.length_take]
      omega
  · split_ifs with hMore
    · exact .inr ⟨buf, rfl, hMore, hWhole⟩
    · exact h

/-- A record of another type carries no application bytes. -/
theorem plaintext_of_ne {x : WholeRecord} (h : x.val.ct ≠ rtApplication) :
    plaintext (some x) = [] :=
  if_neg h

theorem plaintext_of_eq {x : WholeRecord} (h : x.val.ct = rtApplication) :
    plaintext (some x) = x.val.content := if_pos h

/-- Every call that returns is one of three. -/
theorem recvCall_step (hSound : r.app.Sound) (h : recvCall read len ready r = some (got, r')) :
    RecvStep len r got r' := by
  obtain ⟨⟨got', app', src', records'⟩, hCall, hOut⟩ := Option.map_eq_some_iff.mp h
  obtain ⟨rfl, rfl⟩ := Prod.mk.inj hOut
  by_cases hPending : r.app.pending = []
  · cases ready with
    | false =>
        have hNone : ¬ (r.app.buf.isSome ∧ r.app.pos < r.app.len) := fun hSome =>
          hSound.pending_ne.mp hSome hPending
        unfold vtlsRecv at hCall
        rw [if_neg hNone, if_neg Bool.false_ne_true] at hCall
        cases hCall
        exact .nothing hPending rfl (.inl rfl) rfl (.inl rfl)
    | true =>
        have hNone : ¬ (r.app.buf.isSome ∧ r.app.pos < r.app.len) := fun hSome =>
          hSound.pending_ne.mp hSome hPending
        cases hRead : read r.src with
        | none =>
            unfold vtlsRecv at hCall
            rw [if_neg hNone, if_pos rfl] at hCall
            simp [noted, hRead] at hCall
        | some out =>
            obtain ⟨x, src⟩ := out
            have hNoted : noted read (r.src, r.records) = some (x, src, r.records ++ [x]) := by
              rw [noted, hRead]
              rfl
            cases x with
            | none =>
                unfold vtlsRecv at hCall
                rw [if_neg hNone, if_pos rfl, hNoted] at hCall
                cases hCall
                exact .nothing hPending rfl (.inr rfl) rfl (.inr ⟨none, rfl, rfl⟩)
            | some x =>
                by_cases hType : x.val.ct = rtApplication
                · obtain ⟨app, hSame, hRest, hNext⟩ :=
                    vtlsRecv_fresh len hSound hPending hNoted hType
                  rw [hSame] at hCall
                  cases hCall
                  refine .fresh x hPending rfl rfl ?_ ?_ hNext
                  · rw [plaintext_of_eq hType]
                  · rw [plaintext_of_eq hType]
                    exact hRest
                · have hRecords : ∃ y, plaintext y = [] ∧
                    r.records ++ [some x] = r.records ++ [y] :=
                    ⟨some x, plaintext_of_ne hType, rfl⟩
                  unfold vtlsRecv at hCall
                  rw [if_neg hNone, if_pos rfl, hNoted] at hCall
                  dsimp only at hCall
                  rw [if_neg hType] at hCall
                  split_ifs at hCall
                  · cases hCall
                    exact .nothing hPending rfl (.inr rfl) rfl (.inr hRecords)
                  · cases hCall
                    exact .nothing hPending rfl (.inl rfl) rfl (.inr hRecords)
  · obtain ⟨app, hSame, hRest, hNext⟩ := vtlsRecv_buffered (noted read) len ready (r.src, r.records)
      hSound hPending
    rw [hSame] at hCall
    cases hCall
    exact .buffered hPending rfl rfl rfl rfl hRest hNext

/-- Each call delivers what it has stored, behind what was delivered before. -/
theorem recvCall_delivered (h : recvCall read len ready r = some (got, r')) :
    r'.delivered = r.delivered ++ got.stored := by
  obtain ⟨_, _, hOut⟩ := Option.map_eq_some_iff.mp h
  obtain ⟨rfl, rfl⟩ := Prod.mk.inj hOut
  rfl

/-- One call keeps the stream in order. The cases are those of its record. -/
theorem RecvRun.Streams.call (h : r.Streams) (hCall : recvCall read len ready r = some (got, r')) :
    r'.Streams := by
  have hDelivered := recvCall_delivered hCall
  have hStream := h.stream
  cases recvCall_step h.sound hCall with
  | buffered hPending hSrc hRecords hRet hStored hRest hSound =>
      refine ⟨hSound, ?_⟩
      rw [hDelivered, hStored, hRest, hRecords, List.append_assoc, List.take_append_drop, hStream]
  | fresh x hPending hRecords hRet hStored hRest hSound =>
      refine ⟨hSound, ?_⟩
      rw [hPending, List.append_nil] at hStream
      rw [hDelivered, hStored, hRest, hRecords, List.append_assoc, List.take_append_drop, hStream,
        List.flatMap_append, List.flatMap_singleton]
  | nothing hPending hStored hRet hApp hRecords =>
      refine ⟨hApp ▸ h.sound, ?_⟩
      rw [hDelivered, hStored, hApp, List.append_nil, hStream]
      rcases hRecords with hSame | ⟨x, hEmpty, hMore⟩
      · rw [hSame]
      · rw [hMore, List.flatMap_append, List.flatMap_singleton, hEmpty, List.append_nil]

/-- So does every sequence of calls, by induction on the calls. -/
theorem RecvRun.Streams.calls (h : r.Streams) (calls : List (Nat × Bool)) :
    (recvCalls read calls r).Streams := by
  induction calls generalizing r with
  | nil => exact h
  | cons call calls ih =>
      rw [recvCalls]
      cases hCall : recvCall read call.1 call.2 r with
      | none => exact h
      | some out => exact ih (h.call hCall)

/-- Before the first call nothing was read and nothing delivered. -/
theorem streams_start (src : Source) : (RecvRun.start src).Streams := ⟨.inl rfl, rfl⟩

/-- What holds of a call. -/
structure Orderly (len : Nat) (r : RecvRun Source) (got : Received) (r' : RecvRun Source) :
    Prop where
  /-- No more bytes than asked for, and the result counts them. -/
  fits : got.stored.length ≤ len
  ret : got.ret = got.stored.length ∨ got.stored = [] ∧ got.ret = -1
  /-- While bytes are pending they are handed out and no record is read. -/
  first : r.app.pending ≠ [] →
    got.stored = r.app.pending.take len ∧ got.stored ≠ [] ∧ r'.src = r.src ∧ r'.records = r.records

/-- Each of the ways a call can go is an orderly one. -/
theorem RecvStep.orderly (hLen : 0 < len) (h : RecvStep len r got r') : Orderly len r got r' := by
  cases h with
  | buffered hPending hSrc hRecords hRet hStored hRest hSound =>
      refine ⟨?_, .inl hRet, fun _ => ⟨hStored, ?_, hSrc, hRecords⟩⟩
      · rw [hStored]
        exact List.length_take_le _ _
      · rw [hStored, Ne, List.take_eq_nil_iff, not_or]
        exact ⟨Nat.pos_iff_ne_zero.mp hLen, hPending⟩
  | fresh x hPending hRecords hRet hStored hRest hSound =>
      refine ⟨?_, .inl hRet, fun hSome => absurd hPending hSome⟩
      rw [hStored]
      exact List.length_take_le _ _
  | nothing hPending hStored hRet hApp hRecords =>
      refine ⟨by rw [hStored]; exact Nat.zero_le _, ?_, fun hSome => absurd hPending hSome⟩
      rcases hRet with hZero | hMinus
      · left
        rw [hZero, hStored]
        rfl
      · exact .inr ⟨hStored, hMinus⟩

end Calls

/-- Whatever the records and the calls, what has been handed out is the beginning of the
application data read, the rest of it is pending, and each further call goes on there. -/
theorem recv_is_stream {Source : Type} (read : Source → Option (Option WholeRecord × Source))
    (src : Source) (calls : List (Nat × Bool)) :
    let r := recvCalls read calls (.start src)
    r.delivered <+: r.records.flatMap plaintext ∧
      r.delivered ++ r.app.pending = r.records.flatMap plaintext ∧
      ∀ len ready got r', 0 < len → recvCall read len ready r = some (got, r') →
        Orderly len r got r' := by
  have hStreams : (recvCalls read calls (.start src)).Streams := (streams_start src).calls calls
  refine ⟨⟨_, hStreams.stream⟩, hStreams.stream, fun len ready got r' hLen hCall => ?_⟩
  exact (recvCall_step hStreams.sound hCall).orderly hLen

section Records

variable {c : VTlsConn} {ct : UInt8} {body content : List UInt8}

/-- A record that is opened has its content between IV and MAC, and room for both. -/
theorem openRecord_some (h : (openRecord c ct body).content = some content) :
    content = innerContent c body ∧ 37 + lastByte c body ≤ body.length := by
  by_cases hAccepts : Accepts c ct body
  · rw [openRecord_accepts hAccepts] at h
    exact ⟨(Option.some.inj h).symm, hAccepts.room⟩
  · rw [(openRecord_rejects hAccepts).1] at h
    cases h

/-- A record lies in the buffer it was read into. -/
theorem tlsReadRecord_whole_buffer {feed feed' : Feed} {r : Record} {c' : VTlsConn}
    (h : tlsReadRecord c feed = .done (r, c', feed')) : r.len ≤ r.buf.length := by
  unfold tlsReadRecord at h
  cases hHeader : tlsRecvAll 5 feed with
  | fails | hangs =>
      rw [hHeader] at h
      cases h
  | done header =>
      rw [hHeader] at h
      dsimp only at h
      by_cases hLarge : maxRecord + 2048 <
          (header.1.getD 3 0).toNat * 256 + (header.1.getD 4 0).toNat
      · rw [if_pos hLarge] at h
        cases h
      rw [if_neg hLarge] at h
      clear hLarge
      generalize (header.1.getD 3 0).toNat * 256 + (header.1.getD 4 0).toNat = n at h
      cases hBody : tlsRecvAll n header.2 with
      | fails | hangs =>
          rw [hBody] at h
          cases h
      | done body =>
          have hLength : body.1.length = n := by
            unfold tlsRecvAll at hBody
            split_ifs at hBody with hEnough
            cases hBody
            exact List.length_take_of_le hEnough
          rw [hBody] at h
          dsimp only at h
          by_cases hCipher : c.cipherActive ∧ decrypts (header.1.getD 0 0)
          · rw [if_pos hCipher] at h
            cases hOpen : (openRecord c (header.1.getD 0 0) body.1).content with
            | none =>
                rw [hOpen] at h
                cases h
            | some content =>
                rw [hOpen] at h
                cases h
                obtain ⟨rfl, hRoom⟩ := openRecord_some hOpen
                show (innerContent c body.1).length ≤ (movedBody c body.1 _).length
                rw [movedBody, List.length_append, List.length_take, List.length_drop,
                  length_plainBody, length_innerContent hRoom]
                omega
          · rw [if_neg hCipher] at h
            cases h
            exact Nat.le_of_eq hLength.symm

/-- `tls_read_record` as a reader; `broken` is what a failure leaves behind. -/
def recordReader (broken : VTlsConn × Feed → VTlsConn × Feed) (s : VTlsConn × Feed) :
    Option (Option WholeRecord × VTlsConn × Feed) :=
  match h : tlsReadRecord s.1 s.2 with
  | .hangs => none
  | .fails => some (none, broken s)
  | .done out => some (some ⟨out.1, tlsReadRecord_whole_buffer h⟩, out.2)

/-- The stream on the records of a connection. -/
theorem recordReader_streams (broken : VTlsConn × Feed → VTlsConn × Feed) (c : VTlsConn)
    (feed : Feed)
    (calls : List (Nat × Bool)) :
    (recvCalls (recordReader broken) calls (.start (c, feed))).Streams :=
  (streams_start (c, feed)).calls calls

end Records

end Vmodem.Tls
