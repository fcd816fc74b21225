import Vmodem.Tls.AesInverse
import Vmodem.Tls.Record

/-! What one connection writes and another with the same keys reads. The writer encrypts
every record, the reader decrypts handshake and application records only. -/

namespace Vmodem.Tls

/-- The reader's receiving side is the writer's sending side. -/
structure Mirrored (w r : VTlsConn) : Prop where
  key : r.decKey = w.encKey
  mac : r.macDecKey = w.macEncKey
  seq : r.seqRecv = w.seqSend
  writes : w.cipherActive
  reads : r.cipherActive

/-- A record to be written, with the IV drawn for it. -/
structure Outgoing where
  ct : UInt8
  data : List UInt8
  iv : List UInt8
  type : ct = rtHandshake ∨ ct = rtApplication ∨ ct = rtAlert
  size : data.length ≤ maxRecord
  length_iv : iv.length = 16

/-- Of the records sent only an alert is not decrypted by its reader. -/
theorem Outgoing.decrypts_iff (o : Outgoing) : decrypts o.ct ↔ o.ct ≠ rtAlert := by
  rcases o.type with hType | hType | hType <;> rw [hType] <;> decide

/-- One call of `tls_write_record` for each record. -/
def writeRecords (w : VTlsConn) : List Outgoing → Option (VTlsConn × List UInt8)
  | [] => some (w, [])
  | o :: rest => do
      let (w, bs) ← tlsWriteRecord w o.ct o.data o.iv
      let (w, more) ← writeRecords w rest
      return (w, bs ++ more)

/-- `n` calls of `tls_read_record`: content type and data of each record. -/
def readRecords (r : VTlsConn) (feed : Feed) : Nat →
    Outcome (List (UInt8 × List UInt8) × VTlsConn × Feed)
  | 0 => .done ([], r, feed)
  | n + 1 =>
      match tlsReadRecord r feed with
      | .fails => .fails
      | .hangs => .hangs
      | .done (record, r, feed) =>
          match readRecords r feed n with
          | .fails => .fails
          | .hangs => .hangs
          | .done (more, r, feed) => .done ((record.ct, record.content) :: more, r, feed)

section Payload

variable {w r : VTlsConn} {ct : UInt8} {data iv more : List UInt8}

theorem padLen_lt (n : Nat) : padLen n < 16 := by
  unfold padLen
  dsimp only
  split_ifs <;> omega

/-- Data, MAC and padding fill whole blocks. -/
theorem length_sealed : (sealed w ct data).length = data.length + 20 + padLen data.length + 1 ∧
    (sealed w ct data).length % 16 = 0 := by
  have hLength : (sealed w ct data).length = data.length + 20 + padLen data.length + 1 := by
    rw [sealed, List.length_append, List.length_append, length_hmacSha1, List.length_replicate]
    omega
  refine ⟨hLength, ?_⟩
  rw [hLength]
  unfold padLen
  dsimp only
  split_ifs <;> omega

/-- The encrypted part of a record. -/
def ciphertext (w : VTlsConn) (ct : UInt8) (data iv : List UInt8) : List UInt8 :=
  (aesCbcEncrypt w.encKey (Block.get iv) (sealed w ct data)).1

/-- The ciphertext is as long as what was sealed. -/
theorem length_ciphertext : (ciphertext w ct data iv).length = (sealed w ct data).length :=
  BlockChaining.length_encrypt (Nat.div_mul_le_self _ 16)

theorem Block.xor_cancel (a b : Block) : a.xor (a.xor b) = b := by
  simp only [Block.xor, ← UInt32.xor_assoc, UInt32.xor_self, UInt32.zero_xor]

/-- Decryption undoes encryption under one key and one initialization vector. -/
theorem aesCbcDecrypt_aesCbcEncrypt (key : AesKey) (block : Block) (plain : List UInt8) :
    (aesCbcDecrypt key block (aesCbcEncrypt key block plain).1).1 = plain := by
  have hLength : (aesCbcEncrypt key block plain).1.length = plain.length :=
    BlockChaining.length_encrypt (Nat.div_mul_le_self _ 16)
  rw [aesCbcDecrypt, hLength]
  exact BlockChaining.decrypt_encrypt (aesDecryptBlock_aesEncryptBlock key)
    Block.xor_cancel (Nat.div_mul_le_self _ 16)

/-- The initialization vector is read off the first sixteen bytes. -/
theorem Block.get_append (hIv : iv.length = 16) : Block.get (iv ++ more) = Block.get iv := by
  have hPut := Block.put_get iv (by omega)
  rw [List.take_of_length_le (by omega)] at hPut
  rw [← hPut, Block.get_put, hPut]

/-- The record body: IV and encrypted payload. -/
def payload (w : VTlsConn) (ct : UInt8) (data iv : List UInt8) : List UInt8 :=
  iv ++ ciphertext w ct data iv

/-- The payload is the data with IV, MAC, padding and its length. -/
theorem length_payload (hIv : iv.length = 16) :
    (payload w ct data iv).length = data.length + 37 + padLen data.length := by
  rw [payload, List.length_append, length_ciphertext, length_sealed.1]
  omega

/-- The writer after a record. -/
def wrote (w : VTlsConn) (ct : UInt8) (data iv : List UInt8) : VTlsConn :=
  { w with
    encIv := (aesCbcEncrypt w.encKey (Block.get iv) (sealed w ct data)).2
    seqSend := w.seqSend + 1 }

/-- A record under keys is its header and its payload. -/
theorem tlsWriteRecord_payload (hCipher : w.cipherActive) (hData : data.length ≤ maxRecord) :
    tlsWriteRecord w ct data iv = some (wrote w ct data iv,
      recordHeader ct (payload w ct data iv).length ++ payload w ct data iv) := by
  have hPad := padLen_lt data.length
  rw [maxRecord] at hData
  rw [tlsWriteRecord, if_pos hCipher, if_pos (by omega)]
  rfl

/-- The reader decrypts what was encrypted with its key. -/
theorem plainBody_encrypted (hIv : iv.length = 16) (plain : List UInt8) :
    plainBody r (iv ++ (aesCbcEncrypt r.decKey (Block.get iv) plain).1) = iv ++ plain := by
  rw [plainBody, Block.get_append hIv, List.take_left' hIv, List.drop_left' hIv,
    aesCbcDecrypt_aesCbcEncrypt]

/-- With the writer's key the payload decrypts to what was sealed. -/
theorem plainBody_payload (hKey : r.decKey = w.encKey) (hIv : iv.length = 16) :
    plainBody r (payload w ct data iv) = iv ++ sealed w ct data := by
  rw [payload, ciphertext, ← hKey]
  exact plainBody_encrypted hIv _

theorem lastByte_payload (hKey : r.decKey = w.encKey) (hIv : iv.length = 16) :
    lastByte r (payload w ct data iv) = padLen data.length := by
  have hPad := padLen_lt data.length
  have hLast : (iv ++ sealed w ct data).getD ((payload w ct data iv).length - 1) 0 =
      .ofNat (padLen data.length) := by
    have hPrefix : (iv ++ data ++ hmacSha1 w.macEncKey (macInput w.seqSend ct data)).length =
        data.length + 36 := by
      rw [List.length_append, List.length_append, length_hmacSha1]
      omega
    rw [length_payload hIv, sealed, ← List.append_assoc, ← List.append_assoc,
      List.getD_eq_getElem?_getD,
      List.getElem?_append_right (by omega), hPrefix, List.getElem?_replicate_of_lt (by omega)]
    rfl
  rw [lastByte, plainBody_payload hKey hIv, hLast, UInt8.toNat_ofNat']
  omega

theorem innerContent_payload (hKey : r.decKey = w.encKey) (hIv : iv.length = 16) :
    innerContent r (payload w ct data iv) = data := by
  rw [innerContent, plainBody_payload hKey hIv, lastByte_payload hKey hIv, length_payload hIv,
    List.drop_left' hIv, sealed, List.append_assoc]
  exact List.take_left' (by omega)

theorem innerMac_payload (hKey : r.decKey = w.encKey) (hIv : iv.length = 16) :
    innerMac r (payload w ct data iv) = hmacSha1 w.macEncKey (macInput w.seqSend ct data) := by
  rw [innerMac, plainBody_payload hKey hIv, lastByte_payload hKey hIv, length_payload hIv, sealed,
    List.append_assoc, ← List.append_assoc, List.drop_left']
  · exact List.take_left' (length_hmacSha1 _ _)
  · rw [List.length_append]
    omega

theorem accepts_payload (h : Mirrored w r) (hIv : iv.length = 16) :
    Accepts r ct (payload w ct data iv) where
  block := by
    rw [length_payload hIv]
    omega
  room := by
    rw [lastByte_payload h.key hIv, length_payload hIv]
    omega
  mac := by rw [innerMac_payload h.key hIv, innerContent_payload h.key hIv, h.mac, h.seq]

/-- The payload of a legal record is short enough to be read. -/
theorem length_payload_le (hIv : iv.length = 16) (hData : data.length ≤ maxRecord) :
    (payload w ct data iv).length ≤ maxRecord + 2048 := by
  have hPad := padLen_lt data.length
  rw [length_payload hIv]
  omega

/-- The reader after a record it accepted. -/
def opened (r : VTlsConn) (body : List UInt8) : VTlsConn :=
  { chained r body with seqRecv := r.seqRecv + 1 }

/-- After the record both sides still mirror each other. -/
theorem Mirrored.step (h : Mirrored w r) :
    Mirrored (wrote w ct data iv) (opened r (payload w ct data iv)) where
  key := h.key
  mac := h.mac
  seq := congrArg (· + 1) h.seq
  writes := h.writes
  reads := h.reads

/-- A record of a type the reader decrypts comes back. -/
theorem tlsReadRecord_payload (h : Mirrored w r) (hIv : iv.length = 16)
    (hData : data.length ≤ maxRecord) (hType : decrypts ct) (more : List UInt8) (closes : Bool) :
    ∃ record, record.ct = ct ∧ record.content = data ∧
      tlsReadRecord r ⟨recordHeader ct (payload w ct data iv).length ++
        payload w ct data iv ++ more,
        closes⟩ = .done (record, opened r (payload w ct data iv), ⟨more, closes⟩) := by
  have hAccepts : Accepts r ct (payload w ct data iv) := accepts_payload h hIv
  refine ⟨⟨ct, _, _⟩, rfl, (content_movedBody hAccepts.room).trans (innerContent_payload h.key hIv),
    ?_⟩
  rw [tlsReadRecord_framed (length_payload_le hIv hData), if_pos ⟨h.reads, hType⟩,
    openRecord_accepts hAccepts]
  rfl

/-- A record of another type comes back as it went over the wire. -/
theorem tlsReadRecord_raw (w r : VTlsConn) (hIv : iv.length = 16) (hData : data.length ≤ maxRecord)
    (hType : ¬ decrypts ct) (more : List UInt8) (closes : Bool) :
    ∃ record, record.content ≠ data ∧
      tlsReadRecord r ⟨recordHeader ct (payload w ct data iv).length ++
        payload w ct data iv ++ more,
        closes⟩ = .done (record, r, ⟨more, closes⟩) := by
  refine ⟨⟨ct, payload w ct data iv, (payload w ct data iv).length⟩, fun hContent => ?_, ?_⟩
  · have hLength := congrArg List.length hContent
    rw [Record.content, List.take_length, length_payload hIv] at hLength
    omega
  · rw [tlsReadRecord_framed (length_payload_le hIv hData), if_neg (fun hBoth => hType hBoth.2)]

end Payload

section Streams

variable {w w' r : VTlsConn} {recs : List Outgoing} {stream : List UInt8}

/-- Content type and data of the records. -/
def contents (recs : List Outgoing) : List (UInt8 × List UInt8) := recs.map fun o => (o.ct, o.data)

/-- The bytes of a record on the wire. -/
def onWire (w : VTlsConn) (o : Outgoing) : List UInt8 :=
  recordHeader o.ct (payload w o.ct o.data o.iv).length ++ payload w o.ct o.data o.iv

/-- Records are written one after the other, each behind the state the one before has
left. -/
theorem writeRecords_cons (h : Mirrored w r) {o : Outgoing} :
    writeRecords w (o :: recs) = some (w', stream) ↔
      ∃ rest, writeRecords (wrote w o.ct o.data o.iv) recs = some (w', rest) ∧
        stream = onWire w o ++ rest := by
  rw [writeRecords, tlsWriteRecord_payload h.writes o.size]
  cases hRest : writeRecords (wrote w o.ct o.data o.iv) recs with
  | none => simp [hRest]
  | some out => simp [hRest, onWire, Prod.ext_iff, eq_comm]

/-- With keys every list of records can be written. -/
theorem writeRecords_isSome (h : Mirrored w r) (recs : List Outgoing) :
    ∃ w' stream, writeRecords w recs = some (w', stream) := by
  induction recs generalizing w r with
  | nil => exact ⟨_, _, rfl⟩
  | cons o recs ih =>
      obtain ⟨w', rest, hRest⟩ := ih (h.step : Mirrored (wrote w o.ct o.data o.iv) _)
      exact ⟨w', _, (writeRecords_cons h).mpr ⟨rest, hRest, rfl⟩⟩

/-- The stream of the first records is how the whole stream starts. -/
theorem writeRecords_take {wk : VTlsConn} {sent : List UInt8} {k : Nat} (h : Mirrored w r)
    (hWrite : writeRecords w recs = some (w', stream))
    (hFirst : writeRecords w (recs.take k) = some (wk, sent)) : ∃ rest, stream = sent ++ rest := by
  induction recs generalizing w r stream sent k with
  | nil =>
      rw [List.take_nil, hWrite] at hFirst
      obtain ⟨-, rfl⟩ := Prod.mk.inj (Option.some.inj hFirst)
      exact ⟨[], (List.append_nil _).symm⟩
  | cons o recs ih =>
      cases k with
      | zero =>
          obtain ⟨-, rfl⟩ := Prod.mk.inj (Option.some.inj hFirst)
          exact ⟨stream, rfl⟩
      | succ k =>
          rw [List.take_succ_cons] at hFirst
          obtain ⟨streamRest, hWriteRest, rfl⟩ := (writeRecords_cons h).mp hWrite
          obtain ⟨sentRest, hFirstRest, rfl⟩ := (writeRecords_cons h).mp hFirst
          obtain ⟨rest, rfl⟩ := ih h.step hWriteRest hFirstRest
          exact ⟨rest, (List.append_assoc _ _ _).symm⟩

/-- Records the reader decrypts come back as they were written, and the two sides stay in
step. -/
theorem readRecords_writeRecords (h : Mirrored w r) (hTypes : ∀ o ∈ recs, o.ct ≠ rtAlert)
    (hWrite : writeRecords w recs = some (w', stream)) (closes : Bool) :
    ∃ r', Mirrored w' r' ∧ ∀ more, readRecords r ⟨stream ++ more, closes⟩ recs.length =
      .done (contents recs, r', ⟨more, closes⟩) := by
  induction recs generalizing w r stream with
  | nil =>
      obtain ⟨rfl, rfl⟩ : w = w' ∧ [] = stream := by simpa [writeRecords] using hWrite
      exact ⟨r, h, fun more => rfl⟩
  | cons o recs ih =>
      obtain ⟨rest, hRest, rfl⟩ := (writeRecords_cons h).mp hWrite
      obtain ⟨r', hMirrored, hRead⟩ :=
        ih h.step (fun o' ho => hTypes o' (List.mem_cons_of_mem _ ho)) hRest
      refine ⟨r', hMirrored, fun more => ?_⟩
      obtain ⟨record, hCt, hContent, hRecord⟩ := tlsReadRecord_payload h o.length_iv o.size
        (o.decrypts_iff.mpr (hTypes o List.mem_cons_self)) (rest ++ more) closes
      rw [List.append_assoc, List.length_cons, readRecords, onWire, hRecord]
      dsimp only
      rw [hRead]
      dsimp only
      rw [hCt, hContent]
      rfl

/-- The first alert among the records does not come back. -/
theorem readRecords_alert (h : Mirrored w r) (hAlert : ∃ o ∈ recs, o.ct = rtAlert)
    (hWrite : writeRecords w recs = some (w', stream)) (closes : Bool) :
    ∃ k ≤ recs.length, ∀ r' feed, readRecords r ⟨stream, closes⟩ k ≠
      .done (contents (recs.take k), r', feed) := by
  induction recs generalizing w r stream with
  | nil =>
      obtain ⟨o, ho, -⟩ := hAlert
      exact absurd ho List.not_mem_nil
  | cons o recs ih =>
      obtain ⟨rest, hRest, rfl⟩ := (writeRecords_cons h).mp hWrite
      by_cases hType : o.ct = rtAlert
      · refine ⟨1, by simp, fun r' feed hRead => ?_⟩
        obtain ⟨record, hContent, hRecord⟩ := tlsReadRecord_raw w r o.length_iv o.size
          (fun hDecrypts => o.decrypts_iff.mp hDecrypts hType) rest closes
        rw [readRecords, onWire, hRecord] at hRead
        dsimp only [readRecords, contents, List.take_succ_cons, List.take_zero, List.map] at hRead
        injection hRead with hRead
        injection hRead with hRead
        injection hRead with hRead
        exact hContent (Prod.mk.inj hRead).2
      · obtain ⟨record, -, -, hRecord⟩ := tlsReadRecord_payload h o.length_iv o.size
          (o.decrypts_iff.mpr hType) rest closes
        have hLater : ∃ o' ∈ recs, o'.ct = rtAlert := by
          obtain ⟨o', ho, hAlert⟩ := hAlert
          rcases List.mem_cons.mp ho with rfl | ho
          · exact absurd hAlert hType
          · exact ⟨o', ho, hAlert⟩
        obtain ⟨k, hk, hNot⟩ := ih h.step hLater hRest
        refine ⟨k + 1, by simpa using hk, fun r' feed hRead => ?_⟩
        rw [readRecords, onWire, hRecord] at hRead
        dsimp only at hRead
        cases hMore : readRecords (opened r (payload w o.ct o.data o.iv)) ⟨rest, closes⟩ k with
        | fails =>
            rw [hMore] at hRead
            nomatch hRead
        | hangs =>
            rw [hMore] at hRead
            nomatch hRead
        | done out =>
            rw [hMore] at hRead
            injection hRead with hRead
            injection hRead with hList hRest
            injection hList with hFirst hList
            refine hNot out.2.1 out.2.2 ?_
            rw [hMore]
            exact congrArg Outcome.done (Prod.ext hList rfl)

/-- The reader gets the written records back one by one, and after each the two sequence
numbers are equal. -/
def RoundTrips (w r : VTlsConn) (recs : List Outgoing) : Prop :=
  ∃ w' stream, writeRecords w recs = some (w', stream) ∧ ∀ closes, ∀ k ≤ recs.length,
    ∃ wk sent rk feed, writeRecords w (recs.take k) = some (wk, sent) ∧
      readRecords r ⟨stream, closes⟩ k = .done (contents (recs.take k), rk, feed) ∧
      rk.seqRecv = wk.seqSend

/-- Records without an alert come through. The induction is on the records. -/
theorem roundTrips_of_no_alert (h : Mirrored w r) (hTypes : ∀ o ∈ recs, o.ct ≠ rtAlert) :
    RoundTrips w r recs := by
  obtain ⟨w', stream, hWrite⟩ := writeRecords_isSome h recs
  refine ⟨w', stream, hWrite, fun closes k hk => ?_⟩
  obtain ⟨wk, sent, hFirst⟩ := writeRecords_isSome h (recs.take k)
  obtain ⟨rk, hMirrored, hRead⟩ := readRecords_writeRecords h
    (fun o ho => hTypes o (List.mem_of_mem_take ho)) hFirst closes
  obtain ⟨rest, rfl⟩ := writeRecords_take h hWrite hFirst
  rw [List.length_take_of_le hk] at hRead
  exact ⟨wk, sent, rk, ⟨rest, closes⟩, hFirst, hRead rest, hMirrored.seq⟩

/-- An alert does not: its reader returns the ciphertext. -/
theorem not_roundTrips_of_alert (h : Mirrored w r) (hAlert : ∃ o ∈ recs, o.ct = rtAlert) :
    ¬ RoundTrips w r recs := by
  rintro ⟨w', stream, hWrite, hAll⟩
  obtain ⟨k, hk, hNot⟩ := readRecords_alert h hAlert hWrite true
  obtain ⟨_, _, rk, feed, -, hRead, -⟩ := hAll true k hk
  exact hNot rk feed hRead

/-- A stream of records survives the wire exactly if there is no alert among them: alerts are
written encrypted and counted, and read as they are. -/
theorem record_stream (h : Mirrored w r) : RoundTrips w r recs ↔ ∀ o ∈ recs, o.ct ≠ rtAlert := by
  constructor
  · intro hTrip o ho hAlert
    exact not_roundTrips_of_alert h ⟨o, ho, hAlert⟩ hTrip
  · exact roundTrips_of_no_alert h

/-- A connection to itself, with one key for both directions. -/
def loopback : VTlsConn where
  active := true
  encKey := aesSetup (List.replicate 16 7)
  encIv := Block.get (List.replicate 16 0)
  decKey := aesSetup (List.replicate 16 7)
  decIv := Block.get (List.replicate 16 0)
  macEncKey := List.replicate 20 9
  macDecKey := List.replicate 20 9
  seqSend := 0
  seqRecv := 0
  cipherActive := true
  peerCert := []
  peerKeyBits := 0

theorem mirrored_loopback : Mirrored loopback loopback := ⟨rfl, rfl, rfl, rfl, rfl⟩

/-- A line of application data. -/
def dataRecord : Outgoing where
  ct := rtApplication
  data := [0x41, 0x54, 0x0D]
  iv := List.replicate 16 5
  type := .inr (.inl rfl)
  size := by decide
  length_iv := rfl

theorem record_stream_data : RoundTrips loopback loopback [dataRecord, dataRecord] := by
  apply (record_stream mirrored_loopback).mpr
  intro o ho
  obtain rfl : o = dataRecord := by simpa using ho
  decide

/-- The close_notify alert of `vtls_close`. -/
def closeNotify : Outgoing where
  ct := rtAlert
  data := [1, 0]
  iv := List.replicate 16 5
  type := .inr (.inr rfl)
  size := by decide
  length_iv := rfl

/-- A close_notify alert does not come back. -/
theorem close_notify_lost :
    Mirrored loopback loopback ∧ ¬ RoundTrips loopback loopback [closeNotify] :=
  ⟨mirrored_loopback, not_roundTrips_of_alert mirrored_loopback ⟨closeNotify, by simp, rfl⟩⟩

end Streams

end Vmodem.Tls
