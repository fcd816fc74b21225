import Vmodem.Tls.Aes
import Vmodem.Tls.Hash

/-! The TLS record layer: the connection state, and reading and writing one record. An
`int` has 16 bits on the target, an `unsigned long` 32. -/

namespace Vmodem.Tls

def rtChangeCipher : UInt8 := 20
def rtAlert : UInt8 := 21
def rtHandshake : UInt8 := 22
def rtApplication : UInt8 := 23

/-- `MAX_RECORD`. -/
def maxRecord : Nat := 16384

/-- `VTlsConn` without its receive buffer. -/
structure VTlsConn where
  active : Bool
  encKey : AesKey
  encIv : Block
  decKey : AesKey
  decIv : Block
  macEncKey : List UInt8
  macDecKey : List UInt8
  seqSend : UInt32
  seqRecv : UInt32
  cipherActive : Bool
  peerCert : List UInt8
  peerKeyBits : Int
  deriving Repr

theorem Block.length_put (s : Block) : s.put.length = 16 := rfl

/-- A block is read back from the bytes it was written to. -/
theorem Block.get_put (s : Block) (rest : List UInt8) : Block.get (s.put ++ rest) = s := by
  simp [Block.get, Block.put, put32, get32]

/-- Sixteen bytes are written back as they were read. -/
theorem Block.put_get (bs : List UInt8) (h : 16 ≤ bs.length) : (Block.get bs).put = bs.take 16 := by
  have hWords : (Block.get bs).put = (List.range 16).map fun k => bs.getD k 0 := by
    simp [Block.get, Block.put, put32, get32, List.range_succ]
  rw [hWords]
  apply List.ext_getElem
  · simp [h]
  · intro k hk hTake
    rw [List.length_map, List.length_range] at hk
    simp [List.getElem?_eq_getElem (show k < bs.length by omega)]

/-- The blocks of a buffer. -/
def blockCodec : BlockChaining.Codec UInt8 Block where
  size := 16
  get := Block.get
  put := Block.put
  length_put := Block.length_put
  get_put := Block.get_put
  put_get := Block.put_get

/-- `aes_cbc_encrypt`: as many whole blocks as there are. -/
def aesCbcEncrypt (key : AesKey) (iv : Block) (blk : List UInt8) : List UInt8 × Block :=
  BlockChaining.encrypt blockCodec Block.xor (aesEncryptBlock key) (blk.length / 16) iv blk

/-- `aes_cbc_decrypt`. -/
def aesCbcDecrypt (key : AesKey) (iv : Block) (blk : List UInt8) : List UInt8 × Block :=
  BlockChaining.decrypt blockCodec Block.xor (aesDecryptBlock key) (blk.length / 16) iv blk

/-- What the MAC of a record is computed over: sequence number, type, version, length, data. -/
def macInput (seq : UInt32) (ct : UInt8) (content : List UInt8) : List UInt8 :=
  [0, 0, 0, 0] ++ put32 seq ++ [ct, 0x03, 0x03] ++ put16 content.length ++ content

/-- The 5 bytes before a record. -/
def recordHeader (ct : UInt8) (len : Nat) : List UInt8 := [ct, 0x03, 0x03] ++ put16 len

/-- The padding of `tls_write_record`. -/
def padLen (datalen : Nat) : Nat :=
  let padlen := 16 - (datalen + 20 + 1) % 16
  if padlen = 16 then 0 else padlen

/-- The bytes `tls_write_record` encrypts: data, MAC and padding. -/
def sealed (c : VTlsConn) (ct : UInt8) (data : List UInt8) : List UInt8 :=
  data ++ hmacSha1 c.macEncKey (macInput c.seqSend ct data) ++
    List.replicate (padLen data.length + 1) (.ofNat (padLen data.length))

/-- `tls_write_record` with the 16 random bytes it draws: the bytes handed to
`tls_send_all`, or `none` where the length of the payload does not fit an `int`. -/
def tlsWriteRecord (c : VTlsConn) (ct : UInt8) (data iv : List UInt8) :
    Option (VTlsConn × List UInt8) :=
  if c.cipherActive then
    if 16 + data.length + 20 + padLen data.length + 1 < 32768 then
      let r := aesCbcEncrypt c.encKey (Block.get iv) (sealed c ct data)
      some ({ c with encIv := r.2, seqSend := c.seqSend + 1 },
        recordHeader ct (iv ++ r.1).length ++ (iv ++ r.1))
    else none
  else some (c, recordHeader ct data.length ++ data)

/-- The outcome of the protected part of `tls_read_record`. -/
structure Opened where
  conn : VTlsConn
  /-- The content, unless the record is rejected. -/
  content : Option (List UInt8)
  /-- The parts of the body that were used, by offset and number of bytes. -/
  touched : List (Nat × Nat)

/-- A protected body decrypted in place behind its IV. -/
def plainBody (c : VTlsConn) (body : List UInt8) : List UInt8 :=
  body.take 16 ++ (aesCbcDecrypt c.decKey (Block.get body) (body.drop 16)).1

/-- `tls_read_record` on the body of a protected record: decrypt, remove the padding,
check the MAC. -/
def openRecord (c : VTlsConn) (ct : UInt8) (body : List UInt8) : Opened :=
  let len := body.length
  if len < 32 then ⟨c, none, []⟩
  else
    let plain := plainBody c body
    let c := { c with decIv := (aesCbcDecrypt c.decKey (Block.get body) (body.drop 16)).2 }
    let padlen := (plain.getD (len - 1) 0).toNat
    let contentLen : Int := len - 16 - 20 - padlen - 1
    let touched := [(0, 16), (16, (len - 16) / 16 * 16), (len - 1, 1)]
    if contentLen < 0 then ⟨c, none, touched⟩
    else
      let content := (plain.drop 16).take contentLen.toNat
      let computedMac := hmacSha1 c.macDecKey (macInput c.seqRecv ct content)
      let recordMac := (plain.drop (16 + contentLen.toNat)).take 20
      let touched := touched ++ [(16, contentLen.toNat), (16 + contentLen.toNat, 20)]
      if recordMac ≠ computedMac then ⟨c, none, touched⟩
      else ⟨{ c with seqRecv := c.seqRecv + 1 }, some content, touched⟩

/-- What the peer sends, and whether it then closes the connection or falls silent. -/
structure Feed where
  bytes : List UInt8
  closes : Bool
  deriving Repr

/-- How a blocking call ends. -/
inductive Outcome (α : Type) where
  | done (a : α)
  /-- The call returns -1. -/
  | fails
  /-- The call never returns. -/
  | hangs
  deriving Repr

/-- `tls_recv_all`. The `int` that counts its passes never gets beyond 50000, so it waits
for as long as the connection is open. -/
def tlsRecvAll (n : Nat) (feed : Feed) : Outcome (List UInt8 × Feed) :=
  if n ≤ feed.bytes.length then .done (feed.bytes.take n, { feed with bytes := feed.bytes.drop n })
  else if feed.closes then .fails
  else .hangs

/-- A record that was read. -/
structure Record where
  ct : UInt8
  /-- The buffer handed to the caller; its first `len` bytes are the content. -/
  buf : List UInt8
  len : Nat
  deriving Repr

namespace Record

def content (r : Record) : List UInt8 := r.buf.take r.len

end Record

/-- The types whose records `tls_read_record` takes for encrypted. -/
def decrypts (ct : UInt8) : Bool := ct = rtHandshake ∨ ct = rtApplication

/-- What `memmove(body, body + 16, content_len)` leaves in the buffer. -/
def movedBody (c : VTlsConn) (body : List UInt8) (contentLen : Nat) : List UInt8 :=
  ((plainBody c body).drop 16).take contentLen ++ (plainBody c body).drop contentLen

/-- `tls_read_record`. -/
def tlsReadRecord (c : VTlsConn) (feed : Feed) : Outcome (Record × VTlsConn × Feed) :=
  match tlsRecvAll 5 feed with
  | .fails => .fails
  | .hangs => .hangs
  | .done (hdr, feed) =>
      let ct := hdr.getD 0 0
      let len := (hdr.getD 3 0).toNat * 256 + (hdr.getD 4 0).toNat
      if maxRecord + 2048 < len then .fails
      else
        match tlsRecvAll len feed with
        | .fails => .fails
        | .hangs => .hangs
        | .done (body, feed) =>
            if c.cipherActive ∧ decrypts ct then
              let o := openRecord c ct body
              match o.content with
              | none => .fails
              | some content => .done (⟨ct, movedBody c body content.length, content.length⟩,
                  o.conn, feed)
            else .done (⟨ct, body, len⟩, c, feed)

section Framing

variable {c : VTlsConn} {ct : UInt8} {bs body more : List UInt8} {closes : Bool}

/-- `tls_recv_all` takes its bytes and leaves the ones behind them. -/
theorem tlsRecvAll_append {n : Nat} (hLength : bs.length = n) :
    tlsRecvAll n ⟨bs ++ more, closes⟩ = .done (bs, ⟨more, closes⟩) := by
  subst hLength
  simp [tlsRecvAll]

/-- The two bytes of a length are read back as the length. -/
theorem put16_toNat {n : Nat} (h : n < 65536) :
    (UInt8.ofNat (n / 256)).toNat * 256 + (UInt8.ofNat n).toNat = n := by
  rw [UInt8.toNat_ofNat', UInt8.toNat_ofNat']
  omega

/-- A whole record at the head of the feed is read, and nothing behind it; the version bytes
are ignored. -/
theorem tlsReadRecord_whole {v1 v0 l1 l0 : UInt8}
    (hBody : body.length = l1.toNat * 256 + l0.toNat) :
    tlsReadRecord c ⟨[ct, v1, v0, l1, l0] ++ (body ++ more), closes⟩ =
      if maxRecord + 2048 < body.length then .fails
      else if c.cipherActive ∧ decrypts ct then
        match (openRecord c ct body).content with
        | none => .fails
        | some content => .done (⟨ct, movedBody c body content.length, content.length⟩,
            (openRecord c ct body).conn, ⟨more, closes⟩)
      else .done (⟨ct, body, body.length⟩, c, ⟨more, closes⟩) := by
  have hHeader : tlsRecvAll 5 ⟨[ct, v1, v0, l1, l0] ++ (body ++ more), closes⟩ =
      .done ([ct, v1, v0, l1, l0], ⟨body ++ more, closes⟩) := tlsRecvAll_append rfl
  have hRest : tlsRecvAll body.length ⟨body ++ more, closes⟩ = .done (body, ⟨more, closes⟩) :=
    tlsRecvAll_append rfl
  have hLen : ([ct, v1, v0, l1, l0].getD 3 0).toNat * 256 + ([ct, v1, v0, l1, l0].getD 4 0).toNat =
      body.length := hBody.symm
  rw [tlsReadRecord, hHeader]
  dsimp only
  rw [hLen, hRest]
  rfl

/-- What `tls_read_record` does with a framed body of legal length: it decrypts
handshake and application records under keys, and returns every other body as it came.
-/
theorem tlsReadRecord_framed (hBody : body.length ≤ maxRecord + 2048) :
    tlsReadRecord c ⟨recordHeader ct body.length ++ body ++ more, closes⟩ =
      if c.cipherActive ∧ decrypts ct then
        match (openRecord c ct body).content with
        | none => .fails
        | some content => .done (⟨ct, movedBody c body content.length, content.length⟩,
            (openRecord c ct body).conn, ⟨more, closes⟩)
      else .done (⟨ct, body, body.length⟩, c, ⟨more, closes⟩) := by
  have hLength : body.length < 65536 := by
    rw [maxRecord] at hBody
    omega
  rw [List.append_assoc]
  apply (tlsReadRecord_whole (put16_toNat hLength).symm).trans
  rw [if_neg (by omega)]

end Framing

section Opening

variable {c : VTlsConn} {ct : UInt8} {body content : List UInt8}

/-- The padding length a decrypted body ends with. -/
def lastByte (c : VTlsConn) (body : List UInt8) : Nat :=
  ((plainBody c body).getD (body.length - 1) 0).toNat

/-- The bytes between the IV and the MAC. -/
def innerContent (c : VTlsConn) (body : List UInt8) : List UInt8 :=
  ((plainBody c body).drop 16).take (body.length - 37 - lastByte c body)

/-- The 20 bytes behind the content. -/
def innerMac (c : VTlsConn) (body : List UInt8) : List UInt8 :=
  ((plainBody c body).drop (body.length - 21 - lastByte c body)).take 20

/-- What makes the code accept a protected record. -/
structure Accepts (c : VTlsConn) (ct : UInt8) (body : List UInt8) : Prop where
  block : 32 ≤ body.length
  room : 37 + lastByte c body ≤ body.length
  mac : innerMac c body = hmacSha1 c.macDecKey (macInput c.seqRecv ct (innerContent c body))

/-- A body shorter than two blocks is refused before anything is decrypted. -/
theorem openRecord_short (h : body.length < 32) : openRecord c ct body = ⟨c, none, []⟩ := by
  rw [openRecord, if_pos h]

/-- The connection after the decryption. -/
def chained (c : VTlsConn) (body : List UInt8) : VTlsConn :=
  { c with decIv := (aesCbcDecrypt c.decKey (Block.get body) (body.drop 16)).2 }

/-- The parts of the body used before its padding is known, and all of them. -/
def touchedFirst (body : List UInt8) : List (Nat × Nat) :=
  [(0, 16), (16, (body.length - 16) / 16 * 16), (body.length - 1, 1)]

def touchedAll (c : VTlsConn) (body : List UInt8) : List (Nat × Nat) :=
  touchedFirst body ++ [(16, body.length - 37 - lastByte c body),
    (body.length - 21 - lastByte c body, 20)]

/-- A body whose padding leaves no room for a MAC is refused after its decryption. -/
theorem openRecord_crowded (hBlock : 32 ≤ body.length) (h : body.length < 37 + lastByte c body) :
    openRecord c ct body = ⟨chained c body, none, touchedFirst body⟩ := by
  unfold lastByte at h
  unfold openRecord
  rw [if_neg (by omega)]
  dsimp only
  rw [if_pos (by omega)]
  rfl

/-- With room for MAC and padding the MAC alone decides, over the content in front of
it. -/
theorem openRecord_roomy (hBlock : 32 ≤ body.length) (h : 37 + lastByte c body ≤ body.length) :
    openRecord c ct body =
      if innerMac c body ≠ hmacSha1 c.macDecKey (macInput c.seqRecv ct (innerContent c body)) then
        ⟨chained c body, none, touchedAll c body⟩
      else ⟨{ chained c body with seqRecv := c.seqRecv + 1 }, some (innerContent c body),
        touchedAll c body⟩ := by
  have hLen : ((body.length : Int) - 16 - 20 - lastByte c body - 1).toNat =
      body.length - 37 - lastByte c body := by omega
  have hMac : 16 + (body.length - 37 - lastByte c body) = body.length - 21 - lastByte c body := by
    omega
  have hBody : openRecord c ct body =
      let contentLen := ((body.length : Int) - 16 - 20 - lastByte c body - 1).toNat
      let content := ((plainBody c body).drop 16).take contentLen
      if ((plainBody c body).drop (16 + contentLen)).take 20 ≠
          hmacSha1 c.macDecKey (macInput c.seqRecv ct content) then
        ⟨chained c body, none, touchedFirst body ++ [(16, contentLen), (16 + contentLen, 20)]⟩
      else ⟨{ chained c body with seqRecv := c.seqRecv + 1 }, some content,
        touchedFirst body ++ [(16, contentLen), (16 + contentLen, 20)]⟩ := by
    unfold lastByte at h
    unfold openRecord
    rw [if_neg (by omega)]
    dsimp only
    rw [if_neg (by omega)]
    rfl
  rw [hBody]
  dsimp only
  rw [hLen, hMac]
  rfl

/-- An acceptable body gives its content and counts one record. -/
theorem openRecord_accepts (h : Accepts c ct body) : openRecord c ct body =
    ⟨{ chained c body with seqRecv := c.seqRecv + 1 }, some (innerContent c body),
      touchedAll c body⟩ := by
  rw [openRecord_roomy h.block h.room, if_neg (not_not_intro h.mac)]

/-- A rejected record leaves the sequence number alone. -/
theorem openRecord_rejects (h : ¬ Accepts c ct body) :
    (openRecord c ct body).content = none ∧ (openRecord c ct body).conn.seqRecv = c.seqRecv := by
  by_cases hBlock : 32 ≤ body.length
  · by_cases hRoom : 37 + lastByte c body ≤ body.length
    · rw [openRecord_roomy hBlock hRoom, if_pos (fun hMac => h ⟨hBlock, hRoom, hMac⟩)]
      exact ⟨rfl, rfl⟩
    · rw [openRecord_crowded hBlock (by omega)]
      exact ⟨rfl, rfl⟩
  · rw [openRecord_short (by omega)]
    exact ⟨rfl, rfl⟩

theorem length_plainBody : (plainBody c body).length = body.length := by
  have hRest : (aesCbcDecrypt c.decKey (Block.get body) (body.drop 16)).1.length =
      (body.drop 16).length :=
    BlockChaining.length_decrypt (Nat.div_mul_le_self _ 16)
  rw [plainBody, List.length_append, hRest, List.length_take, List.length_drop]
  omega

/-- The content is what IV, MAC, padding and its length byte leave. -/
theorem length_innerContent (h : 37 + lastByte c body ≤ body.length) :
    (innerContent c body).length = body.length - 37 - lastByte c body := by
  rw [innerContent, List.length_take, List.length_drop, length_plainBody]
  omega

/-- What the caller gets of an accepted record is its content. -/
theorem content_movedBody (h : 37 + lastByte c body ≤ body.length) :
    (movedBody c body (innerContent c body).length).take (innerContent c body).length =
      innerContent c body := by
  unfold movedBody
  rw [length_innerContent h]
  exact List.take_left' (length_innerContent h)

end Opening

end Vmodem.Tls
