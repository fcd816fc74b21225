import Vmodem.Properties.RecordRoundTrip

/-! Which protected records `tls_read_record` accepts. It looks at the last byte of the
padding only and does not ask for whole blocks. -/

namespace Vmodem.Tls

/-- A TLS 1.2 block cipher fragment for the receive state. -/
structure ValidFragment (c : VTlsConn) (ct : UInt8) (body : List UInt8) : Prop where
  length : 48 ≤ body.length
  blocks : body.length % 16 = 0
  room : 37 + lastByte c body ≤ body.length
  padding : ∀ b ∈ (plainBody c body).drop (body.length - 1 - lastByte c body),
    b.toNat = lastByte c body
  mac : innerMac c body = hmacSha1 c.macDecKey (macInput c.seqRecv ct (innerContent c body))

/-- Every part of the body that was used lies inside it. -/
def Inside (o : Opened) (len : Nat) : Prop := ∀ part ∈ o.touched, part.1 + part.2 ≤ len

section Acceptance

variable {c : VTlsConn} {ct v1 v0 l1 l0 : UInt8} {body more : List UInt8} {closes : Bool}

/-- The first block lies inside a body of two. -/
theorem touchedFirst_inside (h : 32 ≤ body.length) :
    ∀ part ∈ touchedFirst body, part.1 + part.2 ≤ body.length := by
  intro part hPart
  simp only [touchedFirst, List.mem_cons, List.not_mem_nil, or_false] at hPart
  rcases hPart with rfl | rfl | rfl <;> dsimp only <;> omega

theorem openRecord_inside : Inside (openRecord c ct body) body.length := by
  by_cases hBlock : 32 ≤ body.length
  · by_cases hRoom : 37 + lastByte c body ≤ body.length
    · have hAll : ∀ part ∈ touchedAll c body, part.1 + part.2 ≤ body.length := by
        intro part hPart
        rcases List.mem_append.mp hPart with hPart | hPart
        · exact touchedFirst_inside hBlock part hPart
        · simp only [List.mem_cons, List.not_mem_nil, or_false] at hPart
          rcases hPart with rfl | rfl <;> dsimp only <;> omega
      rw [openRecord_roomy hBlock hRoom]
      split_ifs <;> exact hAll
    · rw [openRecord_crowded hBlock (by omega)]
      exact touchedFirst_inside hBlock
  · rw [openRecord_short (by omega)]
    intro part hPart
    nomatch hPart

/-- A framed acceptable body is read, and gives its content. -/
theorem tlsReadRecord_accepts (v1 v0 : UInt8) (hCipher : c.cipherActive) (hType : decrypts ct)
    (hBody : body.length = l1.toNat * 256 + l0.toNat) (hSize : body.length ≤ maxRecord + 2048)
    (h : Accepts c ct body) :
    ∃ record, tlsReadRecord c ⟨[ct, v1, v0, l1, l0] ++ (body ++ more), closes⟩ =
        .done (record, opened c body, ⟨more, closes⟩) ∧
      record.ct = ct ∧ record.content = innerContent c body := by
  refine ⟨⟨ct, _, _⟩, ?_, rfl, content_movedBody h.room⟩
  rw [tlsReadRecord_whole hBody, if_neg (by omega), if_pos ⟨hCipher, hType⟩, openRecord_accepts h]
  rfl

/-- A framed body that is not acceptable, or too long, is a failure. -/
theorem tlsReadRecord_rejects (hCipher : c.cipherActive) (hType : decrypts ct)
    (hBody : body.length = l1.toNat * 256 + l0.toNat)
    (h : body.length ≤ maxRecord + 2048 → ¬ Accepts c ct body) :
    tlsReadRecord c ⟨[ct, v1, v0, l1, l0] ++ (body ++ more), closes⟩ = .fails := by
  rw [tlsReadRecord_whole hBody]
  by_cases hSize : body.length ≤ maxRecord + 2048
  · rw [if_neg (by omega), if_pos ⟨hCipher, hType⟩, (openRecord_rejects (h hSize)).1]
  · rw [if_pos (by omega)]

/-- What comes of a protected record. -/
structure Judged (c : VTlsConn) (ct : UInt8) (body : List UInt8)
    (result : Outcome (Record × VTlsConn × Feed)) : Prop where
  accepts : (∃ out, result = .done out) ↔ body.length ≤ maxRecord + 2048 ∧ Accepts c ct body
  whole : ∀ record c' feed, result = .done (record, c', feed) → record.ct = ct ∧
    record.content = innerContent c body ∧
    record.content.length + 37 + lastByte c body = body.length ∧ c'.seqRecv = c.seqRecv + 1
  rejects : ¬ Accepts c ct body → result = .fails ∧ (openRecord c ct body).conn.seqRecv = c.seqRecv
  inside : Inside (openRecord c ct body) body.length

/-- A protected record is accepted exactly if the length byte it ends with leaves room for
the MAC and the MAC is right. -/
theorem record_acceptance (hCipher : c.cipherActive) (hType : decrypts ct)
    (hBody : body.length = l1.toNat * 256 + l0.toNat) :
    Judged c ct body (tlsReadRecord c ⟨[ct, v1, v0, l1, l0] ++ (body ++ more), closes⟩) where
  accepts := by
    constructor
    · intro hDone
      by_contra hNot
      obtain ⟨out, hOut⟩ := hDone
      rw [tlsReadRecord_rejects hCipher hType hBody (fun hSize h => hNot ⟨hSize, h⟩)] at hOut
      nomatch hOut
    · intro ⟨hSize, h⟩
      obtain ⟨record, hRead, -, -⟩ := tlsReadRecord_accepts v1 v0 hCipher hType hBody hSize h
      exact ⟨_, hRead⟩
  whole := by
    intro record c' feed hDone
    by_cases h : body.length ≤ maxRecord + 2048 ∧ Accepts c ct body
    · obtain ⟨record', hRead, hCt, hContent⟩ :=
        tlsReadRecord_accepts v1 v0 hCipher hType hBody h.1 h.2
      rw [hRead] at hDone
      injection hDone with hDone
      obtain ⟨rfl, hRest⟩ := Prod.mk.inj hDone
      obtain ⟨rfl, -⟩ := Prod.mk.inj hRest
      refine ⟨hCt, hContent, ?_, rfl⟩
      have hRoom := h.2.room
      rw [hContent, length_innerContent hRoom]
      omega
    · rw [tlsReadRecord_rejects hCipher hType hBody (fun hSize hAccepts => h ⟨hSize, hAccepts⟩)]
        at hDone
      nomatch hDone
  rejects h := ⟨tlsReadRecord_rejects hCipher hType hBody (fun _ => h), (openRecord_rejects h).2⟩
  inside := openRecord_inside

end Acceptance

section LooseEnd

/-- The MAC of an empty record, eleven bytes of any value and their number. -/
def looseEnd : List UInt8 :=
  hmacSha1 loopback.macDecKey (macInput 0 rtApplication []) ++ (List.replicate 11 0 ++ [11])

/-- An empty application record with wrong padding. -/
def looseBody : List UInt8 :=
  List.replicate 16 5 ++
    (aesCbcEncrypt loopback.decKey (Block.get (List.replicate 16 5)) looseEnd).1

theorem length_looseEnd : looseEnd.length = 32 := rfl

theorem length_looseBody : looseBody.length = 48 := by
  have hRest : (aesCbcEncrypt loopback.decKey (Block.get (List.replicate 16 5)) looseEnd).1.length =
      looseEnd.length :=
    BlockChaining.length_encrypt (Nat.div_mul_le_self _ 16)
  rw [looseBody, List.length_append, hRest, length_looseEnd]
  rfl

/-- The body of the example decrypts to its IV and end. -/
theorem plainBody_looseBody : plainBody loopback looseBody = List.replicate 16 5 ++ looseEnd :=
  plainBody_encrypted rfl looseEnd

theorem lastByte_looseBody : lastByte loopback looseBody = 11 := by
  rw [lastByte, plainBody_looseBody, length_looseBody]
  rfl

theorem accepts_looseBody : Accepts loopback rtApplication looseBody where
  block := by
    rw [length_looseBody]
    decide
  room := by rw [lastByte_looseBody, length_looseBody]
  mac := by
    rw [innerMac, innerContent, plainBody_looseBody, lastByte_looseBody, length_looseBody]
    rfl

theorem not_valid_looseBody : ¬ ValidFragment loopback rtApplication looseBody := by
  intro hValid
  have hZero := hValid.padding 0 (by
    rw [plainBody_looseBody, lastByte_looseBody, length_looseBody]
    exact List.mem_cons_self)
  rw [lastByte_looseBody] at hZero
  nomatch hZero

/-- A record that is accepted: its empty content is handed over and counted. -/
theorem record_acceptance_loose : ∃ record c' feed,
    tlsReadRecord loopback ⟨[rtApplication, 3, 3, 0, 48] ++ (looseBody ++ []), true⟩ =
      .done (record, c', feed) ∧
    record.ct = rtApplication ∧ record.content = [] ∧ c'.seqRecv = loopback.seqRecv + 1 := by
  have hField : looseBody.length = (0 : UInt8).toNat * 256 + (48 : UInt8).toNat := length_looseBody
  have hSize : looseBody.length ≤ maxRecord + 2048 := by
    rw [length_looseBody]
    decide
  have hJudged : Judged loopback rtApplication looseBody
      (tlsReadRecord loopback ⟨[rtApplication, 3, 3, 0, 48] ++ (looseBody ++ []), true⟩) :=
    record_acceptance rfl (by decide) hField
  obtain ⟨⟨record, c', feed⟩, hRead⟩ := hJudged.accepts.mpr ⟨hSize, accepts_looseBody⟩
  obtain ⟨hType, -, hLength, hCount⟩ := hJudged.whole record c' feed hRead
  rw [lastByte_looseBody, length_looseBody] at hLength
  exact ⟨record, c', feed, hRead, hType, List.eq_nil_of_length_eq_zero (by omega), hCount⟩

/-- A record whose padding bytes are wrong is accepted. -/
theorem loose_record_accepted :
    (∃ out, tlsReadRecord loopback ⟨[rtApplication, 3, 3, 0, 48] ++ (looseBody ++ []), true⟩ =
      .done out) ∧ ¬ ValidFragment loopback rtApplication looseBody := by
  have hField : looseBody.length = (0 : UInt8).toNat * 256 + (48 : UInt8).toNat := length_looseBody
  have hSize : looseBody.length ≤ maxRecord + 2048 := by
    rw [length_looseBody]
    decide
  obtain ⟨record, hRead, -, -⟩ :=
    tlsReadRecord_accepts 3 3 rfl (by decide) hField hSize accepts_looseBody
  exact ⟨⟨_, hRead⟩, not_valid_looseBody⟩

end LooseEnd

end Vmodem.Tls
