import Vmodem.Properties.RecordRoundTrip
import Vmodem.Tls.Stream

/-! The records `vtls_send` writes: where they are legal TLS records. The data of one call go
into one record, however long they are. -/

namespace Vmodem.Tls

/-- A stream of records with these plaintexts and nothing else: none of them too long, and each
header with the number of bytes that follow. -/
inductive LegalRecords : VTlsConn → List (List UInt8) → List UInt8 → Prop
  | nil (c : VTlsConn) : LegalRecords c [] []
  | cons {c : VTlsConn} {plain iv rest : List UInt8} {plains : List (List UInt8)} (h1 h0 : UInt8)
      (hPlain : plain.length ≤ maxRecord)
      (hLength : h1.toNat * 256 + h0.toNat = (payload c rtApplication plain iv).length)
      (hRest : LegalRecords (wrote c rtApplication plain iv) plains rest) :
      LegalRecords c (plain :: plains)
        ([rtApplication, 0x03, 0x03, h1, h0] ++ (payload c rtApplication plain iv ++ rest))

/-- Whatever the memory and the socket do, the bytes that go out are those of legal records,
and if the call returns the length of the data, all of them, with the data inside. -/
def SendsLegally (c : VTlsConn) (buf : List UInt8) : Prop :=
  ∀ iv alloc room, iv.length = 16 → ∃ sent, vtlsSend c buf iv alloc room = some sent ∧
    ∃ plains wire, LegalRecords c plains wire ∧ sent.wire <+: wire ∧
      (sent.ret = buf.length → sent.wire = wire ∧ plains.flatten = buf)

section Sending

variable {c : VTlsConn} {buf iv : List UInt8} {alloc : Nat → Bool} {room : Option Nat}

theorem legalRecords_nil {plains : List (List UInt8)} (h : LegalRecords c plains []) :
    plains = [] := by
  cases h
  rfl

/-- The one record of a call. -/
def sentRecord (c : VTlsConn) (buf iv : List UInt8) : List UInt8 :=
  recordHeader rtApplication (payload c rtApplication buf iv).length ++
    payload c rtApplication buf iv

/-- A buffer of legal size is sent as one legal record. -/
theorem sentRecord_legal (hIv : iv.length = 16) (hData : buf.length ≤ maxRecord) :
    LegalRecords c [buf] (sentRecord c buf iv) := by
  have hPad := padLen_lt buf.length
  have hLength := @length_payload c rtApplication buf iv hIv
  have hFit : (payload c rtApplication buf iv).length < 65536 := by
    rw [maxRecord] at hData
    omega
  have hRecord := LegalRecords.cons _ _ hData (put16_toNat hFit)
    (LegalRecords.nil (wrote c rtApplication buf iv))
  rwa [List.append_nil] at hRecord

/-- What comes of a record that has been built. -/
theorem vtlsSend_cases (hActive : c.active) (hSmall : 13 + buf.length < 32768)
    {c' : VTlsConn} {bs : List UInt8}
    (hWrite : tlsWriteRecord c rtApplication buf iv = some (c', bs)) :
    ∃ sent, vtlsSend c buf iv alloc room = some sent ∧
      (sent.ret = -1 ∧ sent.wire <+: bs ∨ sent.ret = buf.length ∧ sent.wire = bs) := by
  unfold vtlsSend
  rw [if_pos hActive, if_neg (by omega), hWrite]
  dsimp only
  split_ifs
  · exact ⟨_, rfl, .inl ⟨rfl, List.nil_prefix⟩⟩
  · exact ⟨_, rfl, .inl ⟨rfl, List.nil_prefix⟩⟩
  · cases room with
    | none => exact ⟨_, rfl, .inr ⟨rfl, rfl⟩⟩
    | some n =>
        dsimp only
        split_ifs
        · exact ⟨_, rfl, .inr ⟨rfl, rfl⟩⟩
        · exact ⟨_, rfl, .inl ⟨rfl, List.take_prefix n bs⟩⟩

/-- A buffer of legal size is sent legally, whatever the initialization vector and
however much is taken. -/
theorem sendsLegally (hActive : c.active) (hCipher : c.cipherActive)
    (hData : buf.length ≤ maxRecord) :
    SendsLegally c buf := by
  intro iv alloc room hIv
  have hSmall := hData
  rw [maxRecord] at hSmall
  obtain ⟨sent, hSent, hOut⟩ := @vtlsSend_cases c buf iv alloc room hActive (by omega) _ _
    (@tlsWriteRecord_payload c rtApplication buf iv hCipher hData)
  refine ⟨sent, hSent, [buf], sentRecord c buf iv, sentRecord_legal hIv hData, ?_⟩
  rcases hOut with ⟨hRet, hWire⟩ | ⟨-, hWire⟩
  · refine ⟨hWire, fun hAll => ?_⟩
    rw [hRet] at hAll
    omega
  · exact ⟨hWire ▸ List.prefix_refl _, fun _ => ⟨hWire, List.flatten_singleton⟩⟩

/-- With memory and a socket that takes all, the data go out as one record or an `int`
overflows. -/
theorem vtlsSend_one (hActive : c.active) (hCipher : c.cipherActive) (hAlloc : ∀ n, alloc n = true)
    {sent : Sent} (hSent : vtlsSend c buf iv alloc none = some sent) :
    sent.ret = buf.length ∧ sent.wire = sentRecord c buf iv ∧ 37 + buf.length < 32768 := by
  have hGo (n : Nat) : ¬ (c.cipherActive ∧ (!alloc n) = true) := by simp [hAlloc]
  unfold vtlsSend at hSent
  rw [if_pos hActive] at hSent
  by_cases hLarge : c.cipherActive ∧ 32768 ≤ 13 + buf.length
  · rw [if_pos hLarge] at hSent
    cases hSent
  rw [if_neg hLarge, if_neg (hGo _), tlsWriteRecord, if_pos hCipher] at hSent
  by_cases hFits : 16 + buf.length + 20 + padLen buf.length + 1 < 32768
  · rw [if_pos hFits] at hSent
    dsimp only at hSent
    rw [if_neg (hGo _)] at hSent
    cases hSent
    exact ⟨rfl, rfl, by omega⟩
  · rw [if_neg hFits] at hSent
    cases hSent

/-- A record of the length of a record has its plaintext. -/
theorem legalRecords_one {plains : List (List UInt8)} {wire : List UInt8}
    (h : LegalRecords c plains wire) (hIv : iv.length = 16) (hLen : 37 + buf.length < 32768)
    (hWire : wire = sentRecord c buf iv) : plains.flatten.length ≤ maxRecord := by
  cases h with
  | nil => exact Nat.zero_le _
  | @cons c plain iv' rest plains h1 h0 hPlain hLength hRest =>
      have hPad := padLen_lt buf.length
      have hWhole := @length_payload c rtApplication buf iv hIv
      have hSplit : [rtApplication, 0x03, 0x03, h1, h0] ++
        (payload c rtApplication plain iv' ++ rest) =
          [rtApplication, 0x03, 0x03, .ofNat ((payload c rtApplication buf iv).length / 256),
            .ofNat (payload c rtApplication buf iv).length] ++
              payload c rtApplication buf iv := hWire
      obtain ⟨hHeader, hBody⟩ := List.append_inj hSplit rfl
      simp only [List.cons.injEq, true_and, and_true] at hHeader
      have hSame : (payload c rtApplication plain iv').length =
          (payload c rtApplication buf iv).length := by
        rw [← hLength, hHeader.1, hHeader.2, put16_toNat (by omega)]
      obtain rfl : rest = [] := by
        have hTotal := congrArg List.length hBody
        rw [List.length_append, hSame] at hTotal
        exact List.eq_nil_of_length_eq_zero (by omega)
      obtain rfl := legalRecords_nil hRest
      rwa [List.flatten_singleton]

/-- A buffer that is sent legally is of legal size, as it is sent in one record. -/
theorem SendsLegally.length_le (h : SendsLegally c buf) (hActive : c.active)
    (hCipher : c.cipherActive) :
    buf.length ≤ maxRecord := by
  obtain ⟨sent, hSent, plains, wire, hRecords, -, hAll⟩ :=
    h (List.replicate 16 0) (fun _ => true) none List.length_replicate
  obtain ⟨hRet, hWire, hSmall⟩ := vtlsSend_one hActive hCipher (fun _ => rfl) hSent
  obtain ⟨hSame, hFlatten⟩ := hAll hRet
  rw [← hFlatten]
  exact legalRecords_one hRecords List.length_replicate hSmall (hSame ▸ hWire)

end Sending

/-- The records of a call are legal exactly if the data fit one. -/
theorem send_legal_iff {c : VTlsConn} {buf : List UInt8} (hActive : c.active)
    (hCipher : c.cipherActive) :
    SendsLegally c buf ↔ buf.length ≤ maxRecord :=
  ⟨fun h => h.length_le hActive hCipher, sendsLegally hActive hCipher⟩

theorem send_legal_command : SendsLegally loopback [0x41, 0x54, 0x0D] :=
  (send_legal_iff rfl rfl).mpr (by decide)

/-- One byte more than a record may have. -/
def oversized : List UInt8 := List.replicate 16385 0

/-- A buffer one byte above the limit is not. -/
theorem oversized_not_legal : oversized.length < 32768 ∧ ¬ SendsLegally loopback oversized := by
  have hLength : oversized.length = 16385 := List.length_replicate
  refine ⟨by omega, fun hLegal => ?_⟩
  have hFits := hLegal.length_le rfl rfl
  rw [hLength, maxRecord] at hFits
  omega

end Vmodem.Tls
