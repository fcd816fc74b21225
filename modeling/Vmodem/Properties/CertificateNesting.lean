import Vmodem.Properties.CertificateBounds

/-! The walks stay inside every certificate that is one: where each element ends in front of
the end of the element it is in, what the code believes of a length is true. -/

namespace Vmodem.Tls

open Der (tlv headerSize)

section Elements

variable {cert : Buffer} {p avail stop certlen buflen : Int} {tag : UInt8} {content bs : List UInt8}

/-- A header that is accepted was read to its end. -/
theorem headerOctets_eq {h : Asn1Header} (hHeader : asn1TagLen cert p avail = some h) :
    headerOctets cert p avail = h.hdrlen := by
  unfold asn1TagLen at hHeader
  unfold headerOctets
  dsimp only at hHeader ⊢
  split_ifs at hHeader with hAvail hShort hMany hNegative
  · cases hHeader
    exact if_pos (.inl hShort)
  · cases hHeader
    exact if_neg (by omega)

/-- Octets of the encoding lie in the certificate. -/
theorem LiesIn.octets (h : LiesIn cert p stop bs) (hStop : stop ≤ certlen) {count : Int}
    (hCount : count ≤ bs.length) : OctetsInside certlen p count := by
  have hFits := h.fits
  exact ⟨h.start, by omega⟩

/-- The header of an element that lies inside is read inside. -/
theorem LiesIn.headerThen {next : Asn1Header → Prop} (h : LiesIn cert p stop (tlv tag content))
    (hStop : stop ≤ certlen) (hNext : next ⟨tag, headerSize content.length, content.length⟩) :
    HeaderThen cert certlen p (int16 (stop - p)) next := by
  refine ⟨fun _ => ?_, fun header hHeader => ?_⟩
  · rw [headerOctets_eq h.header]
    exact h.octets hStop (by rw [Der.length_tlv]; dsimp only; omega)
  · obtain rfl := Option.some.inj (h.header.symm.trans hHeader)
    exact hNext

/-- An element with the expected tag is read inside and gone into. -/
theorem LiesIn.elementThen {next : Asn1Header → Prop} (h : LiesIn cert p stop (tlv tag content))
    (hStop : stop ≤ certlen) (hNext : next ⟨tag, headerSize content.length, content.length⟩) :
    ElementThen cert certlen tag p stop next :=
  h.headerThen hStop fun _ => hNext

/-- At an element with another tag the walk ends. -/
theorem LiesIn.otherThen {next : Asn1Header → Prop} {other : UInt8}
    (h : LiesIn cert p stop (tlv other content)) (hStop : stop ≤ certlen) (hOther : other ≠ tag) :
    ElementThen cert certlen tag p stop next :=
  h.headerThen hStop fun hTag => absurd hTag hOther

end Elements

section Fields

variable {cert : Buffer} {p stop certlen : Int} {front back : List Element}

/-- Fields that lie inside are skipped inside. The induction is on the fields in front.
-/
theorem fieldsThen_fields {next : Nat → Int → Prop}
    (h : LiesIn cert p stop ((front ++ back).flatMap Element.encode)) (hStop : stop ≤ certlen)
    (hNext : next 0 (p + (front.flatMap Element.encode).length)) :
    FieldsThen cert certlen stop next front.length p := by
  induction front generalizing p with
  | nil => simpa [FieldsThen] using hNext
  | cons x front ih =>
      have hSplit : (x :: front ++ back).flatMap Element.encode =
          tlv x.tag x.content ++ (front ++ back).flatMap Element.encode := List.flatMap_cons
      rw [hSplit] at h
      have hFits := h.left.fits
      have hSome : 0 < (tlv x.tag x.content).length := Nat.succ_pos _
      rw [List.flatMap_cons, List.length_append, Nat.cast_add, ← Int.add_assoc] at hNext
      rw [List.length_cons, FieldsThen, if_pos (by omega)]
      apply h.left.headerThen hStop
      rw [h.left.skip]
      exact ih h.right hNext

/-- The walk over the fields of TBSCertificate to the first of `back`. -/
theorem fieldThen_fields {outer : List UInt8} {next : Int → Int → Prop} (hFront : front ≠ [])
    (h : LiesIn cert 0 certlen
      (tlv 0x30 (tlv 0x30 ((front ++ back).flatMap Element.encode) ++ outer)))
    (hNext : ∀ stop p, back ≠ [] → stop ≤ certlen →
      LiesIn cert p stop (back.flatMap Element.encode) →
      next stop p) :
    FieldThen cert certlen front.length next := by
  have hFits := h.fits
  rw [Der.length_tlv] at hFits
  have hBody := h.within.mono (by omega) h.size
  rw [Int.zero_add] at hBody
  have hTbs := hBody.left.within
  have hTbsFits := hBody.left.fits
  rw [Der.length_tlv] at hTbsFits
  apply h.elementThen (Int.le_refl certlen)
  apply hBody.left.elementThen (Int.le_refl certlen)
  dsimp only
  generalize hStart :
    (headerSize (tlv 0x30 ((front ++ back).flatMap Element.encode) ++ outer).length : Int) +
    headerSize ((front ++ back).flatMap Element.encode).length = tbs at hTbs ⊢
  generalize hEnd : tbs + ((front ++ back).flatMap Element.encode).length = stop at hTbs ⊢
  have hStop : stop ≤ certlen := by omega
  have hBack := hTbs.behind List.flatMap_append
  have hLast : ∀ p, p = tbs + (front.flatMap Element.encode).length → p < stop → next stop p := by
    rintro _ rfl hMore
    refine hNext stop _ (fun hNone => ?_) hStop hBack
    rw [← hEnd, hNone, List.append_nil] at hMore
    exact Int.lt_irrefl _ hMore
  obtain ⟨x, rest, rfl⟩ := List.exists_cons_of_ne_nil hFront
  have hSplit : (x :: rest ++ back).flatMap Element.encode =
      tlv x.tag x.content ++ (rest ++ back).flatMap Element.encode := List.flatMap_cons
  have hSome : 0 < (tlv x.tag x.content).length := Nat.succ_pos _
  have hAll := hTbs
  rw [hSplit] at hTbs
  have hRoom := hTbs.left.fits
  rw [if_pos (by omega)]
  refine ⟨hTbs.octets hStop (by rw [List.length_append]; omega), ?_⟩
  split_ifs
  · apply hTbs.left.headerThen hStop
    rw [hTbs.left.skip, List.length_cons, Nat.add_sub_cancel]
    refine fieldsThen_fields hTbs.right hStop fun _ hMore => hLast _ ?_ hMore
    rw [List.flatMap_cons, List.length_append, Nat.cast_add, Int.add_assoc]
    rfl
  · exact fieldsThen_fields hAll hStop fun _ hMore => hLast _ rfl hMore

end Fields

section Contents

variable {cert : Buffer} {p stop certlen buflen : Int}

/-- The leading octet of an INTEGER lies inside: its content is never empty. -/
theorem LiesIn.leading {n : Nat} (h : LiesIn cert p stop (tlv 0x02 (Der.integer n)))
    (hStop : stop ≤ certlen) : LeadingInside certlen (integerHeader n) p :=
  fun _ => h.inner.octets hStop (by exact_mod_cast Der.integer_length_pos n)

/-- From SubjectPublicKeyInfo to the two numbers. -/
theorem keyThen_key (c : Certificate) {rest : List UInt8} (hStop : stop ≤ certlen)
    (h : LiesIn cert p stop (c.subjectPublicKeyInfo.encode ++ rest)) :
    ElementThen cert certlen 0x30 p stop fun spkiHeader =>
    ElementThen cert certlen 0x30 (p + spkiHeader.hdrlen) stop fun algorithm =>
    ElementThen cert certlen 0x03 (algorithm.skip (p + spkiHeader.hdrlen)) stop fun bits =>
      let bitstr := algorithm.skip (p + spkiHeader.hdrlen) + bits.hdrlen
      OctetsInside certlen bitstr 1 ∧ (cert.mem bitstr = 0 →
        ElementThen cert certlen 0x30 (bitstr + 1) stop fun seq =>
          IntegersInside cert certlen (bitstr + 1 + seq.hdrlen) stop) := by
  have hInfo : LiesIn cert p stop (tlv 0x30 c.subjectPublicKeyInfo.content) := h.left
  have hParts := hInfo.inner
  have hAlgorithm : LiesIn cert _ stop (tlv 0x30 c.algorithm) := hParts.left
  have hBits : LiesIn cert _ stop (tlv 0x03 (0 :: c.rsaPublicKey)) := hParts.right
  have hString := hBits.inner
  have hKey : LiesIn cert _ stop (tlv 0x30 _) :=
    hString.behind (List.singleton_append (x := 0)).symm
  rw [List.length_singleton, Nat.cast_one] at hKey
  have hNumbers := hKey.inner
  apply hInfo.elementThen hStop
  apply hAlgorithm.elementThen hStop
  dsimp only
  rw [hAlgorithm.skip]
  apply hBits.elementThen hStop
  refine ⟨hString.octets hStop (by simp), fun _ => ?_⟩
  apply hKey.elementThen hStop
  apply hNumbers.left.elementThen hStop
  refine ⟨hNumbers.left.leading hStop, ?_⟩
  rw [hNumbers.left.skip]
  apply hNumbers.right.elementThen hStop
  exact ⟨hNumbers.right.leading hStop, hNumbers.left.inner.octets hStop (Int.le_refl _),
    hNumbers.right.inner.octets hStop (Int.le_refl _)⟩

/-- A value is copied as far as it goes. -/
theorem valueInside_text {type : UInt8} {text : List UInt8} (h : LiesIn cert p stop (tlv type text))
    (hStop : stop ≤ certlen) : ValueInside cert certlen buflen p stop := by
  apply h.headerThen hStop
  intro count _
  exact h.inner.octets hStop (by unfold count; dsimp only; omega)

/-- The sets of an encoded Subject. -/
theorem setsInside_subject {subject : List Rdn} {rounds : Nat}
    (h : LiesIn cert p stop (subject.flatMap Rdn.encode))
    (hEnd : p + (subject.flatMap Rdn.encode).length = stop) (hStop : stop ≤ certlen) :
    SetsInside cert certlen buflen stop rounds p := by
  induction rounds generalizing p subject with
  | zero => trivial
  | succ rounds ih =>
      intro hMore
      cases subject with
      | nil => simp at hEnd; omega
      | cons x subject =>
          rw [List.flatMap_cons] at h hEnd
          rw [List.length_append, Nat.cast_add, ← Int.add_assoc] at hEnd
          have hNext : SetsInside cert certlen buflen stop rounds (p + x.encode.length) :=
            ih h.right hEnd
          have hSet : LiesIn cert p stop (tlv 0x31 (x.attributes.flatMap Attribute.encode)) :=
            h.left
          have hFits := hSet.fits
          obtain ⟨hSetEnd, hAttribute⟩ := h.left.firstAttribute
          have hParts := hAttribute.inner
          have hOid := hParts.left
          have hValue := hParts.right
          have hInSet : p + x.encode.length ≤ certlen := Int.le_trans hFits hStop
          apply hSet.elementThen hStop
          dsimp only
          rw [hSetEnd]
          refine ⟨hAttribute.elementThen hInSet ⟨hOid.elementThen hInSet ?_, fun _ => hNext⟩,
            fun _ => hNext⟩
          dsimp only
          split_ifs with hThree hName
          · refine ⟨hOid.inner.octets hInSet (Int.le_of_eq hThree.symm), ?_⟩
            rw [hOid.skip]
            have hOidCn : x.first.oid = cnOid := (isCnOid_iff hOid.inner).mp ⟨hThree, hName⟩
            cases hKind : x.first with
            | commonName type text =>
                rw [hKind] at hValue
                exact valueInside_text hValue hInSet
            | other oid value hOther =>
                rw [hKind] at hOidCn
                exact absurd hOidCn hOther
          · exact ⟨hOid.inner.octets hInSet (Int.le_of_eq hThree.symm), hNext⟩
          · exact hNext

end Contents

section Certificates

variable {c : Certificate} {cert : Buffer} {certlen buflen : Int}

/-- The walk comes to the key or, without a version, to what stands behind it. -/
theorem keyInside_encode (h : LiesIn cert 0 certlen c.encode) : KeyInside cert certlen := by
  rcases fields_eq c with ⟨v, -, hFields⟩ | ⟨-, hFields⟩
  · rw [List.append_cons] at hFields
    rw [Certificate.encode, hFields] at h
    exact fieldThen_fields (by simp) h fun stop p _ hStop hInside => keyThen_key c hStop hInside
  · rw [List.append_cons] at hFields
    rw [Certificate.encode, hFields] at h
    refine fieldThen_fields (by simp) h fun stop p hSome hStop hInside => ?_
    obtain ⟨x, rest, hTrailer⟩ := List.exists_cons_of_ne_nil hSome
    rw [hTrailer, List.flatMap_cons] at hInside
    exact LiesIn.otherThen hInside.left hStop (trailer_tag c x (hTrailer ▸ List.mem_cons_self))

/-- The walk comes to the Subject or, without a version, to the key. -/
theorem nameInside_encode (h : LiesIn cert 0 certlen c.encode) :
    NameInside cert certlen buflen := by
  rcases fields_eq c with ⟨v, -, hFields⟩ | ⟨-, hFields⟩
  · rw [Certificate.encode, hFields] at h
    refine fieldThen_fields (by simp) h fun stop p _ hStop hInside => ?_
    have hSubject : LiesIn cert p stop (tlv 0x30 (c.subject.flatMap Rdn.encode)) := hInside.left
    have hFits := hSubject.fits
    rw [Der.length_tlv] at hFits
    exact hSubject.elementThen hStop (setsInside_subject hSubject.within rfl (by dsimp only; omega))
  · rw [Certificate.encode, hFields] at h
    refine fieldThen_fields (by simp) h fun stop p _ hStop hInside => ?_
    have hInfo : LiesIn cert p stop (tlv 0x30 c.subjectPublicKeyInfo.content) := hInside.left
    have hAlgorithm : LiesIn cert _ _ (tlv 0x30 c.algorithm) := hInfo.within.left
    have hFits := hInfo.fits
    rw [Der.length_tlv] at hFits
    apply hInfo.elementThen hStop
    cases hRounds : ((c.subjectPublicKeyInfo.content.length : Int)).toNat with
    | zero => trivial
    | succ rounds =>
        intro _
        exact hAlgorithm.otherThen (by omega) (by decide)

/-- In a certificate that is encoded with the lengths its elements have, every element ends
inside its parent, and the walks come to nothing else. -/
theorem encoded_inside (c : Certificate) (hSize : c.encode.length < 32768) (outside : Int → UInt8) :
    KeyInside (Buffer.around c.encode outside) c.encode.length ∧
      NameInside (Buffer.around c.encode outside) c.encode.length buflen :=
  ⟨keyInside_encode (liesIn_around c.encode outside hSize),
    nameInside_encode (liesIn_around c.encode outside hSize)⟩

end Certificates

end Vmodem.Tls
