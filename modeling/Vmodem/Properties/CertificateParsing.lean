import Vmodem.Tls.Certificate

/-! The two walks over a certificate, for every certificate: what they find, and where they
lose their way. -/

namespace Vmodem.Tls

open Der (tlv headerSize Placed)

section Walk

variable {cert : Buffer} {p stop : Int} {tag : UInt8} {content bs : List UInt8}

theorem toNat_ofNat_byte {n : Nat} (h : n < 256) : (UInt8.ofNat n).toNat = n :=
  UInt8.toNat_ofNat_of_lt' h

/-- The octets of a long length, put together. -/
def lengthValue (cert : Buffer) (p : Int) (k : Nat) : Int :=
  (List.range k).foldl (fun len i => int16 (len * 256 + (cert.mem (p + 2 + i)).toNat)) 0

/-- A length in up to three octets behind their count is read as its value. -/
theorem asn1TagLen_long {avail : Int} {k n : Nat} (hCount : (cert.mem (p + 1)).toNat = 128 + k)
    (hFew : k ≤ 3) (hAvail : 2 + k ≤ avail) (hValue : lengthValue cert p k = n) :
    asn1TagLen cert p avail = some ⟨cert.mem p, 2 + k, n⟩ := by
  have hBytes : (128 + k) % 0x80 = k := by omega
  unfold asn1TagLen
  rw [if_neg (by omega)]
  dsimp only
  rw [hCount, hBytes, if_neg (by omega), if_neg (by omega)]
  rw [lengthValue] at hValue
  rw [hValue, if_neg (by omega)]

/-- A length is read off its octets. -/
theorem asn1TagLen_tlv {avail : Int} (h : Placed cert.mem p (tlv tag content))
    (hLen : content.length < 32768) (hAvail : headerSize content.length ≤ avail) :
    asn1TagLen cert p avail = some ⟨tag, headerSize content.length, content.length⟩ := by
  have hTag : cert.mem p = tag := h.head
  have hOctets : Placed cert.mem (p + 1) (Der.lengthOctets content.length) := by
    have hTail : Placed cert.mem p ([tag] ++ (Der.lengthOctets content.length ++ content)) := h
    exact hTail.right.left
  have hTwo := Der.two_le_headerSize content.length
  generalize content.length = n at hLen hAvail hOctets hTwo ⊢
  rw [headerSize] at hAvail hTwo ⊢
  by_cases hShort : n < 128
  · rw [Der.lengthOctets_short hShort] at hOctets ⊢
    have hFirst : cert.mem (p + 1) = UInt8.ofNat n := hOctets.head
    unfold asn1TagLen
    rw [if_neg (by omega), hTag]
    simp only [hFirst, toNat_ofNat_byte (show n < 256 by omega)]
    rw [if_pos hShort]
    rfl
  by_cases hOne : n < 256
  · rw [Der.lengthOctets_one (by omega) hOne] at hOctets hAvail ⊢
    have hFirst : cert.mem (p + 1) = 0x81 := hOctets.head
    have hSecond : cert.mem (p + 2 + (0 : Nat)) = UInt8.ofNat n := by
      simpa [Int.add_assoc] using hOctets 1 (by simp)
    have hValue : lengthValue cert p 1 = n := by
      show int16 (0 * 256 + (cert.mem (p + 2 + (0 : Nat))).toNat) = n
      rw [hSecond, toNat_ofNat_byte hOne, int16_of_lt (x := 0 * 256 + n) (by omega) (by omega)]
      omega
    rw [asn1TagLen_long (k := 1) (by rw [hFirst]; rfl) (by omega) hAvail hValue, hTag]
    rfl
  · rw [Der.lengthOctets_two (by omega) (by omega)] at hOctets hAvail ⊢
    have hFirst : cert.mem (p + 1) = 0x82 := hOctets.head
    have hSecond : cert.mem (p + 2 + (0 : Nat)) = UInt8.ofNat (n / 256) := by
      simpa [Int.add_assoc] using hOctets 1 (by simp)
    have hThird : cert.mem (p + 2 + (1 : Nat)) = UInt8.ofNat (n % 256) := by
      simpa [Int.add_assoc] using hOctets 2 (by simp)
    have hValue : lengthValue cert p 2 = n := by
      show int16 (int16 (0 * 256 + (cert.mem (p + 2 + (0 : Nat))).toNat) * 256 +
        (cert.mem (p + 2 + (1 : Nat))).toNat) = n
      rw [hSecond, hThird, toNat_ofNat_byte (show n / 256 < 256 by omega),
        toNat_ofNat_byte (Nat.mod_lt n (by omega)),
        int16_of_lt (x := 0 * 256 + (n / 256 : Nat)) (by omega) (by omega),
        int16_of_lt (x := (0 * 256 + (n / 256 : Nat)) * 256 + (n % 256 : Nat))
          (by omega) (by omega)]
      omega
    rw [asn1TagLen_long (k := 2) (by rw [hFirst]; rfl) (by omega) hAvail hValue, hTag]
    rfl

/-- An element that ends in front of `stop`. -/
structure LiesIn (cert : Buffer) (p stop : Int) (bs : List UInt8) : Prop where
  placed : Placed cert.mem p bs
  start : 0 ≤ p
  fits : p + bs.length ≤ stop
  size : stop < 32768

/-- The first part of what lies at a place lies there. -/
theorem LiesIn.left {xs ys : List UInt8} (h : LiesIn cert p stop (xs ++ ys)) :
    LiesIn cert p stop xs := by
  have hFits := h.fits
  rw [List.length_append] at hFits
  exact ⟨h.placed.left, h.start, by omega, h.size⟩

theorem LiesIn.right {xs ys : List UInt8} (h : LiesIn cert p stop (xs ++ ys)) :
    LiesIn cert (p + xs.length) stop ys := by
  have hFits := h.fits
  have hStart := h.start
  rw [List.length_append] at hFits
  exact ⟨h.placed.right, by omega, by omega, h.size⟩

/-- The second part again, for a list that is split by an equation. -/
theorem LiesIn.behind {xs ys : List UInt8} (h : LiesIn cert p stop bs) (hSplit : bs = xs ++ ys) :
    LiesIn cert (p + xs.length) stop ys := by
  subst hSplit
  exact h.right

/-- The header of an encoded element is read as its tag and its length. -/
theorem LiesIn.header (h : LiesIn cert p stop (tlv tag content)) :
    asn1TagLen cert p (int16 (stop - p)) =
      some ⟨tag, headerSize content.length, content.length⟩ := by
  have hFits := h.fits
  have hStart := h.start
  have hSize := h.size
  rw [Der.length_tlv] at hFits
  rw [int16_of_lt (by omega) (by omega)]
  exact asn1TagLen_tlv h.placed (by omega) (by omega)

theorem LiesIn.expect (h : LiesIn cert p stop (tlv tag content)) :
    asn1Expect cert tag p stop = some ⟨tag, headerSize content.length, content.length⟩ := by
  rw [asn1Expect, h.header]
  exact if_neg (not_not.mpr rfl)

theorem LiesIn.unexpected (h : LiesIn cert p stop (tlv tag content)) {other : UInt8}
    (hOther : tag ≠ other) : asn1Expect cert other p stop = none := by
  rw [asn1Expect, h.header]
  exact if_pos hOther

theorem LiesIn.skip (h : LiesIn cert p stop (tlv tag content)) :
    Asn1Header.skip ⟨tag, headerSize content.length, content.length⟩ p = p +
      (tlv tag content).length := by
  have hFits := h.fits
  have hStart := h.start
  have hSize := h.size
  rw [Der.length_tlv] at hFits ⊢
  show p + int16 (headerSize content.length + content.length) = _
  rw [int16_of_lt (by omega) (by omega), Nat.cast_add]

/-- The contents of an element, up to their own end. -/
theorem LiesIn.within (h : LiesIn cert p stop (tlv tag content)) :
    LiesIn cert (p + headerSize content.length) (p + headerSize content.length + content.length)
      content := by
  have hFits := h.fits
  have hStart := h.start
  have hSize := h.size
  rw [Der.length_tlv] at hFits
  exact ⟨h.placed.content, by omega, by omega, by omega⟩

/-- The walk over encoded fields leads behind them. The induction is on the fields. -/
theorem skipFields_fields {front back : List Element}
    (h : LiesIn cert p stop ((front ++ back).flatMap Element.encode)) :
    skipFields cert stop front.length p = some (0, p + (front.flatMap Element.encode).length) := by
  induction front generalizing p with
  | nil =>
      rw [List.flatMap_nil, List.length_nil]
      simp [skipFields]
  | cons x front ih =>
      have hSplit : (x :: front ++ back).flatMap Element.encode =
          tlv x.tag x.content ++ (front ++ back).flatMap Element.encode := List.flatMap_cons
      rw [hSplit] at h
      have hFits := h.left.fits
      have hSome : 0 < (tlv x.tag x.content).length := Nat.succ_pos _
      rw [List.length_cons, skipFields, if_pos (by omega), h.left.header]
      dsimp only
      rw [h.left.skip, ih h.right, List.flatMap_cons, List.length_append, Nat.cast_add,
        Int.add_assoc]
      rfl

/-- From the first field of TBSCertificate over the version and further fields. -/
def skipTo (cert : Buffer) (tbs stop : Int) (n : Nat) : Option (Nat × Int) := do
  let (skipped, p) ←
    if tbs < stop ∧ cert.mem tbs &&& 0xE0 = 0xA0 then
      (asn1TagLen cert tbs (int16 (stop - tbs))).map fun h => (1, h.skip tbs)
    else some (0, tbs)
  skipFields cert stop (n - skipped) p

/-- What both walks begin with: the place of a field, counted from the version or, without
it, from the serial number. -/
def findField (cert : Buffer) (certlen : Int) (n : Nat) : Option (Int × Int) := do
  let outer ← asn1Expect cert 0x30 0 certlen
  let tbsHeader ← asn1Expect cert 0x30 outer.hdrlen certlen
  let tbs := outer.hdrlen + tbsHeader.hdrlen
  let stop := tbs + tbsHeader.len
  let (left, p) ← skipTo cert tbs stop n
  if left ≠ 0 ∨ stop ≤ p then none else some (stop, p)

/-- A field that looks like a version is counted as any other. -/
theorem skipTo_fields {front back : List Element} (hFront : front ≠ [])
    (h : LiesIn cert p stop ((front ++ back).flatMap Element.encode)) :
    skipTo cert p stop front.length = some (0, p + (front.flatMap Element.encode).length) := by
  cases front with
  | nil => exact absurd rfl hFront
  | cons x front =>
      unfold skipTo
      split_ifs with hVersion
      · have hSplit : (x :: front ++ back).flatMap Element.encode =
            tlv x.tag x.content ++ (front ++ back).flatMap Element.encode := List.flatMap_cons
        rw [hSplit] at h
        have hRest := skipFields_fields h.right
        rw [h.left.header, Option.map_some, h.left.skip]
        show skipFields cert stop front.length _ = _
        rw [hRest, List.flatMap_cons, List.length_append, Nat.cast_add, Int.add_assoc]
        rfl
      · exact skipFields_fields h

/-- What lies before one end lies before a later one. -/
theorem LiesIn.mono (h : LiesIn cert p stop bs) {stop' : Int} (hStop : stop ≤ stop')
    (hSize : stop' < 32768) : LiesIn cert p stop' bs :=
  ⟨h.placed, h.start, Int.le_trans h.fits hStop, hSize⟩

/-- The way to a field: the certificate, its first part, and the fields in front. -/
theorem findField_eq {certlen q hdr hdr' len len' : Int} {t t' : UInt8} {n : Nat}
    (hOuter : asn1Expect cert 0x30 0 certlen = some ⟨t, hdr, len⟩)
    (hTbs : asn1Expect cert 0x30 hdr certlen = some ⟨t', hdr', len'⟩)
    (hSkip : skipTo cert (hdr + hdr') (hdr + hdr' + len') n = some (0, q)) :
    findField cert certlen n =
      if hdr + hdr' + len' ≤ q then none else some (hdr + hdr' + len', q) := by
  simp [findField, hOuter, hTbs, hSkip]

/-- The walk comes to the field behind as many others. -/
theorem findField_fields {certlen : Int} {front back : List Element} {outer : List UInt8}
    (hFront : front ≠ [])
    (h : LiesIn cert 0 certlen
      (tlv 0x30 (tlv 0x30 ((front ++ back).flatMap Element.encode) ++ outer))) :
    (back = [] → findField cert certlen front.length = none) ∧
      (back ≠ [] → ∃ stop p, findField cert certlen front.length = some (stop, p) ∧
        LiesIn cert p stop (back.flatMap Element.encode)) := by
  have hFits := h.fits
  rw [Der.length_tlv] at hFits
  have hBody := h.within.mono (by omega) h.size
  rw [Int.zero_add] at hBody
  have hTbs := hBody.left.within
  have hField := findField_eq h.expect hBody.left.expect (skipTo_fields hFront hTbs)
  have hBack := hTbs.behind List.flatMap_append
  refine ⟨fun hNone => ?_, fun hSome => ⟨_, _, hField.trans (if_neg ?_), hBack⟩⟩
  · rw [hField, if_pos]
    rw [hNone, List.append_nil]
  · obtain ⟨x, rest, rfl⟩ := List.exists_cons_of_ne_nil hSome
    have hRoom := hBack.fits
    have hSize : 0 < ((x :: rest).flatMap Element.encode).length := by
      rw [List.flatMap_cons, List.length_append]
      exact Nat.add_pos_left (Nat.succ_pos _) _
    omega

/-- From the key's field on. -/
def keyAt (cert : Buffer) (stop spki : Int) : Option RsaKey := do
  let spkiHeader ← asn1Expect cert 0x30 spki stop
  let p := spki + spkiHeader.hdrlen
  let algorithm ← asn1Expect cert 0x30 p stop
  let p := algorithm.skip p
  let bits ← asn1Expect cert 0x03 p stop
  let bitstr := p + bits.hdrlen
  if cert.mem bitstr ≠ 0 then none
  else
    let seq ← asn1Expect cert 0x30 (bitstr + 1) stop
    let p := bitstr + 1 + seq.hdrlen
    let n ← asn1Expect cert 0x02 p stop
    let e ← asn1Expect cert 0x02 (n.skip p) stop
    return ⟨magnitude cert n p, magnitude cert e (n.skip p)⟩

/-- From the Subject on. -/
def nameAt (cert : Buffer) (buflen stop p : Int) : Option (List UInt8) :=
  (asn1Expect cert 0x30 p stop).bind fun subject =>
    let names := p + subject.hdrlen
    let subjEnd := names + subject.len
    findCn cert subjEnd buflen (subjEnd - names).toNat names

/-- Both walks, whatever is done at the field they come to. -/
theorem walk_bind {Result : Type} (certlen : Int) (n : Nat) (f : Int → Int → Option Result) :
    ((findField cert certlen n).bind fun x => f x.1 x.2) =
      (asn1Expect cert 0x30 0 certlen).bind fun outer =>
        (asn1Expect cert 0x30 outer.hdrlen certlen).bind fun tbsHeader =>
          (skipTo cert (outer.hdrlen + tbsHeader.hdrlen)
            (outer.hdrlen + tbsHeader.hdrlen + tbsHeader.len) n).bind fun x =>
              if x.1 ≠ 0 ∨ outer.hdrlen + tbsHeader.hdrlen + tbsHeader.len ≤ x.2 then none
              else f (outer.hdrlen + tbsHeader.hdrlen + tbsHeader.len) x.2 := by
  simp only [findField, Option.bind_eq_bind, Option.bind_assoc]
  congr 1
  funext outer
  congr 1
  funext tbsHeader
  congr 1
  funext x
  split_ifs <;> rfl

/-- What follows the optional version and the fields in front. -/
theorem skipTo_bind {Result : Type} (tbs stop : Int) (n : Nat) (f : Nat × Int → Option Result) :
    (skipTo cert tbs stop n).bind f =
      if tbs < stop ∧ cert.mem tbs &&& 0xE0 = 0xA0 then
        ((asn1TagLen cert tbs (int16 (stop - tbs))).map fun h => (1, h.skip tbs)).bind fun x =>
          (skipFields cert stop (n - x.1) x.2).bind f
      else (skipFields cert stop n tbs).bind f := by
  unfold skipTo
  split_ifs
  · rw [Option.bind_eq_bind, Option.bind_assoc]
  · rfl

/-- The key parser is the way to field six, and the numbers there. -/
theorem x509ExtractRsa_eq (cert : Buffer) (certlen : Int) : x509ExtractRsa cert certlen =
    (findField cert certlen 6).bind fun x => keyAt cert x.1 x.2 := by
  rw [walk_bind]
  simp only [skipTo_bind]
  rfl

/-- The name parser is the way to field five, and the search there. -/
theorem x509ExtractCn_eq (cert : Buffer) (certlen buflen : Int) :
    x509ExtractCn cert certlen buflen =
    (findField cert certlen 5).bind fun x => nameAt cert buflen x.1 x.2 := by
  rw [walk_bind]
  simp only [skipTo_bind]
  rfl

/-- The contents of an element. -/
theorem LiesIn.inner (h : LiesIn cert p stop (tlv tag content)) :
    LiesIn cert (p + headerSize content.length) stop content := by
  have hFits := h.fits
  rw [Der.length_tlv] at hFits
  exact h.within.mono (by omega) h.size

theorem LiesIn.bytes (h : LiesIn cert p stop bs) {count : Nat} (hCount : count ≤ bs.length) :
    cert.bytes p count = bs.take count := by
  apply List.ext_getElem
  · simp [Buffer.bytes, hCount]
  · intro k hk hk'
    rw [List.length_take] at hk'
    rw [List.getElem_take, ← h.placed k (by omega)]
    simp only [Buffer.bytes, bind_pure_comp, List.map_eq_map, List.map_map, List.getElem_map,
      List.getElem_range, Function.comp_apply]

/-- An INTEGER without the zero in front of it. -/
theorem LiesIn.magnitude {n : Nat} (h : LiesIn cert p stop (tlv 0x02 (Der.integer n))) :
    let m := magnitude cert ⟨0x02, headerSize (Der.integer n).length, (Der.integer n).length⟩ p
    cert.bytes m.start m.len = Der.octets n := by
  have hInner := h.inner
  have hPos := Der.integer_length_pos n
  intro m
  rcases Der.integer_cases n with hZero | ⟨hSame, b, bs, hOctets, hFirst⟩
  · rw [hZero] at hInner
    have hHead : cert.mem (p + headerSize (Der.integer n).length) = 0 := by
      rw [hZero]
      exact hInner.placed.head
    have hTail := hInner.behind (List.singleton_append (x := 0)).symm
    have hMagnitude : m = ⟨p + headerSize (Der.integer n).length + 1, (Der.octets n).length⟩ := by
      unfold m Tls.magnitude
      rw [if_pos ⟨Int.natCast_pos.mpr hPos, hHead⟩, hZero]
      simp
    rw [hMagnitude, hZero]
    exact (hTail.bytes (Nat.le_refl _)).trans List.take_length
  · have hHead : cert.mem (p + headerSize (Der.integer n).length) ≠ 0 := by
      rw [hSame, hOctets] at hInner
      rw [hSame, hOctets, hInner.placed.head]
      exact hFirst
    have hMagnitude : m = ⟨p + headerSize (Der.integer n).length, (Der.integer n).length⟩ := by
      unfold m Tls.magnitude
      rw [if_neg fun hZero => hHead hZero.2]
      simp
    rw [hMagnitude, ← hSame]
    exact (hInner.bytes (Nat.le_refl _)).trans List.take_length

/-- The header of an INTEGER. -/
def integerHeader (n : Nat) : Asn1Header :=
  ⟨0x02, headerSize (Der.integer n).length, (Der.integer n).length⟩

/-- The key is found where it is. -/
theorem keyAt_key (c : Certificate) {rest : List UInt8}
    (h : LiesIn cert p stop (c.subjectPublicKeyInfo.encode ++ rest)) :
    ∃ q q', keyAt cert stop p = some ⟨magnitude cert (integerHeader c.modulus) q,
        magnitude cert (integerHeader c.publicExponent) q'⟩ ∧
      LiesIn cert q stop (tlv 0x02 (Der.integer c.modulus)) ∧
        LiesIn cert q' stop (tlv 0x02 (Der.integer c.publicExponent)) := by
  have hInfo : LiesIn cert p stop (tlv 0x30 c.subjectPublicKeyInfo.content) := h.left
  have hParts := hInfo.inner
  have hAlgorithm : LiesIn cert _ stop (tlv 0x30 c.algorithm) := hParts.left
  have hBits : LiesIn cert _ stop (tlv 0x03 (0 :: c.rsaPublicKey)) := hParts.right
  have hString := hBits.inner
  have hUnused := hString.placed.head
  have hKey : LiesIn cert _ stop (tlv 0x30 _) :=
    hString.behind (List.singleton_append (x := 0)).symm
  rw [List.length_singleton, Nat.cast_one] at hKey
  have hNumbers := hKey.inner
  refine ⟨_, _, ?_, hNumbers.left, hNumbers.right⟩
  simp only [keyAt, Option.bind_eq_bind, hInfo.expect, hAlgorithm.expect, Option.bind_some,
    hAlgorithm.skip, hBits.expect, hUnused, ne_eq, not_true_eq_false, ↓reduceIte, hKey.expect,
    hNumbers.left.expect, hNumbers.left.skip, hNumbers.right.expect]
  rfl

/-- A value is cut to the caller's buffer. -/
theorem cnValue_text {type : UInt8} {text : List UInt8} {buflen : Int}
    (h : LiesIn cert p stop (tlv type text)) (hBuf : 1 ≤ buflen) :
    cnValue cert p stop buflen = some (text.take (buflen - 1).toNat) := by
  rw [cnValue, h.header, Option.map_some]
  dsimp only
  by_cases hCut : buflen ≤ text.length
  · rw [if_pos hCut, h.inner.bytes (by omega)]
  · rw [if_neg hCut, Int.toNat_natCast, h.inner.bytes (Nat.le_refl _), List.take_length,
      List.take_of_length_le (by omega)]

/-- Three bytes compared are the whole identifier compared, once the length is three. -/
theorem isCnOid_iff {oid : List UInt8} (h : LiesIn cert p stop oid) :
    ((oid.length : Int) = 3 ∧ cert.bytes p 3 = cnOid) ↔ oid = cnOid := by
  constructor
  · rintro ⟨hLength, hBytes⟩
    have hThree : oid.length = 3 := by omega
    rwa [h.bytes (Nat.le_of_eq hThree.symm), List.take_of_length_le (Nat.le_of_eq hThree)] at hBytes
  · rintro rfl
    exact ⟨rfl, h.bytes (Nat.le_refl 3)⟩

/-- The first attribute of a set stands at its beginning, and the set ends behind its
content. -/
theorem LiesIn.firstAttribute {x : Rdn} (h : LiesIn cert p stop x.encode) :
    p + headerSize (x.attributes.flatMap Attribute.encode).length +
        (x.attributes.flatMap Attribute.encode).length = p + x.encode.length ∧
      LiesIn cert (p + headerSize (x.attributes.flatMap Attribute.encode).length)
        (p + x.encode.length) (tlv 0x30 (tlv 0x06 x.first.oid ++ x.first.value)) := by
  have hNext : p + headerSize (x.attributes.flatMap Attribute.encode).length +
      (x.attributes.flatMap Attribute.encode).length = p + x.encode.length := by
    rw [Rdn.encode, Der.length_tlv, Nat.cast_add, Int.add_assoc]
  have hSet : LiesIn cert p stop (tlv 0x31 (x.attributes.flatMap Attribute.encode)) := h
  have hFirst := hSet.within
  rw [hNext] at hFirst
  exact ⟨hNext, hFirst.left⟩

/-- One round of the loop: the first attribute of the set decides. -/
theorem findCn_round {x : Rdn} {rest : List UInt8} {rounds : Nat} {buflen : Int}
    (h : LiesIn cert p stop (x.encode ++ rest)) (hBuf : 1 ≤ buflen) :
    findCn cert stop buflen (rounds + 1) p =
      match x.first.text? with
      | some text => some (text.take (buflen - 1).toNat)
      | none => findCn cert stop buflen rounds (p + x.encode.length) := by
  have hSet : LiesIn cert p stop (tlv 0x31 (x.attributes.flatMap Attribute.encode)) := h.left
  have hFits := hSet.fits
  have hSome : 0 < (tlv 0x31 (x.attributes.flatMap Attribute.encode)).length := Nat.succ_pos _
  obtain ⟨hNext, hAttribute⟩ := h.left.firstAttribute
  have hParts := hAttribute.inner
  have hOid := hParts.left
  have hValue := hParts.right
  rw [findCn, if_pos (by omega)]
  simp only [hSet.expect, hNext, hAttribute.expect, hOid.expect]
  simp only [isCnOid_iff hOid.inner, hOid.skip]
  cases hKind : x.first with
  | commonName type text =>
      rw [hKind] at hValue
      exact (if_pos rfl).trans (cnValue_text hValue hBuf)
  | other oid value hOther => exact if_neg hOther

/-- The whole loop. -/
theorem findCn_subject {subject : List Rdn} {rounds : Nat} {buflen : Int}
    (h : LiesIn cert p stop (subject.flatMap Rdn.encode))
    (hEnd : p + (subject.flatMap Rdn.encode).length = stop) (hRounds : subject.length ≤ rounds)
    (hBuf : 1 ≤ buflen) : findCn cert stop buflen rounds p =
      (subject.findSome? fun x => x.first.text?).map (·.take (buflen - 1).toNat) := by
  induction subject generalizing p rounds with
  | nil =>
      have hStop : p = stop := by simpa using hEnd
      cases rounds with
      | zero => rfl
      | succ rounds => rw [findCn, if_neg (by omega), List.findSome?_nil, Option.map_none]
  | cons x subject ih =>
      obtain ⟨rounds, rfl⟩ := Nat.exists_eq_add_of_le' (Nat.le_trans (Nat.succ_pos _) hRounds)
      rw [List.flatMap_cons] at h hEnd
      rw [List.length_append, Nat.cast_add, ← Int.add_assoc] at hEnd
      rw [findCn_round h hBuf, List.findSome?_cons]
      cases x.first.text? with
      | some text => rfl
      | none => exact ih h.right hEnd (Nat.le_of_succ_le_succ hRounds)

/-- Every relative name takes at least a byte, so the rounds suffice. -/
theorem length_le_encode (subject : List Rdn) :
    subject.length ≤ (subject.flatMap Rdn.encode).length := by
  induction subject with
  | nil => exact Nat.le_refl _
  | cons x subject ih =>
      rw [List.flatMap_cons, List.length_append, List.length_cons, Rdn.encode, Der.length_tlv]
      have := Der.two_le_headerSize (x.attributes.flatMap Attribute.encode).length
      omega

/-- The search returns the first text that stands first in its set, cut to the buffer.
-/
theorem nameAt_subject {subject : List Rdn} {rest : List UInt8} {buflen : Int}
    (h : LiesIn cert p stop (tlv 0x30 (subject.flatMap Rdn.encode) ++ rest)) (hBuf : 1 ≤ buflen) :
    nameAt cert buflen stop p =
      (subject.findSome? fun x => x.first.text?).map (·.take (buflen - 1).toNat) := by
  rw [nameAt, h.left.expect]
  apply findCn_subject h.left.within rfl _ hBuf
  have hLength := length_le_encode subject
  dsimp only
  omega

/-- A sequence that does not begin with a set is no name. -/
theorem nameAt_other {x : UInt8} {first back rest : List UInt8} {buflen : Int}
    (h : LiesIn cert p stop (tlv 0x30 (tlv x first ++ back) ++ rest)) (hOther : x ≠ 0x31) :
    nameAt cert buflen stop p = none := by
  have hFirst := h.left.within.left
  have hFits := hFirst.fits
  have hSome : 0 < (tlv x first).length := Nat.succ_pos _
  rw [nameAt, h.left.expect]
  dsimp only [Option.bind_some]
  generalize hRounds : (p + headerSize (tlv x first ++ back).length + (tlv x first ++ back).length -
    (p + headerSize (tlv x first ++ back).length) : Int).toNat = rounds
  cases rounds with
  | zero => omega
  | succ rounds => rw [findCn, if_pos (by omega), hFirst.unexpected hOther]

end Walk

/-- `x509_extract_rsa` gives the modulus and the exponent, without the zero in front. -/
def FindsKey (c : Certificate) (cert : Buffer) (certlen : Int) : Prop :=
  ∃ key, x509ExtractRsa cert certlen = some key ∧
    cert.bytes key.n.start key.n.len = Der.octets c.modulus ∧
    cert.bytes key.e.start key.e.len = Der.octets c.publicExponent

/-- `x509_extract_cn` gives the first commonName of the Subject, as far as it fits, or -1. -/
def FindsName (c : Certificate) (cert : Buffer) (certlen buflen : Int) : Prop :=
  x509ExtractCn cert certlen buflen = c.commonName?.map (·.take (buflen - 1).toNat)

section Certificates

variable {c : Certificate} {cert : Buffer} {certlen buflen : Int}

/-- The fields with a version in front, and without. -/
theorem fields_eq (c : Certificate) :
    (∃ v, c.version = some v ∧ c.fields = [⟨0xA0, v⟩, ⟨0x02, c.serialNumber⟩, ⟨0x30, c.signature⟩,
      ⟨0x30, c.issuer⟩, ⟨0x30, c.validity⟩] ++
        (⟨0x30, c.subject.flatMap Rdn.encode⟩ :: c.subjectPublicKeyInfo :: c.trailer)) ∨
    (c.version = none ∧ c.fields = [⟨0x02, c.serialNumber⟩, ⟨0x30, c.signature⟩, ⟨0x30, c.issuer⟩,
      ⟨0x30, c.validity⟩, ⟨0x30, c.subject.flatMap Rdn.encode⟩] ++
        (c.subjectPublicKeyInfo :: c.trailer)) := by
  cases h : c.version with
  | none => exact .inr ⟨rfl, by rw [Certificate.fields, h]; rfl⟩
  | some v => exact .inl ⟨v, rfl, by rw [Certificate.fields, h]; rfl⟩

theorem trailer_tag (c : Certificate) : ∀ x ∈ c.trailer, x.tag ≠ 0x30 := by
  intro x hx
  simp only [Certificate.trailer, List.mem_append, List.mem_map] at hx
  rcases hx with (⟨_, _, rfl⟩ | ⟨_, _, rfl⟩) | ⟨_, _, rfl⟩
  all_goals
    dsimp only
    decide

/-- The walk over the fields of a certificate. -/
theorem LiesIn.walk (h : LiesIn cert 0 certlen c.encode) {front back : List Element}
    (hFields : c.fields = front ++ back) (hFront : front ≠ []) :
    (back = [] → findField cert certlen front.length = none) ∧
      (back ≠ [] → ∃ stop p, findField cert certlen front.length = some (stop, p) ∧
        LiesIn cert p stop (back.flatMap Element.encode)) := by
  rw [Certificate.encode, hFields] at h
  exact findField_fields hFront h

/-- With a version the key is found; without one the walk goes past it. -/
theorem findsKey_iff (h : LiesIn cert 0 certlen c.encode) :
    FindsKey c cert certlen ↔ c.version.isSome := by
  rw [FindsKey, x509ExtractRsa_eq]
  rcases fields_eq c with ⟨v, hVersion, hFields⟩ | ⟨hVersion, hFields⟩
  · refine iff_of_true ?_ (by rw [hVersion]; rfl)
    rw [List.append_cons] at hFields
    obtain ⟨stop, p, hField, hInside⟩ := (h.walk hFields (by simp)).2 (by simp)
    obtain ⟨q, q', hKey, hModulus, hExponent⟩ := keyAt_key c hInside
    refine ⟨_, (congrArg (Option.bind · _) hField).trans hKey, ?_, ?_⟩
    · exact hModulus.magnitude
    · exact hExponent.magnitude
  · refine iff_of_false ?_ (by simp [hVersion])
    rintro ⟨key, hKey, -⟩
    rw [List.append_cons] at hFields
    have hWalk := h.walk hFields (by simp)
    cases hTrailer : c.trailer with
    | nil =>
        have hNone : findField cert certlen 6 = none := hWalk.1 hTrailer
        rw [hNone] at hKey
        cases hKey
    | cons x rest =>
        obtain ⟨stop, p, hField, hInside⟩ := hWalk.2 (by simp [hTrailer])
        have hFound : findField cert certlen 6 = some (stop, p) := hField
        have hFirst : LiesIn cert p stop (tlv x.tag x.content) := by
          rw [hTrailer, List.flatMap_cons] at hInside
          exact hInside.left
        have hTag : x.tag ≠ 0x30 := trailer_tag c x (hTrailer ▸ List.mem_cons_self)
        rw [hFound, Option.bind_some, keyAt, hFirst.unexpected hTag] at hKey
        cases hKey

/-- The name parser on an encoded certificate: the leading name with a version, and
nothing without one. -/
theorem extractCn_eq (h : LiesIn cert 0 certlen c.encode) (hBuf : 1 ≤ buflen) :
    x509ExtractCn cert certlen buflen =
      if c.version.isSome then c.leadingName?.map (·.take (buflen - 1).toNat) else none := by
  rw [x509ExtractCn_eq]
  rcases fields_eq c with ⟨v, hVersion, hFields⟩ | ⟨hVersion, hFields⟩
  · obtain ⟨stop, p, hField, hInside⟩ := (h.walk hFields (by simp)).2 (by simp)
    rw [if_pos (by rw [hVersion]; rfl)]
    exact (congrArg (Option.bind · _) hField).trans (nameAt_subject hInside hBuf)
  · obtain ⟨stop, p, hField, hInside⟩ := (h.walk hFields (by simp)).2 (by simp)
    rw [if_neg (by simp [hVersion])]
    exact (congrArg (Option.bind · _) hField).trans (nameAt_other hInside (by decide))

/-- An encoded list lies in the buffer around it. -/
theorem liesIn_around (bs : List UInt8) (outside : Int → UInt8) (h : bs.length < 32768) :
    LiesIn (Buffer.around bs outside) 0 bs.length bs := by
  refine ⟨fun k hk => ?_, Int.le_refl 0, by rw [Int.zero_add], by exact_mod_cast h⟩
  show (if 0 ≤ (0 + k : Int) ∧ (0 + k : Int) < bs.length then bs.getD (0 + k : Int).toNat 0
    else outside (0 + k)) = bs[k]
  rw [Int.zero_add, if_pos ⟨by omega, by omega⟩, Int.toNat_natCast, ← List.getElem_eq_getD 0]

end Certificates

/-- Key and name are found in the certificates that have a version and whose first commonName
is not put off by one that stands behind another attribute of its set. -/
theorem certificate_parsed (c : Certificate) (hSize : c.encode.length < 32768)
    (outside : Int → UInt8) {buflen : Int} (hBuf : 1 ≤ buflen) :
    FindsKey c (Buffer.around c.encode outside) c.encode.length ∧
        FindsName c (Buffer.around c.encode outside) c.encode.length buflen ↔
      c.version.isSome ∧ c.commonName?.map (·.take (buflen - 1).toNat) =
        c.leadingName?.map (·.take (buflen - 1).toNat) := by
  have hInside := liesIn_around c.encode outside hSize
  rw [findsKey_iff hInside, FindsName, extractCn_eq hInside hBuf]
  refine and_congr_right fun hVersion => ?_
  rw [if_pos hVersion]
  exact eq_comm

/-- A certificate of version 1: the version is left out. The names are `CN=bbs`, the
signature is made up. -/
def versionless : Certificate where
  version := none
  serialNumber := [0x01]
  signature := [0x06, 0x09, 0x2A, 0x86, 0x48, 0x86, 0xF7, 0x0D, 0x01, 0x01, 0x05, 0x05, 0x00]
  issuer := [0x31, 0x0C, 0x30, 0x0A, 0x06, 0x03, 0x55, 0x04, 0x03, 0x0C, 0x03, 0x62, 0x62, 0x73]
  validity := tlv 0x17 (bytes "960101000000Z") ++ tlv 0x17 (bytes "491231235959Z")
  subject := [⟨.commonName 0x0C (bytes "bbs"), []⟩]
  algorithm := [0x06, 0x09, 0x2A, 0x86, 0x48, 0x86, 0xF7, 0x0D, 0x01, 0x01, 0x01, 0x05, 0x00]
  modulus := 0xC5D1
  publicExponent := 17
  issuerUniqueID := none
  subjectUniqueID := none
  extensions := none
  signatureAlgorithm :=
    [0x06, 0x09, 0x2A, 0x86, 0x48, 0x86, 0xF7, 0x0D, 0x01, 0x01, 0x05, 0x05, 0x00]
  signatureValue := [0x00, 0x12, 0x34]

/-- The same as version 3. -/
def versioned : Certificate := { versionless with version := some [0x02, 0x01, 0x02] }

/-- The commonName shares its set with a country, which comes first. -/
def sharedSet : Certificate :=
  { versioned with
    subject := [⟨.other [0x55, 0x04, 0x06] (tlv 0x13 (bytes "DE")) (by decide),
      [.commonName 0x0C (bytes "bbs")]⟩] }

/-- A certificate with a version and names in sets of their own. -/
theorem certificate_parsed_versioned :
    FindsKey versioned (Buffer.around versioned.encode fun _ => 0) versioned.encode.length ∧
      FindsName versioned (Buffer.around versioned.encode fun _ => 0) versioned.encode.length 64 :=
  (certificate_parsed versioned (by decide +kernel) (fun _ => 0) (by decide)).mpr ⟨rfl, rfl⟩

/-- Neither the key of the version 1 certificate nor the name in the shared set is
found. -/
theorem key_and_name_lost :
    (versionless.encode.length < 32768 ∧
      ¬ FindsKey versionless (Buffer.around versionless.encode fun _ => 0)
        versionless.encode.length) ∧
    (sharedSet.encode.length < 32768 ∧
      ¬ FindsName sharedSet (Buffer.around sharedSet.encode fun _ => 0)
        sharedSet.encode.length 64) := by
  have hKeySize : versionless.encode.length < 32768 := by decide +kernel
  have hNameSize : sharedSet.encode.length < 32768 := by decide +kernel
  refine ⟨⟨hKeySize, ?_⟩, hNameSize, ?_⟩
  · rw [findsKey_iff (liesIn_around _ _ hKeySize)]
    decide
  · rw [FindsName, extractCn_eq (liesIn_around _ _ hNameSize) (by decide)]
    decide

end Vmodem.Tls
