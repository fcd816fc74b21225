import Vmodem.Properties.CertificateParsing
import Vmodem.Tls.CertificateReads

/-! When the walks over a certificate stay inside it: where every header they come to does,
and every octet they look at behind one. The lengths that lead from one header to the next
are whatever the certificate declares. -/

namespace Vmodem.Tls

open Traced (Ensures)

section Conditions

variable (cert : Buffer) (certlen : Int)

/-- Octets in the certificate. -/
def OctetsInside (p count : Int) : Prop := 0 ≤ p ∧ p + count ≤ certlen

/-- The size of the header at `p`, as far as it is read. -/
def headerOctets (p avail : Int) : Int :=
  let first := (cert.mem (p + 1)).toNat
  if first < 0x80 ∨ 3 < first % 0x80 ∨ avail < 2 + first % 0x80 then 2 else 2 + first % 0x80

/-- If there is room for a header it lies in the certificate, and what it declares leads to
`next`. -/
def HeaderThen (p avail : Int) (next : Asn1Header → Prop) : Prop :=
  (2 ≤ avail → OctetsInside certlen p (headerOctets cert p avail)) ∧
    ∀ h, asn1TagLen cert p avail = some h → next h

/-- The same for an element with a given tag. -/
def ElementThen (tag : UInt8) (p stop : Int) (next : Asn1Header → Prop) : Prop :=
  HeaderThen cert certlen p (int16 (stop - p)) fun h => h.tag = tag → next h

/-- One field behind the other, each as long as it declares. -/
def FieldsThen (stop : Int) (next : Nat → Int → Prop) : Nat → Int → Prop
  | 0, p => next 0 p
  | n + 1, p =>
      if p < stop then
        HeaderThen cert certlen p (int16 (stop - p)) fun h => FieldsThen stop next n (h.skip p)
      else next (n + 1) p

/-- The fields of TBSCertificate from the version on, if there is one. -/
def FieldThen (n : Nat) (next : Int → Int → Prop) : Prop :=
  ElementThen cert certlen 0x30 0 certlen fun outer =>
  ElementThen cert certlen 0x30 outer.hdrlen certlen fun tbsHeader =>
    let tbs := outer.hdrlen + tbsHeader.hdrlen
    let stop := tbs + tbsHeader.len
    let fields := FieldsThen cert certlen stop fun left p => left = 0 → p < stop → next stop p
    if tbs < stop then
      OctetsInside certlen tbs 1 ∧
        if cert.mem tbs &&& 0xE0 = 0xA0 then
          HeaderThen cert certlen tbs (int16 (stop - tbs)) fun h => fields (n - 1) (h.skip tbs)
        else fields n tbs
    else fields n tbs

/-- The first octet of an INTEGER that is not empty. -/
def LeadingInside (h : Asn1Header) (p : Int) : Prop :=
  0 < h.len → OctetsInside certlen (p + h.hdrlen) 1

/-- The modulus and, where it is followed by another INTEGER, the exponent. -/
def IntegersInside (p stop : Int) : Prop :=
  ElementThen cert certlen 0x02 p stop fun n => LeadingInside certlen n p ∧
    ElementThen cert certlen 0x02 (n.skip p) stop fun e => LeadingInside certlen e (n.skip p) ∧
      OctetsInside certlen (p + n.hdrlen) n.len ∧ OctetsInside certlen (n.skip p + e.hdrlen) e.len

/-- The elements of the key lie in the certificate, with the octet in front of the bits and
the two INTEGERs. -/
def KeyInside : Prop :=
  FieldThen cert certlen 6 fun stop spki =>
  ElementThen cert certlen 0x30 spki stop fun spkiHeader =>
  ElementThen cert certlen 0x30 (spki + spkiHeader.hdrlen) stop fun algorithm =>
  ElementThen cert certlen 0x03 (algorithm.skip (spki + spkiHeader.hdrlen)) stop fun bits =>
    let bitstr := algorithm.skip (spki + spkiHeader.hdrlen) + bits.hdrlen
    OctetsInside certlen bitstr 1 ∧ (cert.mem bitstr = 0 →
      ElementThen cert certlen 0x30 (bitstr + 1) stop fun seq =>
        IntegersInside cert certlen (bitstr + 1 + seq.hdrlen) stop)

variable (buflen : Int)

/-- The value behind the OID of a commonName, as far as it is copied. -/
def ValueInside (p setEnd : Int) : Prop :=
  HeaderThen cert certlen p (int16 (setEnd - p)) fun value =>
    let count := (min value.len (buflen - 1)).toNat
    0 < count → OctetsInside certlen (p + value.hdrlen) count

/-- The sets of the Subject, one behind the other up to the first commonName. -/
def SetsInside (subjEnd : Int) : Nat → Int → Prop
  | 0, _ => True
  | rounds + 1, p =>
      p < subjEnd → ElementThen cert certlen 0x31 p subjEnd fun set =>
        let setEnd := p + set.hdrlen + set.len
        let seqAt := p + set.hdrlen
        let next := SetsInside subjEnd rounds setEnd
        ElementThen cert certlen 0x30 seqAt setEnd (fun seq =>
          let oidAt := seqAt + seq.hdrlen
          ElementThen cert certlen 0x06 oidAt setEnd (fun oid =>
            if oid.len = 3 then
              OctetsInside certlen (oidAt + oid.hdrlen) 3 ∧
                if cert.bytes (oidAt + oid.hdrlen) 3 = cnOid then
                  ValueInside cert certlen buflen (oid.skip oidAt) setEnd
                else next
            else next) ∧ (asn1Expect cert 0x06 oidAt setEnd = none → next)) ∧
          (asn1Expect cert 0x30 seqAt setEnd = none → next)

def NameInside : Prop :=
  FieldThen cert certlen 5 fun stop p =>
  ElementThen cert certlen 0x30 p stop fun subject =>
    SetsInside cert certlen buflen (p + subject.hdrlen + subject.len) subject.len.toNat
      (p + subject.hdrlen)

end Conditions

section Rounds

variable {cert : Buffer} {p avail stop certlen subjEnd buflen : Int} {tag : UInt8} {rounds : Nat}
  {h : Asn1Header}

/-- A length computed in a 16-bit int never exceeds its range. -/
theorem int16_fold_lt {A : Type} (f : Int → A → Int) (xs : List A) {init : Int}
    (hInit : init < 32768) :
    xs.foldl (fun len x => int16 (f len x)) init < 32768 := by
  induction xs generalizing init with
  | nil => exact hInit
  | cons x xs ih =>
      apply ih
      show (f init x + 32768) % 65536 - 32768 < 32768
      omega

/-- A header takes two octets at least, and what it declares fits an `int`. -/
theorem asn1TagLen_range (hHeader : asn1TagLen cert p avail = some h) :
    2 ≤ h.hdrlen ∧ 0 ≤ h.len ∧ h.len < 32768 := by
  unfold asn1TagLen at hHeader
  dsimp only at hHeader
  split_ifs at hHeader with hAvail hShort hMany hNegative
  · cases hHeader
    exact ⟨by simp, by simp, by simp; omega⟩
  · cases hHeader
    exact ⟨by simp; omega, by simpa using hNegative, int16_fold_lt _ _ (by decide)⟩

/-- An expected element has a header of at least two bytes and a length in range. -/
theorem asn1Expect_range (hHeader : asn1Expect cert tag p stop = some h) :
    2 ≤ h.hdrlen ∧ 0 ≤ h.len ∧ h.len < 32768 := by
  unfold asn1Expect at hHeader
  cases hTagLen : asn1TagLen cert p (int16 (stop - p)) with
  | none => simp [hTagLen] at hHeader
  | some h' =>
      simp only [hTagLen] at hHeader
      split_ifs at hHeader
      cases hHeader
      exact asn1TagLen_range hTagLen

/-- The loop over the sets is left before a bound as large as the Subject is used up. -/
theorem findCn_rounds (hRounds : (subjEnd - p).toNat ≤ rounds) :
    Walk.findCn cert subjEnd buflen rounds p =
      Walk.findCn cert subjEnd buflen (subjEnd - p).toNat p := by
  have hSame : ∀ less more p, (subjEnd - p).toNat ≤ less → less ≤ more →
      Walk.findCn cert subjEnd buflen more p = Walk.findCn cert subjEnd buflen less p := by
    intro less
    induction less with
    | zero =>
        intro more p hLess _
        cases more with
        | zero => rfl
        | succ more => exact if_neg (by omega)
    | succ less ih =>
        intro more p hLess hMore
        cases more with
        | zero => omega
        | succ more =>
            unfold Walk.findCn
            by_cases hInside : p < subjEnd
            · rw [if_pos hInside, if_pos hInside]
              cases hSet : asn1Expect cert 0x31 p subjEnd with
              | none => rw [Traced.bind_none (result_asn1Expect.trans hSet),
                  Traced.bind_none (result_asn1Expect.trans hSet)]
              | some set =>
                  obtain ⟨hHeader, hLength, -⟩ := asn1Expect_range hSet
                  have hNext := ih more (p + set.hdrlen + set.len) (by omega) (by omega)
                  rw [Traced.bind_some (result_asn1Expect.trans hSet),
                    Traced.bind_some (result_asn1Expect.trans hSet)]
                  simp only [hNext]
            · rw [if_neg hInside, if_neg hInside]
  exact hSame _ _ p (Nat.le_refl _) hRounds

end Rounds

section Walks

variable {cert : Buffer} {p avail tbs stop certlen subjEnd buflen : Int} {tag : UInt8}
  {n rounds : Nat}

/-- An offset in the certificate. -/
def Within (certlen i : Int) : Prop := 0 ≤ i ∧ i < certlen

/-- Reading an octet is inside where the octet is. -/
theorem ensures_octet {Q : UInt8 → Prop} : (Walk.octet cert p).Ensures (Within certlen) Q ↔
    OctetsInside certlen p 1 ∧ Q (cert.mem p) := by
  simp only [Ensures, Walk.octet, List.mem_cons, List.not_mem_nil, or_false, Within, forall_eq,
    Option.some.injEq, forall_eq', OctetsInside, Int.add_one_le_iff]

/-- Reading several octets is inside where all of them are; reading none always is. -/
theorem ensures_octets {count : Nat} {Q : List UInt8 → Prop} :
    (Walk.octets cert p count).Ensures (Within certlen) Q ↔
      (0 < count → OctetsInside certlen p count) ∧ Q (cert.bytes p count) := by
  have hReads : (∀ i ∈ (List.range count).map (fun k : Nat => p + k), Within certlen i) ↔
      (0 < count → OctetsInside certlen p count) := by
    simp only [List.mem_map, List.mem_range, forall_exists_index, and_imp, forall_apply_eq_imp_iff₂,
      Within, OctetsInside]
    constructor
    · intro hAll hSome
      have hFirst := hAll 0 hSome
      have hLast := hAll (count - 1) (by omega)
      omega
    · intro hAll i hLess
      have hInside := hAll (by omega)
      omega
  rw [Ensures, Walk.octets, hReads]
  simp

/-- What has to be true for the header parser to read inside. -/
theorem ensures_asn1TagLen {Q : Asn1Header → Prop} :
    (Walk.asn1TagLen cert p avail).Ensures (Within certlen) Q ↔
      HeaderThen cert certlen p avail Q := by
  have hReads : (∀ i ∈ (Walk.asn1TagLen cert p avail).trace, Within certlen i) ↔
      (2 ≤ avail → OctetsInside certlen p (headerOctets cert p avail)) := by
    have hTrace : (Walk.asn1TagLen cert p avail).Ensures (Within certlen) (fun _ => True) ↔
        ∀ i ∈ (Walk.asn1TagLen cert p avail).trace, Within certlen i := by simp [Ensures]
    rw [← hTrace]
    unfold Walk.asn1TagLen headerOctets
    simp only [Traced.ensures_ite, Traced.ensures_bind, Traced.ensures_pure, Traced.ensures_fail,
      ensures_octet, ensures_octets, OctetsInside, ite_self, and_true, if_true_left, Int.not_lt]
    apply imp_congr_right
    intro _
    split_ifs <;> omega
  rw [Ensures, HeaderThen, hReads, result_asn1TagLen]

/-- What has to be true for an expected element to be read inside. -/
theorem ensures_asn1Expect {Q : Asn1Header → Prop} :
    (Walk.asn1Expect cert tag p stop).Ensures (Within certlen) Q ↔
      ElementThen cert certlen tag p stop Q := by
  unfold Walk.asn1Expect ElementThen
  simp only [Traced.ensures_bind, ensures_asn1TagLen, Traced.ensures_ite, Traced.ensures_fail,
    Traced.ensures_pure]
  congr! 2 with h
  split_ifs with hTag <;> simp_all

/-- What has to be true for the fields to be skipped inside. The induction is on their
number. -/
theorem ensures_skipFields {Q : Nat × Int → Prop} :
    (Walk.skipFields cert stop n p).Ensures (Within certlen) Q ↔
      FieldsThen cert certlen stop (fun n p => Q (n, p)) n p := by
  induction n generalizing p with
  | zero => exact Traced.ensures_pure
  | succ n ih =>
      unfold Walk.skipFields FieldsThen
      simp only [Traced.ensures_ite, Traced.ensures_bind, Traced.ensures_pure,
        ensures_asn1TagLen, ih]

/-- What has to be true for the optional version to be skipped inside. -/
theorem ensures_version {Q : Nat × Int → Prop} :
    (Walk.version cert tbs stop).Ensures (Within certlen) Q ↔
    if tbs < stop then
      OctetsInside certlen tbs 1 ∧
        if cert.mem tbs &&& 0xE0 = 0xA0 then
          HeaderThen cert certlen tbs (int16 (stop - tbs)) fun h => Q (1, h.skip tbs)
        else Q (0, tbs)
    else Q (0, tbs) := by
  unfold Walk.version
  simp only [Traced.ensures_ite, Traced.ensures_bind, Traced.ensures_pure, ensures_asn1TagLen,
    ensures_octet]

/-- Of an INTEGER only the leading octet is read. -/
theorem ensures_magnitude {h : Asn1Header} {Q : Magnitude → Prop} :
    (Walk.magnitude cert h p).Ensures (Within certlen) Q ↔
      LeadingInside certlen h p ∧ Q (magnitude cert h p) := by
  unfold Walk.magnitude LeadingInside magnitude
  simp only [Traced.ensures_ite, Traced.ensures_bind, Traced.ensures_pure, ensures_octet, ite_and]
  split_ifs with hSome hZero <;> simp [hSome]

/-- What has to be true for the value of a name to be copied inside. -/
theorem ensures_cnValue :
    (Walk.cnValue cert p stop buflen).Ensures (Within certlen) (fun _ => True) ↔
    ValueInside cert certlen buflen p stop := by
  have hMin : ∀ len : Int, (if buflen ≤ len then buflen - 1 else len) = min len (buflen - 1) := by
    intro len
    split_ifs <;> omega
  unfold Walk.cnValue ValueInside
  simp only [Traced.ensures_bind, ensures_asn1TagLen, ensures_octets, hMin, and_true]

/-- What has to be true for the search over the names to stay inside. The induction is
on the rounds. -/
theorem ensures_findCn :
    (Walk.findCn cert subjEnd buflen rounds p).Ensures (Within certlen) (fun _ => True) ↔
    SetsInside cert certlen buflen subjEnd rounds p := by
  induction rounds generalizing p with
  | zero => simp [Walk.findCn, SetsInside]
  | succ rounds ih =>
      unfold Walk.findCn SetsInside
      simp only [Traced.ensures_ite, Traced.ensures_bind, Traced.ensures_attempt,
        Traced.ensures_fail,
        ensures_asn1Expect, ensures_octets, ensures_cnValue, ih, result_asn1Expect, if_true_right,
        Nat.zero_lt_succ, true_imp_iff]
      rfl

/-- Only what follows a header with a length in range matters. -/
theorem ElementThen.congr {next next' : Asn1Header → Prop}
    (h : ∀ h, 0 ≤ h.len → (next h ↔ next' h)) :
    ElementThen cert certlen tag p stop next ↔ ElementThen cert certlen tag p stop next' := by
  unfold ElementThen HeaderThen
  apply and_congr_right'
  apply forall_congr'
  intro header
  apply forall_congr'
  intro hHeader
  apply forall_congr'
  intro _
  exact h header (asn1TagLen_range hHeader).2.1

/-- A range without the leading zero lies inside if the INTEGER does. -/
theorem magnitude_inside {h : Asn1Header} (hLen : 0 ≤ h.len)
    (hLeading : LeadingInside certlen h p) :
    OctetsInside certlen (magnitude cert h p).start (magnitude cert h p).len ↔
      OctetsInside certlen (p + h.hdrlen) h.len := by
  unfold LeadingInside OctetsInside at hLeading
  unfold magnitude OctetsInside
  split_ifs with hZero
  · have hFirst := hLeading hZero.1
    dsimp only
    omega
  · dsimp only
    omega

/-- Modulus and exponent: two INTEGERs, their leading octets, and the bytes copied of
each. -/
theorem integersInside_iff : IntegersInside cert certlen p stop ↔
    ElementThen cert certlen 0x02 p stop fun n => LeadingInside certlen n p ∧
      ElementThen cert certlen 0x02 (n.skip p) stop fun e => LeadingInside certlen e (n.skip p) ∧
        OctetsInside certlen (magnitude cert n p).start (magnitude cert n p).len ∧
        OctetsInside certlen (magnitude cert e (n.skip p)).start
          (magnitude cert e (n.skip p)).len := by
  apply ElementThen.congr
  intro n hN
  apply and_congr_right
  intro hLeadingN
  apply ElementThen.congr
  intro e hE
  apply and_congr_right
  intro hLeadingE
  rw [magnitude_inside hN hLeadingN, magnitude_inside hE hLeadingE]

/-- The walk to the key, with the copy of its numbers, reads inside exactly under the
condition. -/
theorem ensures_x509ExtractRsa :
    (Walk.x509ExtractRsa cert certlen).Ensures (Within certlen)
      (fun key => OctetsInside certlen key.n.start key.n.len ∧
        OctetsInside certlen key.e.start key.e.len) ↔
    KeyInside cert certlen := by
  unfold Walk.x509ExtractRsa KeyInside FieldThen
  simp only [Traced.ensures_ite, Traced.ensures_bind, Traced.ensures_fail, Traced.ensures_pure,
    ensures_asn1Expect, ensures_version, ensures_skipFields, ensures_magnitude, ensures_octet,
    integersInside_iff, if_true_left, not_or, not_not, Int.not_le, and_imp, Ne]

/-- As many rounds as an `int` can count are enough for any Subject. -/
theorem subject_rounds (hRounds : 32767 ≤ rounds) :
    (Walk.asn1Expect cert 0x30 p stop >>= fun subject =>
      Walk.findCn cert (p + subject.hdrlen + subject.len) buflen rounds (p + subject.hdrlen)) =
    Walk.asn1Expect cert 0x30 p stop >>= fun subject =>
      Walk.findCn cert (p + subject.hdrlen + subject.len) buflen subject.len.toNat
        (p + subject.hdrlen) := by
  cases hSubject : asn1Expect cert 0x30 p stop with
  | none =>
      rw [Traced.bind_none (result_asn1Expect.trans hSubject),
        Traced.bind_none (result_asn1Expect.trans hSubject)]
  | some subject =>
      have hLen := (asn1Expect_range hSubject).2
      rw [Traced.bind_some (result_asn1Expect.trans hSubject),
        Traced.bind_some (result_asn1Expect.trans hSubject),
        findCn_rounds (by omega), add_sub_cancel_left]

/-- The walk to the name reads inside exactly under the condition. -/
theorem ensures_x509ExtractCn (hRounds : 32767 ≤ rounds) :
    (Walk.x509ExtractCn cert certlen buflen rounds).Ensures (Within certlen) (fun _ => True) ↔
      NameInside cert certlen buflen := by
  unfold Walk.x509ExtractCn NameInside FieldThen
  dsimp only
  simp only [subject_rounds hRounds, Traced.ensures_ite, Traced.ensures_bind, Traced.ensures_fail,
    ensures_asn1Expect, ensures_version, ensures_skipFields, ensures_findCn,
    if_true_left, not_or, not_not, Int.not_le, and_imp, Ne]

/-- The traced walk to the name gives what the walk does. -/
theorem result_x509ExtractCn (hRounds : 32767 ≤ rounds) :
    (Walk.x509ExtractCn cert certlen buflen rounds).result = x509ExtractCn cert certlen buflen := by
  unfold Walk.x509ExtractCn x509ExtractCn
  dsimp only
  simp only [subject_rounds hRounds, Traced.result_ite, Traced.result_bind, Traced.result_fail,
    result_asn1Expect, result_version, result_skipFields, result_findCn,
    Option.bind_eq_bind, add_sub_cancel_left]
  congr 1
  funext outer
  congr 1
  funext tbsHeader
  exact ite_bind ..

end Walks

section Buffers

variable {cert : Buffer} {p setEnd subjEnd certlen buflen : Int} {rounds : Nat} {text : List UInt8}

theorem length_bytes (cert : Buffer) (p : Int) (count : Nat) :
    (cert.bytes p count).length = count := by
  simp [Buffer.bytes]

/-- A copied value leaves room for its terminating zero. -/
theorem cnValue_short (hBuf : 1 ≤ buflen) (h : cnValue cert p setEnd buflen = some text) :
    text.length < buflen := by
  unfold cnValue at h
  obtain ⟨value, -, rfl⟩ := Option.map_eq_some_iff.mp h
  rw [length_bytes]
  split_ifs <;> omega

theorem findCn_short (hBuf : 1 ≤ buflen) (h : findCn cert subjEnd buflen rounds p = some text) :
    text.length < buflen := by
  induction rounds generalizing p with
  | zero => cases h
  | succ rounds ih =>
      unfold findCn at h
      dsimp only at h
      split at h
      · split at h
        · cases h
        · split at h
          · exact ih h
          · split at h
            · exact ih h
            · split at h
              · exact cnValue_short hBuf h
              · exact ih h
      · cases h

/-- The name leaves room for the NUL. -/
theorem x509ExtractCn_short (hBuf : 1 ≤ buflen)
    (h : x509ExtractCn cert certlen buflen = some text) :
    text.length < buflen := by
  rw [x509ExtractCn_eq] at h
  obtain ⟨x, -, hName⟩ := Option.bind_eq_some_iff.mp h
  obtain ⟨subject, -, hFind⟩ := Option.bind_eq_some_iff.mp hName
  exact findCn_short hBuf hFind

/-- Only the buffer is written, and on success a NUL ends what it holds. -/
def Copies (buflen : Int) (buf : Nat → UInt8) (result : Option (List UInt8)) : Prop :=
  (∀ i : Nat, buflen ≤ i → Walk.copyCn buf result i = buf i) ∧
    ∀ text, result = some text → (text.length : Int) < buflen ∧
      (∀ i < text.length, Walk.copyCn buf result i = text.getD i 0) ∧
      Walk.copyCn buf result text.length = 0

/-- A name that short is copied with its terminating zero into a buffer of the given
size. -/
theorem copies_of_short {result : Option (List UInt8)} (buf : Nat → UInt8)
    (h : ∀ text, result = some text → (text.length : Int) < buflen) : Copies buflen buf result := by
  cases result with
  | none => exact ⟨fun _ _ => rfl, fun _ hNone => nomatch hNone⟩
  | some text =>
      have hShort := h text rfl
      refine ⟨fun i hLarge => ?_, fun _ hSome => ?_⟩
      · simp only [Walk.copyCn]
        rw [if_neg (by omega), if_neg (by omega)]
      · cases hSome
        exact ⟨hShort, fun i hLess => by simp [Walk.copyCn, hLess], by simp [Walk.copyCn]⟩

/-- The walks end and read only the certificate, the key they return lies in it, and the name
is copied into the caller's buffer. -/
structure StaysInside (cert : Buffer) (certlen buflen : Int) : Prop where
  key : (Walk.x509ExtractRsa cert certlen).Ensures (Within certlen) fun key =>
    OctetsInside certlen key.n.start key.n.len ∧ OctetsInside certlen key.e.start key.e.len
  name : ∃ walk, (∀ rounds, 32767 ≤ rounds → Walk.x509ExtractCn cert certlen buflen rounds = walk) ∧
    walk.Ensures (Within certlen) (fun _ => True) ∧ ∀ buf, Copies buflen buf walk.result

/-- The walk takes at most 32767 rounds: each name is two bytes at least. -/
theorem x509ExtractCn_rounds (hRounds : 32767 ≤ rounds) :
    Walk.x509ExtractCn cert certlen buflen rounds =
      Walk.x509ExtractCn cert certlen buflen 32767 := by
  unfold Walk.x509ExtractCn
  dsimp only
  simp only [subject_rounds hRounds, subject_rounds (Nat.le_refl 32767)]

/-- The walks stay inside exactly where every element they come to does. -/
theorem certificate_stays_inside (cert : Buffer) (certlen : Int) (hBuf : 1 ≤ buflen) :
    StaysInside cert certlen buflen ↔ KeyInside cert certlen ∧ NameInside cert certlen buflen := by
  constructor
  · rintro ⟨hKey, walk, hWalk, hName, -⟩
    refine ⟨ensures_x509ExtractRsa.mp hKey, ?_⟩
    rw [← hWalk 32767 (Nat.le_refl _)] at hName
    exact (ensures_x509ExtractCn (Nat.le_refl _)).mp hName
  · rintro ⟨hKey, hName⟩
    refine ⟨ensures_x509ExtractRsa.mpr hKey, _, fun rounds hRounds => x509ExtractCn_rounds hRounds,
      (ensures_x509ExtractCn (Nat.le_refl _)).mpr hName, fun buf => ?_⟩
    apply copies_of_short
    intro text hText
    rw [result_x509ExtractCn (Nat.le_refl _)] at hText
    exact x509ExtractCn_short hBuf hText

/-- A certificate with the key that an INTEGER of the given length ends. -/
def keyWith (length : UInt8) : Buffer :=
  .around [0x30, 0x1D, 0x30, 0x1B, 0xA0, 0x00, 0x02, 0x00, 0x30, 0x00, 0x30, 0x00, 0x30,
    0x00, 0x30, 0x00, 0x30, 0x0D, 0x30, 0x00, 0x03, 0x09, 0x00, 0x30, 0x06, 0x02, 0x01, 0x05, 0x02,
    length, 0x03] fun _ => 0

/-- A length that fits. -/
theorem certificate_stays_inside_fitting :
    KeyInside (keyWith 1) 31 ∧ NameInside (keyWith 1) 31 64 := by
  apply (certificate_stays_inside (keyWith 1) 31 (show (1 : Int) ≤ 64 by decide)).mp
  have hKey : (Walk.x509ExtractRsa (keyWith 1) 31).result = some ⟨⟨27, 1⟩, ⟨30, 1⟩⟩ := by
    decide +kernel
  have hName : x509ExtractCn (keyWith 1) 31 64 = none := by decide +kernel
  refine ⟨⟨by unfold Within; decide +kernel, fun key hSome => ?_⟩, _,
    fun rounds hRounds => x509ExtractCn_rounds hRounds,
    ⟨by unfold Within; decide +kernel, fun _ _ => trivial⟩, fun buf => ?_⟩
  · rw [hKey] at hSome
    cases hSome
    unfold OctetsInside
    decide
  · rw [result_x509ExtractCn (Nat.le_refl _), hName]
    exact copies_of_short buf fun _ hSome => nomatch hSome

/-- A certificate cut off behind the header of TBSCertificate is read past its end, and an
exponent is returned that is longer than the certificate. -/
theorem certificate_left :
    ¬ StaysInside (.around [0x30, 0x07, 0x30, 0x05] fun _ => 0) 4 64 ∧
      4 ∈ (Walk.x509ExtractRsa (.around [0x30, 0x07, 0x30, 0x05] fun _ => 0) 4).trace ∧
      x509ExtractRsa (keyWith 0x7F) 31 = some ⟨⟨27, 1⟩, ⟨30, 127⟩⟩ := by
  have hRead : 4 ∈ (Walk.x509ExtractRsa (.around [0x30, 0x07, 0x30, 0x05] fun _ => 0) 4).trace := by
    decide +kernel
  refine ⟨fun h => ?_, hRead, by decide +kernel⟩
  have hInside := h.key.1 4 hRead
  unfold Within at hInside
  omega

end Buffers

end Vmodem.Tls
