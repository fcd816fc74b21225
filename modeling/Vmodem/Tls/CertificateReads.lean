import Vmodem.Library.Traced
import Vmodem.Tls.Asn1

/-! The walks over a certificate with the octets they read, in the order of the source. -/

namespace Vmodem.Tls

/-- A walk; the trace holds the offsets it read. -/
abbrev Walk := Traced Int

namespace Walk

open Traced (fail attempt)

variable (cert : Buffer)

/-- One octet. -/
def octet (p : Int) : Walk UInt8 := ⟨some (cert.mem p), [p]⟩

/-- Octets in a row. -/
def octets (p : Int) (count : Nat) : Walk (List UInt8) :=
  ⟨some (cert.bytes p count), (List.range count).map fun k : Nat => p + k⟩

/-- `asn1_tag_len`. -/
def asn1TagLen (p avail : Int) : Walk Asn1Header :=
  if avail < 2 then fail
  else do
    let tag ← octet cert p
    let first ← octet cert (p + 1)
    if first.toNat < 0x80 then return ⟨tag, 2, first.toNat⟩
    else
      let nbytes := first.toNat % 0x80
      if 3 < nbytes ∨ avail < 2 + nbytes then fail
      else
        let bs ← octets cert (p + 2) nbytes
        let len := bs.foldl (fun len b => int16 (len * 256 + b.toNat)) 0
        if len < 0 then fail else return ⟨tag, 2 + nbytes, len⟩

/-- `asn1_tag_len` up to an end, for a field with a given tag. -/
def asn1Expect (tag : UInt8) (p stop : Int) : Walk Asn1Header := do
  let h ← asn1TagLen cert p (int16 (stop - p))
  if h.tag ≠ tag then fail else return h

/-- The version, if there is one. -/
def version (tbs stop : Int) : Walk (Nat × Int) :=
  if tbs < stop then do
    let first ← octet cert tbs
    if first &&& 0xE0 = 0xA0 then
      let h ← asn1TagLen cert tbs (int16 (stop - tbs))
      return (1, h.skip tbs)
    else return (0, tbs)
  else return (0, tbs)

/-- The loop over the fields. -/
def skipFields (stop : Int) : Nat → Int → Walk (Nat × Int)
  | 0, p => return (0, p)
  | n + 1, p =>
      if p < stop then do
        let h ← asn1TagLen cert p (int16 (stop - p))
        skipFields stop n (h.skip p)
      else return (n + 1, p)

/-- An INTEGER without its leading zero. -/
def magnitude (h : Asn1Header) (p : Int) : Walk Magnitude :=
  if 0 < h.len then do
    let first ← octet cert (p + h.hdrlen)
    if first = 0 then return ⟨p + h.hdrlen + 1, (h.len - 1).toNat⟩
    else return ⟨p + h.hdrlen, h.len.toNat⟩
  else return ⟨p + h.hdrlen, h.len.toNat⟩

/-- `x509_extract_rsa`. -/
def x509ExtractRsa (certlen : Int) : Walk RsaKey := do
  let outer ← asn1Expect cert 0x30 0 certlen
  let p := outer.hdrlen
  let tbsHeader ← asn1Expect cert 0x30 p certlen
  let tbs := p + tbsHeader.hdrlen
  let stop := tbs + tbsHeader.len
  let (skipped, p) ← version cert tbs stop
  let (left, spki) ← skipFields cert stop (6 - skipped) p
  if left ≠ 0 ∨ stop ≤ spki then fail
  else
    let spkiHeader ← asn1Expect cert 0x30 spki stop
    let p := spki + spkiHeader.hdrlen
    let algorithm ← asn1Expect cert 0x30 p stop
    let p := algorithm.skip p
    let bits ← asn1Expect cert 0x03 p stop
    let bitstr := p + bits.hdrlen
    let unused ← octet cert bitstr
    if unused ≠ 0 then fail
    else
      let seq ← asn1Expect cert 0x30 (bitstr + 1) stop
      let p := bitstr + 1 + seq.hdrlen
      let n ← asn1Expect cert 0x02 p stop
      let nOut ← magnitude cert n p
      let e ← asn1Expect cert 0x02 (n.skip p) stop
      let eOut ← magnitude cert e (n.skip p)
      return ⟨nOut, eOut⟩

/-- The value of a commonName as it is copied to the caller. -/
def cnValue (p setEnd buflen : Int) : Walk (List UInt8) := do
  let value ← asn1TagLen cert p (int16 (setEnd - p))
  octets cert (p + value.hdrlen) (if buflen ≤ value.len then buflen - 1 else value.len).toNat

/-- The loop over the sets of a Subject. -/
def findCn (subjEnd buflen : Int) : Nat → Int → Walk (List UInt8)
  | 0, _ => fail
  | rounds + 1, p =>
      if p < subjEnd then do
        let set ← asn1Expect cert 0x31 p subjEnd
        let setEnd := p + set.hdrlen + set.len
        match ← attempt (asn1Expect cert 0x30 (p + set.hdrlen) setEnd) with
        | none => findCn subjEnd buflen rounds setEnd
        | some seq =>
            let seqP := p + set.hdrlen + seq.hdrlen
            match ← attempt (asn1Expect cert 0x06 seqP setEnd) with
            | none => findCn subjEnd buflen rounds setEnd
            | some oid =>
                if oid.len = 3 then
                  let bs ← octets cert (seqP + oid.hdrlen) 3
                  if bs = cnOid then cnValue cert (oid.skip seqP) setEnd buflen
                  else findCn subjEnd buflen rounds setEnd
                else findCn subjEnd buflen rounds setEnd
      else fail

/-- `x509_extract_cn`, with a bound on the rounds of its loop. -/
def x509ExtractCn (certlen buflen : Int) (rounds : Nat) : Walk (List UInt8) := do
  let outer ← asn1Expect cert 0x30 0 certlen
  let p := outer.hdrlen
  let tbsHeader ← asn1Expect cert 0x30 p certlen
  let tbs := p + tbsHeader.hdrlen
  let stop := tbs + tbsHeader.len
  let (skipped, p) ← version cert tbs stop
  let (left, p) ← skipFields cert stop (5 - skipped) p
  if left ≠ 0 ∨ stop ≤ p then fail
  else
    let subject ← asn1Expect cert 0x30 p stop
    let names := p + subject.hdrlen
    findCn cert (names + subject.len) buflen rounds names

/-- The caller's buffer after `x509_extract_cn`: the characters and a NUL, on success. -/
def copyCn (buf : Nat → UInt8) : Option (List UInt8) → Nat → UInt8
  | none => buf
  | some text => fun i => if i < text.length then text.getD i 0 else if i =
      text.length then 0 else buf i

end Walk

section Results

variable {cert : Buffer} {p avail tbs stop certlen subjEnd buflen : Int} {tag : UInt8}
  {n rounds : Nat}

theorem ite_bind {A B : Type} {c : Prop} [Decidable c] (x y : Option A) (f : A → Option B) :
    (if c then x else y).bind f = if c then x.bind f else y.bind f := by
  split_ifs <;> rfl

/-- The traced header parser computes what the plain one does. -/
theorem result_asn1TagLen : (Walk.asn1TagLen cert p avail).result = asn1TagLen cert p avail := by
  unfold Walk.asn1TagLen asn1TagLen
  simp only [Traced.result_ite, Traced.result_bind, Traced.result_fail,
    Traced.result_pure, Walk.octet,
    Walk.octets, Option.bind_some, Buffer.bytes, List.foldl_map]

/-- The traced check of a tag computes what the plain one does. -/
theorem result_asn1Expect :
    (Walk.asn1Expect cert tag p stop).result = asn1Expect cert tag p stop := by
  unfold Walk.asn1Expect asn1Expect
  simp only [Traced.result_bind, result_asn1TagLen]
  cases asn1TagLen cert p (int16 (stop - p)) with
  | none => rfl
  | some h => simp

/-- The result of the optional version field: present and skipped, or absent. -/
theorem result_version : (Walk.version cert tbs stop).result =
    if tbs < stop ∧ cert.mem tbs &&& 0xE0 = 0xA0 then
      (asn1TagLen cert tbs (int16 (stop - tbs))).map fun h => (1, h.skip tbs)
    else some (0, tbs) := by
  unfold Walk.version
  simp only [Traced.result_ite, Traced.result_bind, Traced.result_pure, Walk.octet,
    result_asn1TagLen,
    Option.bind_some, ite_and, Option.map_eq_bind]
  rfl

/-- The traced walk over the fields computes what the plain one does. -/
theorem result_skipFields : (Walk.skipFields cert stop n p).result = skipFields cert stop n p := by
  induction n generalizing p with
  | zero => rfl
  | succ n ih =>
      unfold Walk.skipFields skipFields
      simp only [Traced.result_ite, Traced.result_bind, Traced.result_pure, result_asn1TagLen, ih]
      split_ifs
      · cases asn1TagLen cert p (int16 (stop - p)) <;> rfl
      · rfl

/-- Stripping the leading zero of an INTEGER computes the same place, traced or not. -/
theorem result_magnitude (h : Asn1Header) :
    (Walk.magnitude cert h p).result = some (magnitude cert h p) := by
  unfold Walk.magnitude magnitude
  simp only [Traced.result_ite, Traced.result_bind, Traced.result_pure, Walk.octet,
    Option.bind_some, ite_and]
  split_ifs <;> rfl

/-- The traced walk to the key gives what the walk does. -/
theorem result_x509ExtractRsa :
    (Walk.x509ExtractRsa cert certlen).result = x509ExtractRsa cert certlen := by
  unfold Walk.x509ExtractRsa x509ExtractRsa
  simp only [Traced.result_ite, Traced.result_bind, Traced.result_fail,
    Traced.result_pure, Walk.octet,
    result_asn1Expect, result_version, result_skipFields, result_magnitude, Option.bind_some,
    Option.bind_eq_bind]
  congr 1
  funext outer
  congr 1
  funext tbsHeader
  exact ite_bind ..

/-- The traced copy of a name computes what the plain one does. -/
theorem result_cnValue : (Walk.cnValue cert p stop buflen).result = cnValue cert p stop buflen := by
  unfold Walk.cnValue cnValue
  simp only [Traced.result_bind, result_asn1TagLen, Walk.octets]
  cases asn1TagLen cert p (int16 (stop - p)) <;> rfl

/-- The traced search for a common name computes what the plain one does. The induction
is on the rounds. -/
theorem result_findCn : (Walk.findCn cert subjEnd buflen rounds p).result =
    findCn cert subjEnd buflen rounds p := by
  induction rounds generalizing p with
  | zero => rfl
  | succ rounds ih =>
      unfold Walk.findCn findCn
      simp only [Traced.result_ite, Traced.result_bind, Traced.result_fail, Traced.result_attempt,
        result_asn1Expect, Option.bind_some]
      split_ifs
      · cases asn1Expect cert 0x31 p subjEnd with
        | none => rfl
        | some set =>
            simp only [Option.bind_some]
            cases asn1Expect cert 0x30 (p + set.hdrlen) (p + set.hdrlen + set.len) with
            | none => exact ih
            | some seq =>
                simp only [Traced.result_bind, Traced.result_attempt, result_asn1Expect,
                  Option.bind_some]
                cases asn1Expect cert 0x06 (p + set.hdrlen + seq.hdrlen) (p + set.hdrlen + set.len)
                  with
                | none => exact ih
                | some oid =>
                    simp only [Traced.result_ite, Traced.result_bind, Walk.octets, Option.bind_some,
                      result_cnValue, ih, ite_and]
      · rfl

end Results

end Vmodem.Tls
