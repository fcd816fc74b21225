import Vmodem.Tls.Messages

/-! The walks of `x509_extract_rsa` to the RSA key of a certificate and of `x509_extract_cn`
to its name. Pointers are offsets from the start of the certificate; lengths are believed,
so they may lead out of it. -/

namespace Vmodem.Tls

/-- Tag, size of the header and length of the contents. -/
structure Asn1Header where
  tag : UInt8
  hdrlen : Int
  len : Int
  deriving Repr

/-- `asn1_tag_len` at a pointer; `none` for a negative result. -/
def asn1TagLen (cert : Buffer) (p avail : Int) : Option Asn1Header :=
  if avail < 2 then none
  else
    let first := (cert.mem (p + 1)).toNat
    if first < 0x80 then some ⟨cert.mem p, 2, first⟩
    else
      let nbytes := first % 0x80
      if 3 < nbytes ∨ avail < 2 + nbytes then none
      else
        let len := (List.range nbytes).foldl
          (fun len i => int16 (len * 256 + (cert.mem (p + 2 + i)).toNat)) 0
        if len < 0 then none else some ⟨cert.mem p, 2 + nbytes, len⟩

/-- `asn1_tag_len` up to an end, for a field with a given tag. -/
def asn1Expect (cert : Buffer) (tag : UInt8) (p stop : Int) : Option Asn1Header :=
  match asn1TagLen cert p (int16 (stop - p)) with
  | none => none
  | some h => if h.tag ≠ tag then none else some h

/-- The pointer behind a field. -/
def Asn1Header.skip (h : Asn1Header) (p : Int) : Int := p + int16 (h.hdrlen + h.len)

/-- Skip fields while there are some to skip and the end is not reached. -/
def skipFields (cert : Buffer) (stop : Int) : Nat → Int → Option (Nat × Int)
  | 0, p => some (0, p)
  | n + 1, p =>
      if p < stop then
        match asn1TagLen cert p (int16 (stop - p)) with
        | none => none
        | some h => skipFields cert stop n (h.skip p)
      else some (n + 1, p)

/-- Where an integer lies. -/
structure Magnitude where
  start : Int
  len : Nat
  deriving DecidableEq, Repr

/-- An INTEGER without its leading zero. -/
def magnitude (cert : Buffer) (h : Asn1Header) (p : Int) : Magnitude :=
  if 0 < h.len ∧ cert.mem (p + h.hdrlen) = 0 then ⟨p + h.hdrlen + 1, (h.len - 1).toNat⟩
  else ⟨p + h.hdrlen, h.len.toNat⟩

/-- Modulus and exponent. -/
structure RsaKey where
  n : Magnitude
  e : Magnitude
  deriving DecidableEq, Repr

/-- `x509_extract_rsa`. -/
def x509ExtractRsa (cert : Buffer) (certlen : Int) : Option RsaKey := do
  let outer ← asn1Expect cert 0x30 0 certlen
  let p := outer.hdrlen
  let tbsHeader ← asn1Expect cert 0x30 p certlen
  let tbs := p + tbsHeader.hdrlen
  let stop := tbs + tbsHeader.len
  -- The version is optional.
  let (skipped, p) ←
    if tbs < stop ∧ cert.mem tbs &&& 0xE0 = 0xA0 then
      (asn1TagLen cert tbs (int16 (stop - tbs))).map fun h => (1, h.skip tbs)
    else some (0, tbs)
  let (left, spki) ← skipFields cert stop (6 - skipped) p
  if left ≠ 0 ∨ stop ≤ spki then none
  else
    let spkiHeader ← asn1Expect cert 0x30 spki stop
    let p := spki + spkiHeader.hdrlen
    let algorithm ← asn1Expect cert 0x30 p stop
    let p := algorithm.skip p
    let bits ← asn1Expect cert 0x03 p stop
    let bitstr := p + bits.hdrlen
    if cert.mem bitstr ≠ 0 then none
    else
      let seq ← asn1Expect cert 0x30 (bitstr + 1) stop
      let p := bitstr + 1 + seq.hdrlen
      let n ← asn1Expect cert 0x02 p stop
      let e ← asn1Expect cert 0x02 (n.skip p) stop
      return ⟨magnitude cert n p, magnitude cert e (n.skip p)⟩

/-- `cn_oid`. -/
def cnOid : List UInt8 := [0x55, 0x04, 0x03]

/-- The value of a commonName as it is copied to the caller, whose buffer keeps a byte for
the NUL. -/
def cnValue (cert : Buffer) (p setEnd buflen : Int) : Option (List UInt8) :=
  (asn1TagLen cert p (int16 (setEnd - p))).map fun value =>
    cert.bytes (p + value.hdrlen) (if buflen ≤ value.len then buflen - 1 else value.len).toNat

/-- The loop over the sets of a Subject. Every round takes two bytes at least. -/
def findCn (cert : Buffer) (subjEnd buflen : Int) : Nat → Int → Option (List UInt8)
  | 0, _ => none
  | rounds + 1, p =>
      if p < subjEnd then
        match asn1Expect cert 0x31 p subjEnd with
        | none => none
        | some set =>
            let setEnd := p + set.hdrlen + set.len
            match asn1Expect cert 0x30 (p + set.hdrlen) setEnd with
            | none => findCn cert subjEnd buflen rounds setEnd
            | some seq =>
                let seqP := p + set.hdrlen + seq.hdrlen
                match asn1Expect cert 0x06 seqP setEnd with
                | none => findCn cert subjEnd buflen rounds setEnd
                | some oid =>
                    if oid.len = 3 ∧ cert.bytes (seqP + oid.hdrlen) 3 = cnOid then
                      cnValue cert (oid.skip seqP) setEnd buflen
                    else findCn cert subjEnd buflen rounds setEnd
      else none

/-- `x509_extract_cn`: the characters copied in front of the NUL; `none` is -1. -/
def x509ExtractCn (cert : Buffer) (certlen buflen : Int) : Option (List UInt8) := do
  let outer ← asn1Expect cert 0x30 0 certlen
  let p := outer.hdrlen
  let tbsHeader ← asn1Expect cert 0x30 p certlen
  let tbs := p + tbsHeader.hdrlen
  let stop := tbs + tbsHeader.len
  let (skipped, p) ←
    if tbs < stop ∧ cert.mem tbs &&& 0xE0 = 0xA0 then
      (asn1TagLen cert tbs (int16 (stop - tbs))).map fun h => (1, h.skip tbs)
    else some (0, tbs)
  let (left, p) ← skipFields cert stop (5 - skipped) p
  if left ≠ 0 ∨ stop ≤ p then none
  else
    let subject ← asn1Expect cert 0x30 p stop
    let names := p + subject.hdrlen
    let subjEnd := names + subject.len
    findCn cert subjEnd buflen (subjEnd - names).toNat names

end Vmodem.Tls
