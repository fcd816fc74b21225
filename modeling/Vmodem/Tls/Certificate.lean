import Vmodem.Library.Der
import Vmodem.Tls.Asn1

/-! Certificates with an RSA key and their encoding. -/

namespace Vmodem.Tls

open Der (tlv)

/-- An element of a sequence. -/
structure Element where
  tag : UInt8
  content : List UInt8

def Element.encode (x : Element) : List UInt8 := tlv x.tag x.content

/-- An attribute of a name. The value of another attribute may be anything. -/
inductive Attribute where
  | commonName (type : UInt8) (text : List UInt8)
  | other (oid value : List UInt8) (h : oid ≠ cnOid)

namespace Attribute

def oid : Attribute → List UInt8
  | commonName .. => cnOid
  | other oid .. => oid

def value : Attribute → List UInt8
  | commonName type text => tlv type text
  | other _ value _ => value

def encode (x : Attribute) : List UInt8 := tlv 0x30 (tlv 0x06 x.oid ++ x.value)

def text? : Attribute → Option (List UInt8)
  | commonName _ text => some text
  | other .. => none

end Attribute

/-- A relative distinguished name: a set that is not empty. -/
structure Rdn where
  first : Attribute
  others : List Attribute

namespace Rdn

def attributes (x : Rdn) : List Attribute := x.first :: x.others

def encode (x : Rdn) : List UInt8 := tlv 0x31 (x.attributes.flatMap Attribute.encode)

end Rdn

/-- A certificate, with the contents of the fields nobody looks at as they are. -/
structure Certificate where
  version : Option (List UInt8)
  serialNumber : List UInt8
  signature : List UInt8
  issuer : List UInt8
  validity : List UInt8
  subject : List Rdn
  algorithm : List UInt8
  modulus : Nat
  publicExponent : Nat
  issuerUniqueID : Option (List UInt8)
  subjectUniqueID : Option (List UInt8)
  extensions : Option (List UInt8)
  signatureAlgorithm : List UInt8
  signatureValue : List UInt8

namespace Certificate

variable (c : Certificate)

/-- RSAPublicKey. -/
def rsaPublicKey : List UInt8 :=
  tlv 0x30 (tlv 0x02 (Der.integer c.modulus) ++ tlv 0x02 (Der.integer c.publicExponent))

/-- SubjectPublicKeyInfo: the key is a bit string without unused bits. -/
def subjectPublicKeyInfo : Element :=
  ⟨0x30, tlv 0x30 c.algorithm ++ tlv 0x03 (0 :: c.rsaPublicKey)⟩

/-- The optional fields behind the key. -/
def trailer : List Element :=
  c.issuerUniqueID.toList.map (⟨0x81, ·⟩) ++ c.subjectUniqueID.toList.map (⟨0x82, ·⟩) ++
    c.extensions.toList.map (⟨0xA3, ·⟩)

/-- The fields of TBSCertificate. -/
def fields : List Element :=
  c.version.toList.map (⟨0xA0, ·⟩) ++
    [⟨0x02, c.serialNumber⟩, ⟨0x30, c.signature⟩, ⟨0x30, c.issuer⟩, ⟨0x30, c.validity⟩,
      ⟨0x30, c.subject.flatMap Rdn.encode⟩, c.subjectPublicKeyInfo] ++ c.trailer

def encode : List UInt8 :=
  tlv 0x30 (tlv 0x30 (c.fields.flatMap Element.encode) ++
    (tlv 0x30 c.signatureAlgorithm ++ tlv 0x03 c.signatureValue))

/-- The first commonName of the Subject. -/
def commonName? : Option (List UInt8) :=
  (c.subject.flatMap Rdn.attributes).findSome? Attribute.text?

/-- The first commonName that stands first in its set. -/
def leadingName? : Option (List UInt8) := c.subject.findSome? fun x => x.first.text?

end Certificate

end Vmodem.Tls
