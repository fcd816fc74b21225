import Mathlib.NumberTheory.LucasLehmer
import Vmodem.Library.Rsa
import Vmodem.Properties.ModularPower

/-! The owner of the server's key gets back what `rsa_encrypt` encrypted. -/

namespace Vmodem.Tls

open BoundedLoop Radix

section RoundTrip

variable {key : Rsa.Key} {rand : Rand} {n e msg : List UInt8}

/-- The bytes of a public key, the modulus without zero bytes in front. -/
structure PublicBytes (key : Rsa.Key) (n e : List UInt8) : Prop where
  modulus : ofOctets n = key.n
  exponent : ofOctets e = key.e
  top : 256 ^ (n.length - 1) ≤ key.n

/-- The zero byte in front makes the block a number below the modulus. -/
theorem pkcs1_lt (hKey : PublicBytes key n e) (hRoom : msg.length + 11 ≤ n.length) :
    ofOctets (pkcs1 rand n.length msg) < key.n := by
  have hLength : (pkcs1 rand n.length msg).length = n.length := length_pkcs1 hRoom
  obtain ⟨rest, hRest⟩ : ∃ rest, pkcs1 rand n.length msg = 0x00 :: rest := ⟨_, rfl⟩
  rw [hRest, List.length_cons] at hLength
  calc ofOctets (pkcs1 rand n.length msg) = ofOctets rest := by rw [hRest, ofOctets_zero]
    _ < 256 ^ rest.length := ofOctets_lt rest
    _ = 256 ^ (n.length - 1) := by rw [← hLength, Nat.add_sub_cancel]
    _ ≤ key.n := hKey.top

/-- A modulus with room for the padding is not below two, as its first octet is not
zero. -/
theorem two_le_modulus (hKey : PublicBytes key n e) (hRoom : msg.length + 11 ≤ n.length) :
    2 ≤ ofOctets n := by
  have hTop := hKey.top
  have hPow : 256 ^ 1 ≤ 256 ^ (n.length - 1) := Nat.pow_le_pow_right (by decide) (by omega)
  rw [hKey.modulus]
  omega

/-- The private key takes the message out of the power of its block. -/
theorem decrypt_power (hKey : PublicBytes key n e) (hRoom : msg.length + 11 ≤ n.length) :
    key.decrypt n.length (toOctets n.length (ofOctets (pkcs1 rand n.length msg) ^ ofOctets e %
      ofOctets n)) =
      some msg := by
  have hTwo := two_le_modulus hKey hRoom
  have hOut : ofOctets (pkcs1 rand n.length msg) ^ ofOctets e % ofOctets n < 256 ^ n.length := by
    calc _ < ofOctets n := Nat.mod_lt _ (by omega)
      _ < 256 ^ n.length := ofOctets_lt n
  rw [Rsa.Key.decrypt, ofOctets_toOctets hOut, hKey.modulus, hKey.exponent,
    Rsa.decrypt_encrypt key _ (pkcs1_lt hKey hRoom)]
  have hBlock := toOctets_ofOctets (pkcs1 rand n.length msg)
  rw [length_pkcs1 hRoom] at hBlock
  obtain ⟨padding, -, hNonzero, hForm⟩ := pkcs1_form rand n msg
  rw [hBlock, hForm]
  exact Rsa.unpad_block hNonzero

end RoundTrip

/-- What `rsa_encrypt` makes of a message is decrypted with the private key to that message. -/
theorem rsa_round_trip (key : Rsa.Key) (rand : Rand) (n e msg : List UInt8)
    (hKey : PublicBytes key n e) (hN : n.length ≤ 2046) (hE : e.length ≤ 2046)
    (hRoom : msg.length + 11 ≤ n.length) :
    ∃ out, Settles (fun fuel => rsaEncrypt fuel rand n e msg) (some out) ∧ out.length = n.length ∧
      key.decrypt n.length out = some msg :=
  ⟨_, rsaEncrypt_spec hN hE (two_le_modulus hKey hRoom) hRoom, length_toOctets ..,
    decrypt_power hKey hRoom⟩

/-- A key of 66 bytes, with the Mersenne prime of 521 bits. -/
def mersenneKey : Rsa.Key where
  p := 2 ^ 521 - 1
  q := 3
  e := 65537
  d := (1 + (2 ^ 521 - 2) * 2 * 57377) / 65537
  prime_p := lucas_lehmer_sufficiency 521 (by decide) (by norm_num)
  prime_q := Nat.prime_three
  distinct := by decide +kernel
  exponents := by decide +kernel

def mersenneModulus : List UInt8 := 0x05 :: (List.replicate 64 0xFF ++ [0xFD])

/-- The key of two Mersenne primes with the exponent 65537. -/
theorem mersenne_public : PublicBytes mersenneKey mersenneModulus [0x01, 0x00, 0x01] where
  modulus := by decide +kernel
  exponent := by decide +kernel
  top := by decide +kernel

/-- A pre-master secret. -/
theorem rsa_round_trip_secret :
    ∃ out, Settles (fun fuel => rsaEncrypt fuel .ones mersenneModulus [0x01, 0x00, 0x01]
      (0x03 :: 0x03 :: List.replicate 46 0xAB)) (some out) ∧ out.length = mersenneModulus.length ∧
      mersenneKey.decrypt mersenneModulus.length out =
        some (0x03 :: 0x03 :: List.replicate 46 0xAB) :=
  rsa_round_trip mersenneKey .ones mersenneModulus [0x01, 0x00, 0x01] _ mersenne_public
    (by decide) (by decide) (by decide)

end Vmodem.Tls
