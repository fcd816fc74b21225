import Mathlib.Data.Nat.Digits.Lemmas
import Mathlib.Tactic.Common

/-! The distinguished encoding of tagged values: a tag, the length in as few octets as
possible, the contents. -/

namespace Der

/-- A number in base 256, the high octet first, without leading zeros. -/
def octets (n : Nat) : List UInt8 := ((Nat.digits 256 n).map UInt8.ofNat).reverse

/-- A length below 128 is its own octet; a longer one says how many octets it takes. -/
def lengthOctets (n : Nat) : List UInt8 :=
  if n < 128 then [UInt8.ofNat n] else UInt8.ofNat (128 + (octets n).length) :: octets n

/-- An element with a tag of one octet. -/
def tlv (tag : UInt8) (content : List UInt8) : List UInt8 :=
  tag :: (lengthOctets content.length ++ content)

/-- The contents of a non-negative INTEGER: its octets, behind a zero where the first of them
would be read as a sign. -/
def integer (n : Nat) : List UInt8 :=
  match octets n with
  | [] => [0]
  | b :: bs => if 128 ≤ b then 0 :: b :: bs else b :: bs

/-- The octets in front of the contents. -/
def headerSize (n : Nat) : Nat := 1 + (lengthOctets n).length

/-- The bytes lie in memory from an address on. -/
def Placed (mem : Int → UInt8) (p : Int) (bs : List UInt8) : Prop :=
  ∀ k (h : k < bs.length), mem (p + k) = bs[k]

section Octets

variable {n : Nat}

theorem octets_zero : octets 0 = [] := by
  simp [octets]

/-- A nonzero number below 256 is a single octet. -/
theorem octets_low (hPos : 0 < n) (h : n < 256) : octets n = [UInt8.ofNat n] := by
  rw [octets, Nat.digits_of_lt 256 n (Nat.pos_iff_ne_zero.mp hPos) h]
  rfl

/-- From 256 to 65535 a number is two octets, the high one first. -/
theorem octets_high (hLow : 256 ≤ n) (hHigh : n < 65536) :
    octets n = [UInt8.ofNat (n / 256), UInt8.ofNat (n % 256)] := by
  have hTop : n / 256 ≠ 0 := by omega
  rw [octets, Nat.digits_def' (by omega) (by omega), Nat.digits_of_lt 256 _ hTop (by omega)]
  rfl

theorem lengthOctets_short (h : n < 128) : lengthOctets n = [UInt8.ofNat n] := if_pos h

/-- From 128 on the first octet counts the octets of the length: here one. -/
theorem lengthOctets_one (hLow : 128 ≤ n) (hHigh : n < 256) :
    lengthOctets n = [0x81, UInt8.ofNat n] := by
  rw [lengthOctets, if_neg (by omega), octets_low (by omega) hHigh]
  rfl

/-- A length of two octets behind their count, the high one first. -/
theorem lengthOctets_two (hLow : 256 ≤ n) (hHigh : n < 65536) :
    lengthOctets n = [0x82, UInt8.ofNat (n / 256), UInt8.ofNat (n % 256)] := by
  rw [lengthOctets, if_neg (by omega), octets_high hLow hHigh]
  rfl

/-- The first octet of a number is not zero. -/
theorem octets_head {b : UInt8} {bs : List UInt8} (h : octets n = b :: bs) : b ≠ 0 := by
  rintro rfl
  have hLast : (Nat.digits 256 n).getLast? = some 0 := by
    have hHead : (octets n).head? = some 0 := by
      rw [h]
      rfl
    rw [octets, List.head?_reverse, List.getLast?_map, Option.map_eq_some_iff] at hHead
    obtain ⟨d, hDigit, hZero⟩ := hHead
    have hLt : d < 256 := Nat.digits_lt_base (by omega) (List.mem_of_getLast? hDigit)
    have hSame : d % 256 = 0 := by
      have := congrArg UInt8.toNat hZero
      simpa using this
    rw [Nat.mod_eq_of_lt hLt] at hSame
    rw [hDigit, hSame]
  have hZero : n ≠ 0 := by
    rintro rfl
    rw [octets_zero] at h
    cases h
  have hNil : Nat.digits 256 n ≠ [] := Nat.digits_ne_nil_iff_ne_zero.mpr hZero
  rw [List.getLast?_eq_getLast_of_ne_nil hNil, Option.some.injEq] at hLast
  exact Nat.getLast_digit_ne_zero 256 hZero hLast

/-- Without its leading zero, an INTEGER is the octets of its number. -/
theorem integer_cases (n : Nat) : integer n = 0 :: octets n ∨
    (integer n = octets n ∧ ∃ b bs, octets n = b :: bs ∧ b ≠ 0) := by
  unfold integer
  cases h : octets n with
  | nil => exact .inl rfl
  | cons b bs =>
      dsimp only
      split_ifs
      · exact .inl rfl
      · exact .inr ⟨rfl, b, bs, rfl, octets_head h⟩

/-- An INTEGER has at least one octet: zero is a single zero octet. -/
theorem integer_length_pos (n : Nat) : 0 < (integer n).length := by
  rcases integer_cases n with hZero | ⟨hSame, b, bs, hOctets, -⟩
  · rw [hZero]
    exact Nat.succ_pos _
  · rw [hSame, hOctets]
    exact Nat.succ_pos _

end Octets

section Memory

variable {mem : Int → UInt8} {p : Int} {xs ys : List UInt8}

/-- An element is as long as its header and its content together. -/
theorem length_tlv (tag : UInt8) (content : List UInt8) :
    (tlv tag content).length = headerSize content.length + content.length := by
  rw [tlv, List.length_cons, List.length_append, headerSize]
  omega

/-- A header is at least a tag and one length octet. -/
theorem two_le_headerSize (n : Nat) : 2 ≤ headerSize n := by
  have hSome : 1 ≤ (lengthOctets n).length := by
    rw [lengthOctets]
    split_ifs <;> simp
  rw [headerSize]
  omega

/-- Two lists lie one behind the other exactly when each lies at its own place. -/
theorem placed_append :
    Placed mem p (xs ++ ys) ↔ Placed mem p xs ∧ Placed mem (p + xs.length) ys := by
  constructor
  · intro h
    refine ⟨fun k hk => ?_, fun k hk => ?_⟩
    · rw [h k (by rw [List.length_append]; omega), List.getElem_append_left hk]
    · have hHere := h (xs.length + k) (by rw [List.length_append]; omega)
      rw [List.getElem_append_right (by omega)] at hHere
      simpa [Int.add_assoc] using hHere
  · rintro ⟨hLeft, hRight⟩ k hk
    rw [List.length_append] at hk
    by_cases hFirst : k < xs.length
    · rw [List.getElem_append_left hFirst, hLeft k hFirst]
    · rw [List.getElem_append_right (by omega), ← hRight (k - xs.length) (by omega)]
      congr 1
      omega

theorem Placed.left (h : Placed mem p (xs ++ ys)) : Placed mem p xs := (placed_append.mp h).1

theorem Placed.right (h : Placed mem p (xs ++ ys)) : Placed mem (p + xs.length) ys :=
  (placed_append.mp h).2

theorem Placed.head {b : UInt8} (h : Placed mem p (b :: xs)) : mem p = b := by
  simpa using h 0 (Nat.succ_pos _)

/-- The contents lie behind the header. -/
theorem Placed.content {tag : UInt8} (h : Placed mem p (tlv tag xs)) :
    Placed mem (p + headerSize xs.length) xs := by
  have hSplit : tlv tag xs = (tag :: lengthOctets xs.length) ++ xs := rfl
  rw [hSplit] at h
  have hRight := h.right
  rwa [List.length_cons, Nat.add_comm] at hRight

end Memory

end Der
