import Mathlib.Data.Nat.Digits.Lemmas
import Mathlib.Data.Nat.ModEq
import Mathlib.Data.List.TakeWhile

/-! Decimal numerals as byte strings. A numeral is read digit by digit into a
variable that may be too narrow for its number. -/

namespace Decimal

def isDigit (b : UInt8) : Bool := 0x30 ≤ b && b ≤ 0x39

/-- The number a digit stands for. -/
def value (b : UInt8) : Nat := b.toNat - 0x30

/-- The number a string of digits denotes. -/
def number (s : List UInt8) : Nat := Nat.ofDigits 10 (s.reverse.map value)

/-- A non-empty string of digits. -/
structure Run (s : List UInt8) : Prop where
  nonempty : s ≠ []
  digits : ∀ b ∈ s, isDigit b

/-- A run of digits is a nonempty list of digits. -/
theorem run_iff {s : List UInt8} : Run s ↔ s ≠ [] ∧ ∀ b ∈ s, isDigit b = true :=
  ⟨fun h => ⟨h.nonempty, h.digits⟩, fun h => ⟨h.1, h.2⟩⟩

instance (s : List UInt8) : Decidable (Run s) :=
  decidable_of_iff ((!s.isEmpty && s.all isDigit) = true) (by simp [run_iff])

/-- No digit follows. -/
def Ends (rest : List UInt8) : Prop := ∀ b ∈ rest.head?, isDigit b = false

@[simp] theorem number_nil : number [] = 0 := rfl

/-- Digits behind a number shift it left by their count, and their own number is added.
-/
theorem number_append (s t : List UInt8) :
    number (s ++ t) = number s * 10 ^ t.length + number t := by
  simp only [number, List.reverse_append, List.map_append, Nat.ofDigits_append,
    List.length_map, List.length_reverse]
  ring

/-- The first digit weighs ten to the number of digits behind it. -/
theorem number_cons (b : UInt8) (s : List UInt8) :
    number (b :: s) = value b * 10 ^ s.length + number s := by
  have h := number_append [b] s
  simpa [number] using h

theorem value_lt {b : UInt8} (h : isDigit b) : value b < 10 := by
  simp only [isDigit, Bool.and_eq_true, decide_eq_true_eq, UInt8.le_iff_toNat_le,
    UInt8.reduceToNat] at h
  simp only [value]
  omega

/-- A list of digits is worth less than ten to its length. -/
theorem number_lt {s : List UInt8} (h : ∀ b ∈ s, isDigit b) : number s < 10 ^ s.length := by
  have hLt := Nat.ofDigits_lt_base_pow_length (b := 10) (l := s.reverse.map value) (by norm_num)
    (by
      intro d hd
      obtain ⟨b, hb, rfl⟩ := List.mem_map.mp hd
      exact value_lt (h b (List.mem_reverse.mp hb)))
  simpa [number] using hLt

/-- Reading digits into a variable of `m` values leaves the number modulo `m`. -/
theorem foldl_number {R : Type*} {toNat : R → Nat} {step : R → UInt8 → R} {m : Nat}
    (hStep : ∀ v b, isDigit b → toNat (step v b) ≡ toNat v * 10 + value b [MOD m])
    {s : List UInt8} (hDigits : ∀ b ∈ s, isDigit b) (v : R) :
    toNat (s.foldl step v) ≡ toNat v * 10 ^ s.length + number s [MOD m] := by
  induction s generalizing v with
  | nil => simp [Nat.ModEq]
  | cons b s ih =>
      have hHead : isDigit b := hDigits b List.mem_cons_self
      have hTail : ∀ c ∈ s, isDigit c := fun c hc => hDigits c (List.mem_cons_of_mem b hc)
      calc toNat ((b :: s).foldl step v)
          ≡ toNat (step v b) * 10 ^ s.length + number s [MOD m] := ih hTail (step v b)
        _ ≡ (toNat v * 10 + value b) * 10 ^ s.length + number s [MOD m] :=
            ((hStep v b hHead).mul_right _).add_right _
        _ = toNat v * 10 ^ (b :: s).length + number (b :: s) := by
            rw [number_cons, List.length_cons, pow_succ]
            ring

/-- Where the text stops being digits, the digits in front are all that is taken. -/
theorem takeWhile_digits {s rest : List UInt8} (hDigits : ∀ b ∈ s, isDigit b)
    (hEnds : Ends rest) : (s ++ rest).takeWhile isDigit = s := by
  rw [List.takeWhile_append_of_pos hDigits]
  cases rest with
  | nil => simp
  | cons b rest => simp [hEnds b rfl]

/-- Where the text stops being digits, dropping the digits leaves just the rest. -/
theorem dropWhile_digits {s rest : List UInt8} (hDigits : ∀ b ∈ s, isDigit b)
    (hEnds : Ends rest) : (s ++ rest).dropWhile isDigit = rest := by
  rw [List.dropWhile_append_of_pos hDigits]
  cases rest with
  | nil => simp
  | cons b rest => simp [hEnds b rfl]

/-- What is left after all digits are dropped does not begin with a digit. -/
theorem ends_dropWhile (s : List UInt8) : Ends (s.dropWhile isDigit) := by
  intro b hb
  have h := List.head?_dropWhile_not isDigit s
  rw [Option.mem_def.mp hb] at h
  simpa using h

end Decimal
