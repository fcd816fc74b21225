import Mathlib.Data.List.Basic

/-! C strings: bytes without a NUL, and the arrays that hold them in front of a
terminator. -/

/-- A C string, without its terminator. -/
structure CString where
  bytes : List UInt8
  noNul : 0 ∉ bytes

namespace CString

/-- The array holds the text with a terminator behind it. -/
structure Holds (array : Nat → UInt8) (text : List UInt8) : Prop where
  chars : ∀ k (h : k < text.length), array k = text[k]
  terminated : array text.length = 0

variable {array : Nat → UInt8} {text text' : List UInt8}

/-- An array holds one string at most. -/
theorem Holds.unique (h : Holds array text) (h' : Holds array text') (hNul : 0 ∉ text)
    (hNul' : 0 ∉ text') : text = text' := by
  have hLength : ∀ {s t : List UInt8}, Holds array s → Holds array t → 0 ∉ s →
      ¬ t.length < s.length := by
    intro s t hs ht hZero hLt
    have hEnd : array t.length = s[t.length] := hs.chars _ hLt
    rw [ht.terminated] at hEnd
    exact hZero (hEnd ▸ List.getElem_mem hLt)
  have hSame : text.length = text'.length := by
    have := hLength h h' hNul
    have := hLength h' h hNul'
    omega
  apply List.ext_getElem hSame
  intro k hk hk'
  rw [← h.chars k hk, ← h'.chars k hk']

end CString
