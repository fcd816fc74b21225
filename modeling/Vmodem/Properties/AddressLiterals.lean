import Vmodem.Client.Address
import Vmodem.Tls.Words

/-! Dotted quads accepted by `inet_addr`. The range check comes after an octet has wrapped
around in 32 bits. -/

namespace Vmodem

open Decimal

/-- Four runs of digits with a dot between them and nothing around them. -/
structure Quad (s : CString) (runs : List (List UInt8)) : Prop where
  four : runs.length = 4
  digits : ∀ r ∈ runs, Run r
  joined : s.bytes = [0x2E].intercalate runs

/-- What the string says: four numbers of a byte each, not all of them 255, the first one
in the least significant byte. -/
def Denotes (s : CString) (v : UInt32) : Prop :=
  ∃ runs, Quad s runs ∧ (∀ r ∈ runs, number r ≤ 255) ∧ (¬ ∀ r ∈ runs, number r = 255) ∧
    v.toNat = Nat.ofDigits 256 (runs.map number)

/-- `inet_addr` accepts the string just when it is an address, with that value. -/
def ExactOn (s : CString) : Prop :=
  ∀ v, inetAddr s = v ∧ v ≠ inaddrNone ↔ Denotes s v

/-- What is left of a number in an `unsigned long`. -/
def residue (r : List UInt8) : Nat := number r % 2 ^ 32

/-! The digit loop. -/

/-- One digit read into `val`. -/
def inetStep (val : UInt32) (b : UInt8) : UInt32 := val * 10 + (b.toUInt32 - 0x30)

/-- The inner loop of `inet_addr` reads all the digits there are and stops behind them.
-/
theorem inetDigits_eq (p : List UInt8) (val : UInt32) (digits : Nat) :
    inetDigits p val digits =
      ((p.takeWhile Decimal.isDigit).foldl inetStep val,
        digits + (p.takeWhile Decimal.isDigit).length,
        p.dropWhile Decimal.isDigit) := by
  induction p generalizing val digits with
  | nil => rfl
  | cons b p ih =>
      by_cases hDigit : 0x30 ≤ b ∧ b ≤ 0x39
      · have hb : Decimal.isDigit b = true := by simpa [Decimal.isDigit] using hDigit
        rw [inetDigits, if_pos hDigit, ih, List.takeWhile_cons, if_pos hb, List.dropWhile_cons,
          if_pos hb, List.foldl_cons, List.length_cons, Nat.add_assoc, Nat.add_comm 1]
        rfl
      · have hb : Decimal.isDigit b = false := by simpa [Decimal.isDigit] using hDigit
        rw [inetDigits, if_neg hDigit, List.takeWhile_cons, List.dropWhile_cons]
        simp [hb]

/-- A digit is taken into the value modulo 2^32. -/
theorem inetStep_toNat (val : UInt32) {b : UInt8} (hb : Decimal.isDigit b) :
    (inetStep val b).toNat ≡ val.toNat * 10 + value b [MOD 2 ^ 32] := by
  simp only [Decimal.isDigit, Bool.and_eq_true, decide_eq_true_eq, UInt8.le_iff_toNat_le,
    UInt8.reduceToNat] at hb
  have hSub : (b.toUInt32 - 0x30).toNat = value b := by
    rw [UInt32.toNat_sub_of_le]
    · simp [value]
    · rw [UInt32.le_iff_toNat_le]
      simpa using hb.1
  rw [inetStep, UInt32.toNat_add, UInt32.toNat_mul, hSub]
  simp [Nat.ModEq]

/-- So a run of digits leaves its number modulo 2^32, however long it is. -/
theorem foldl_inetStep {r : List UInt8} (hDigits : ∀ b ∈ r, Decimal.isDigit b) :
    (r.foldl inetStep 0).toNat = residue r := by
  have h : UInt32.toNat (r.foldl inetStep 0) ≡ UInt32.toNat 0 * 10 ^ r.length +
    number r [MOD 2 ^ 32] :=
    foldl_number (fun v b hb => inetStep_toNat v hb) hDigits 0
  have hLt : (r.foldl inetStep 0).toNat < 2 ^ 32 := UInt32.toNat_lt _
  rw [residue, ← Nat.mod_eq_of_lt hLt]
  simpa [Nat.ModEq] using h

/-! The loop over the octets. -/

/-- An octet that is accepted, and what the loop does behind it. -/
theorem inetOctets_run {r p : List UInt8} (hRun : Run r) (hEnds : Ends p)
    (hByte : residue r ≤ 255) (i : Nat) :
    inetOctets (i + 1) (r ++ p) =
      (inetDot i p).bind fun p => (inetOctets i p).map fun (octets, p) =>
        (r.foldl inetStep 0 :: octets, p) := by
  have hLength : r.length ≠ 0 := fun h => hRun.nonempty (List.length_eq_zero_iff.mp h)
  have hVal : ¬ 255 < r.foldl inetStep 0 := by
    rw [UInt32.lt_iff_toNat_lt, foldl_inetStep hRun.digits]
    simpa using hByte
  rw [inetOctets, inetDigits_eq, takeWhile_digits hRun.digits hEnds,
    dropWhile_digits hRun.digits hEnds]
  simp only [Nat.zero_add, hLength, hVal, or_self, if_false]
  cases inetDot i p with
  | none => rfl
  | some p =>
      cases hMore : inetOctets i p with
      | none => simp [hMore]
      | some more => simp [hMore]

/-- Where another octet is read, a run of digits stood there and its residue was at most
255. -/
theorem inetOctets_split {i : Nat} {p rest : List UInt8} {octets : List UInt32}
    (h : inetOctets (i + 1) p = some (octets, rest)) :
    ∃ r after, p = r ++ after ∧ Run r ∧ Ends after ∧ residue r ≤ 255 := by
  refine ⟨p.takeWhile Decimal.isDigit, p.dropWhile Decimal.isDigit,
    List.takeWhile_append_dropWhile.symm, ?_,
    ends_dropWhile p, ?_⟩
  all_goals
    rw [inetOctets, inetDigits_eq] at h
    by_cases hBad : 0 + (p.takeWhile Decimal.isDigit).length = 0 ∨
        255 < (p.takeWhile Decimal.isDigit).foldl inetStep 0
    · simp only [hBad, if_true] at h
      nomatch h
    have hDigits : ∀ b ∈ p.takeWhile Decimal.isDigit, Decimal.isDigit b :=
      fun b hb => List.mem_takeWhile_imp hb
    obtain ⟨hLength, hVal⟩ := not_or.mp hBad
  · refine ⟨fun hNil => hLength ?_, hDigits⟩
    rw [hNil]
    rfl
  · rw [UInt32.lt_iff_toNat_lt, foldl_inetStep hDigits] at hVal
    simpa using hVal

/-- What the loop accepts: the runs it has read, the separators between them, and the rest. -/
theorem inetOctets_sound {i : Nat} {p rest : List UInt8} {octets : List UInt32}
    (h : inetOctets (i + 1) p = some (octets, rest)) :
    ∃ runs : List (List UInt8), runs.length = i + 1 ∧ (∀ r ∈ runs, Run r ∧ residue r ≤ 255) ∧
      p = [0x2E].intercalate runs ++ rest ∧ octets.map UInt32.toNat = runs.map residue := by
  induction i generalizing p rest octets with
  | zero =>
      obtain ⟨r, after, rfl, hRun, hEnds, hByte⟩ := inetOctets_split h
      rw [inetOctets_run hRun hEnds hByte] at h
      simp only [inetDot, lt_irrefl, if_false, Option.bind_some, inetOctets, Option.map_some,
        Option.some.injEq, Prod.mk.injEq] at h
      obtain ⟨rfl, rfl⟩ := h
      refine ⟨[r], rfl, ?_, ?_, ?_⟩
      · simpa using ⟨hRun, hByte⟩
      · simp
      · simp [foldl_inetStep hRun.digits]
  | succ i ih =>
      obtain ⟨r, after, rfl, hRun, hEnds, hByte⟩ := inetOctets_split h
      rw [inetOctets_run hRun hEnds hByte] at h
      cases hDot : inetDot (i + 1) after with
      | none => simp [hDot] at h
      | some p =>
          cases hMore : inetOctets (i + 1) p with
          | none => simp [hDot, hMore] at h
          | some more =>
              obtain ⟨octets', rest'⟩ := more
              simp only [hDot, hMore, Option.bind_some, Option.map_some, Option.some.injEq,
                Prod.mk.injEq] at h
              obtain ⟨rfl, rfl⟩ := h
              obtain ⟨runs, hLength, hRuns, rfl, hOctets⟩ := ih hMore
              have hAfter : after = 0x2E :: ([0x2E].intercalate runs ++ rest') := by
                cases after with
                | nil => simp [inetDot] at hDot
                | cons b after =>
                    simp only [inetDot, Nat.succ_pos, if_true, List.head?_cons, List.tail_cons,
                      Option.some.injEq] at hDot
                    split_ifs at hDot with hb
                    simpa [hb] using hDot
              have hNonempty : runs ≠ [] := by
                rintro rfl
                simp at hLength
              refine ⟨r :: runs, by simp [hLength], ?_, ?_, ?_⟩
              · simpa using ⟨⟨hRun, hByte⟩, hRuns⟩
              · rw [hAfter, List.intercalate_cons_of_ne_nil hNonempty]
                simp
              · simp [foldl_inetStep hRun.digits, hOctets]

/-- Conversely runs of digits with dots in between are read as octets. The induction is
on the runs. -/
theorem inetOctets_complete {runs : List (List UInt8)} {rest : List UInt8}
    (hNonempty : runs ≠ []) (hRuns : ∀ r ∈ runs, Run r ∧ residue r ≤ 255) (hEnds : Ends rest) :
    inetOctets runs.length ([0x2E].intercalate runs ++ rest) =
      some (runs.map fun r => r.foldl inetStep 0, rest) := by
  induction runs with
  | nil => exact absurd rfl hNonempty
  | cons r runs ih =>
      obtain ⟨⟨hRun, hByte⟩, hRuns⟩ := List.forall_mem_cons.mp hRuns
      cases runs with
      | nil =>
          rw [List.intercalate_singleton, List.length_singleton, inetOctets_run hRun hEnds hByte]
          rfl
      | cons next runs =>
          have hDot : Ends (0x2E :: ([0x2E].intercalate (next :: runs) ++ rest)) := by
            intro b hb
            obtain rfl := Option.some.inj hb
            decide
          rw [List.intercalate_cons_cons, List.append_assoc, List.append_assoc,
            List.singleton_append, List.length_cons, inetOctets_run hRun hDot hByte]
          simp only [inetDot, List.length_cons, Nat.succ_pos, if_true, List.head?_cons,
            List.tail_cons, Option.bind_some]
          rw [← List.length_cons, ih (by simp) hRuns]
          rfl

/-! The address. -/

/-- Four octets are packed with the first in the lowest byte. -/
theorem toNat_inetPack {octets : List UInt32} (hFour : octets.length = 4)
    (hByte : ∀ o ∈ octets, o.toNat ≤ 255) :
    (inetPack octets).toNat = Nat.ofDigits 256 (octets.map UInt32.toNat) := by
  obtain ⟨a, b, c, d, rfl⟩ := List.length_eq_four.mp hFour
  have hSelf : ∀ o : UInt32, o.toNat ≤ 255 → o.toUInt8.toUInt32 = o := by
    intro o ho
    apply UInt32.toNat_inj.mp
    rw [UInt8.toNat_toUInt32, UInt32.toNat_toUInt8]
    omega
  have hWord : inetPack [a, b, c, d] =
      Tls.pack d.toUInt8 c.toUInt8 b.toUInt8 a.toUInt8 := by
    simp only [List.forall_mem_cons] at hByte
    rw [Tls.pack, hSelf a hByte.1, hSelf b hByte.2.1, hSelf c hByte.2.2.1, hSelf d hByte.2.2.2.1]
    show a ||| b <<< 8 ||| c <<< 16 ||| d <<< 24 = _
    rw [UInt32.or_comm _ (d <<< 24), UInt32.or_comm _ (c <<< 16), UInt32.or_comm a,
      UInt32.or_assoc, UInt32.or_assoc]
  simp only [List.forall_mem_cons] at hByte
  rw [hWord, Tls.toNat_pack]
  simp only [UInt32.toNat_toUInt8, List.map_cons, List.map_nil, Nat.ofDigits_cons, Nat.ofDigits_nil]
  omega

/-- `ofDigits` of four bytes is the largest word only where all of them are 255. -/
theorem ofDigits_eq_none {ns : List Nat} (hFour : ns.length = 4) (hByte : ∀ n ∈ ns, n ≤ 255) :
    Nat.ofDigits 256 ns = inaddrNone.toNat ↔ ∀ n ∈ ns, n = 255 := by
  obtain ⟨a, b, c, d, rfl⟩ := List.length_eq_four.mp hFour
  simp only [List.forall_mem_cons, Nat.ofDigits_cons, Nat.ofDigits_nil, inaddrNone,
    UInt32.reduceToNat] at hByte ⊢
  constructor
  · intro h
    refine ⟨?_, ?_, ?_, ?_, by simp⟩ <;> omega
  · rintro ⟨rfl, rfl, rfl, rfl, -⟩
    rfl

/-- What `inet_addr` accepts: the numbers count modulo 2^32. -/
theorem inetAddr_eq_iff (s : CString) (v : UInt32) : inetAddr s = v ∧ v ≠ inaddrNone ↔
    ∃ runs, Quad s runs ∧ (∀ r ∈ runs, residue r ≤ 255) ∧ (¬ ∀ r ∈ runs, residue r = 255) ∧
      v.toNat = Nat.ofDigits 256 (runs.map residue) := by
  constructor
  · rintro ⟨rfl, hNone⟩
    unfold inetAddr at hNone ⊢
    cases hRead : inetOctets 4 s.bytes with
    | none => simp [hRead] at hNone
    | some read =>
        obtain ⟨octets, rest⟩ := read
        simp only [hRead] at hNone ⊢
        by_cases hRest : rest ≠ []
        · simp [hRest] at hNone
        · rw [not_not] at hRest
          subst hRest
          obtain ⟨runs, hFour, hRuns, hBytes, hOctets⟩ := inetOctets_sound hRead
          have hLength : octets.length = 4 := by
            rw [← List.length_map UInt32.toNat, hOctets, List.length_map, hFour]
          have hByte : ∀ n ∈ runs.map residue, n ≤ 255 := by
            intro n hn
            obtain ⟨r, hr, rfl⟩ := List.mem_map.mp hn
            exact (hRuns r hr).2
          have hValue : (inetPack octets).toNat = Nat.ofDigits 256 (runs.map residue) := by
            rw [← hOctets]
            apply toNat_inetPack hLength
            intro o ho
            exact hByte _ (hOctets ▸ List.mem_map_of_mem ho)
          refine ⟨runs, ⟨hFour, fun r hr => (hRuns r hr).1, by simpa using hBytes⟩,
            fun r hr => (hRuns r hr).2, fun hAll => hNone ?_, by simpa using hValue⟩
          simp only [ne_eq, not_true_eq_false, if_false]
          apply UInt32.toNat_inj.mp
          rw [hValue, ofDigits_eq_none (by simpa using hFour) hByte]
          simpa using hAll
  · rintro ⟨runs, hQuad, hByte, hSome, hValue⟩
    have hNonempty : runs ≠ [] := by
      rintro rfl
      simpa using hQuad.four
    have hRuns : ∀ r ∈ runs, Run r ∧ residue r ≤ 255 := fun r hr => ⟨hQuad.digits r hr, hByte r hr⟩
    have hRead := @inetOctets_complete _ [] hNonempty hRuns (by simp [Ends])
    rw [List.append_nil, ← hQuad.joined, hQuad.four] at hRead
    have hOctets : (runs.map fun r => r.foldl inetStep 0).map UInt32.toNat = runs.map residue := by
      rw [List.map_map]
      exact List.map_congr_left fun r hr => foldl_inetStep (hQuad.digits r hr).digits
    have hNumbers : ∀ n ∈ runs.map residue, n ≤ 255 := by
      intro n hn
      obtain ⟨r, hr, rfl⟩ := List.mem_map.mp hn
      exact hByte r hr
    have hPack : inetPack (runs.map fun r => r.foldl inetStep 0) = v := by
      apply UInt32.toNat_inj.mp
      rw [hValue, toNat_inetPack (by simpa using hQuad.four), hOctets]
      intro o ho
      exact hNumbers _ (hOctets ▸ List.mem_map_of_mem ho)
    constructor
    · simpa [inetAddr, hRead] using hPack
    · rintro rfl
      apply hSome
      have h := (ofDigits_eq_none (by simpa using hQuad.four) hNumbers).mp hValue.symm
      simpa using h

/-- A string is a dotted quad in one way at most. -/
theorem quad_unique {s : CString} {runs runs' : List (List UInt8)} (h : Quad s runs)
    (h' : Quad s runs') : runs = runs' := by
  have hSplit : ∀ {rs}, Quad s rs → s.bytes.splitOn 0x2E = rs := by
    intro rs hrs
    rw [hrs.joined]
    apply List.splitOn_intercalate
    · intro r hr hDot
      have := (hrs.digits r hr).digits _ hDot
      revert this
      decide
    · rintro rfl
      simpa using hrs.four
  rw [← hSplit h, ← hSplit h']

/-- `inet_addr` is right about a string just when no number of four wraps around to a byte:
then it answers with an address that the string does not say. -/
theorem inetAddr_exact (s : CString) : ExactOn s ↔
    ∀ runs, Quad s runs → (∀ r ∈ runs, number r % 2 ^ 32 ≤ 255) →
      (∀ r ∈ runs, number r ≤ 255) ∨ ∀ r ∈ runs, number r % 2 ^ 32 = 255 := by
  constructor
  · intro hExact runs hQuad hByte
    by_cases hAll : ∀ r ∈ runs, number r % 2 ^ 32 = 255
    · exact Or.inr hAll
    · have hLt : Nat.ofDigits 256 (runs.map residue) < 2 ^ 32 := by
        have h := Nat.ofDigits_lt_base_pow_length (b := 256) (l := runs.map residue)
          (by norm_num) (by
          intro n hn
          obtain ⟨r, hr, rfl⟩ := List.mem_map.mp hn
          exact Nat.lt_succ_of_le (hByte r hr))
        simpa [hQuad.four] using h
      have hAccepted := (inetAddr_eq_iff s (.ofNat (Nat.ofDigits 256 (runs.map residue)))).mpr
        ⟨runs, hQuad, hByte, hAll, by simpa using hLt⟩
      obtain ⟨runs', hQuad', hByte', -⟩ := (hExact _).mp hAccepted
      rw [quad_unique hQuad hQuad']
      exact Or.inl hByte'
  · intro hWraps v
    have hSame : ∀ {r : List UInt8}, number r ≤ 255 → residue r = number r :=
      fun h => Nat.mod_eq_of_lt (by omega)
    rw [inetAddr_eq_iff]
    constructor
    · rintro ⟨runs, hQuad, hByte, hSome, hValue⟩
      have hNumbers := (hWraps runs hQuad hByte).resolve_right hSome
      refine ⟨runs, hQuad, hNumbers, fun hAll => hSome fun r hr => ?_, ?_⟩
      · rw [hSame (hNumbers r hr), hAll r hr]
      · rw [hValue, List.map_congr_left fun r hr => hSame (hNumbers r hr)]
    · rintro ⟨runs, hQuad, hNumbers, hSome, hValue⟩
      refine ⟨runs, hQuad, fun r hr => ?_, fun hAll => hSome fun r hr => ?_, ?_⟩
      · rw [hSame (hNumbers r hr)]
        exact hNumbers r hr
      · rw [← hSame (hNumbers r hr), hAll r hr]
      · rw [hValue, List.map_congr_left fun r hr => hSame (hNumbers r hr)]

/-- `4294967297.0.0.1`. -/
def wrappingRuns : List (List UInt8) :=
  [[0x34, 0x32, 0x39, 0x34, 0x39, 0x36, 0x37, 0x32, 0x39, 0x37], [0x30], [0x30], [0x31]]

def wrappingQuad : CString where
  bytes := [0x2E].intercalate wrappingRuns
  noNul := by decide

/-- 4294967297 is taken for 1. -/
theorem wrappingQuad_accepted : inetAddr wrappingQuad = 0x01000001 ∧ ¬ ExactOn wrappingQuad := by
  have hAccepted : inetAddr wrappingQuad = 0x01000001 := by decide +kernel
  have hQuad : Quad wrappingQuad wrappingRuns := ⟨rfl, by decide, rfl⟩
  refine ⟨hAccepted, fun hExact => ?_⟩
  obtain ⟨runs, hRuns, hByte, -⟩ := (hExact 0x01000001).mp ⟨hAccepted, by decide⟩
  obtain rfl := quad_unique hQuad hRuns
  revert hByte
  decide

end Vmodem
