import Vmodem.Library.CString
import Vmodem.Invariants.Delivery
import Vmodem.Properties.TelnetFilter

/-! Subnegotiations with their payloads: what the parser gathers of one, with a length that
wraps around after 256 bytes and without the bytes that had to be doubled. -/

namespace Vmodem

open TelnetReceiver (stuff)

/-- A subnegotiation a client sends. -/
inductive Subnegotiation where
  | naws (w h : UInt16)
  | ttype (s : CString)
  | other (opt : UInt8) (payload : List UInt8) (hNaws : opt ≠ teloptNaws)
      (hTtype : opt ≠ teloptTtype)

namespace Subnegotiation

def option : Subnegotiation → UInt8
  | naws .. => teloptNaws
  | ttype _ => teloptTtype
  | other opt .. => opt

/-- The terminal type comes behind IS. -/
def payload : Subnegotiation → List UInt8
  | naws w h => [(w >>> 8).toUInt8, w.toUInt8, (h >>> 8).toUInt8, h.toUInt8]
  | ttype s => 0 :: s.bytes
  | other _ payload .. => payload

/-- A 255 of the payload is doubled. -/
def encode (x : Subnegotiation) : List UInt8 :=
  [telIac, telSB, x.option] ++ x.payload.flatMap stuff ++ [telIac, telSE]

/-- What the port is to know from it. -/
def Decoded (before after : PortState) : Subnegotiation → Prop
  | naws w h => after.nawsCols = w ∧ after.nawsRows = h
  | ttype s => CString.Holds after.ttype (s.bytes.take 40)
  | other .. => after.nawsCols = before.nawsCols ∧ after.nawsRows = before.nawsRows ∧
      after.ttype = before.ttype

/-- The port after the subnegotiation. -/
def after (x : Subnegotiation) (p : PortState) : PortState := (telnetFilterAll p x.encode).1

/-- Every value is decoded when its subnegotiation is over. -/
def DecodedAll : List Subnegotiation → PortState → Prop
  | [], _ => True
  | x :: xs, p => x.Decoded p (x.after p) ∧ DecodedAll xs (x.after p)

end Subnegotiation

/-! Gathering: `sb_len` counts modulo 256, so that the bytes come in blocks. -/

/-- The bytes since `sb_len` was last 0. -/
def lastBlock (l : List UInt8) : List UInt8 := l.drop (256 * (l.length / 256))

/-- Some block begins with TTYPE and has come to its third byte. -/
def NamesTerminal (l : List UInt8) : Prop :=
  ∃ front c b rest, l = front ++ teloptTtype :: c :: b :: rest ∧ front.length % 256 = 0

/-- The last block is a window size. -/
def EndsInSize (l : List UInt8) : Prop := ∃ u, lastBlock l = teloptNaws :: u ∧ 4 ≤ u.length

/-- What is left of a long content is its length modulo 256. -/
theorem length_lastBlock (l : List UInt8) : (lastBlock l).length = l.length % 256 := by
  rw [lastBlock, List.length_drop]
  omega

/-- It is the end of the content, behind whole blocks of 256 bytes. -/
theorem lastBlock_eq (l : List UInt8) :
    ∃ front, l = front ++ lastBlock l ∧ front.length % 256 = 0 := by
  refine ⟨l.take (256 * (l.length / 256)), (List.take_append_drop _ l).symm, ?_⟩
  rw [List.length_take]
  omega

/-- A further byte begins a new block when the last one is full. -/
theorem lastBlock_append_singleton (l : List UInt8) (b : UInt8) :
    lastBlock (l ++ [b]) = if l.length % 256 = 255 then [] else lastBlock l ++ [b] := by
  unfold lastBlock
  rw [List.length_append, List.length_singleton]
  split_ifs with hFull
  · have hDiv : 256 * ((l.length + 1) / 256) = (l ++ [b]).length := by
      rw [List.length_append, List.length_singleton]
      omega
    rw [hDiv, List.drop_length]
  · have hDiv : (l.length + 1) / 256 = l.length / 256 := by omega
    rw [hDiv, List.drop_append_of_le_length (by omega)]

theorem lastBlock_short {l : List UInt8} (h : l.length < 256) : lastBlock l = l := by
  rw [lastBlock, Nat.div_eq_of_lt h]
  rfl

/-- The bytes go into the accumulator, one after another. -/
def gather (p : PortState) (l : List UInt8) : PortState := l.foldl subnegotiationByte p

section Gather

variable {p : PortState} {l : List UInt8} {b : UInt8}

theorem gather_append_singleton (p : PortState) (l : List UInt8) (b : UInt8) :
    gather p (l ++ [b]) = subnegotiationByte (gather p l) b := by
  rw [gather, List.foldl_append]
  rfl

theorem gather_iacState (p : PortState) (l : List UInt8) : (gather p l).iacState = p.iacState := by
  induction l using List.reverseRecOn with
  | nil => rfl
  | append_singleton l b ih => rw [gather_append_singleton, subnegotiationByte_iacState, ih]

/-- A byte changes no window size before the end. -/
theorem subnegotiationByte_naws (p : PortState) (b : UInt8) :
    (subnegotiationByte p b).nawsCols = p.nawsCols ∧
    (subnegotiationByte p b).nawsRows = p.nawsRows := by
  unfold subnegotiationByte
  dsimp only
  split_ifs <;> exact ⟨rfl, rfl⟩

theorem gather_naws (p : PortState) (l : List UInt8) :
    (gather p l).nawsCols = p.nawsCols ∧ (gather p l).nawsRows = p.nawsRows := by
  induction l using List.reverseRecOn with
  | nil => exact ⟨rfl, rfl⟩
  | append_singleton l b ih =>
      rw [gather_append_singleton, (subnegotiationByte_naws _ b).1, (subnegotiationByte_naws _ b).2]
      exact ih

theorem subnegotiationByte_sbLen (p : PortState) (b : UInt8) :
    (subnegotiationByte p b).sbLen = p.sbLen + 1 := by
  unfold subnegotiationByte
  dsimp only
  split_ifs <;> rfl

theorem gather_sbLen (h : p.sbLen = 0) (l : List UInt8) :
    (gather p l).sbLen.toNat = (lastBlock l).length := by
  rw [length_lastBlock]
  induction l using List.reverseRecOn with
  | nil => simp [gather, h]
  | append_singleton l b ih =>
      rw [gather_append_singleton, subnegotiationByte_sbLen, UInt8.toNat_add, ih,
        List.length_append, List.length_singleton, UInt8.toNat_one]
      omega

/-- What one byte changes, by its place in the block. -/
theorem subnegotiationByte_first (p : PortState) (h : p.sbLen = 0) :
    (subnegotiationByte p b).sbOpt = b ∧ (subnegotiationByte p b).ttype = p.ttype := by
  simp [subnegotiationByte, h]

theorem subnegotiationByte_sbOpt (p : PortState) (h : p.sbLen ≠ 0) :
    (subnegotiationByte p b).sbOpt = p.sbOpt := by
  unfold subnegotiationByte
  dsimp only
  rw [if_neg h]
  split_ifs <;> rfl

/-- A byte of a terminal type is stored behind the two in front, up to the forty there
is room for. -/
theorem subnegotiationByte_ttype (p : PortState) (h : p.sbOpt = teloptTtype ∧ 2 ≤ p.sbLen) :
    (subnegotiationByte p b).ttype = fun k =>
      if k = p.sbLen.toNat - 2 ∧ k < 40 then b else p.ttype k := by
  have hSub : (p.sbLen - 2).toNat = p.sbLen.toNat - 2 := UInt8.toNat_sub_of_le _ _ h.2
  have hFirst : p.sbLen ≠ 0 := by
    intro hZero
    have := h.2
    rw [hZero] at this
    exact absurd this (by decide)
  unfold subnegotiationByte
  dsimp only
  rw [if_neg hFirst, if_pos h]
  funext k
  by_cases hRoom : p.sbLen - 2 < 40
  · have hLt : p.sbLen.toNat - 2 < 40 := by simpa [UInt8.lt_iff_toNat_lt, hSub] using hRoom
    rw [if_pos hRoom]
    dsimp only
    rw [hSub]
    by_cases hk : k = p.sbLen.toNat - 2
    · rw [if_pos hk, if_pos ⟨hk, hk ▸ hLt⟩]
    · rw [if_neg hk, if_neg (by omega)]
  · have hLt : ¬ p.sbLen.toNat - 2 < 40 := by simpa [UInt8.lt_iff_toNat_lt, hSub] using hRoom
    rw [if_neg hRoom, if_neg (by omega)]

theorem subnegotiationByte_other (p : PortState) (h : ¬ (p.sbOpt = teloptTtype ∧ 2 ≤ p.sbLen)) :
    (subnegotiationByte p b).ttype = p.ttype := by
  unfold subnegotiationByte
  dsimp only
  split_ifs <;> rfl

/-- A byte of another subnegotiation is stored behind its option, up to the eight there
is room for. -/
theorem subnegotiationByte_sbBuf (p : PortState) (h : p.sbOpt ≠ teloptTtype)
    (hFirst : p.sbLen ≠ 0) :
    (subnegotiationByte p b).sbBuf = fun k =>
      if k = p.sbLen.toNat - 1 ∧ k < 8 then b else p.sbBuf k := by
  have hPos : 1 ≤ p.sbLen.toNat := by
    apply Nat.one_le_iff_ne_zero.mpr
    intro hZero
    exact hFirst (UInt8.toNat_inj.mp hZero)
  have hSub : (p.sbLen - 1).toNat = p.sbLen.toNat - 1 :=
    UInt8.toNat_sub_of_le _ _ (UInt8.le_iff_toNat_le.mpr hPos)
  unfold subnegotiationByte
  dsimp only
  rw [if_neg hFirst, if_neg fun hAnd => h hAnd.1]
  funext k
  by_cases hRoom : p.sbLen ≤ 8
  · have hLe : p.sbLen.toNat ≤ 8 := by simpa [UInt8.le_iff_toNat_le] using hRoom
    rw [if_pos hRoom]
    dsimp only
    rw [hSub]
    by_cases hk : k = p.sbLen.toNat - 1
    · rw [if_pos hk, if_pos ⟨hk, by omega⟩]
    · rw [if_neg hk, if_neg (by omega)]
  · have hLe : ¬ p.sbLen.toNat ≤ 8 := by simpa [UInt8.le_iff_toNat_le] using hRoom
    rw [if_neg hRoom, if_neg (by omega)]

/-- What has been gathered, read off the last block. -/
structure Gathered (l : List UInt8) (q : PortState) : Prop where
  opt : ∀ o u, lastBlock l = o :: u → q.sbOpt = o
  size : ∀ o u, lastBlock l = o :: u → o ≠ teloptTtype →
    ∀ k (h : k < u.length), k < 8 → q.sbBuf k = u[k]
  text : ∀ c u, lastBlock l = teloptTtype :: c :: u →
    ∀ k (h : k < u.length), k < 40 → q.ttype k = u[k]

theorem getElem_append_singleton {u : List UInt8} {k : Nat} (hk : k < (u ++ [b]).length) :
    (u ++ [b])[k] = if h : k < u.length then u[k] else b := by
  split_ifs with h
  · exact List.getElem_append_left h
  · rw [List.getElem_append_right (by omega), List.getElem_singleton]

/-- What was gathered is the last block, as far as it was stored. The induction is on
the content. -/
theorem gather_gathered (h : p.sbLen = 0) (l : List UInt8) : Gathered l (gather p l) := by
  induction l using List.reverseRecOn with
  | nil => exact ⟨by simp [lastBlock], by simp [lastBlock], by simp [lastBlock]⟩
  | append_singleton l b ih =>
      have hLen := gather_sbLen h l
      rw [gather_append_singleton]
      generalize gather p l = q at ih hLen
      have hZero : q.sbLen = 0 ↔ lastBlock l = [] := by
        rw [← List.length_eq_zero_iff, ← hLen]
        exact UInt8.toNat_inj.symm
      have hBlock := lastBlock_append_singleton l b
      by_cases hFull : l.length % 256 = 255
      · rw [if_pos hFull] at hBlock
        exact ⟨by simp [hBlock], by simp [hBlock], by simp [hBlock]⟩
      rw [if_neg hFull] at hBlock
      cases hLast : lastBlock l with
      | nil =>
          obtain ⟨hOpt, -⟩ := subnegotiationByte_first (b := b) q (hZero.mpr hLast)
          rw [hLast] at hBlock
          refine ⟨?_, ?_, ?_⟩
          · intro o u hCons
            rw [hBlock] at hCons
            rw [hOpt]
            exact (List.cons.inj hCons).1
          · intro o u hCons _ k hk
            rw [hBlock] at hCons
            rw [← (List.cons.inj hCons).2] at hk
            nomatch hk
          · intro c u hCons
            rw [hBlock] at hCons
            nomatch (List.cons.inj hCons).2
      | cons o u =>
          have hFirst : q.sbLen ≠ 0 := fun hNil => by
            rw [hZero.mp hNil] at hLast
            nomatch hLast
          have hOpt := ih.opt o u hLast
          rw [hLast] at hBlock hLen
          rw [List.length_cons] at hLen
          have hCons : ∀ {o' u'}, lastBlock (l ++ [b]) = o' :: u' → o' = o ∧ u' = u ++ [b] := by
            intro o' u' hEq
            rw [hBlock] at hEq
            obtain ⟨rfl, rfl⟩ := List.cons.inj hEq
            exact ⟨rfl, rfl⟩
          refine ⟨?_, ?_, ?_⟩
          · intro o' u' hEq
            rw [subnegotiationByte_sbOpt q hFirst, hOpt, (hCons hEq).1]
          · intro o' u' hEq hOther k hk hRoom
            obtain ⟨rfl, rfl⟩ := hCons hEq
            rw [subnegotiationByte_sbBuf q (hOpt ▸ hOther) hFirst, getElem_append_singleton, hLen]
            dsimp only
            rw [List.length_append, List.length_singleton] at hk
            by_cases hOld : k < u.length
            · rw [dif_pos hOld, if_neg (by omega)]
              exact ih.size o' u hLast hOther k hOld hRoom
            · rw [dif_neg hOld, if_pos ⟨by omega, hRoom⟩]
          · intro c u' hEq k hk hRoom
            obtain ⟨rfl, hTail⟩ := hCons hEq
            cases u with
            | nil =>
                rw [List.nil_append] at hTail
                rw [(List.cons.inj hTail).2] at hk
                nomatch hk
            | cons c' u =>
                rw [List.cons_append] at hTail
                obtain ⟨rfl, rfl⟩ := List.cons.inj hTail
                rw [List.length_cons] at hLen
                have hText : q.sbOpt = teloptTtype ∧ 2 ≤ q.sbLen :=
                  ⟨hOpt, UInt8.le_iff_toNat_le.mpr (by rw [hLen]; exact Nat.le_add_left 2 _)⟩
                rw [subnegotiationByte_ttype q hText, getElem_append_singleton, hLen]
                dsimp only
                rw [List.length_append, List.length_singleton] at hk
                by_cases hOld : k < u.length
                · rw [dif_pos hOld, if_neg (by omega)]
                  exact ih.text c u hLast k hOld hRoom
                · rw [dif_neg hOld, if_pos ⟨by omega, hRoom⟩]

/-- Where a byte is written into the terminal type. -/
theorem gather_ttype_step (h : p.sbLen = 0) (l : List UInt8) (b : UInt8) :
    (gather p (l ++ [b])).ttype = (gather p l).ttype ∨
      ∃ c u, lastBlock l = teloptTtype :: c :: u ∧
        (gather p (l ++ [b])).ttype =
          fun k => if k = u.length ∧ k < 40 then b else (gather p l).ttype k := by
  have hLen := gather_sbLen h l
  have hOpt := (gather_gathered h l).opt
  rw [gather_append_singleton]
  by_cases hText : (gather p l).sbOpt = teloptTtype ∧ 2 ≤ (gather p l).sbLen
  · have hTwo : 2 ≤ (gather p l).sbLen.toNat := UInt8.le_iff_toNat_le.mp hText.2
    refine Or.inr ?_
    rw [subnegotiationByte_ttype _ hText, hLen]
    rw [hLen] at hTwo
    match hLast : lastBlock l with
    | [] | [_] => simp [hLast] at hTwo
    | o :: c :: u =>
        obtain rfl := (hOpt o _ hLast).symm.trans hText.1
        exact ⟨c, u, rfl, rfl⟩
  · exact Or.inl (subnegotiationByte_other _ hText)

theorem namesTerminal_of_lastBlock {c : UInt8} {u : List UInt8}
    (h : lastBlock l = teloptTtype :: c :: u) :
    NamesTerminal (l ++ [b]) := by
  obtain ⟨front, hFront, hBlocks⟩ := lastBlock_eq l
  rw [h] at hFront
  cases u with
  | nil => exact ⟨front, c, b, [], by simp [hFront], hBlocks⟩
  | cons d u => exact ⟨front, c, d, u ++ [b], by simp [hFront], hBlocks⟩

/-- A content that begins to name a terminal still does with more bytes. -/
theorem NamesTerminal.append (h : NamesTerminal l) : NamesTerminal (l ++ [b]) := by
  obtain ⟨front, c, d, rest, rfl, hBlocks⟩ := h
  exact ⟨front, c, d, rest ++ [b], by simp, hBlocks⟩

/-- A stream that names no terminal leaves the text alone. -/
theorem gather_ttype_of_not (h : p.sbLen = 0) (hNot : ¬ NamesTerminal l) :
    (gather p l).ttype = p.ttype := by
  induction l using List.reverseRecOn with
  | nil => rfl
  | append_singleton l b ih =>
      rcases gather_ttype_step h l b with hSame | ⟨c, u, hLast, -⟩
      · rw [hSame, ih fun hNames => hNot hNames.append]
      · exact absurd (namesTerminal_of_lastBlock hLast) hNot

/-- One that does overwrites the first character whatever it was. -/
theorem gather_ttype_zero (hNames : NamesTerminal l) :
    ∃ v, ∀ p : PortState, p.sbLen = 0 → (gather p l).ttype 0 = v := by
  induction l using List.reverseRecOn with
  | nil =>
      obtain ⟨front, c, b, rest, hNil, -⟩ := hNames
      simp at hNil
  | append_singleton l b ih =>
      by_cases hThird : ∃ c, lastBlock l = [teloptTtype, c]
      · obtain ⟨c, hLast⟩ := hThird
        refine ⟨b, fun p h => ?_⟩
        have hText : (gather p l).sbOpt = teloptTtype ∧ 2 ≤ (gather p l).sbLen := by
          have hLen := gather_sbLen h l
          rw [hLast] at hLen
          exact ⟨(gather_gathered h l).opt _ _ hLast, UInt8.le_iff_toNat_le.mpr (by rw [hLen]; rfl)⟩
        rw [gather_append_singleton, subnegotiationByte_ttype _ hText, gather_sbLen h, hLast]
        rfl
      · have hBefore : NamesTerminal l := by
          obtain ⟨front, c, d, rest, hEq, hBlocks⟩ := hNames
          cases rest using List.reverseRecOn with
          | nil =>
              have hParts : l ++ [b] = (front ++ [teloptTtype, c]) ++ [d] := by simpa using hEq
              obtain ⟨rfl, -⟩ := List.append_inj' hParts rfl
              refine absurd ⟨c, ?_⟩ hThird
              rw [lastBlock, List.length_append, List.length_cons, List.length_singleton]
              have hDiv : 256 * ((front.length + (1 + 1)) / 256) = front.length := by omega
              rw [hDiv, List.drop_left]
          | append_singleton rest e =>
              have hParts : l ++ [b] = (front ++ teloptTtype :: c :: d :: rest) ++ [e] := by
                simpa using hEq
              obtain ⟨rfl, -⟩ := List.append_inj' hParts rfl
              exact ⟨front, c, d, rest, rfl, hBlocks⟩
        obtain ⟨v, hv⟩ := ih hBefore
        refine ⟨v, fun p h => ?_⟩
        rw [← hv p h]
        rcases gather_ttype_step h l b with hSame | ⟨c, u, hLast, hText⟩
        · rw [hSame]
        · rw [hText]
          dsimp only
          rw [if_neg]
          rintro ⟨hNil, -⟩
          rw [List.length_eq_zero_iff.mp hNil.symm] at hLast
          exact hThird ⟨c, hLast⟩

/-- No terminator is written before the subnegotiation is over. -/
theorem gather_ttype_ne_zero (h : p.sbLen = 0) (hText : ∀ k, p.ttype k ≠ 0)
    (hNul : ∀ b ∈ l.drop 2, b ≠ 0) (k : Nat) : (gather p l).ttype k ≠ 0 := by
  induction l using List.reverseRecOn with
  | nil => exact hText k
  | append_singleton l b ih =>
      have hBefore := ih fun c hc => hNul c (by
        rw [List.drop_append]
        exact List.mem_append_left _ hc)
      rcases gather_ttype_step h l b with hSame | ⟨c, u, hLast, hWrite⟩
      · rwa [hSame]
      · have hTwo : 2 ≤ l.length := by
          have hLength := length_lastBlock l
          rw [hLast, List.length_cons, List.length_cons] at hLength
          omega
        rw [hWrite]
        dsimp only
        split_ifs
        · apply hNul b
          rw [List.drop_append_of_le_length hTwo]
          exact List.mem_append_right _ (List.mem_singleton_self b)
        · exact hBefore

/-! IAC SE. -/

/-- The branch of `subnegotiationDone` that ends the terminal type. -/
theorem done_ttype (p : PortState) : (subnegotiationDone p).ttype =
    if p.sbOpt = teloptTtype ∧ 2 < p.sbLen then
      fun k => if k = min (p.sbLen.toNat - 2) 40 then 0 else p.ttype k
    else p.ttype := by
  unfold subnegotiationDone
  by_cases hText : p.sbOpt = teloptTtype ∧ 2 < p.sbLen
  · have hSub : (p.sbLen - 2).toNat = p.sbLen.toNat - 2 :=
      UInt8.toNat_sub_of_le _ _ (UInt8.le_of_lt hText.2)
    have hMin : (if 40 < p.sbLen - 2 then 40 else p.sbLen - 2).toNat =
      min (p.sbLen.toNat - 2) 40 := by
      rw [← hSub]
      split_ifs with hLong
      · rw [UInt8.lt_iff_toNat_lt] at hLong
        exact (Nat.min_eq_right (Nat.le_of_lt hLong)).symm
      · rw [UInt8.lt_iff_toNat_lt, Nat.not_lt] at hLong
        exact (Nat.min_eq_left hLong).symm
    rw [if_pos hText, if_pos hText]
    dsimp only
    rw [hMin]
  · rw [if_neg hText, if_neg hText]
    split_ifs <;> rfl

/-- At the end the window size is taken over if the option and the length say so. -/
theorem done_naws (p : PortState) :
    (subnegotiationDone p).nawsCols =
        (if p.sbOpt = teloptNaws ∧ 5 ≤ p.sbLen then
          (p.sbBuf 0).toUInt16 <<< 8 ||| (p.sbBuf 1).toUInt16 else p.nawsCols) ∧
      (subnegotiationDone p).nawsRows =
        (if p.sbOpt = teloptNaws ∧ 5 ≤ p.sbLen then
          (p.sbBuf 2).toUInt16 <<< 8 ||| (p.sbBuf 3).toUInt16 else p.nawsRows) := by
  unfold subnegotiationDone
  by_cases hText : p.sbOpt = teloptTtype ∧ 2 < p.sbLen
  · have hOther : ¬ (p.sbOpt = teloptNaws ∧ 5 ≤ p.sbLen) := by
      rw [hText.1]
      exact fun hSize => absurd hSize.1 (by decide)
    rw [if_pos hText, if_neg hOther, if_neg hOther]
    exact ⟨rfl, rfl⟩
  · rw [if_neg hText]
    split_ifs <;> exact ⟨rfl, rfl⟩

/-- What a subnegotiation leaves behind, from the bytes the parser has kept of it. -/
def settled (p : PortState) (l : List UInt8) : PortState := subnegotiationDone (gather p l)

/-- The end takes a terminal type exactly if the last block has its option, its kind and
a byte of text. -/
theorem gather_isText (h : p.sbLen = 0) (l : List UInt8) :
    ((gather p l).sbOpt = teloptTtype ∧ 2 < (gather p l).sbLen) ↔
      ∃ c b u, lastBlock l = teloptTtype :: c :: b :: u := by
  have hLen := gather_sbLen h l
  have hOpt := (gather_gathered h l).opt
  rw [UInt8.lt_iff_toNat_lt, hLen]
  match hLast : lastBlock l with
  | [] | [_] | [_, _] => simp
  | o :: c :: b :: u => simp [hOpt o _ hLast]

/-- The end takes a window size exactly if the last block is one. -/
theorem gather_isSize (h : p.sbLen = 0) (l : List UInt8) :
    ((gather p l).sbOpt = teloptNaws ∧ 5 ≤ (gather p l).sbLen) ↔ EndsInSize l := by
  have hLen := gather_sbLen h l
  have hOpt := (gather_gathered h l).opt
  rw [UInt8.le_iff_toNat_le, hLen, EndsInSize]
  cases hLast : lastBlock l with
  | nil => simp
  | cons o u => simp [hOpt o u hLast]

/-- A last block that is a terminal type is taken over. -/
theorem settled_text (h : p.sbLen = 0) {c b : UInt8} {u : List UInt8}
    (hLast : lastBlock l = teloptTtype :: c :: b :: u) :
    CString.Holds (settled p l).ttype ((b :: u).take 40) := by
  have hLen := gather_sbLen h l
  have hText := (gather_gathered h l).text c (b :: u) hLast
  have hLength : (gather p l).sbLen.toNat - 2 = (b :: u).length := by
    rw [hLen, hLast]
    rfl
  rw [settled, done_ttype, if_pos ((gather_isText h l).mpr ⟨c, b, u, hLast⟩), hLength]
  constructor
  · intro k hk
    rw [List.length_take] at hk
    rw [if_neg (by omega), List.getElem_take]
    exact hText k (by omega) (by omega)
  · rw [List.length_take, if_pos (Nat.min_comm _ _)]

theorem settled_ttype_of_not (h : p.sbLen = 0)
    (hLast : ¬ ∃ c b u, lastBlock l = teloptTtype :: c :: b :: u) :
    (settled p l).ttype = (gather p l).ttype := by
  rw [settled, done_ttype, if_neg (mt (gather_isText h l).mp hLast)]

/-- The first character is never overwritten by the terminator. -/
theorem settled_ttype_zero (h : p.sbLen = 0) (l : List UInt8) :
    (settled p l).ttype 0 = (gather p l).ttype 0 := by
  by_cases hLast : ∃ c b u, lastBlock l = teloptTtype :: c :: b :: u
  · obtain ⟨c, b, u, hLast⟩ := hLast
    have hLen := gather_sbLen h l
    rw [hLast, List.length_cons, List.length_cons, List.length_cons] at hLen
    rw [settled, done_ttype, if_pos ((gather_isText h l).mpr ⟨c, b, u, hLast⟩), hLen,
      if_neg (by omega)]
  · rw [settled_ttype_of_not h hLast]

/-- The window size is that of the last block, high bytes first. -/
theorem settled_size (h : p.sbLen = 0) {c0 c1 r0 r1 : UInt8} {u : List UInt8}
    (hLast : lastBlock l = teloptNaws :: c0 :: c1 :: r0 :: r1 :: u) :
    (settled p l).nawsCols = c0.toUInt16 <<< 8 ||| c1.toUInt16 ∧
      (settled p l).nawsRows = r0.toUInt16 <<< 8 ||| r1.toUInt16 := by
  have hSize := (gather_gathered h l).size teloptNaws _ hLast (by decide)
  have hEnds : EndsInSize l := ⟨_, hLast, by simp⟩
  rw [settled, (done_naws _).1, (done_naws _).2, if_pos ((gather_isSize h l).mpr hEnds),
    if_pos ((gather_isSize h l).mpr hEnds), hSize 0 (by simp) (by omega),
      hSize 1 (by simp) (by omega),
    hSize 2 (by simp) (by omega), hSize 3 (by simp) (by omega)]
  exact ⟨rfl, rfl⟩

theorem settled_naws_of_not (h : p.sbLen = 0) (hNot : ¬ EndsInSize l) :
    (settled p l).nawsCols = p.nawsCols ∧ (settled p l).nawsRows = p.nawsRows := by
  rw [settled, (done_naws _).1, (done_naws _).2, if_neg (mt (gather_isSize h l).mp hNot),
    if_neg (mt (gather_isSize h l).mp hNot)]
  exact gather_naws p l

end Gather

section Framing

variable {p q : PortState}

/-- IAC SB empties the accumulator. -/
def opened (p : PortState) : PortState := { p with sbLen := 0, sbOpt := 0, iacState := .inSB }

theorem telnetFilterAll_open (h : p.iacState = .normal) :
    telnetFilterAll p [telIac, telSB] = (opened p, []) := by
  simp [telnetFilterAll, telnetFilter, h, opened, telIac, telSB, telWill, telWont, telDo, telDont]

/-- Inside it a byte is gathered, but a doubled IAC is dropped. -/
theorem telnetFilterAll_stuff (h : q.iacState = .inSB) (b : UInt8) :
    telnetFilterAll q (stuff b) = (if b = telIac then q else subnegotiationByte q b, []) := by
  by_cases hIac : b = telIac
  · have hEta : { q with iacState := .inSB } = q := by rw [← h]
    subst hIac
    rw [if_pos rfl]
    simpa [telnetFilterAll, telnetFilter, stuff, h, TelnetReceiver.iac, telIac, telSE] using hEta
  · have hStuff : stuff b = [b] := if_neg hIac
    rw [hStuff]
    simp [telnetFilterAll, telnetFilter, h, hIac]

/-- Doubled bytes are lost on the way into the accumulator. -/
theorem telnetFilterAll_content (h : q.iacState = .inSB) (l : List UInt8) :
    telnetFilterAll q (l.flatMap stuff) = (gather q (l.filter (· ≠ telIac)), []) := by
  induction l generalizing q with
  | nil => rfl
  | cons b l ih =>
      rw [List.flatMap_cons, telnetFilterAll_append, telnetFilterAll_stuff h]
      by_cases hIac : b = telIac
      · rw [if_pos hIac, ih h, List.filter_cons_of_neg (by simpa using hIac)]
        rfl
      · rw [if_neg hIac, ih (by rw [subnegotiationByte_iacState, h]),
          List.filter_cons_of_pos (by simpa using hIac)]
        rfl

theorem subnegotiationDone_iacState (q : PortState) (state : IacState) :
    subnegotiationDone { q with iacState := state } =
      { subnegotiationDone q with iacState := state } := by
  unfold subnegotiationDone
  dsimp only
  split_ifs <;> rfl

theorem telnetFilterAll_close (h : q.iacState = .inSB) :
    telnetFilterAll q [telIac, telSE] =
      ({ subnegotiationDone q with iacState := .normal }, []) := by
  have hClose : telnetFilterAll q [telIac, telSE] =
      ({ subnegotiationDone { q with iacState := .sbIac } with iacState := .normal }, []) := by
    simp [telnetFilterAll, telnetFilter, h]
  rw [hClose, subnegotiationDone_iacState]

/-- From the option on, a subnegotiation is what the parser keeps of it. -/
theorem telnetFilterAll_subnegotiation (h : q.iacState = .inSB) (l : List UInt8) :
    telnetFilterAll q (l.flatMap stuff ++ [telIac, telSE]) =
      ({ settled q (l.filter (· ≠ telIac)) with iacState := .normal }, []) := by
  rw [telnetFilterAll_append, telnetFilterAll_content h,
    telnetFilterAll_close (by rw [gather_iacState, h])]
  rfl

/-- In front of IAC SE, the parser leaves a doubled 255 with the state it has. -/
theorem telnetFilterAll_absorb (h : q.iacState = .sbIac) :
    telnetFilterAll q (stuff telIac) = (q, []) := by
  have hEta : { q with iacState := .sbIac } = q := by rw [← h]
  simpa [telnetFilterAll, telnetFilter, stuff, h, TelnetReceiver.iac, telIac, telSE] using hEta

theorem telnetFilterAll_data (h : q.iacState = .normal) (l : List UInt8) :
    telnetFilterAll q (l.flatMap stuff) = (q, l) := by
  have hEta : { q with iacState := .normal } = q := by rw [← h]
  induction l with
  | nil => rfl
  | cons b l ih =>
      have hByte : telnetFilterAll q (stuff b) = (q, [b]) := by
        by_cases hIac : b = telIac
        · subst hIac
          simpa [telnetFilterAll, telnetFilter, stuff, h, TelnetReceiver.iac, telIac] using hEta
        · have hStuff : stuff b = [b] := if_neg hIac
          rw [hStuff]
          simp [telnetFilterAll, telnetFilter, h, hIac]
      rw [List.flatMap_cons, telnetFilterAll_append, hByte, ih]
      rfl

/-- A subnegotiation whose kept bytes are these changes nothing. -/
def Harmless (l : List UInt8) : Prop := ¬ NamesTerminal l ∧ ¬ EndsInSize l

/-- The values a query shows are still there. -/
def SameValues (before after : PortState) : Prop :=
  after.nawsCols = before.nawsCols ∧ after.nawsRows = before.nawsRows ∧ after.ttype = before.ttype

/-- A subnegotiation that is neither a size nor a type changes nothing. -/
theorem settled_harmless (hLen : p.sbLen = 0) (h : Harmless l) : SameValues p (settled p l) := by
  obtain ⟨hText, hSize⟩ := h
  have hLast : ¬ ∃ c b u, lastBlock l = teloptTtype :: c :: b :: u := by
    rintro ⟨c, b, u, hLast⟩
    obtain ⟨front, hFront, hBlocks⟩ := lastBlock_eq l
    exact hText ⟨front, c, b, u, hLast ▸ hFront, hBlocks⟩
  obtain ⟨hCols, hRows⟩ := settled_naws_of_not hLen hSize
  exact ⟨hCols, hRows, (settled_ttype_of_not hLen hLast).trans (gather_ttype_of_not hLen hText)⟩

/-- Bytes that are not harmless change the values of some port. -/
theorem harmless_of_settled (h : ∀ p : PortState, p.iacState = .normal →
    SameValues p (settled (opened p) l)) : Harmless l := by
  refine ⟨fun hText => ?_, fun hSize => ?_⟩
  · have : Nontrivial UInt8 := ⟨0, 1, by decide⟩
    obtain ⟨v, hv⟩ := gather_ttype_zero hText
    obtain ⟨w, hw⟩ := exists_ne v
    obtain ⟨-, -, hSame⟩ := h { PortState.zero with ttype := fun _ => w } rfl
    apply hw
    rw [← hv (opened { PortState.zero with ttype := fun _ => w }) rfl,
      ← settled_ttype_zero rfl, hSame]
  · have : Nontrivial UInt16 := ⟨0, 1, by decide⟩
    obtain ⟨u, hLast, hLong⟩ := hSize
    match u, hLong with
    | c0 :: c1 :: r0 :: r1 :: u, _ =>
        obtain ⟨w, hw⟩ := exists_ne (c0.toUInt16 <<< 8 ||| c1.toUInt16)
        obtain ⟨hSame, -⟩ := h { PortState.zero with nawsCols := w } rfl
        apply hw
        rw [← (settled_size (p := opened { PortState.zero with nawsCols := w }) rfl hLast).1, hSame]

namespace Subnegotiation

variable {x : Subnegotiation}

/-- The option and the bytes of the payload that are kept. -/
def kept (x : Subnegotiation) : List UInt8 := x.option :: x.payload.filter (· ≠ telIac)

theorem after_eq (h : p.iacState = .normal) (hOpt : x.option ≠ telIac) :
    x.after p = { settled (opened p) x.kept with iacState := .normal } := by
  have hStuff : x.encode = [telIac, telSB] ++
    ((x.option :: x.payload).flatMap stuff ++ [telIac, telSE]) := by
    have hSelf : stuff x.option = [x.option] := if_neg hOpt
    simp [encode, hSelf]
  rw [after, hStuff, telnetFilterAll_append, telnetFilterAll_open h,
    telnetFilterAll_subnegotiation rfl, List.filter_cons_of_pos (by simpa using hOpt)]
  rfl

/-- The subnegotiations that are decoded. What is left of a payload without its bytes 255
has to fit the 8-bit length, or to say the same again behind the wrap. -/
def Clean : Subnegotiation → Prop
  | naws w h => telIac ∉ (naws w h).payload
  | ttype s => ∃ c u, lastBlock (ttype s).kept = teloptTtype :: c :: u ∧ u ≠ [] ∧
      u.take 40 = s.bytes.take 40
  | other opt payload hNaws hTtype =>
      if opt = telIac then
        match payload.dropWhile (· = telIac) with
        | [] => False
        | b :: rest => b = telSE ∨ Harmless (rest.filter (· ≠ telIac))
      else Harmless (other opt payload hNaws hTtype).kept

/-- Decoded, and the parser is ready for what follows. -/
def Done (p : PortState) (x : Subnegotiation) : Prop :=
  (x.after p).iacState = .normal ∧ x.Decoded p (x.after p)

theorem done_iff (h : p.iacState = .normal) (hOpt : x.option ≠ telIac) :
    x.Done p ↔ x.Decoded p (settled (opened p) x.kept) := by
  rw [Done, after_eq h hOpt]
  cases x <;> exact and_iff_right rfl

/-- A 16-bit value from the bytes it is sent in. -/
theorem word_bytes (w : UInt16) :
    (w >>> 8).toUInt8.toUInt16 <<< 8 ||| w.toUInt8.toUInt16 = w := by
  have hw := w.toNat_lt
  have hLow : w.toNat % 256 < 2 ^ 8 := Nat.mod_lt _ (by omega)
  apply UInt16.toNat_inj.mp
  simp only [UInt16.toNat_or, UInt16.toNat_shiftLeft, UInt8.toNat_toUInt16, UInt16.toNat_toUInt8,
    UInt16.toNat_shiftRight, UInt16.reduceToNat, Nat.reduceMod, Nat.shiftRight_eq_div_pow]
  rw [Nat.mod_eq_of_lt (by rw [Nat.shiftLeft_eq]; omega), ← Nat.shiftLeft_add_eq_or_of_lt hLow,
    Nat.shiftLeft_eq]
  omega

/-- A window size is taken over from every parser state exactly if it has no 255 in it.
-/
theorem done_naws_iff (w h : UInt16) :
    (∀ p : PortState, p.iacState = .normal → (naws w h).Done p) ↔ (naws w h).Clean := by
  have hOpt : (naws w h).option ≠ telIac := show teloptNaws ≠ telIac by decide
  have hShort : (naws w h).kept.length < 256 := by
    have hLe := List.length_filter_le (· ≠ telIac) (naws w h).payload
    have hFour : (naws w h).payload.length = 4 := rfl
    rw [kept, List.length_cons]
    omega
  constructor
  · intro hDone hIac
    have : Nontrivial UInt16 := ⟨0, 1, by decide⟩
    have hNot : ¬ EndsInSize (naws w h).kept := by
      rintro ⟨u, hLast, hLong⟩
      have hLess : ((naws w h).payload.filter (· ≠ telIac)).length < 4 := by
        apply List.length_filter_lt_length_iff_exists.mpr
        exact ⟨telIac, hIac, by simp⟩
      rw [lastBlock_short hShort, kept] at hLast
      rw [← (List.cons.inj hLast).2] at hLong
      omega
    obtain ⟨v, hv⟩ := exists_ne w
    have hCols := ((done_iff rfl hOpt).mp (hDone { PortState.zero with nawsCols := v } rfl)).1
    rw [(settled_naws_of_not rfl hNot).1] at hCols
    exact hv hCols
  · intro hClean p hp
    have hKept : (naws w h).kept = teloptNaws :: (naws w h).payload := by
      rw [kept, List.filter_eq_self.mpr]
      · rfl
      · intro b hb
        simpa using fun hEq : b = telIac => hClean (hEq ▸ hb)
    obtain ⟨hCols, hRows⟩ := settled_size (p := opened p) rfl ((lastBlock_short hShort).trans hKept)
    rw [done_iff hp hOpt]
    exact ⟨hCols.trans (word_bytes w), hRows.trans (word_bytes h)⟩

/-- A terminal type is taken over from every parser state exactly under the condition.
-/
theorem done_ttype_iff (s : CString) :
    (∀ p : PortState, p.iacState = .normal → (ttype s).Done p) ↔ (ttype s).Clean := by
  have hOpt : (ttype s).option ≠ telIac := show teloptTtype ≠ telIac by decide
  have hKept : (ttype s).kept = teloptTtype :: 0 :: s.bytes.filter (· ≠ telIac) := by
    rw [kept, payload, List.filter_cons_of_pos (by decide)]
    rfl
  have hNul : ∀ b ∈ (ttype s).kept.drop 2, b ≠ 0 := by
    rintro b hb rfl
    rw [hKept] at hb
    exact s.noNul (List.mem_filter.mp hb).1
  constructor
  · intro hDone
    have hHolds := (done_iff rfl hOpt).mp (hDone { PortState.zero with ttype := fun _ => 1 } rfl)
    by_cases hLast : ∃ c b u, lastBlock (ttype s).kept = teloptTtype :: c :: b :: u
    · obtain ⟨c, b, u, hLast⟩ := hLast
      refine ⟨c, b :: u, hLast, by simp, ?_⟩
      apply (settled_text rfl hLast).unique hHolds
      · intro hZero
        apply hNul 0 _ rfl
        have hDrop : b :: u = ((ttype s).kept.drop 2).drop
          (256 * ((ttype s).kept.length / 256)) := by
          rw [List.drop_drop, Nat.add_comm, ← List.drop_drop, ← lastBlock, hLast]
          rfl
        exact List.mem_of_mem_drop (hDrop ▸ List.mem_of_mem_take hZero)
      · exact fun hZero => s.noNul (List.mem_of_mem_take hZero)
    · have hEnd := hHolds.terminated
      rw [settled_ttype_of_not rfl hLast] at hEnd
      exact absurd hEnd (gather_ttype_ne_zero rfl (fun _ => show (1 : UInt8) ≠ 0 by decide) hNul _)
  · rintro ⟨c, u, hLast, hSome, hText⟩ p hp
    cases u with
    | nil => exact absurd rfl hSome
    | cons b u =>
        have hHolds := settled_text (p := opened p) rfl hLast
        rw [hText] at hHolds
        exact (done_iff hp hOpt).mpr hHolds

/-- The subnegotiation of an option 255, whose code ends the subnegotiation state. -/
theorem after_extended (h : p.iacState = .normal) (hOpt : x.option = telIac) :
    x.after p = (telnetFilterAll { opened p with iacState := .sbIac }
      ((x.payload.dropWhile (· = telIac)).flatMap stuff ++ [telIac, telSE])).1 := by
  have hOpen : telnetFilterAll p [telIac, telSB, telIac] =
      ({ opened p with iacState := .sbIac }, []) := by
    rw [show [telIac, telSB, telIac] = [telIac, telSB] ++ [telIac] from rfl,
      telnetFilterAll_append, telnetFilterAll_open h]
    simp [telnetFilterAll, telnetFilter, opened]
  rw [after, encode, hOpt, List.append_assoc, telnetFilterAll_append, hOpen]
  have hAbsorb (q : PortState) (hq : q.iacState = .sbIac) (l back : List UInt8) :
      telnetFilterAll q (l.flatMap stuff ++ back) =
        telnetFilterAll q ((l.dropWhile (· = telIac)).flatMap stuff ++ back) := by
    induction l with
    | nil => rfl
    | cons b l ih =>
        by_cases hIac : b = telIac
        · subst hIac
          rw [List.flatMap_cons, List.append_assoc, telnetFilterAll_append,
            telnetFilterAll_absorb hq,
            List.dropWhile_cons_of_pos (by simp)]
          simpa using ih
        · rw [List.dropWhile_cons_of_neg (by simpa using hIac)]
  rw [← hAbsorb _ rfl]

/-- Another option is ignored from every parser state exactly under the condition. -/
theorem done_other_iff (opt : UInt8) (payload : List UInt8) (hNaws : opt ≠ teloptNaws)
    (hTtype : opt ≠ teloptTtype) :
    (∀ p : PortState, p.iacState = .normal → (other opt payload hNaws hTtype).Done p) ↔
      (other opt payload hNaws hTtype).Clean := by
  have hKeeps (l : List UInt8) (hAfter : ∀ p, p.iacState = .normal →
      (other opt payload hNaws hTtype).after p =
        { settled (opened p) l with iacState := .normal }) :
      (∀ p : PortState, p.iacState = .normal → (other opt payload hNaws hTtype).Done p) ↔
        Harmless l := by
    constructor
    · intro hDone
      apply harmless_of_settled
      intro p hp
      have hSame := (hDone p hp).2
      rw [hAfter p hp] at hSame
      exact hSame
    · intro hHarmless p hp
      have hSame := settled_harmless (p := opened p) rfl hHarmless
      rw [Done, hAfter p hp]
      exact ⟨rfl, hSame⟩
  by_cases hOpt : opt = telIac
  · rw [Clean, if_pos hOpt]
    have hAfter (p : PortState) (hp : p.iacState = .normal) := after_extended
      (x := other opt payload hNaws hTtype) hp hOpt
    cases hRest : payload.dropWhile (· = telIac) with
    | nil =>
        refine iff_of_false (fun hDone => ?_) not_false
        have hReady := (hDone PortState.zero rfl).1
        rw [hAfter _ rfl, Subnegotiation.payload, hRest] at hReady
        revert hReady
        decide
    | cons b rest =>
        have hOther : b ≠ telIac := by
          have hHead := List.head?_dropWhile_not (· = telIac) payload
          rw [hRest] at hHead
          simpa using hHead
        have hStuff : stuff b = [b] := if_neg hOther
        by_cases hSe : b = telSE
        · refine iff_of_true (fun p hp => ?_) (Or.inl hSe)
          have hEnd : (other opt payload hNaws hTtype).after p =
            { opened p with iacState := .normal } := by
            have hOver : telnetFilterAll { opened p with iacState := .sbIac } [telSE] =
                ({ opened p with iacState := .normal }, []) := rfl
            have hStray : telnetFilterAll { opened p with iacState := .normal } [telIac, telSE] =
                ({ opened p with iacState := .normal }, []) := rfl
            rw [hAfter p hp, Subnegotiation.payload, hRest, List.flatMap_cons, hStuff, hSe,
              List.append_assoc, telnetFilterAll_append, telnetFilterAll_append, hOver,
              telnetFilterAll_data rfl, hStray]
          rw [Done, hEnd]
          exact ⟨rfl, rfl, rfl, rfl⟩
        · show _ ↔ b = telSE ∨ Harmless _
          rw [or_iff_right hSe]
          apply hKeeps
          intro p hp
          have hByte : telnetFilterAll { opened p with iacState := .sbIac } [b] =
            (opened p, []) := by
            simp [telnetFilterAll, telnetFilter, hSe, opened]
          rw [hAfter p hp, Subnegotiation.payload, hRest, List.flatMap_cons, hStuff,
            List.append_assoc, telnetFilterAll_append, hByte, telnetFilterAll_subnegotiation rfl]
  · rw [Clean, if_neg hOpt]
    exact hKeeps _ fun p hp => after_eq hp hOpt

theorem done_clean_iff (x : Subnegotiation) :
    (∀ p : PortState, p.iacState = .normal → x.Done p) ↔ x.Clean := by
  cases x with
  | naws w h => exact done_naws_iff w h
  | ttype s => exact done_ttype_iff s
  | other opt payload hNaws hTtype => exact done_other_iff opt payload hNaws hTtype

/-- A sequence of clean subnegotiations is decoded one by one. The induction is on the
sequence. -/
theorem decodedAll_of_clean {xs : List Subnegotiation} (h : p.iacState = .normal)
    (hClean : ∀ x ∈ xs, x.Clean) : DecodedAll xs p := by
  induction xs generalizing p with
  | nil => trivial
  | cons x xs ih =>
      obtain ⟨hReady, hDecoded⟩ := (done_clean_iff x).mpr (hClean x List.mem_cons_self) p h
      exact ⟨hDecoded, ih hReady fun y hy => hClean y (List.mem_cons_of_mem x hy)⟩

end Subnegotiation

end Framing

/-- Every sequence of clean subnegotiations is decoded, and a subnegotiation that is not
clean is not decoded by some port. -/
theorem subnegotiations_decoded (xs : List Subnegotiation) (x : Subnegotiation) :
    ((∀ y ∈ xs, y.Clean) →
      ∀ p : PortState, p.iacState = .normal → Subnegotiation.DecodedAll xs p) ∧
      ((∀ p : PortState, p.iacState = .normal → x.Done p) ↔ x.Clean) :=
  ⟨fun hClean _ h => Subnegotiation.decodedAll_of_clean h hClean,
    Subnegotiation.done_clean_iff x⟩

/-- `ANSI`. -/
def ansi : CString where
  bytes := [0x41, 0x4E, 0x53, 0x49]
  noNul := by decide

/-- A window of 132 by 37 and the terminal type ANSI. -/
theorem subnegotiations_decoded_typical :
    Subnegotiation.DecodedAll [.naws 132 37, .ttype ansi] PortState.zero := by
  apply (subnegotiations_decoded [.naws 132 37, .ttype ansi] (.naws 132 37)).1 _ _ rfl
  intro x hx
  rcases List.mem_pair.mp hx with rfl | rfl
  · show telIac ∉ (Subnegotiation.naws 132 37).payload
    decide
  · exact ⟨0, ansi.bytes, by decide, by decide, rfl⟩

/-- A window of 255 columns is not taken over. -/
theorem wide_window_lost : PortState.zero.iacState = .normal ∧
    ¬ Subnegotiation.DecodedAll [.naws 255 24] PortState.zero := by
  refine ⟨rfl, fun hDecoded => ?_⟩
  have hCols := hDecoded.1.1
  revert hCols
  decide +kernel

end Vmodem
