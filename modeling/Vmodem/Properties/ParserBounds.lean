import Vmodem.Properties.TerminalType

/-! The stores of the telnet parser and the scan of the terminal type stay inside their arrays,
whatever the callers send. -/

namespace Vmodem

/-- An array of the port after a store. -/
def ParserStore.into (st : Option ParserStore) (array : ParserArray)
    (f : Nat → UInt8) : Nat → UInt8 :=
  match st with
  | none => f
  | some st => fun k => if st.array = array ∧ k = st.index then st.value else f k

/-- The parser's arrays in bounds, now and behind the next byte or the next connection. -/
structure PortState.InBounds (p : PortState) : Prop where
  filter : ∀ b, ∀ st ∈ filterStore p b, st.index < st.array.size
  reset : resetStore.index < resetStore.array.size
  last : p.ttype 40 = 0
  scan : ∀ room, ∀ k ∈ scanned p.ttype room 0, k < ParserArray.ttype.size

section Stores

variable {p : PortState} {b : UInt8}

/-- The arrays of a port, with a store made or not. -/
structure StoredBy (st : Option ParserStore) (p q : PortState) : Prop where
  sbBuf : q.sbBuf = ParserStore.into st .sbBuf p.sbBuf
  ttype : q.ttype = ParserStore.into st .ttype p.ttype

theorem StoredBy.nothing {q : PortState} (hBuf : q.sbBuf = p.sbBuf) (hText : q.ttype = p.ttype) :
    StoredBy none p q := ⟨hBuf, hText⟩

/-- A store into `sb_buf` writes one cell of it. -/
theorem StoredBy.buffer {q : PortState} {k : Nat} {v : UInt8} (hText : q.ttype = p.ttype)
    (hBuf : q.sbBuf = fun j => if j = k then v else p.sbBuf j) :
    StoredBy (some ⟨.sbBuf, k, v⟩) p q := by
  refine ⟨?_, ?_⟩
  · rw [hBuf]
    funext j
    simp [ParserStore.into]
  · rw [hText]
    funext j
    simp [ParserStore.into]

/-- A store into the terminal type writes one cell of it. -/
theorem StoredBy.text {q : PortState} {k : Nat} {v : UInt8} (hBuf : q.sbBuf = p.sbBuf)
    (hText : q.ttype = fun j => if j = k then v else p.ttype j) :
    StoredBy (some ⟨.ttype, k, v⟩) p q := by
  refine ⟨?_, ?_⟩
  · rw [hBuf]
    funext j
    simp [ParserStore.into]
  · rw [hText]
    funext j
    simp [ParserStore.into]

/-- A byte of a subnegotiation is stored where the list of stores says. -/
theorem subnegotiationByte_stored :
    StoredBy (subnegotiationStore p b) p (subnegotiationByte p b) := by
  unfold subnegotiationStore subnegotiationByte
  dsimp only
  split_ifs
  · exact .nothing rfl rfl
  · exact .text rfl rfl
  · exact .nothing rfl rfl
  · exact .buffer rfl rfl
  · exact .nothing rfl rfl

/-- The end of a terminal type is stored where the list of stores says. -/
theorem subnegotiationDone_stored : StoredBy (terminatorStore p) p (subnegotiationDone p) := by
  unfold terminatorStore subnegotiationDone
  dsimp only
  split_ifs
  · exact .text rfl rfl
  · exact .text rfl rfl
  · exact .nothing rfl rfl
  · exact .nothing rfl rfl

/-- There are no other stores. -/
theorem telnetFilter_stored (p : PortState) (b : UInt8) :
    StoredBy (filterStore p b) p (telnetFilter p b).port := by
  unfold filterStore telnetFilter
  cases p.iacState with
  | normal | sawFF =>
      dsimp only
      split_ifs <;> exact .nothing rfl rfl
  | sawCmd =>
      obtain ⟨_, _, _, _, _, hPort⟩ := telnetHandleOption_renegotiates p p.iacCmd b
      dsimp only
      rw [hPort]
      exact .nothing rfl rfl
  | inSB =>
      dsimp only
      split_ifs
      · exact .nothing rfl rfl
      · exact subnegotiationByte_stored
  | sbIac =>
      dsimp only
      split_ifs
      · exact ⟨subnegotiationDone_stored.sbBuf, subnegotiationDone_stored.ttype⟩
      · exact .nothing rfl rfl

/-- The reset of the parser is a store at the front. -/
theorem telnetReset_stored (p : PortState) : StoredBy (some resetStore) p (telnetReset p) :=
  .text rfl rfl

/-- The length is below its bound before it is used as an index. -/
theorem subnegotiationStore_index : ∀ st ∈ subnegotiationStore p b, st.index < st.array.size := by
  intro st hMem
  rw [Option.mem_def, subnegotiationStore] at hMem
  split_ifs at hMem with hFirst hText hRoom hShort
  · obtain rfl := Option.some.inj hMem
    exact Nat.lt_succ_of_lt (UInt8.lt_iff_toNat_lt.mp hRoom)
  · obtain rfl := Option.some.inj hMem
    have hPos : 1 ≤ p.sbLen.toNat :=
      Nat.one_le_iff_ne_zero.mpr fun hZero => hFirst (UInt8.toNat_inj.mp hZero)
    have hLess : (p.sbLen - 1).toNat = p.sbLen.toNat - 1 :=
      UInt8.toNat_sub_of_le _ _ (UInt8.le_iff_toNat_le.mpr hPos)
    have hBound : p.sbLen.toNat ≤ 8 := UInt8.le_iff_toNat_le.mp hShort
    show (p.sbLen - 1).toNat < 8
    omega

/-- The end of a terminal type lies inside its array. -/
theorem terminatorStore_index : ∀ st ∈ terminatorStore p, st.index < st.array.size := by
  intro st hMem
  rw [Option.mem_def, terminatorStore] at hMem
  split_ifs at hMem with hText hLong
  · obtain rfl := Option.some.inj hMem
    decide
  · obtain rfl := Option.some.inj hMem
    exact Nat.lt_succ_of_le (UInt8.le_iff_toNat_le.mp (UInt8.not_lt.mp hLong))

/-- Every store of the parser lies inside its array. -/
theorem filterStore_index (p : PortState) (b : UInt8) :
    ∀ st ∈ filterStore p b, st.index < st.array.size := by
  intro st hMem
  rw [Option.mem_def, filterStore] at hMem
  cases hState : p.iacState with
  | normal | sawFF | sawCmd =>
      rw [hState] at hMem
      cases hMem
  | inSB =>
      rw [hState] at hMem
      dsimp only at hMem
      split_ifs at hMem
      exact subnegotiationStore_index st hMem
  | sbIac =>
      rw [hState] at hMem
      dsimp only at hMem
      split_ifs at hMem
      exact terminatorStore_index st hMem

/-- A scan does not get past a NUL. -/
theorem scanned_le {src : Nat → UInt8} {stop room len : Nat} (hStop : src stop = 0)
    (hLen : len ≤ stop) : ∀ k ∈ scanned src room len, k ≤ stop := by
  induction room generalizing len with
  | zero =>
      intro k hMem
      obtain rfl := List.mem_singleton.mp hMem
      exact hLen
  | succ room ih =>
      intro k hMem
      rw [scanned] at hMem
      rcases List.mem_cons.mp hMem with rfl | hMem
      · exact hLen
      · split_ifs at hMem with hMore
        · have hBefore : len ≠ stop := by
            rintro rfl
            exact hMore hStop
          exact ih (by omega) k hMem
        · cases hMem

/-- With its last cell zero the terminal type ends inside its array, so the parser reads
inside. -/
theorem PortState.inBounds (h : p.ttype 40 = 0) : p.InBounds where
  filter := filterStore_index p
  reset := by decide
  last := h
  scan _ k hMem := Nat.lt_succ_of_le (scanned_le h (Nat.zero_le 40) k hMem)

end Stores

/-- A port that has had these connections, each with the bytes received on it. -/
def afterCalls (p : PortState) (calls : List (List UInt8)) : PortState :=
  calls.foldl (fun p bs => (telnetFilterAll (telnetReset p) bs).1) p

section Runs

variable {p : PortState}

/-- The parser never writes the last cell. The induction is on the stream. -/
theorem telnetFilterAll_last (h : p.ttype 40 = 0) (bs : List UInt8) :
    (telnetFilterAll p bs).1.ttype 40 = 0 := by
  induction bs generalizing p with
  | nil => exact h
  | cons b bs ih => exact ih (telnetFilter_ttype_last h b)

theorem afterCalls_last (h : p.ttype 40 = 0) (calls : List (List UInt8)) :
    (afterCalls p calls).ttype 40 = 0 := by
  induction calls generalizing p with
  | nil => exact h
  | cons bs calls ih => exact ih (telnetFilterAll_last (p := telnetReset p) h bs)

theorem Reached.ttype_last {past : Past} {c : Config} (h : Reached past c) (i : PortIdx) :
    (c.sys.ports i).ttype 40 = 0 := by
  apply h.parser (P := fun _ p => p.ttype 40 = 0) i
  · rfl
  · intro _ p q hSame hLast
    rw [hSame.ttype]
    exact hLast
  · exact fun _ _ hLast => hLast
  · exact fun _ _ b hLast => telnetFilter_ttype_last hLast b

end Runs

/-- The parser's arrays stay in bounds for every stream over any number of connections, and in
every run of the driver. -/
theorem parser_in_bounds :
    (∀ calls, (afterCalls PortState.zero calls).InBounds) ∧
      (∀ p : PortState, (∀ b, StoredBy (filterStore p b) p (telnetFilter p b).port) ∧
        StoredBy (some resetStore) p (telnetReset p)) ∧
      (∀ (past : Past) (c : Config), Reached past c → ∀ i, (c.sys.ports i).InBounds ∧
        ∀ bufsz, ∀ k ∈ ttypeScanned i bufsz c.sys, k < 41) := by
  refine ⟨fun calls => PortState.inBounds (afterCalls_last rfl calls),
    fun p => ⟨telnetFilter_stored p, telnetReset_stored p⟩, ?_⟩
  intro past c hReached i
  have hBounds := PortState.inBounds (hReached.ttype_last i)
  refine ⟨hBounds, fun bufsz k hMem => ?_⟩
  unfold ttypeScanned at hMem
  split_ifs at hMem
  · exact hBounds.scan _ k hMem
  · cases hMem

end Vmodem
