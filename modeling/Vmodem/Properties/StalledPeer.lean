import Vmodem.Tls.Stream

/-! A peer that falls silent: where the reads of the record layer return, and where they wait
for ever. The counter that should end them is an `int` compared with 50000. -/

namespace Vmodem.Tls

open BoundedLoop (Ends run)

/-- What the results bring, as one feed. -/
def Arrivals.feed (a : Arrivals) : Feed := ⟨a.portions.flatten, a.closes⟩

/-- The peer falls silent before so many bytes. -/
def Feed.Stalls (feed : Feed) (len : Nat) : Prop := feed.bytes.length < len ∧ ¬ feed.closes

/-- The length in the header of the next record. -/
def Feed.declared (feed : Feed) : Nat :=
  (feed.bytes.getD 3 0).toNat * 256 + (feed.bytes.getD 4 0).toNat

/-- The peer falls silent in the middle of a record that is read. -/
def Feed.StallsInRecord (feed : Feed) : Prop :=
  feed.Stalls 5 ∨ feed.declared ≤ maxRecord + 2048 ∧ feed.Stalls (5 + feed.declared)

section Loop

variable {len : Nat} {s : Receiving}

theorem int16_lt (x : Int) : int16 x < 32768 := by
  unfold int16
  omega

/-- The counter never gets where the loop would give up. -/
theorem recvPass_again {bs : List UInt8} {a : Arrivals} (hLen : s.buf.length < len)
    (hRecv : recv (len - s.buf.length) s.arrivals = (some bs, a)) :
    recvPass len s = .again ⟨s.buf ++ bs, int16 (s.loops + 1), a⟩ := by
  have hCounter := int16_lt (s.loops + 1)
  unfold recvPass
  rw [if_neg (by omega), hRecv]
  dsimp only
  rw [if_neg (by omega)]

theorem recvPass_done (h : len ≤ s.buf.length) : recvPass len s = .leave (some s.buf, s.arrivals) :=
  if_pos h

theorem recvPass_fails (hLen : s.buf.length < len) {a : Arrivals}
    (hRecv : recv (len - s.buf.length) s.arrivals = (none, a)) :
    recvPass len s = .leave (none, a) := by
  unfold recvPass
  rw [if_neg (by omega), hRecv]

theorem recvLoop_steady : BoundedLoop.Steady fun _ => recvPass len := fun _ _ _ => rfl

/-- A pass that goes on leaves the rest to the loop. -/
theorem recvLoop_again {n : Nat} {t : Receiving} (h : recvPass len s = .again t) :
    run (fun _ => recvPass len) (n + 1) s = run (fun _ => recvPass len) n t :=
  BoundedLoop.run_again h

/-- What the loop ends with. -/
structure Collects (len : Nat) (s : Receiving) (out : Option (List UInt8) × Arrivals) : Prop where
  whole : len ≤ s.buf.length + s.arrivals.feed.bytes.length →
    out.1 = some (s.buf ++ s.arrivals.feed.bytes.take (len - s.buf.length)) ∧
      out.2.feed = ⟨s.arrivals.feed.bytes.drop (len - s.buf.length), s.arrivals.closes⟩
  short : s.buf.length + s.arrivals.feed.bytes.length < len → out.1 = none

theorem Collects.done (h : s.buf.length = len) : Collects len s (some s.buf, s.arrivals) where
  whole _ := by
    rw [h, Nat.sub_self, List.take_zero, List.drop_zero, List.append_nil]
    exact ⟨rfl, rfl⟩
  short hShort := by omega

/-- A result counts as if its bytes had been in the buffer. -/
theorem Collects.again {bs : List UInt8} {rest : List (List UInt8)} {loops : Int}
    {out : Option (List UInt8) × Arrivals}
    (h : Collects len ⟨s.buf ++ bs, loops, ⟨rest, s.arrivals.closes⟩⟩ out)
    (hBytes : s.arrivals.portions.flatten = bs ++ rest.flatten)
    (hFits : bs.length ≤ len - s.buf.length) : Collects len s out := by
  have hFeed : s.arrivals.feed.bytes = bs ++ rest.flatten := hBytes
  have hTotal : s.buf.length + s.arrivals.feed.bytes.length =
      (s.buf ++ bs).length + rest.flatten.length := by
    rw [hFeed, List.length_append, List.length_append, Nat.add_assoc]
  have hSkip : len - s.buf.length - bs.length = len - (s.buf ++ bs).length := by
    rw [List.length_append]
    omega
  refine ⟨fun hWhole => ?_, fun hShort => ?_⟩
  · obtain ⟨hFirst, hRest⟩ := h.whole (Nat.le_trans hWhole (Nat.le_of_eq hTotal))
    rw [hFirst, hRest, hFeed, List.take_append, List.take_of_length_le hFits, List.drop_append,
      List.drop_of_length_le hFits, hSkip, List.append_assoc, List.nil_append]
    exact ⟨rfl, rfl⟩
  · exact h.short (Nat.lt_of_le_of_lt (Nat.le_of_eq hTotal.symm) hShort)

/-- Where the peer does not fall silent, the loop ends within as many passes as there are
results, and two more. -/
theorem recvLoop_ends (hBuf : s.buf.length ≤ len)
    (h : len ≤ s.buf.length + s.arrivals.feed.bytes.length ∨ s.arrivals.closes) :
    ∃ out, run (fun _ => recvPass len) (s.arrivals.portions.length + 2) s = .ended out ∧
      Collects len s out := by
  induction hCount : s.arrivals.portions.length using Nat.strongRecOn generalizing s with
  | ind m ih =>
      by_cases hDone : s.buf.length = len
      · exact ⟨_, BoundedLoop.run_leave (recvPass_done (Nat.le_of_eq hDone.symm)), .done hDone⟩
      have hLess : s.buf.length < len := by omega
      rcases recv_cases (len - s.buf.length) s.arrivals with
        ⟨hNil, hRecv⟩ | ⟨bs, rest, hRecv, hFits, hBytes, hCase⟩
      · have hEmpty : s.arrivals.feed.bytes = [] := by
          rw [Arrivals.feed, hNil]
          rfl
        have hCloses : s.arrivals.closes := by
          rcases h with hEnough | hCloses
          · rw [hEmpty, List.length_nil] at hEnough
            omega
          · exact hCloses
        rw [if_pos hCloses] at hRecv
        refine ⟨_, BoundedLoop.run_leave (recvPass_fails hLess hRecv), fun hWhole => ?_,
          fun _ => rfl⟩
        rw [hEmpty, List.length_nil] at hWhole
        omega
      · have hPass := recvPass_again hLess hRecv
        rw [recvLoop_again hPass]
        have hFull : (s.buf ++ bs).length ≤ len := by
          rw [List.length_append]
          omega
        rcases hCase with hFewer | ⟨hSame, hAll⟩
        · have hMore : len ≤ (s.buf ++ bs).length + rest.flatten.length ∨ s.arrivals.closes := by
            rcases h with hEnough | hCloses
            · left
              have hTotal : s.arrivals.feed.bytes.length = bs.length + rest.flatten.length := by
                rw [Arrivals.feed, hBytes, List.length_append]
              rw [List.length_append]
              omega
            · exact .inr hCloses
          obtain ⟨out, hRun, hCollects⟩ := ih rest.length (hCount ▸ hFewer)
            (s := ⟨s.buf ++ bs, int16 (s.loops + 1), ⟨rest, s.arrivals.closes⟩⟩) hFull hMore rfl
          refine ⟨out, recvLoop_steady.mono ?_ hRun, hCollects.again hBytes hFits⟩
          omega
        · have hEnd : (s.buf ++ bs).length = len := by
            rw [List.length_append]
            omega
          refine ⟨_, BoundedLoop.run_leave (recvPass_done (Nat.le_of_eq hEnd.symm)), ?_⟩
          exact (Collects.done (s := ⟨s.buf ++ bs, _, ⟨rest, s.arrivals.closes⟩⟩) hEnd).again
            hBytes hFits

/-- Not enough bytes will come, and no failure. -/
def Receiving.Starves (len : Nat) (s : Receiving) : Prop :=
  s.buf.length + s.arrivals.feed.bytes.length < len ∧ ¬ s.arrivals.closes

/-- A loop that starves goes on starving: there is neither a byte nor a close. -/
theorem Receiving.Starves.stays (h : s.Starves len) : (∃ t, recvPass len s = .stuck t) ∨
    ∃ t : Receiving, t.Starves len ∧ recvPass len s = .again t := by
  obtain ⟨hShort, hOpen⟩ := h
  have hLess : s.buf.length < len := by omega
  right
  rcases recv_cases (len - s.buf.length) s.arrivals
    with ⟨hNil, hRecv⟩ | ⟨bs, rest, hRecv, -, hBytes, -⟩
  · rw [if_neg hOpen] at hRecv
    refine ⟨⟨s.buf ++ [], _, s.arrivals⟩, ⟨?_, hOpen⟩, recvPass_again hLess hRecv⟩
    rwa [List.append_nil]
  · refine ⟨⟨s.buf ++ bs, _, ⟨rest, _⟩⟩, ⟨?_, hOpen⟩, recvPass_again hLess hRecv⟩
    have hTotal : s.arrivals.feed.bytes.length = bs.length + rest.flatten.length := by
      rw [Arrivals.feed, hBytes, List.length_append]
    show (s.buf ++ bs).length + rest.flatten.length < len
    rw [List.length_append]
    omega

/-- A peer that falls silent too early is waited for, whatever has arrived. -/
theorem recvLoop_hangs (h : s.buf.length + s.arrivals.feed.bytes.length < len)
    (hOpen : ¬ s.arrivals.closes) (out : Option (List UInt8) × Arrivals) :
    ¬ Ends (fun _ => recvPass len) s out := by
  have hStays (_ : Nat) (s : Receiving) (hStarves : s.Starves len) :
      (∃ t, recvPass len s = .stuck t) ∨ ∃ t : Receiving, t.Starves len ∧
        recvPass len s = .again t :=
    hStarves.stays
  exact BoundedLoop.not_ends hStays ⟨h, hOpen⟩

/-- `tls_recv_all` before its first pass. -/
def Receiving.start (a : Arrivals) : Receiving := ⟨[], 0, a⟩

/-- The call returns, after as many calls of `recv()` as there are results and one more. -/
def RecvReturns (len : Nat) (a : Arrivals) : Prop :=
  ∃ out, run (fun _ => recvPass len) (a.portions.length + 2) (.start a) = .ended out

/-- The loop returns exactly if its peer does not stall in the middle of it. -/
theorem recvReturns_iff (len : Nat) (a : Arrivals) : RecvReturns len a ↔ ¬ a.feed.Stalls len := by
  constructor
  · rintro ⟨out, hRun⟩ ⟨hShort, hOpen⟩
    apply recvLoop_hangs (s := .start a) (by simpa [Receiving.start] using hShort) hOpen out
    exact ⟨_, hRun⟩
  · intro hFlows
    have hEnough : len ≤ a.feed.bytes.length ∨ a.closes := by
      by_contra hNot
      rw [not_or, Nat.not_le] at hNot
      exact hFlows hNot
    obtain ⟨out, hRun, -⟩ := @recvLoop_ends len (.start a) (Nat.zero_le _)
      (by simpa [Receiving.start] using hEnough)
    exact ⟨out, hRun⟩

/-- How `tls_recv_all` ends, read off the loop. -/
theorem tlsRecvAll_loop (len : Nat) (a : Arrivals) :
    match tlsRecvAll len a.feed with
    | .done (bs, feed) => ∃ a', Ends (fun _ => recvPass len) (.start a) (some bs, a') ∧
        a'.feed = feed
    | .fails => ∃ a', Ends (fun _ => recvPass len) (.start a) (none, a')
    | .hangs => ∀ out, ¬ Ends (fun _ => recvPass len) (.start a) out := by
  unfold tlsRecvAll
  by_cases hEnough : len ≤ a.feed.bytes.length
  · rw [if_pos hEnough]
    obtain ⟨⟨bs, a'⟩, hRun, hCollects⟩ := @recvLoop_ends len (.start a) (Nat.zero_le _)
      (.inl (by simpa [Receiving.start] using hEnough))
    obtain ⟨rfl, hRest⟩ := hCollects.whole (by simpa [Receiving.start] using hEnough)
    exact ⟨a', ⟨_, hRun⟩, hRest⟩
  · rw [if_neg hEnough]
    by_cases hCloses : a.feed.closes
    · rw [if_pos hCloses]
      obtain ⟨⟨bs, a'⟩, hRun, hCollects⟩ := @recvLoop_ends len (.start a) (Nat.zero_le _)
        (.inr hCloses)
      obtain rfl := hCollects.short (by simpa [Receiving.start] using hEnough)
      exact ⟨a', _, hRun⟩
    · rw [if_neg hCloses]
      apply recvLoop_hangs _ hCloses
      simpa [Receiving.start] using hEnough

end Loop

section Records

variable {c : VTlsConn} {feed : Feed}

/-- In its model over a feed `tls_recv_all` hangs exactly if the feed stalls before all
bytes have come. -/
theorem tlsRecvAll_hangs_iff {n : Nat} : tlsRecvAll n feed = .hangs ↔ feed.Stalls n := by
  unfold tlsRecvAll Feed.Stalls
  split_ifs with hEnough hCloses
  · exact iff_of_false (by simp) (by omega)
  · exact iff_of_false (by simp) (fun h => h.2 hCloses)
  · exact iff_of_true rfl ⟨by omega, hCloses⟩

/-- A record hangs exactly if the peer stalls in its header or in its body. -/
theorem tlsReadRecord_hangs_iff : tlsReadRecord c feed = .hangs ↔ feed.StallsInRecord := by
  have hHeader : tlsRecvAll 5 feed = .hangs ↔ feed.Stalls 5 := tlsRecvAll_hangs_iff
  unfold tlsReadRecord Feed.StallsInRecord
  cases hRead : tlsRecvAll 5 feed with
  | hangs => exact iff_of_true rfl (.inl (hHeader.mp hRead))
  | fails =>
      have hCloses : feed.closes := by
        unfold tlsRecvAll at hRead
        split_ifs at hRead with _ hCloses
        exact hCloses
      refine iff_of_false (by simp) ?_
      rintro (hFirst | ⟨-, hRest⟩)
      · exact hFirst.2 hCloses
      · exact hRest.2 hCloses
  | done out =>
      have hEnough : 5 ≤ feed.bytes.length := by
        by_contra hShort
        unfold tlsRecvAll at hRead
        rw [if_neg hShort] at hRead
        split_ifs at hRead
      have hOut : out = (feed.bytes.take 5, { feed with bytes := feed.bytes.drop 5 }) := by
        rw [tlsRecvAll, if_pos hEnough] at hRead
        injection hRead with hRead
        exact hRead.symm
      have hLen : (out.1.getD 3 0).toNat * 256 + (out.1.getD 4 0).toNat = feed.declared := by
        rw [hOut]
        simp [Feed.declared, List.getD_eq_getElem?_getD]
      have hFirst : ¬ feed.Stalls 5 := fun h => by
        have := h.1
        omega
      obtain ⟨hdr, feed'⟩ := out
      dsimp only at hLen ⊢
      rw [hLen]
      have hFeed : feed' = { feed with bytes := feed.bytes.drop 5 } := congrArg Prod.snd hOut
      have hRest : feed'.Stalls feed.declared ↔ feed.Stalls (5 + feed.declared) := by
        rw [hFeed]
        unfold Feed.Stalls
        rw [List.length_drop]
        constructor <;> exact fun h => ⟨by omega, h.2⟩
      by_cases hLarge : maxRecord + 2048 < feed.declared
      · rw [if_pos hLarge]
        refine iff_of_false (by simp) ?_
        rintro (h | ⟨hSmall, -⟩)
        · exact hFirst h
        · omega
      · have hHere : (feed.Stalls 5 ∨ feed.declared ≤ maxRecord + 2048 ∧
          feed.Stalls (5 + feed.declared)) ↔
            tlsRecvAll feed.declared feed' = .hangs := by
          rw [tlsRecvAll_hangs_iff, hRest, or_iff_right hFirst]
          exact and_iff_right (by omega)
        rw [if_neg hLarge, hHere]
        cases tlsRecvAll feed.declared feed' with
        | hangs => exact iff_of_true rfl rfl
        | fails => exact iff_of_false (by simp) (by simp)
        | done body =>
            refine iff_of_false ?_ (by simp)
            dsimp only
            split_ifs
            · cases (openRecord c (hdr.getD 0 0) body.1).content <;> simp
            · simp

end Records

/-- A read returns, after a bounded number of calls of `recv()`, exactly if the peer does not
fall silent before the last byte it waits for. -/
theorem read_returns_iff (len : Nat) (a : Arrivals) (c : VTlsConn) :
    (RecvReturns len a ↔ ¬ a.feed.Stalls len) ∧
      (tlsReadRecord c a.feed ≠ .hangs ↔ ¬ a.feed.StallsInRecord) :=
  ⟨recvReturns_iff len a, not_congr tlsReadRecord_hangs_iff⟩

/-- One byte of the header arrives, then nothing. -/
def oneByte : Arrivals := ⟨[[0x17]], false⟩

/-- Neither a peer that stops there nor one that is silent from the start is given up. -/
theorem stalled_peer_hangs :
    ¬ (∃ passes out, run (fun _ => recvPass 5) passes (.start oneByte) = .ended out) ∧
      ¬ ∃ passes out, run (fun _ => recvPass 5) passes (.start ⟨[], false⟩) = .ended out := by
  constructor
  · rintro ⟨passes, out, hRun⟩
    exact recvLoop_hangs (s := .start oneByte) (by decide) (by decide) out ⟨passes, hRun⟩
  · rintro ⟨passes, out, hRun⟩
    exact recvLoop_hangs (s := .start ⟨[], false⟩) (by decide) (by decide) out ⟨passes, hRun⟩

end Vmodem.Tls
