import Vmodem.Tls.Record
import Vmodem.Tls.Messages

/-! When the message loop of the handshake ends without leaving the record. -/

namespace Vmodem.Tls

/-- A use that stays inside the record; what is hashed is one whole message. -/
def Access.Inside (len : Nat) : Access → Prop
  | .read start count | .random start count => 0 ≤ start ∧ start + count ≤ len
  | .hash start used message => used = message ∧ 0 ≤ start ∧ start + used ≤ len

namespace Buffer

variable (rec : Buffer) (alloc : Nat → Bool) (off : Nat)

/-- The length field of the message at an offset. -/
def messageLen : Nat := rec.get24 (off + 1)

/-- The length byte of the session id of a ServerHello. -/
def sidLen : Nat := (rec.mem (off + 4 + 34)).toNat

/-- The fields the code reads of a message lie in the record. -/
structure BodyInside : Prop where
  hello : rec.mem off = htServerHello → 38 ≤ rec.messageLen off →
    off + 41 + rec.sidLen off ≤ rec.len
  certificate : rec.mem off = htCertificate →
    off + 10 ≤ rec.len ∧ (alloc (firstCertLen rec off) → off + 10 + firstCertLen rec off ≤ rec.len)

/-- A message the handshake gives up over. -/
def Refuses : Prop :=
  rec.mem off = htServerHello ∧
      (rec.messageLen off < 38 ∨ rec.get16 (off + 4 + 35 + rec.sidLen off : Nat) ≠ rsaAes128Sha) ∨
    rec.mem off = htCertificate ∧ ¬ alloc (firstCertLen rec off)

end Buffer

/-- From an offset on, the record consists of messages that lie in it with all they say
about their fields, up to its end or to where the handshake gives up. -/
inductive Splits (rec : Buffer) (alloc : Nat → Bool) : Nat → Prop where
  | done {off : Nat} (hEnd : rec.len ≤ off) : Splits rec alloc off
  | noHeader {off : Nat} (hOff : off < rec.len) (hShort : rec.len < off + 4) : Splits rec alloc off
  /-- The low 16 bits of the length lead beyond the record, but not beyond an `int`. -/
  | tooLong {off : Nat} (hHeader : off + 4 ≤ rec.len)
      (hBeyond : rec.len < off + 4 + rec.messageLen off % 65536)
      (hInt : off + 4 + rec.messageLen off % 65536 < 32768) : Splits rec alloc off
  | refused {off : Nat} (hWhole : off + 4 + rec.messageLen off ≤ rec.len)
      (hBody : rec.BodyInside alloc off) (hRefused : rec.Refuses alloc off) : Splits rec alloc off
  | message {off : Nat} (hWhole : off + 4 + rec.messageLen off ≤ rec.len)
      (hBody : rec.BodyInside alloc off) (hAccepted : ¬ rec.Refuses alloc off)
      (rest : Splits rec alloc (off + 4 + rec.messageLen off)) : Splits rec alloc off

section Bodies

variable {rec : Buffer} {alloc : Nat → Bool} {off : Nat} {f : FirstFlight}

/-- A ServerHello is read inside exactly where its body is, and refused exactly for its
fields. -/
theorem serverHello_spec (hHello : rec.mem off = htServerHello) :
    ((∀ a ∈ (serverHello rec off (rec.messageLen off) f).log, a.Inside rec.len) ↔
      rec.BodyInside alloc off) ∧
    ((serverHello rec off (rec.messageLen off) f).flight = none ↔ rec.Refuses alloc off) := by
  have hOther : rec.mem off ≠ htCertificate := by
    rw [hHello]
    decide
  by_cases hShort : rec.messageLen off < 38
  · rw [serverHello, if_pos (by omega)]
    constructor
    · constructor
      · exact fun _ => ⟨fun _ hLong => by omega, fun hCert => absurd hCert hOther⟩
      · exact fun _ a hMem => nomatch hMem
    · exact iff_of_true rfl (.inl ⟨hHello, .inl hShort⟩)
  · have hOffset : (off : Int) + 4 + 35 + (rec.mem (off + 4 + 34)).toNat =
        (off + 4 + 35 + rec.sidLen off : Nat) := rfl
    have hInside : (∀ a ∈ [Access.random (off + 4 + 2) 32, .read (off + 4 + 34) 1,
        .read (off + 4 + 35 + rec.sidLen off : Nat) 2], a.Inside rec.len) ↔
          rec.BodyInside alloc off := by
      constructor
      · intro hAll
        have hSuite := hAll (.read (off + 4 + 35 + rec.sidLen off : Nat) 2) (by simp)
        unfold Access.Inside at hSuite
        exact ⟨fun _ _ => by omega, fun hCert => absurd hCert hOther⟩
      · intro hBody a hMem
        have hSuite := hBody.hello hHello (by omega)
        simp only [List.mem_cons, List.not_mem_nil, or_false] at hMem
        rcases hMem with rfl | rfl | rfl <;> unfold Access.Inside <;> omega
    rw [serverHello, if_neg (by omega)]
    dsimp only
    rw [hOffset]
    by_cases hSuite : rec.get16 (off + 4 + 35 + rec.sidLen off : Nat) = rsaAes128Sha
    · have hAccepted : ¬ rec.Refuses alloc off := by
        rintro (⟨-, hLess | hSuite'⟩ | ⟨hCert, -⟩)
        · exact hShort hLess
        · exact hSuite' hSuite
        · exact hOther hCert
      rw [if_neg (not_not_intro hSuite)]
      exact ⟨hInside, iff_of_false (Option.some_ne_none _) hAccepted⟩
    · rw [if_pos hSuite]
      exact ⟨hInside, iff_of_true rfl (.inl ⟨hHello, .inr hSuite⟩)⟩

/-- A Certificate is read inside exactly where its body is, and refused exactly for its
lengths. -/
theorem certificate_spec (hCert : rec.mem off = htCertificate) :
    ((∀ a ∈ (certificate rec alloc off f).log, a.Inside rec.len) ↔ rec.BodyInside alloc off) ∧
    ((certificate rec alloc off f).flight = none ↔ rec.Refuses alloc off) := by
  have hOther : rec.mem off ≠ htServerHello := by
    rw [hCert]
    decide
  unfold certificate
  dsimp only
  by_cases hAlloc : alloc (firstCertLen rec off)
  · rw [if_pos hAlloc]
    constructor
    · constructor
      · intro hAll
        have hSecond := hAll (.read (off + 4 + 3) 3) (by simp)
        have hCopy := hAll (.read (off + 4 + 6) (firstCertLen rec off)) (by simp)
        unfold Access.Inside at hSecond hCopy
        exact ⟨fun hHello => absurd hHello hOther, fun _ => ⟨by omega, fun _ => by omega⟩⟩
      · intro hBody a hMem
        obtain ⟨hFirst, hCopy⟩ := hBody.certificate hCert
        have hCopy := hCopy hAlloc
        simp only [List.cons_append, List.nil_append, List.mem_cons, List.not_mem_nil, or_false]
          at hMem
        rcases hMem with rfl | rfl | rfl <;> unfold Access.Inside <;> omega
    · have hAccepted : ¬ rec.Refuses alloc off := by
        rintro (⟨hHello, -⟩ | ⟨-, hNo⟩)
        · exact hOther hHello
        · exact hNo hAlloc
      exact iff_of_false (Option.some_ne_none _) hAccepted
  · rw [if_neg hAlloc]
    constructor
    · constructor
      · intro hAll
        have hSecond := hAll (.read (off + 4 + 3) 3) (by simp)
        unfold Access.Inside at hSecond
        exact ⟨fun hHello => absurd hHello hOther,
          fun _ => ⟨by omega, fun hYes => absurd hYes hAlloc⟩⟩
      · intro hBody a hMem
        obtain ⟨hFirst, -⟩ := hBody.certificate hCert
        simp only [List.mem_cons, List.not_mem_nil, or_false] at hMem
        rcases hMem with rfl | rfl <;> unfold Access.Inside <;> omega
    · exact iff_of_true rfl (.inr ⟨hCert, hAlloc⟩)

/-- The `switch` stays in the record exactly if the fields of the message do. -/
theorem messageBody_spec :
    ((∀ a ∈ (messageBody rec alloc off (rec.messageLen off) f).log, a.Inside rec.len) ↔
      rec.BodyInside alloc off) ∧
    ((messageBody rec alloc off (rec.messageLen off) f).flight = none ↔ rec.Refuses alloc off) := by
  unfold messageBody
  dsimp only
  by_cases hHello : rec.mem off = htServerHello
  · rw [if_pos hHello]
    exact serverHello_spec hHello
  · rw [if_neg hHello]
    by_cases hCert : rec.mem off = htCertificate
    · rw [if_pos hCert]
      exact certificate_spec hCert
    · rw [if_neg hCert]
      have hBody : rec.BodyInside alloc off :=
        ⟨fun h => absurd h hHello, fun h => absurd h hCert⟩
      have hAccepted : ¬ rec.Refuses alloc off := by
        rintro (⟨h, _⟩ | ⟨h, _⟩)
        · exact hHello h
        · exact hCert h
      have hSpec (f' : FirstFlight) :
          ((∀ a ∈ (Branch.mk [] (some f')).log, a.Inside rec.len) ↔ rec.BodyInside alloc off) ∧
            ((Branch.mk [] (some f')).flight = none ↔ rec.Refuses alloc off) :=
        ⟨iff_of_true (fun a hMem => nomatch hMem) hBody,
          iff_of_false (Option.some_ne_none _) hAccepted⟩
      by_cases hRequest : rec.mem off = htCertRequest
      · rw [if_pos hRequest]
        exact hSpec _
      · rw [if_neg hRequest]
        by_cases hDone : rec.mem off = htServerDone
        · rw [if_pos hDone]
          exact hSpec _
        · rw [if_neg hDone]
          exact hSpec _

end Bodies

section Passes

open BoundedLoop (Pass)

variable {rec : Buffer} {alloc : Nat → Bool} {off : Nat} {f : FirstFlight} {log : List Access}

/-- The variables with the message hashed. -/
def hashed (rec : Buffer) (off : Nat) (f : FirstFlight) : FirstFlight :=
  { f with hsHash := f.hsHash.updateFrom rec off (int16 (4 + int16 (rec.messageLen off))) }

/-- What is used of a message before the `switch`. -/
def headerUses (rec : Buffer) (off : Nat) : List Access :=
  [.read off 4, .hash off (int16 (4 + int16 (rec.messageLen off))) (4 + rec.messageLen off)]

/-- A pass that gets to the `switch`. -/
def switchPass (rec : Buffer) (off : Nat) (log : List Access) (b : Branch) : Pass Splitting Split :=
  match b.flight with
  | none => .leave ⟨none, log ++ headerUses rec off ++ b.log⟩
  | some g => .again ⟨int16 (off + 4 + int16 (rec.messageLen off)), g,
      log ++ headerUses rec off ++ b.log⟩

/-- At the end of the record the loop is left. -/
theorem messagePass_done (h : rec.len ≤ off) :
    messagePass rec alloc ⟨off, f, log⟩ = .leave ⟨some f, log⟩ :=
  if_pos (Int.ofNat_le.mpr h)

theorem messagePass_noHeader (hOff : off < rec.len) (h : rec.len < off + 4) :
    messagePass rec alloc ⟨off, f, log⟩ = .leave ⟨none, log⟩ := by
  unfold messagePass
  dsimp only
  rw [if_neg (by omega), if_pos (by omega)]

/-- A message that ends behind the record, by the 16-bit sum, is a failure. -/
theorem messagePass_past (hHeader : off + 4 ≤ rec.len)
    (h : (rec.len : Int) < int16 (off + 4 + int16 (rec.messageLen off))) :
    messagePass rec alloc ⟨off, f, log⟩ = .leave ⟨none, log ++ [.read off 4]⟩ := by
  unfold messagePass
  dsimp only
  rw [if_neg (by omega), if_neg (by omega)]
  exact if_pos h

/-- Every other message is hashed and looked into by its type. -/
theorem messagePass_switch (hHeader : off + 4 ≤ rec.len)
    (h : ¬ (rec.len : Int) < int16 (off + 4 + int16 (rec.messageLen off))) :
    messagePass rec alloc ⟨off, f, log⟩ = switchPass rec off log
      (messageBody rec alloc off (int16 (rec.messageLen off)) (hashed rec off f)) := by
  unfold messagePass
  dsimp only
  rw [if_neg (by omega), if_neg (by omega)]
  exact if_neg h

/-- The sum of the loop is right for a message that ends in its record. -/
theorem next_offset (hSize : rec.len ≤ maxRecord + 2048)
    (hWhole : off + 4 + rec.messageLen off ≤ rec.len) :
    int16 (off + 4 + int16 (rec.messageLen off)) = (off + 4 + rec.messageLen off : Nat) := by
  rw [maxRecord] at hSize
  rw [int16_of_lt (x := rec.messageLen off) (by omega) (by omega)]
  exact int16_of_lt (by omega) (by omega)

/-- A message that ends in its record is looked into with the length it has. -/
theorem messagePass_whole (hSize : rec.len ≤ maxRecord + 2048)
    (hWhole : off + 4 + rec.messageLen off ≤ rec.len) :
    messagePass rec alloc ⟨off, f, log⟩ = switchPass rec off log
      (messageBody rec alloc off (rec.messageLen off) (hashed rec off f)) := by
  have hNext := next_offset hSize hWhole
  rw [messagePass_switch (by omega) (by rw [hNext]; omega)]
  rw [maxRecord] at hSize
  rw [int16_of_lt (x := rec.messageLen off) (by omega) (by omega)]

/-- A length field is used correctly only if it is the length of a message in the record. -/
theorem hash_inside (h : (Access.hash off (int16 (4 + int16 (rec.messageLen off)))
      (4 + rec.messageLen off)).Inside rec.len) :
    off + 4 + rec.messageLen off ≤ rec.len ∧ int16 (rec.messageLen off) = rec.messageLen off := by
  unfold Access.Inside at h
  unfold int16 at h ⊢
  omega

/-- A message that ends in the record has its header and its hashed bytes inside. -/
theorem headerUses_inside (hSize : rec.len ≤ maxRecord + 2048)
    (hWhole : off + 4 + rec.messageLen off ≤ rec.len) :
    ∀ a ∈ headerUses rec off, a.Inside rec.len := by
  rw [maxRecord] at hSize
  have hLen : int16 (4 + int16 (rec.messageLen off)) = 4 + rec.messageLen off := by
    rw [int16_of_lt (x := rec.messageLen off) (by omega) (by omega),
      int16_of_lt (by omega) (by omega)]
  intro a hMem
  unfold headerUses at hMem
  rw [hLen] at hMem
  simp only [List.mem_cons, List.not_mem_nil, or_false] at hMem
  rcases hMem with rfl | rfl <;> unfold Access.Inside <;> omega

end Passes

section Loop

open BoundedLoop (Ends)

variable {rec : Buffer} {alloc : Nat → Bool} {off : Nat}

/-- The loop over the record ends, and every use of the record is inside it. -/
def LoopSafe (rec : Buffer) (alloc : Nat → Bool) (f : FirstFlight) : Prop :=
  ∃ fuel out, messageLoop rec alloc fuel ⟨0, f, []⟩ = .ended out ∧ ∀ a ∈ out.log, a.Inside rec.len

theorem messageLoop_steady : BoundedLoop.Steady fun _ => messagePass rec alloc := fun _ _ _ => rfl

/-- A pass over a well-formed message goes on with the next one or gives up. -/
theorem messagePass_message (f : FirstFlight) (log : List Access)
    (hSize : rec.len ≤ maxRecord + 2048) (hWhole : off + 4 + rec.messageLen off ≤ rec.len)
    (hBody : rec.BodyInside alloc off) :
    ∃ more, (∀ a ∈ more, a.Inside rec.len) ∧
      (rec.Refuses alloc off ∧ messagePass rec alloc ⟨off, f, log⟩ = .leave ⟨none, log ++ more⟩ ∨
        ¬ rec.Refuses alloc off ∧ ∃ g, messagePass rec alloc ⟨off, f, log⟩ =
          .again ⟨(off + 4 + rec.messageLen off : Nat), g, log ++ more⟩) := by
  have hPass := @messagePass_whole rec alloc off f log hSize hWhole
  obtain ⟨hInside, hNone⟩ := @messageBody_spec rec alloc off (hashed rec off f)
  generalize messageBody rec alloc off (rec.messageLen off) (hashed rec off f) = b
    at hPass hInside hNone
  refine ⟨headerUses rec off ++ b.log, fun a hMem => ?_, ?_⟩
  · rcases List.mem_append.mp hMem with hMem | hMem
    · exact headerUses_inside hSize hWhole a hMem
    · exact hInside.mpr hBody a hMem
  · rw [hPass, switchPass, List.append_assoc, next_offset hSize hWhole]
    cases hFlight : b.flight with
    | none => exact .inl ⟨hNone.mp hFlight, rfl⟩
    | some g =>
        refine .inr ⟨fun hRefused => ?_, g, rfl⟩
        rw [hNone.mpr hRefused] at hFlight
        cases hFlight

/-- A record that splits into messages is taken apart safely. -/
theorem Splits.ends (h : Splits rec alloc off) (hSize : rec.len ≤ maxRecord + 2048)
    (f : FirstFlight) (log : List Access) :
    ∃ out, Ends (fun _ => messagePass rec alloc) ⟨off, f, log⟩ out ∧
      ∃ more, out.log = log ++ more ∧ ∀ a ∈ more, a.Inside rec.len := by
  induction h generalizing f log with
  | done hEnd =>
      exact ⟨_, .leave (n := 0) (messagePass_done hEnd), [],
        (List.append_nil _).symm, nofun⟩
  | noHeader hOff hShort =>
      exact ⟨_, .leave (n := 0) (messagePass_noHeader hOff hShort), [],
        (List.append_nil _).symm, nofun⟩
  | @tooLong off hHeader hBeyond hInt =>
      have hPast : (rec.len : Int) < int16 (off + 4 + int16 (rec.messageLen off)) := by
        unfold int16
        omega
      refine ⟨_, .leave (n := 0) (messagePass_past hHeader hPast), _, rfl,
        fun a hMem => ?_⟩
      obtain rfl := List.mem_singleton.mp hMem
      unfold Access.Inside
      omega
  | refused hWhole hBody hRefused =>
      obtain ⟨more, hInside, ⟨_, hPass⟩ | ⟨hAccepted, _⟩⟩ :=
        messagePass_message f log hSize hWhole hBody
      · exact ⟨_, .leave (n := 0) hPass, more, rfl, hInside⟩
      · exact absurd hRefused hAccepted
  | message hWhole hBody hAccepted _ ih =>
      obtain ⟨more, hInside, ⟨hRefused, _⟩ | ⟨_, g, hPass⟩⟩ :=
        messagePass_message f log hSize hWhole hBody
      · exact absurd hRefused hAccepted
      · obtain ⟨out, hEnds, rest, hLog, hRest⟩ := ih g (log ++ more)
        refine ⟨out, .again (n := 0) messageLoop_steady hPass hEnds, more ++ rest, ?_, ?_⟩
        · rw [hLog, List.append_assoc]
        · intro a hMem
          rcases List.mem_append.mp hMem with hMem | hMem
          · exact hInside a hMem
          · exact hRest a hMem

/-- The log of a pass, wherever it leads. -/
def passLog : BoundedLoop.Pass Splitting Split → List Access
  | .again t => t.log
  | .leave out => out.log
  | .stuck t => t.log

/-- The accesses of a pass: those before it, the header and hash, and those of the
branch. -/
theorem passLog_switchPass (log : List Access) (b : Branch) :
    passLog (switchPass rec off log b) = log ++ headerUses rec off ++ b.log := by
  unfold switchPass
  cases b.flight <;> rfl

/-- A pass whose uses are inside the record found a whole message, if it did not leave the
loop for good. -/
theorem messagePass_sound (f : FirstFlight) (log : List Access)
    (hInside : ∀ a ∈ passLog (messagePass rec alloc ⟨off, f, log⟩), a.Inside rec.len) :
    Splits rec alloc off ∨
      off + 4 + rec.messageLen off ≤ rec.len ∧ rec.BodyInside alloc off ∧
        ¬ rec.Refuses alloc off := by
  by_cases hEnd : rec.len ≤ off
  · exact .inl (.done hEnd)
  by_cases hHeader : off + 4 ≤ rec.len
  · by_cases hPast : (rec.len : Int) < int16 (off + 4 + int16 (rec.messageLen off))
    · refine .inl (.tooLong hHeader ?_ ?_) <;>
      · unfold int16 at hPast
        omega
    · rw [messagePass_switch hHeader hPast, passLog_switchPass] at hInside
      obtain ⟨hWhole, hLen⟩ : off + 4 + rec.messageLen off ≤ rec.len ∧
          int16 (rec.messageLen off) = rec.messageLen off :=
        hash_inside (hInside _ (by simp [headerUses]))
      have hBody : rec.BodyInside alloc off := by
        rw [hLen] at hInside
        exact messageBody_spec.1.mp fun a hMem => hInside a (List.mem_append_right _ hMem)
      by_cases hRefused : rec.Refuses alloc off
      · exact .inl (.refused hWhole hBody hRefused)
      · exact .inr ⟨hWhole, hBody, hRefused⟩
  · exact .inl (.noHeader (by omega) (by omega))

theorem log_subset_passLog (s : Splitting) : s.log ⊆ passLog (messagePass rec alloc s) := by
  unfold messagePass
  dsimp only
  split_ifs
  · exact List.Subset.refl _
  · exact List.Subset.refl _
  · exact List.subset_append_left _ _
  · split <;> exact fun a hMem => List.mem_append_left _ (List.mem_append_left _ hMem)

/-- A safe run over the record shows that it splits into messages. -/
theorem Splits.of_run {fuel : Nat} {s : Splitting} {out : Split}
    (hSize : rec.len ≤ maxRecord + 2048)
    (hRun : messageLoop rec alloc fuel s = .ended out) (hOff : s.off = off)
    (hInside : ∀ a ∈ out.log, a.Inside rec.len) : Splits rec alloc off := by
  have hAll : s.log ⊆ out.log ∧ ∀ off : Nat, s.off = off → (∀ a ∈ out.log, a.Inside rec.len) →
      Splits rec alloc off := by
    apply BoundedLoop.run_induction ?_ ?_ hRun
    · intro _ s out hPass
      have hLog : s.log ⊆ passLog (messagePass rec alloc s) := log_subset_passLog s
      rw [hPass] at hLog
      refine ⟨hLog, fun off hOff hInside => ?_⟩
      obtain ⟨_, f, log⟩ := s
      obtain rfl : _ = (off : Int) := hOff
      obtain hSplits | ⟨hWhole, hBody, hAccepted⟩ := messagePass_sound f log (by rwa [hPass])
      · exact hSplits
      · obtain ⟨_, _, ⟨hRefused, _⟩ | ⟨_, g, hAgain⟩⟩ :=
          messagePass_message f log hSize hWhole hBody
        · exact absurd hRefused hAccepted
        · rw [hAgain] at hPass
          nomatch hPass
    · intro _ s t out hPass ⟨hRest, hSplits⟩
      have hLog : s.log ⊆ passLog (messagePass rec alloc s) := log_subset_passLog s
      rw [hPass] at hLog
      refine ⟨List.Subset.trans hLog hRest, fun off hOff hInside => ?_⟩
      obtain ⟨_, f, log⟩ := s
      obtain rfl : _ = (off : Int) := hOff
      obtain hSplits' | ⟨hWhole, hBody, hAccepted⟩ :=
        messagePass_sound f log (by rw [hPass]; exact fun a hMem => hInside a (hRest hMem))
      · exact hSplits'
      · obtain ⟨_, _, ⟨hRefused, _⟩ | ⟨_, g, hAgain⟩⟩ :=
          messagePass_message f log hSize hWhole hBody
        · exact absurd hRefused hAccepted
        · rw [hAgain] at hPass
          injection hPass with hPass
          exact .message hWhole hBody hAccepted (hSplits _ (by rw [← hPass]) hInside)
  exact hAll.2 off hOff hInside

/-- The loop stays inside and ends exactly where the record splits. -/
theorem loopSafe_iff (hSize : rec.len ≤ maxRecord + 2048) (f : FirstFlight) :
    LoopSafe rec alloc f ↔ Splits rec alloc 0 := by
  constructor
  · intro ⟨fuel, out, hRun, hInside⟩
    exact .of_run hSize hRun rfl hInside
  · intro hSplits
    obtain ⟨out, ⟨fuel, hRun⟩, more, hLog, hInside⟩ := hSplits.ends hSize f []
    refine ⟨fuel, out, hRun, ?_⟩
    rw [hLog]
    exact hInside

/-- The bytes compared with Finished lie inside where the record is long enough. -/
theorem finishedReads_inside : (∀ a ∈ finishedReads rec, a.Inside rec.len) ↔
    (4 ≤ rec.len → rec.mem 0 = htFinished → 16 ≤ rec.len) := by
  unfold finishedReads
  by_cases hLen : 4 ≤ rec.len
  · rw [if_pos hLen]
    by_cases hType : rec.mem 0 = htFinished
    · rw [if_pos hType]
      constructor
      · intro hAll _ _
        have hVerify := hAll (.read 4 12) (by simp)
        unfold Access.Inside at hVerify
        omega
      · intro hLong a hMem
        have hLong := hLong hLen hType
        simp only [List.mem_cons, List.not_mem_nil, or_false] at hMem
        rcases hMem with rfl | rfl <;> unfold Access.Inside <;> omega
    · rw [if_neg hType]
      refine iff_of_true (fun a hMem => ?_) fun _ h => absurd h hType
      obtain rfl := List.mem_singleton.mp hMem
      unfold Access.Inside
      omega
  · rw [if_neg hLen]
    exact iff_of_true (fun a hMem => nomatch hMem) fun h => absurd h hLen

/-- The message loop ends and stays inside the record exactly if the record splits into
messages; the check of a Finished does if the record has the 16 bytes of one. -/
theorem message_loop (hSize : rec.len ≤ maxRecord + 2048) (f : FirstFlight) :
    (LoopSafe rec alloc f ↔ Splits rec alloc 0) ∧
      ((∀ a ∈ finishedReads rec, a.Inside rec.len) ↔
        (4 ≤ rec.len → rec.mem 0 = htFinished → 16 ≤ rec.len)) :=
  ⟨loopSafe_iff hSize f, finishedReads_inside⟩

/-- The variables before the first message. -/
def noFlight : FirstFlight := ⟨.init, [], false, none, false, false⟩

/-- A record with a ServerHello, a Certificate of one byte and a ServerHelloDone. -/
def flightRecord : Buffer :=
  .around ([htServerHello, 0, 0, 38, 3, 3] ++ List.replicate 32 0x5A ++ [0, 0x00, 0x2F, 0] ++
    [htCertificate, 0, 0, 7, 0, 0, 4, 0, 0, 1, 0x30] ++ [htServerDone, 0, 0, 0]) fun _ => 0

/-- The record of the example splits into its messages. -/
theorem splits_flightRecord : Splits flightRecord (fun _ => true) 0 := by
  have hAccepted : ∀ off ∈ [0, 42, 53], ¬ flightRecord.Refuses (fun _ => true) off := by
    unfold Buffer.Refuses
    decide +kernel
  have hDone : Splits flightRecord (fun _ => true) 53 :=
    .message (by decide +kernel) ⟨by decide +kernel, by decide +kernel⟩
      (hAccepted 53 (by decide)) (.done (by decide +kernel))
  have hCertificate : Splits flightRecord (fun _ => true) 42 :=
    .message (by decide +kernel) ⟨by decide +kernel, by decide +kernel⟩
      (hAccepted 42 (by decide)) hDone
  exact .message (by decide +kernel) ⟨by decide +kernel, by decide +kernel⟩
    (hAccepted 0 (by decide)) hCertificate

/-- The first messages of a server in one record, and the check of a Finished on it. -/
theorem message_loop_flight : LoopSafe flightRecord (fun _ => true) noFlight ∧
    ∀ a ∈ finishedReads flightRecord, a.Inside flightRecord.len := by
  obtain ⟨hLoop, hFinished⟩ :=
    @message_loop flightRecord (fun _ => true) (by decide +kernel) noFlight
  exact ⟨hLoop.mpr splits_flightRecord, hFinished.mpr fun _ h => absurd h (by decide)⟩

/-- A record whose length field is -4 as an `int`. -/
def spinningRecord : Buffer := .around [0, 0, 0xFF, 0xFC] fun _ => 0

/-- A message of length 65532 leads the 16-bit offset back to itself. -/
theorem messagePass_spinningRecord (f : FirstFlight) (log : List Access) :
    messagePass spinningRecord alloc ⟨(0 : Nat), f, log⟩ =
      .again ⟨(0 : Nat), hashed spinningRecord 0 f, log ++ headerUses spinningRecord 0 ++ []⟩ := by
  have hLen : int16 (spinningRecord.messageLen 0) = -4 := by decide
  have hType : spinningRecord.mem (0 : Nat) = 0 := rfl
  have hBody (hlen : Int) (g : FirstFlight) :
      messageBody spinningRecord alloc (0 : Nat) hlen g = ⟨[], some g⟩ := by
    unfold messageBody
    dsimp only
    rw [hType, if_neg (by decide), if_neg (by decide), if_neg (by decide), if_neg (by decide)]
  rw [messagePass_switch (by decide) (by rw [hLen]; decide), hBody, switchPass, hLen]
  rfl

theorem not_ends_spinningRecord (f : FirstFlight) (out : Split) :
    ¬ Ends (fun _ => messagePass spinningRecord alloc) ⟨0, f, []⟩ out := by
  have hStays (_ : Nat) (s : Splitting) (hOff : s.off = (0 : Nat)) :
      (∃ t, messagePass spinningRecord alloc s = .stuck t) ∨
        ∃ t : Splitting, t.off = (0 : Nat) ∧ messagePass spinningRecord alloc s = .again t := by
    obtain ⟨_, f, log⟩ := s
    obtain rfl : _ = ((0 : Nat) : Int) := hOff
    exact .inr ⟨_, rfl, messagePass_spinningRecord f log⟩
  exact BoundedLoop.not_ends hStays rfl

/-- The loop takes the message of length -4 for ever. -/
theorem message_loop_spins :
    ¬ ∃ fuel out, messageLoop spinningRecord (fun _ => true) fuel ⟨0, noFlight, []⟩ =
      .ended out := by
  rintro ⟨fuel, out, hRun⟩
  exact not_ends_spinningRecord noFlight out ⟨fuel, hRun⟩

end Loop

end Vmodem.Tls
