import Vmodem.Properties.MessageLoop
import Vmodem.Tls.Handshake

/-! The messages of a handshake record, and what the handshake makes of them one by one: the
loop over a record that splits into messages is a fold over these. -/

namespace Vmodem.Tls

/-- A handshake message. -/
structure HsMessage where
  type : UInt8
  body : List UInt8
  deriving DecidableEq, Repr

namespace HsMessage

/-- The message with its header. -/
def bytes (m : HsMessage) : List UInt8 := hsBuild m.type m.body

/-- The fields of a ServerHello. -/
def random (m : HsMessage) : List UInt8 := (m.body.drop 2).take 32

def sidLen (m : HsMessage) : Nat := (m.body.getD 34 0).toNat

def suite (m : HsMessage) : Nat :=
  (m.body.getD (35 + m.sidLen) 0).toNat * 256 + (m.body.getD (35 + m.sidLen + 1) 0).toNat

/-- The first certificate of a Certificate message, its length as the code takes it. -/
def certLen (m : HsMessage) : Nat :=
  ((m.body.getD 3 0).toNat * 65536 + ((m.body.getD 4 0).toNat * 256 + (m.body.getD 5 0).toNat)) %
    65536

def cert (m : HsMessage) : List UInt8 := (m.body.drop 6).take m.certLen

/-- What the variables are behind a message; `none` gives up. -/
def apply (alloc : Nat → Bool) (m : HsMessage) (f : FirstFlight) : Option FirstFlight :=
  if m.type = htServerHello then
    if m.body.length < 38 ∨ m.suite ≠ rsaAes128Sha then none
    else some { f with serverRandom := m.random, gotHello := true }
  else if m.type = htCertificate then
    if alloc m.certLen then some { f with cert := some m.cert } else none
  else if m.type = htCertRequest then some { f with certRequested := true }
  else if m.type = htServerDone then some { f with gotDone := true }
  else some f

/-- The message is hashed and applied. -/
def take (alloc : Nat → Bool) (f : FirstFlight) (m : HsMessage) : Option FirstFlight :=
  m.apply alloc { f with hsHash := f.hsHash.update m.bytes }

/-- The fields the code reads lie in the message. -/
structure Complete (alloc : Nat → Bool) (m : HsMessage) : Prop where
  hello : m.type = htServerHello → 38 ≤ m.body.length → 37 + m.sidLen ≤ m.body.length
  certificate : m.type = htCertificate →
    6 ≤ m.body.length ∧ (alloc m.certLen → 6 + m.certLen ≤ m.body.length)

end HsMessage

/-- The message that starts at an offset of a record. -/
def Buffer.messageAt (rec : Buffer) (off : Nat) : HsMessage :=
  ⟨rec.mem off, rec.bytes (off + 4) (rec.messageLen off)⟩

/-- From an offset on the record holds these messages, complete each, and nothing behind them
unless it is cut off. -/
inductive Holds (rec : Buffer) (alloc : Nat → Bool) : Nat → List HsMessage → Bool → Prop where
  | done : Holds rec alloc rec.len [] true
  | noHeader {off : Nat} (hOff : off < rec.len) (hShort : rec.len < off + 4) :
      Holds rec alloc off [] false
  | tooLong {off : Nat} (hHeader : off + 4 ≤ rec.len)
      (hBeyond : rec.len < off + 4 + rec.messageLen off)
      (hInt : off + 4 + rec.messageLen off < 32768) : Holds rec alloc off [] false
  | message {off : Nat} {ms : List HsMessage} {whole : Bool}
      (hWhole : off + 4 + rec.messageLen off ≤ rec.len)
        (hComplete : (rec.messageAt off).Complete alloc)
      (rest : Holds rec alloc (off + 4 + rec.messageLen off) ms whole) :
      Holds rec alloc off (rec.messageAt off :: ms) whole

section Fields

variable {rec : Buffer} {alloc : Nat → Bool} {off : Nat}

theorem bytes_map (start : Int) (n : Nat) :
    rec.bytes start n = (List.range n).map fun k : Nat => rec.mem (start + k) := by
  simp only [Buffer.bytes, bind_pure_comp, List.map_eq_map, List.map_map]
  rfl

/-- A byte of a copied part is the byte of the record. -/
theorem getD_bytes {start : Int} {n k : Nat} (h : k < n) :
    (rec.bytes start n).getD k 0 = rec.mem (start + k) := by
  rw [bytes_map, List.getD_eq_getElem?_getD, List.getElem?_map, List.getElem?_range h]
  rfl

theorem bytes_length (start : Int) (n : Nat) : (rec.bytes start n).length = n := by
  rw [bytes_map, List.length_map, List.length_range]

theorem bytes_append (start : Int) (n m : Nat) :
    rec.bytes start (n + m) = rec.bytes start n ++ rec.bytes (start + n) m := by
  rw [bytes_map, List.range_add, List.map_append, List.map_map, bytes_map, bytes_map]
  congr 1
  apply List.map_congr_left
  intro k _
  simp [Int.add_assoc]

theorem drop_take_bytes {start : Int} {n k m : Nat} (h : k + m ≤ n) :
    ((rec.bytes start n).drop k).take m = rec.bytes (start + k) m := by
  obtain ⟨rest, rfl⟩ := Nat.exists_eq_add_of_le h
  rw [Nat.add_assoc, bytes_append, List.drop_left' (bytes_length ..), bytes_append,
    List.take_left' (bytes_length ..)]

/-- A message read at a place has the length its header says. -/
theorem messageAt_length : (rec.messageAt off).body.length = rec.messageLen off := bytes_length ..

theorem messageAt_byte {k : Nat} (h : k < rec.messageLen off) :
    (rec.messageAt off).body.getD k 0 = rec.mem (off + 4 + k) := getD_bytes h

/-- With its header it is the part of the record it came from. -/
theorem messageAt_bytes : (rec.messageAt off).bytes = rec.bytes off (4 + rec.messageLen off) := by
  have h1 := (rec.mem (off + 1)).toNat_lt
  have h2 := (rec.mem (off + 1 + 1)).toNat_lt
  have h3 := (rec.mem (off + 1 + 1 + 1)).toNat_lt
  have hByte (n : Nat) (b : UInt8) (h : n % 256 = b.toNat) : UInt8.ofNat n = b := by
    apply UInt8.toNat_inj.mp
    rw [UInt8.toNat_ofNat', h]
  rw [HsMessage.bytes, hsBuild, messageAt_length, bytes_append, Buffer.messageAt]
  congr 1
  have hLen : rec.messageLen off = (rec.mem (off + 1)).toNat * 65536 +
      ((rec.mem (off + 1 + 1)).toNat * 256 + (rec.mem (off + 1 + 1 + 1)).toNat) := rfl
  rw [hByte _ (rec.mem (off + 1)) (by omega), hByte _ (rec.mem (off + 1 + 1)) (by omega),
    hByte _ (rec.mem (off + 1 + 1 + 1)) (by omega)]
  simp [Buffer.bytes, List.range_succ, Int.add_assoc]

/-- The length of the session id is read at the client's offset. -/
theorem messageAt_sidLen (h : 38 ≤ rec.messageLen off) :
    (rec.messageAt off).sidLen = rec.sidLen off := by
  rw [HsMessage.sidLen, messageAt_byte (by omega)]
  rfl

theorem messageAt_suite (h : 38 ≤ rec.messageLen off)
    (hFits : 37 + rec.sidLen off ≤ rec.messageLen off) :
    (rec.messageAt off).suite = rec.get16 (off + 4 + 35 + rec.sidLen off : Nat) := by
  rw [HsMessage.suite, messageAt_sidLen h, messageAt_byte (by omega), messageAt_byte (by omega),
    Buffer.get16]
  congr 3
  · congr 1
    omega
  · omega

theorem messageAt_random (h : 38 ≤ rec.messageLen off) :
    (rec.messageAt off).random = rec.bytes (off + 4 + 2) 32 :=
  drop_take_bytes (by omega)

theorem messageAt_certLen (h : 6 ≤ rec.messageLen off) :
    (rec.messageAt off).certLen = firstCertLen rec off := by
  rw [HsMessage.certLen, messageAt_byte (by omega), messageAt_byte (by omega),
    messageAt_byte (by omega),
    firstCertLen, Buffer.get24, Buffer.get16]
  congr 4

theorem messageAt_cert (h : 6 ≤ rec.messageLen off)
    (hFits : 6 + firstCertLen rec off ≤ rec.messageLen off) :
    (rec.messageAt off).cert = rec.bytes (off + 4 + 6) (firstCertLen rec off) := by
  rw [HsMessage.cert, messageAt_certLen h]
  exact drop_take_bytes hFits

end Fields

section Loop

open BoundedLoop (Ends)

variable {rec : Buffer} {alloc : Nat → Bool} {off : Nat} {f : FirstFlight} {log : List Access}

/-- The `switch` over a complete message. -/
theorem messageBody_apply (hComplete : (rec.messageAt off).Complete alloc) :
    (messageBody rec alloc off (rec.messageLen off) f).flight =
    (rec.messageAt off).apply alloc f := by
  have hType : (rec.messageAt off).type = rec.mem off := rfl
  unfold messageBody HsMessage.apply
  dsimp only
  rw [hType]
  by_cases hHello : rec.mem off = htServerHello
  · rw [if_pos hHello, if_pos hHello, serverHello, messageAt_length]
    by_cases hShort : rec.messageLen off < 38
    · rw [if_pos (by omega), if_pos (.inl hShort)]
    · have hLength := hComplete.hello hHello (by rw [messageAt_length]; omega)
      rw [messageAt_length, messageAt_sidLen (by omega)] at hLength
      have hSuite := messageAt_suite (by omega) hLength
      have hOffset : (off : Int) + 4 + 35 + (rec.mem (off + 4 + 34)).toNat =
          (off + 4 + 35 + rec.sidLen off : Nat) := rfl
      rw [if_neg (by omega)]
      dsimp only
      rw [hOffset, ← hSuite, ← messageAt_random (by omega)]
      by_cases hOther : (rec.messageAt off).suite = rsaAes128Sha
      · rw [if_neg (not_not_intro hOther), if_neg (not_or.mpr ⟨hShort, not_not_intro hOther⟩)]
      · rw [if_pos hOther, if_pos (.inr hOther)]
  · rw [if_neg hHello, if_neg hHello]
    by_cases hCert : rec.mem off = htCertificate
    · obtain ⟨hHeader, hFits⟩ := hComplete.certificate hCert
      rw [messageAt_length] at hHeader
      rw [messageAt_length, messageAt_certLen hHeader] at hFits
      rw [if_pos hCert, if_pos hCert, certificate, messageAt_certLen hHeader]
      by_cases hAlloc : alloc (firstCertLen rec off)
      · rw [if_pos hAlloc, if_pos hAlloc, messageAt_cert hHeader (hFits hAlloc)]
      · rw [if_neg hAlloc, if_neg hAlloc]
    · rw [if_neg hCert, if_neg hCert]
      split_ifs <;> rfl

/-- A message that ends in the record is hashed whole. -/
theorem hashed_eq (hSize : rec.len ≤ maxRecord + 2048)
    (hWhole : off + 4 + rec.messageLen off ≤ rec.len) :
    hashed rec off f = { f with hsHash := f.hsHash.update (rec.messageAt off).bytes } := by
  rw [maxRecord] at hSize
  have hLen : int16 (4 + int16 (rec.messageLen off)) = (4 + rec.messageLen off : Nat) := by
    rw [int16_of_lt (x := rec.messageLen off) (by omega) (by omega),
      int16_of_lt (by omega) (by omega)]
    omega
  rw [hashed, Sha256.updateFrom, hLen, if_pos (by omega), messageAt_bytes, Int.toNat_natCast]

/-- A pass over a complete message. -/
theorem messagePass_complete (hSize : rec.len ≤ maxRecord + 2048)
    (hWhole : off + 4 + rec.messageLen off ≤ rec.len)
    (hComplete : (rec.messageAt off).Complete alloc) :
    ∃ more, messagePass rec alloc ⟨off, f, log⟩ =
      match (rec.messageAt off).take alloc f with
      | none => .leave ⟨none, log ++ more⟩
      | some g => .again ⟨(off + 4 + rec.messageLen off : Nat), g, log ++ more⟩ := by
  have hBody := @messageBody_apply rec alloc off (hashed rec off f) hComplete
  have hPass := @messagePass_whole rec alloc off f log hSize hWhole
  rw [hashed_eq hSize hWhole] at hBody hPass
  refine ⟨headerUses rec off ++ (messageBody rec alloc off (rec.messageLen off)
    { f with hsHash := f.hsHash.update (rec.messageAt off).bytes }).log, ?_⟩
  rw [hPass, switchPass, hBody, HsMessage.take]
  cases (rec.messageAt off).apply alloc
    { f with hsHash := f.hsHash.update (rec.messageAt off).bytes } with
  | none => rw [List.append_assoc]
  | some g => rw [List.append_assoc, next_offset hSize hWhole]

/-- What the loop makes of a record is a fold over its messages. -/
theorem Holds.ends {ms : List HsMessage} {whole : Bool} (h : Holds rec alloc off ms whole)
    (hSize : rec.len ≤ maxRecord + 2048) (f : FirstFlight) (log : List Access) :
    ∃ more, Ends (fun _ => messagePass rec alloc) ⟨off, f, log⟩
      ⟨if whole then ms.foldlM (HsMessage.take alloc) f else none, more⟩ := by
  have hLarge := hSize
  rw [maxRecord] at hLarge
  induction h generalizing f log with
  | done => exact ⟨_, .leave (n := 0) (messagePass_done (Nat.le_refl _))⟩
  | noHeader hOff hShort => exact ⟨_, .leave (n := 0) (messagePass_noHeader hOff hShort)⟩
  | @tooLong off hHeader hBeyond hInt =>
      refine ⟨_, .leave (n := 0) (messagePass_past hHeader ?_)⟩
      rw [int16_of_lt (x := rec.messageLen off) (by omega) (by omega),
        int16_of_lt (by omega) (by omega)]
      omega
  | @message off ms whole hWhole hComplete _ ih =>
      obtain ⟨more, hPass⟩ := @messagePass_complete rec alloc off f log hSize hWhole hComplete
      rw [List.foldlM_cons]
      cases hTake : (rec.messageAt off).take alloc f with
      | none =>
          rw [hTake] at hPass
          refine ⟨log ++ more, .leave (n := 0) ?_⟩
          rw [hPass]
          cases whole <;> rfl
      | some g =>
          rw [hTake] at hPass
          obtain ⟨rest, hEnds⟩ := ih g (log ++ more)
          exact ⟨rest, .again (n := 0) messageLoop_steady hPass hEnds⟩

/-- The loop over a whole record, if it ends. -/
theorem Holds.result {ms : List HsMessage} {whole : Bool} {fuel : Nat} {out : Split}
    (h : Holds rec alloc 0 ms whole) (hSize : rec.len ≤ maxRecord + 2048)
    (hLoop : messageLoop rec alloc fuel ⟨0, f, []⟩ = .ended out) :
    out.flight = if whole then ms.foldlM (HsMessage.take alloc) f else none := by
  obtain ⟨more, hEnds⟩ := h.ends hSize f []
  rw [hEnds.result messageLoop_steady hLoop]

end Loop

section Folds

variable {alloc : Nat → Bool} {m : HsMessage} {ms : List HsMessage} {f g : FirstFlight}

/-- Where memory is there for every message. -/
def FirstFlight.after (f : FirstFlight) (ms : List HsMessage) : Option FirstFlight :=
  ms.foldlM (HsMessage.take fun _ => true) f

/-- A message taken with some allocations is taken with all. -/
theorem HsMessage.take_some (h : m.take alloc f = some g) : m.take (fun _ => true) f = some g := by
  unfold HsMessage.take HsMessage.apply at h ⊢
  split_ifs at h ⊢ <;> simp_all

theorem foldlM_take_some (h : ms.foldlM (HsMessage.take alloc) f = some g) :
    f.after ms = some g := by
  induction ms generalizing f with
  | nil => exact h
  | cons m ms ih =>
      rw [List.foldlM_cons] at h
      rw [FirstFlight.after, List.foldlM_cons]
      cases hTake : m.take alloc f with
      | none =>
          rw [hTake] at h
          nomatch h
      | some next =>
          rw [hTake] at h
          rw [HsMessage.take_some hTake]
          exact ih h

/-- A flight in two parts is taken part by part. -/
theorem FirstFlight.after_append {more : List HsMessage} :
    f.after (ms ++ more) = (f.after ms).bind fun g => g.after more :=
  List.foldlM_append

/-- What a message that is accepted changes. -/
theorem HsMessage.take_fields (h : m.take alloc f = some g) :
    g.hsHash = f.hsHash.update m.bytes ∧ g.gotDone = (f.gotDone || decide (m.type = htServerDone)) ∧
      g.certRequested = (f.certRequested || decide (m.type = htCertRequest)) ∧
      (m.type = htServerHello → m.suite = rsaAes128Sha ∧ g.gotHello = true ∧
        g.serverRandom = m.random) ∧
      (m.type ≠ htServerHello → g.gotHello = f.gotHello ∧ g.serverRandom = f.serverRandom) ∧
      (m.type = htCertificate → g.cert = some m.cert) ∧
      (m.type ≠ htCertificate → g.cert = f.cert) := by
  unfold HsMessage.take HsMessage.apply at h
  have hKinds : htServerHello ≠ htCertificate ∧ htServerHello ≠ htCertRequest ∧
      htServerHello ≠ htServerDone ∧ htCertificate ≠ htCertRequest ∧ htCertificate ≠ htServerDone ∧
      htCertRequest ≠ htServerDone := by decide
  by_cases hHello : m.type = htServerHello
  · rw [if_pos hHello] at h
    split_ifs at h with hBad
    obtain rfl := Option.some.inj h
    simp_all
  · rw [if_neg hHello] at h
    split_ifs at h <;> obtain rfl := Option.some.inj h <;> simp_all

/-- The last message of a type. -/
def IsLast (ms : List HsMessage) (type : UInt8) (m : HsMessage) : Prop :=
  ∃ before behind, ms = before ++ m :: behind ∧ m.type = type ∧ ∀ m' ∈ behind, m'.type ≠ type

/-- The last message of its type stays the last behind one of another type. -/
theorem IsLast.append (hLast : IsLast ms m.type m) {next : HsMessage} (h : next.type ≠ m.type) :
    IsLast (ms ++ [next]) m.type m := by
  obtain ⟨before, behind, rfl, hType, hNone⟩ := hLast
  refine ⟨before, behind ++ [next], by simp, hType, fun m' hMem => ?_⟩
  rcases List.mem_append.mp hMem with hMem | hMem
  · exact hNone m' hMem
  · obtain rfl := List.mem_singleton.mp hMem
    exact h

/-- A new message is the last of its type. -/
theorem IsLast.new (ms : List HsMessage) (m : HsMessage) : IsLast (ms ++ [m]) m.type m :=
  ⟨ms, [], rfl, rfl, nofun⟩

theorem IsLast.mem {type : UInt8} (h : IsLast ms type m) : m ∈ ms := by
  obtain ⟨before, behind, rfl, -, -⟩ := h
  exact List.mem_append_right _ List.mem_cons_self

/-- The variables before the first message of the server. -/
def noneTaken (hash : Sha256) : FirstFlight := ⟨hash, [], false, none, false, false⟩

/-- What the variables say about the messages so far. -/
structure Tells (hash : Sha256) (ms : List HsMessage) (g : FirstFlight) : Prop where
  hash : g.hsHash = (ms.map HsMessage.bytes).foldl Sha256.update hash
  done : g.gotDone = true ↔ ∃ m ∈ ms, m.type = htServerDone
  requested : g.certRequested = true ↔ ∃ m ∈ ms, m.type = htCertRequest
  hello : g.gotHello = true → ∃ m, IsLast ms htServerHello m ∧ m.suite = rsaAes128Sha ∧
    g.serverRandom = m.random
  cert : ∀ cert, g.cert = some cert → ∃ m, IsLast ms htCertificate m ∧ m.cert = cert

/-- What was taken from the messages is what they tell. -/
theorem Tells.of_after {hash : Sha256} (h : (noneTaken hash).after ms = some g) :
    Tells hash ms g := by
  induction ms using List.reverseRecOn generalizing g with
  | nil =>
      obtain rfl := Option.some.inj h
      exact ⟨rfl, by simp [noneTaken], by simp [noneTaken], nofun, nofun⟩
  | append_singleton ms m ih =>
      rw [FirstFlight.after_append] at h
      cases hBefore : (noneTaken hash).after ms with
      | none =>
          rw [hBefore] at h
          nomatch h
      | some f =>
          obtain hTake : m.take (fun _ => true) f = some g := by
            rw [hBefore] at h
            simpa [FirstFlight.after] using h
          have hTells := ih hBefore
          obtain ⟨hHash, hDone, hRequested, hHello, hOther, hCert, hKept⟩ :=
            HsMessage.take_fields hTake
          refine ⟨?_, ?_, ?_, fun hGot => ?_, fun cert hSome => ?_⟩
          · rw [hHash, hTells.hash, List.map_append, List.foldl_append]
            rfl
          · simp [hDone, hTells.done, or_and_right, exists_or]
          · simp [hRequested, hTells.requested, or_and_right, exists_or]
          · by_cases hType : m.type = htServerHello
            · obtain ⟨hSuite, -, hRandom⟩ := hHello hType
              exact ⟨m, hType ▸ IsLast.new ms m, hSuite, hRandom⟩
            · obtain ⟨hSame, hRandom⟩ := hOther hType
              obtain ⟨m', hLast, hSuite, hTaken⟩ := hTells.hello (hSame ▸ hGot)
              obtain ⟨-, -, -, hType', -⟩ := id hLast
              exact ⟨m', hType' ▸ (hType'.symm ▸ hLast).append (hType'.symm ▸ hType), hSuite,
                hRandom.trans hTaken⟩
          · by_cases hType : m.type = htCertificate
            · rw [hCert hType] at hSome
              exact ⟨m, hType ▸ IsLast.new ms m, Option.some.inj hSome⟩
            · rw [hKept hType] at hSome
              obtain ⟨m', hLast, hSame⟩ := hTells.cert cert hSome
              obtain ⟨-, -, -, hType', -⟩ := id hLast
              exact ⟨m', hType' ▸ (hType'.symm ▸ hLast).append (hType'.symm ▸ hType), hSame⟩

end Folds

end Vmodem.Tls
