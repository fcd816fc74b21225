import Mathlib.Data.List.GetD
import Vmodem.Properties.ByteStream
import Vmodem.Properties.HandshakeSteps
import Vmodem.Properties.RsaRoundTrip

/-! A server that has the key of its certificate: the handshake with it succeeds, and leaves both
sides with the same keys. -/

namespace Vmodem.Tls

open BoundedLoop (Ends Pass Settles Steady run_again run_leave)

/-- A number in three bytes. -/
def put24 (n : Nat) : List UInt8 := [.ofNat (n / 65536), .ofNat (n / 256), .ofNat n]

/-- A server with RSA key exchange, and what it may choose. -/
structure TlsServer where
  key : Rsa.Key
  /-- The public key as it stands in the certificate. -/
  n : List UInt8
  e : List UInt8
  cert : List UInt8
  random : List UInt8
  sid : List UInt8
  /-- The certificates behind the first. -/
  chain : List UInt8
  /-- The body of a CertificateRequest, if the server sends one. -/
  request : Option (List UInt8)
  /-- How its first messages lie in records; behind the last comes ServerHelloDone. -/
  first : List (List HsMessage)
  last : List HsMessage
  iv : List UInt8

namespace TlsServer

variable (s : TlsServer)

def hello : HsMessage :=
  ⟨htServerHello, [0x03, 0x03] ++ s.random ++ [.ofNat s.sid.length] ++ s.sid ++
    put16 rsaAes128Sha ++ [0]⟩

def certificate : HsMessage :=
  ⟨htCertificate, put24 (3 + s.cert.length + s.chain.length) ++ put24 s.cert.length ++
    s.cert ++ s.chain⟩

/-- The first flight without ServerHelloDone. -/
def messages : List HsMessage :=
  [s.hello, s.certificate] ++ (s.request.map fun body => ⟨htCertRequest, body⟩).toList

def flight : List HsMessage := s.messages ++ [⟨htServerDone, []⟩]

def lastRecord : List HsMessage := s.last ++ [⟨htServerDone, []⟩]

def layout : List (List HsMessage) := s.first ++ [s.lastRecord]

/-- What the server makes of the client's random bytes and of the secret it has decrypted. -/
def master (clientRandom secret : List UInt8) : List UInt8 :=
  tlsPrf secret "master secret" (clientRandom ++ s.random) 48

def block (clientRandom secret : List UInt8) : List UInt8 :=
  tlsPrf (s.master clientRandom secret) "key expansion" (s.random ++ clientRandom) 104

/-- The connection of the server with its keys. -/
def conn (clientRandom secret : List UInt8) : VTlsConn where
  active := true
  macEncKey := ((s.block clientRandom secret).drop 20).take 20
  macDecKey := (s.block clientRandom secret).take 20
  encKey := aesSetup (((s.block clientRandom secret).drop 56).take 16)
  decKey := aesSetup (((s.block clientRandom secret).drop 40).take 16)
  encIv := ⟨0, 0, 0, 0⟩
  decIv := ⟨0, 0, 0, 0⟩
  seqSend := 0
  seqRecv := 0
  cipherActive := true
  peerCert := []
  peerKeyBits := 0

/-- The server's Finished for the messages it has seen. -/
def finished (clientRandom secret : List UInt8) (seen : List HsMessage) : HsMessage :=
  ⟨htFinished, verifyData (s.master clientRandom secret) "server finished" (hashAll seen)⟩

end TlsServer

/-- A record in clear. -/
def clearWire (ct : UInt8) (data : List UInt8) : List UInt8 := recordHeader ct data.length ++ data

/-- A record with handshake messages. -/
def messageWire (ms : List HsMessage) : List UInt8 :=
  clearWire rtHandshake (ms.flatMap HsMessage.bytes)

/-- Handshake messages with a record for each. -/
def sentWire (ms : List HsMessage) : List UInt8 :=
  ms.flatMap fun m => clearWire rtHandshake m.bytes

/-- ChangeCipherSpec and Finished of the server. -/
def TlsServer.closing (s : TlsServer) (clientRandom secret : List UInt8)
    (seen : List HsMessage) : List UInt8 :=
  clearWire rtChangeCipher [1] ++
    (recordHeader rtHandshake
        (payload (s.conn clientRandom secret) rtHandshake
          (s.finished clientRandom secret seen).bytes s.iv).length ++
      payload (s.conn clientRandom secret) rtHandshake
        (s.finished clientRandom secret seen).bytes s.iv)

/-- The server behind both Finished: it has written one record and read one. -/
def TlsServer.established (s : TlsServer) (clientRandom secret : List UInt8)
    (seen : List HsMessage) : VTlsConn :=
  { wrote (s.conn clientRandom secret) rtHandshake
    (s.finished clientRandom secret seen).bytes s.iv with
    seqRecv := 1 }

section Holding

variable {rec : Buffer} {alloc : Nat → Bool} {off : Nat} {m : HsMessage} {ms : List HsMessage}

/-- A message is four bytes longer than its body. -/
theorem length_messageBytes (m : HsMessage) : m.bytes.length = 4 + m.body.length := by
  rw [HsMessage.bytes, hsBuild, List.length_append]
  simp only [List.length_cons, List.length_nil]

/-- A message that lies in a record is read back. -/
theorem messageAt_of_bytes (hBytes : rec.bytes off (4 + m.body.length) = m.bytes)
    (hSize : m.body.length < 2 ^ 24) :
    rec.messageLen off = m.body.length ∧ rec.messageAt off = m := by
  rw [bytes_append, HsMessage.bytes, hsBuild] at hBytes
  obtain ⟨hHeader, hBody⟩ := List.append_inj hBytes (bytes_length ..)
  have hByte {k : Nat} (hk : k < 4) : rec.mem (off + k) =
      [m.type, .ofNat (m.body.length / 65536), .ofNat (m.body.length / 256),
        .ofNat m.body.length].getD k 0 := by
    rw [← hHeader, getD_bytes hk]
  have hLen : rec.messageLen off = m.body.length := by
    have h1 : rec.mem (off + 1) = .ofNat (m.body.length / 65536) := hByte (k := 1) (by decide)
    have h2 : rec.mem (off + 1 + 1) = .ofNat (m.body.length / 256) := by
      rw [Int.add_assoc]
      exact hByte (k := 2) (by decide)
    have h3 : rec.mem (off + 1 + 1 + 1) = .ofNat m.body.length := by
      rw [Int.add_assoc, Int.add_assoc]
      exact hByte (k := 3) (by decide)
    rw [Buffer.messageLen, Buffer.get24, Buffer.get16, h1, h2, h3]
    simp only [UInt8.toNat_ofNat']
    omega
  refine ⟨hLen, ?_⟩
  have hType : rec.mem off = m.type := by
    have h0 := hByte (k := 0) (by decide)
    rwa [Int.natCast_zero, Int.add_zero] at h0
  rw [Buffer.messageAt, hLen, hType]
  congr 1

/-- A record that is made of messages holds them. -/
theorem holds_of_bytes (hBytes : rec.bytes off (rec.len - off) = ms.flatMap HsMessage.bytes)
    (hOff : off ≤ rec.len)
    (hSize : rec.len ≤ maxRecord + 2048) (hComplete : ∀ m ∈ ms, m.Complete alloc) :
    Holds rec alloc off ms true := by
  rw [maxRecord] at hSize
  induction ms generalizing off with
  | nil =>
      have hEnd := congrArg List.length hBytes
      rw [bytes_length] at hEnd
      obtain rfl : off = rec.len := by
        rw [List.flatMap_nil, List.length_nil] at hEnd
        omega
      exact .done
  | cons m ms ih =>
      have hLength := congrArg List.length hBytes
      rw [bytes_length, List.flatMap_cons, List.length_append, length_messageBytes] at hLength
      rw [show rec.len - off = 4 + m.body.length + (rec.len - (off + 4 + m.body.length)) by omega,
        bytes_append, List.flatMap_cons] at hBytes
      obtain ⟨hFirst, hRest⟩ := List.append_inj hBytes (by rw [bytes_length, length_messageBytes])
      obtain ⟨hLen, hMessage⟩ := messageAt_of_bytes hFirst (by omega)
      have hHolds : Holds rec alloc off (rec.messageAt off :: ms) true := by
        apply Holds.message
        · omega
        · rw [hMessage]
          exact hComplete m List.mem_cons_self
        · rw [hLen]
          apply ih
          · rw [← hRest]
            congr 1
            omega
          · omega
          · exact fun m' hMem => hComplete m' (List.mem_cons_of_mem _ hMem)
      rwa [hMessage] at hHolds

/-- The bytes in a buffer built around a list are that list. -/
theorem bytes_around (bs : List UInt8) (outside : Int → UInt8) :
    (Buffer.around bs outside).bytes 0 bs.length = bs := by
  rw [bytes_map]
  apply List.ext_getElem
  · simp
  · intro k hk hk'
    simp only [List.getElem_map, List.getElem_range, Buffer.around, Int.zero_add]
    rw [if_pos ⟨by omega, by omega⟩, Int.toNat_natCast, List.getD_eq_getElem?_getD,
      List.getElem?_eq_getElem hk', Option.getD_some]

/-- A record made of whole messages holds these messages, when read from its start. -/
theorem holds_record (ct : UInt8) (outside : Int → UInt8)
    (hSize : (ms.flatMap HsMessage.bytes).length ≤ maxRecord)
    (hComplete : ∀ m ∈ ms, m.Complete alloc) :
    Holds (Record.buffer ⟨ct, ms.flatMap HsMessage.bytes, (ms.flatMap HsMessage.bytes).length⟩
      outside) alloc 0 ms
      true := by
  apply holds_of_bytes
  · exact bytes_around _ _
  · exact Nat.zero_le _
  · exact Nat.le_trans hSize (Nat.le_add_right _ _)
  · exact hComplete

end Holding

section Flight

variable {env : Env} {v : Vars} {more : List UInt8} {closes : Bool} {ms : List HsMessage} {n : Nat}

/-- Memory is there and everything can be sent. -/
structure Ready (env : Env) : Prop where
  slot : env.slotFree = true
  alloc : ∀ k size, env.alloc k size = true
  keyAlloc : ∀ size, env.keyAlloc size = true
  sends : ∀ k, env.sends k = true

theorem Ready.alloc_eq (h : Ready env) (k : Nat) : env.alloc k = fun _ => true := funext (h.alloc k)

/-- A record in clear is read as it is. -/
theorem tlsReadRecord_clearWire {c : VTlsConn} {ct : UInt8} {data : List UInt8}
    (hClear : ¬ (c.cipherActive ∧ decrypts ct)) (hSize : data.length ≤ maxRecord) :
    tlsReadRecord c ⟨clearWire ct data ++ more, closes⟩ =
      .done (⟨ct, data, data.length⟩, c, ⟨more, closes⟩) := by
  rw [clearWire]
  apply (tlsReadRecord_framed (Nat.le_trans hSize (Nat.le_add_right _ _))).trans
  exact if_neg hClear

/-- A pass over a record does not depend on how many passes are left. -/
theorem flightPass_steady (env : Env) : Steady (flightPass env) := by
  intro n v hNot
  unfold flightPass at hNot ⊢
  by_cases hDone : v.flight.gotDone = true
  · rw [if_pos hDone, if_pos hDone]
  · rw [if_neg hDone] at hNot ⊢
    rw [if_neg hDone]
    cases hRead : tlsReadRecord v.conn v.feed with
    | hangs => rfl
    | fails => rfl
    | done out =>
        rw [hRead] at hNot
        dsimp only at hNot ⊢
        by_cases hAlert : out.1.ct = rtAlert
        · rw [if_pos hAlert, if_pos hAlert]
        · rw [if_neg hAlert] at hNot ⊢
          rw [if_neg hAlert]
          by_cases hType : out.1.ct = rtHandshake
          · rw [if_pos hType] at hNot ⊢
            rw [if_pos hType]
            cases hLoop : messageLoop (out.1.buffer (env.outside (v.records + 1)))
                (env.alloc (v.records + 1)) n ⟨0, v.flight, []⟩ with
            | cut s =>
                rw [hLoop] at hNot
                exact absurd rfl (hNot _)
            | ended split =>
                rw [show messageLoop (out.1.buffer (env.outside (v.records + 1)))
                  (env.alloc (v.records + 1)) (n + 1) ⟨0, v.flight, []⟩ = .ended split from
                  messageLoop_steady.run_succ hLoop]
          · rw [if_neg hType, if_neg hType]

/-- After ServerHelloDone the loop over the records is left. -/
theorem flightPass_done (h : v.flight.gotDone = true) (n : Nat) :
    flightPass env n v = .leave v.go := by
  unfold flightPass
  exact if_pos h

/-- A record of the first flight is read and its messages are taken. -/
theorem flightPass_record {g : FirstFlight} (hReady : Ready env)
    (hClear : v.conn.cipherActive = false)
    (hDone : v.flight.gotDone = false) (hFeed : v.feed = ⟨messageWire ms ++ more, closes⟩)
    (hSize : (ms.flatMap HsMessage.bytes).length ≤ maxRecord)
    (hComplete : ∀ m ∈ ms, m.Complete fun _ => true)
    (hTaken : v.flight.after ms = some g) :
    ∃ n log, flightPass env n v = .again { v with
      feed := ⟨more, closes⟩, records := v.records + 1, flight := g, log := log } := by
  have hRead : tlsReadRecord v.conn v.feed = .done (⟨rtHandshake, ms.flatMap HsMessage.bytes,
      (ms.flatMap HsMessage.bytes).length⟩, v.conn, ⟨more, closes⟩) := by
    rw [hFeed, messageWire]
    exact tlsReadRecord_clearWire (by simp [hClear]) hSize
  have hHolds :
    Holds (Record.buffer ⟨rtHandshake, ms.flatMap HsMessage.bytes,
      (ms.flatMap HsMessage.bytes).length⟩
      (env.outside (v.records + 1))) (env.alloc (v.records + 1)) 0 ms true := by
    apply holds_record rtHandshake _ hSize
    rw [hReady.alloc_eq]
    exact hComplete
  obtain ⟨uses, n, hLoop⟩ := hHolds.ends (Nat.le_trans hSize (Nat.le_add_right _ _)) v.flight []
  rw [if_pos rfl, hReady.alloc_eq, ← FirstFlight.after, hTaken] at hLoop
  refine ⟨n, v.log ++ uses, ?_⟩
  unfold flightPass
  rw [if_neg (by rw [hDone]; decide), hRead]
  dsimp only
  rw [if_neg (by decide), if_pos rfl, hReady.alloc_eq, messageLoop]
  rw [show (0 : Int) = ((0 : Nat) : Int) from rfl, hLoop]

theorem after_gotDone {f g : FirstFlight} (h : f.after ms = some g)
    (hNone : ∀ m ∈ ms, m.type ≠ htServerDone) :
    g.gotDone = f.gotDone := by
  induction ms generalizing f with
  | nil =>
      cases h
      rfl
  | cons m ms ih =>
      rw [FirstFlight.after, List.foldlM_cons] at h
      cases hTake : m.take (fun _ => true) f with
      | none =>
          rw [hTake] at h
          cases h
      | some next =>
          rw [hTake] at h
          rw [ih h fun m' hMem => hNone m' (List.mem_cons_of_mem _ hMem),
            (HsMessage.take_fields hTake).2.1,
            decide_eq_false (hNone m List.mem_cons_self), Bool.or_false]

/-- Records without ServerHelloDone are read one after the other. -/
theorem flight_first {first : List (List HsMessage)} {g : FirstFlight} (hReady : Ready env)
    (hClear : v.conn.cipherActive = false) (hDone : v.flight.gotDone = false)
    (hFeed : v.feed = ⟨first.flatMap messageWire ++ more, closes⟩)
    (hSizes : ∀ ms ∈ first, (ms.flatMap HsMessage.bytes).length ≤ maxRecord)
    (hComplete : ∀ m ∈ first.flatten, m.Complete fun _ => true)
    (hNone : ∀ m ∈ first.flatten, m.type ≠ htServerDone)
    (hTaken : v.flight.after first.flatten = some g) :
    ∃ log, ∀ r, Ends (flightPass env) { v with
        feed := ⟨more, closes⟩, records := v.records + first.length, flight := g, log := log } r →
      Ends (flightPass env) v r := by
  induction first generalizing v with
  | nil =>
      cases hTaken
      refine ⟨v.log, fun r h => ?_⟩
      rw [List.flatMap_nil, List.nil_append] at hFeed
      rw [← hFeed, List.length_nil, Nat.add_zero] at h
      exact h
  | cons ms first ih =>
      rw [List.flatten_cons] at hComplete hNone hTaken
      rw [FirstFlight.after_append] at hTaken
      cases hNext : v.flight.after ms with
      | none =>
          rw [hNext] at hTaken
          cases hTaken
      | some f =>
          rw [hNext] at hTaken
          rw [List.flatMap_cons, List.append_assoc] at hFeed
          obtain ⟨n, log, hPass⟩ :=
            flightPass_record hReady hClear hDone hFeed (hSizes ms List.mem_cons_self)
            (fun m hMem => hComplete m (List.mem_append_left _ hMem)) hNext
          have hStill : f.gotDone = false :=
            (after_gotDone hNext fun m hMem => hNone m (List.mem_append_left _ hMem)).trans hDone
          obtain ⟨log', hRest⟩ := @ih { v with
            feed := ⟨first.flatMap messageWire ++ more, closes⟩, records := v.records + 1,
            flight := f,
            log := log } hClear hStill rfl (fun ms' hMem =>
              hSizes ms' (List.mem_cons_of_mem _ hMem))
            (fun m hMem => hComplete m (List.mem_append_right _ hMem))
            (fun m hMem => hNone m (List.mem_append_right _ hMem)) hTaken
          refine ⟨log', fun r h => .again (flightPass_steady env) hPass (hRest r ?_)⟩
          rw [List.length_cons, Nat.add_comm first.length, ← Nat.add_assoc] at h
          exact h

end Flight

section ServerFlight

variable {s : TlsServer}

/-- What the server's choices must be for TLS, and for one record of at most 16384 bytes. -/
structure TlsServer.Sound (s : TlsServer) : Prop where
  random : s.random.length = 32
  sid : s.sid.length ≤ 32
  iv : s.iv.length = 16
  cert : s.cert.length < 65536
  split : s.first.flatten ++ s.last = s.messages
  sizes : ∀ ms ∈ s.layout, (ms.flatMap HsMessage.bytes).length ≤ maxRecord

theorem TlsServer.messages_cases {m : HsMessage} (h : m ∈ s.messages) :
    m = s.hello ∨ m = s.certificate ∨ ∃ body, s.request = some body ∧
      m = ⟨htCertRequest, body⟩ := by
  unfold TlsServer.messages at h
  cases hRequest : s.request with
  | none =>
      rw [hRequest] at h
      simpa using h
  | some body =>
      rw [hRequest] at h
      simpa using h

/-- The fields of the ServerHello. -/
theorem TlsServer.hello_fields (h : s.Sound) :
    38 ≤ s.hello.body.length ∧ s.hello.sidLen = s.sid.length ∧
    37 + s.sid.length ≤ s.hello.body.length ∧ s.hello.suite = rsaAes128Sha ∧
    s.hello.random = s.random := by
  have hRandom := h.random
  have hSid := h.sid
  have hLength : s.hello.body.length = 38 + s.sid.length := by
    simp only [TlsServer.hello, put16, List.length_append, List.length_cons, List.length_nil]
    omega
  have hHead : ([0x03, 0x03] ++ s.random : List UInt8).length = 34 := by
    rw [List.length_append, hRandom]
    rfl
  have hSidLen : s.hello.sidLen = s.sid.length := by
    rw [HsMessage.sidLen]
    show (([0x03, 0x03] ++ s.random ++ [UInt8.ofNat s.sid.length] ++ s.sid ++ put16 rsaAes128Sha ++
      [0]).getD 34 0).toNat = _
    rw [List.append_assoc, List.append_assoc, List.append_assoc,
      List.getD_append_right _ _ _ _ (by omega), hHead]
    show (UInt8.ofNat s.sid.length).toNat = _
    rw [UInt8.toNat_ofNat']
    omega
  have hBefore : ([0x03, 0x03] ++ s.random ++ [UInt8.ofNat s.sid.length] ++ s.sid).length =
      35 + s.sid.length := by
    simp only [List.length_append, List.length_cons, List.length_nil]
    omega
  have hSuite (k : Nat) : s.hello.body.getD (35 + s.sid.length + k) 0 =
    (put16 rsaAes128Sha ++ [0]).getD k 0 := by
    show (([0x03, 0x03] ++ s.random ++ [UInt8.ofNat s.sid.length] ++ s.sid ++ put16 rsaAes128Sha ++
      [0]).getD (35 + s.sid.length + k) 0) = _
    rw [List.append_assoc _ (put16 rsaAes128Sha),
      List.getD_append_right _ _ _ _ (by omega), hBefore,
      Nat.add_sub_cancel_left]
  refine ⟨by omega, hSidLen, by omega, ?_, ?_⟩
  · rw [HsMessage.suite, hSidLen, hSuite 1]
    have hZero := hSuite 0
    rw [Nat.add_zero] at hZero
    rw [hZero]
    decide
  · rw [HsMessage.random]
    show (([0x03, 0x03] ++ s.random ++ [UInt8.ofNat s.sid.length] ++ s.sid ++ put16 rsaAes128Sha ++
      [0]).drop 2).take 32 = _
    simp only [List.append_assoc]
    show (s.random ++ _).take 32 = _
    exact List.take_left' hRandom

/-- The certificate message carries the first certificate, with its length. -/
theorem TlsServer.certificate_fields (h : s.Sound) :
    s.certificate.body.length = 6 + s.cert.length + s.chain.length ∧
    s.certificate.certLen = s.cert.length ∧ s.certificate.cert = s.cert := by
  have hCert := h.cert
  have hBody : s.certificate.body = put24 (3 + s.cert.length + s.chain.length) ++
    put24 s.cert.length ++ s.cert ++
    s.chain := rfl
  have hLen : s.certificate.certLen = s.cert.length := by
    have h3 : s.certificate.body.getD 3 0 = .ofNat (s.cert.length / 65536) := rfl
    have h4 : s.certificate.body.getD 4 0 = .ofNat (s.cert.length / 256) := rfl
    have h5 : s.certificate.body.getD 5 0 = .ofNat s.cert.length := rfl
    rw [HsMessage.certLen, h3, h4, h5]
    simp only [UInt8.toNat_ofNat']
    omega
  refine ⟨?_, hLen, ?_⟩
  · rw [hBody]
    simp only [put24, List.length_append, List.length_cons, List.length_nil]
  · rw [HsMessage.cert, hLen]
    show (s.cert ++ s.chain).take s.cert.length = s.cert
    exact List.take_left' rfl

/-- Every message of the server has the fields the client looks for. -/
theorem TlsServer.complete (h : s.Sound) : ∀ m ∈ s.flight, m.Complete fun _ => true := by
  have hKinds : htServerHello ≠ htCertificate ∧ htCertRequest ≠ htServerHello ∧
      htCertRequest ≠ htCertificate ∧ htServerDone ≠ htServerHello ∧
        htServerDone ≠ htCertificate := by
    decide
  obtain ⟨-, hSid, hFits, -, -⟩ := s.hello_fields h
  obtain ⟨hLength, hLen, -⟩ := s.certificate_fields h
  intro m hMem
  rcases List.mem_append.mp hMem with hMem | hMem
  · rcases s.messages_cases hMem with rfl | rfl | ⟨body, -, rfl⟩
    · exact ⟨fun _ _ => by omega, fun hType => absurd hType hKinds.1⟩
    · exact ⟨fun hType => absurd hType.symm hKinds.1, fun _ => ⟨by omega, fun _ => by omega⟩⟩
    · exact ⟨fun hType => absurd hType hKinds.2.1, fun hType => absurd hType hKinds.2.2.1⟩
  · obtain rfl := List.mem_singleton.mp hMem
    exact ⟨fun hType => absurd hType hKinds.2.2.2.1, fun hType => absurd hType hKinds.2.2.2.2⟩

/-- ServerHelloDone is the last message of the flight and no other. -/
theorem TlsServer.not_done : ∀ m ∈ s.messages, m.type ≠ htServerDone := by
  intro m hMem
  rcases s.messages_cases hMem with rfl | rfl | ⟨body, -, rfl⟩
  · show htServerHello ≠ htServerDone
    decide
  · show htCertificate ≠ htServerDone
    decide
  · show htCertRequest ≠ htServerDone
    decide

/-- The variables behind the first flight. -/
def TlsServer.taken (s : TlsServer) (hash : Sha256) : FirstFlight where
  hsHash := (s.flight.map HsMessage.bytes).foldl Sha256.update hash
  serverRandom := s.random
  gotHello := true
  cert := some s.cert
  certRequested := s.request.isSome
  gotDone := true

/-- The client takes from the whole flight what it needs, message by message. -/
theorem TlsServer.flight_taken (h : s.Sound) (hash : Sha256) :
    (noneTaken hash).after s.flight = some (s.taken hash) := by
  obtain ⟨hLong, -, -, hSuite, hRandom⟩ := s.hello_fields h
  obtain ⟨-, -, hCert⟩ := s.certificate_fields h
  have hHello (f : FirstFlight) : s.hello.take (fun _ => true) f = some { f with
      hsHash := f.hsHash.update s.hello.bytes, serverRandom := s.random, gotHello := true } := by
    unfold HsMessage.take HsMessage.apply
    rw [if_pos (show s.hello.type = htServerHello from rfl),
      if_neg (not_or.mpr ⟨by omega, not_not_intro hSuite⟩), hRandom]
  have hCertificate (f : FirstFlight) : s.certificate.take (fun _ => true) f = some { f with
      hsHash := f.hsHash.update s.certificate.bytes, cert := some s.cert } := by
    unfold HsMessage.take HsMessage.apply
    rw [show s.certificate.type = htCertificate from rfl, if_neg (by decide), if_pos rfl,
      if_pos rfl, hCert]
  have hRequest (f : FirstFlight) (body : List UInt8) :
      HsMessage.take (fun _ => true) f ⟨htCertRequest, body⟩ = some { f with
        hsHash := f.hsHash.update (HsMessage.bytes ⟨htCertRequest, body⟩),
        certRequested := true } := by
    have hKinds : htCertRequest ≠ htServerHello ∧ htCertRequest ≠ htCertificate := by decide
    unfold HsMessage.take HsMessage.apply
    dsimp only
    rw [if_neg hKinds.1, if_neg hKinds.2, if_pos rfl]
  have hDone (f : FirstFlight) : HsMessage.take (fun _ => true) f ⟨htServerDone, []⟩ = some { f with
      hsHash := f.hsHash.update (HsMessage.bytes ⟨htServerDone, []⟩), gotDone := true } := by
    unfold HsMessage.take HsMessage.apply
    rw [if_neg (by decide), if_neg (by decide), if_neg (by decide), if_pos rfl]
  unfold FirstFlight.after TlsServer.taken TlsServer.flight TlsServer.messages
  cases s.request with
  | none => simp [List.foldlM_cons, hHello, hCertificate, hDone, noneTaken]
  | some body => simp [List.foldlM_cons, hHello, hCertificate, hRequest, hDone, noneTaken]

end ServerFlight

section Reading

variable {env : Env} {s : TlsServer} {v : Vars} {more : List UInt8} {closes : Bool}

/-- The first flight of the server is read to its end. -/
theorem readFlight_server {hash : Sha256} (hReady : Ready env) (hSound : s.Sound)
    (hClear : v.conn.cipherActive = false) (hFresh : v.flight = noneTaken hash)
    (hFeed : v.feed = ⟨s.layout.flatMap messageWire ++ more, closes⟩) :
    ∃ n log, ∀ fuel, n ≤ fuel → readFlight env fuel v = ({ v with
      feed := ⟨more, closes⟩, records := v.records + s.layout.length, flight := s.taken hash,
      log := log } : Vars).go := by
  have hFlight : s.first.flatten ++ s.lastRecord = s.flight := by
    rw [TlsServer.lastRecord, ← List.append_assoc, hSound.split, TlsServer.flight]
  have hAll := s.flight_taken hSound hash
  rw [← hFlight, FirstFlight.after_append] at hAll
  have hMessages {m : HsMessage} (hMem : m ∈ s.first.flatten) : m ∈ s.messages := by
    rw [← hSound.split]
    exact List.mem_append_left _ hMem
  cases hFirst : (noneTaken hash).after s.first.flatten with
  | none =>
      rw [hFirst] at hAll
      cases hAll
  | some f =>
      rw [hFirst] at hAll
      have hNone : ∀ m ∈ s.first.flatten, m.type ≠ htServerDone :=
        fun m hMem => s.not_done m (hMessages hMem)
      have hStill : f.gotDone = false := after_gotDone hFirst hNone
      rw [TlsServer.layout, List.flatMap_append, List.flatMap_singleton, List.append_assoc] at hFeed
      obtain ⟨log, hFirstRead⟩ := flight_first hReady hClear (by rw [hFresh]; rfl) hFeed
        (fun ms hMem => hSound.sizes ms (List.mem_append_left _ hMem))
        (fun m hMem => s.complete hSound m (List.mem_append_left _ (hMessages hMem))) hNone
        (by rw [hFresh]; exact hFirst)
      let u : Vars := { v with
        feed := ⟨messageWire s.lastRecord ++ more, closes⟩,
        records := v.records + s.first.length, flight := f, log := log }
      have hFeedLast : u.feed = ⟨messageWire s.lastRecord ++ more, closes⟩ := rfl
      have hSize : (s.lastRecord.flatMap HsMessage.bytes).length ≤ maxRecord :=
        hSound.sizes _ (List.mem_append_right _ (List.mem_singleton_self _))
      have hTaken : u.flight.after s.lastRecord = some (s.taken hash) := hAll
      obtain ⟨n, log', hPass⟩ := flightPass_record (v := u) hReady hClear hStill hFeedLast hSize
        (fun m hMem => s.complete hSound m (by rw [← hFlight]; exact List.mem_append_right _ hMem))
          hTaken
      let w : Vars := { v with
        feed := ⟨more, closes⟩, records := v.records + s.first.length + 1, flight := s.taken hash,
        log := log' }
      have hLeave : flightPass env 0 w = .leave w.go := flightPass_done rfl 0
      have hEnds : Ends (flightPass env) u w.go :=
        .again (flightPass_steady env) hPass (.leave hLeave)
      obtain ⟨n, hRun⟩ := hFirstRead _ hEnds
      refine ⟨n, log', fun fuel hLe => ?_⟩
      rw [readFlight, (flightPass_steady env).mono hLe hRun]
      rw [TlsServer.layout, List.length_append, List.length_singleton, ← Nat.add_assoc]

end Reading

section Sending

/-- Each round of the pseudorandom function adds 32 bytes. -/
theorem length_prfRounds (secret lseed : List UInt8) (n : Nat) (a : List UInt8) :
    (prfRounds secret lseed n a).length = 32 * n := by
  induction n generalizing a with
  | zero => rfl
  | succ n ih =>
      rw [prfRounds, List.length_append, length_hmacSha256, ih]
      omega

/-- The pseudorandom function gives as many bytes as asked for. -/
theorem length_tlsPrf (secret : List UInt8) (label : String) (seed : List UInt8) (outlen : Nat) :
    (tlsPrf secret label seed outlen).length = outlen := by
  rw [tlsPrf, List.length_take, length_prfRounds]
  omega

variable {env : Env} {v : Vars} {k : Nat}

/-- The variables behind messages that were hashed and sent in clear. -/
def Vars.told (v : Vars) (ms : List HsMessage) : Vars :=
  { v with
    flight := { v.flight with
      hsHash := (ms.map HsMessage.bytes).foldl Sha256.update v.flight.hsHash }
    sent := v.sent ++ sentWire ms }

theorem Vars.told_nil (v : Vars) : v.told [] = v := by
  have hSent : v.sent ++ sentWire [] = v.sent := List.append_nil _
  rw [Vars.told, hSent]
  rfl

/-- What is hashed and sent in clear after other messages stands behind them. -/
theorem Vars.told_append (v : Vars) (ms more : List HsMessage) (writes : List Write) :
    Vars.told { v.told ms with writes := writes } more =
      { v.told (ms ++ more) with writes := writes } := by
  simp only [Vars.told, sentWire, List.flatMap_append, List.map_append, List.foldl_append,
    List.append_assoc]

/-- Without keys a message goes out and is hashed, and nothing else changes. -/
theorem sendMessage_clear (m : HsMessage) (hReady : Ready env)
    (hClear : v.conn.cipherActive = false) :
    sendMessage env k m.bytes v = (v.told [m]).go := by
  have hWire : sentWire [m] = recordHeader rtHandshake m.bytes.length ++ m.bytes :=
    List.append_nil _
  unfold sendMessage sendRecord tlsWriteRecord
  dsimp only
  rw [hClear, if_neg (by decide)]
  dsimp only
  rw [if_pos (hReady.sends k), Vars.told, hWire]
  rfl

/-- A client that is asked for a certificate sends an empty one. -/
theorem emptyCertificate_clear (hReady : Ready env) (hClear : v.conn.cipherActive = false) :
    emptyCertificate env v = (v.told
      (if v.flight.certRequested = true then [⟨htCertificate, [0, 0, 0]⟩] else [])).go := by
  unfold emptyCertificate
  by_cases hRequested : v.flight.certRequested = true
  · rw [if_pos hRequested, if_pos hRequested]
    exact sendMessage_clear ⟨htCertificate, [0, 0, 0]⟩ hReady hClear
  · rw [if_neg hRequested, if_neg hRequested, Vars.told_nil]

/-- ChangeCipherSpec is the last record in clear. -/
theorem changeCipherSpec_clear (hReady : Ready env) (hClear : v.conn.cipherActive = false) :
    changeCipherSpec env v = ({ v with
      conn := { v.conn with cipherActive := true, seqSend := 0 }
      sent := v.sent ++ clearWire rtChangeCipher [1] } : Vars).go := by
  unfold changeCipherSpec sendRecord tlsWriteRecord
  rw [hClear, if_neg (by decide)]
  dsimp only
  rw [if_pos (hReady.sends 3)]
  rfl

/-- The keys and the certificate are the same. -/
structure SameKeys (c c' : VTlsConn) : Prop where
  encKey : c'.encKey = c.encKey
  decKey : c'.decKey = c.decKey
  macEncKey : c'.macEncKey = c.macEncKey
  macDecKey : c'.macDecKey = c.macDecKey
  peerCert : c'.peerCert = c.peerCert
  cipherActive : c'.cipherActive = c.cipherActive

theorem sameKeys_wrote (w : VTlsConn) (ct : UInt8) (data iv : List UInt8) :
    SameKeys w (wrote w ct data iv) := by
  unfold wrote
  exact ⟨rfl, rfl, rfl, rfl, rfl, rfl⟩

/-- The other side of a connection reads one record with a message from the stream. -/
def Sealed (w : VTlsConn) (stream : List UInt8) (m : HsMessage) : Prop :=
  ∀ r closes, Mirrored w r → ∃ r', readRecords r ⟨stream, closes⟩ 1 =
    .done ([(rtHandshake, m.bytes)], r', ⟨[], closes⟩)

/-- A message written under keys is on the wire sealed. -/
theorem sealed_payload {w : VTlsConn} {m : HsMessage} {iv : List UInt8} (hIv : iv.length = 16)
    (hSize : m.bytes.length ≤ maxRecord) : Sealed w
      (recordHeader rtHandshake (payload w rtHandshake m.bytes iv).length ++
        payload w rtHandshake m.bytes iv) m := by
  intro r closes hMirrored
  obtain ⟨record, hType, hContent, hRead⟩ :=
    tlsReadRecord_payload hMirrored hIv hSize (by decide : decrypts rtHandshake) [] closes
  rw [List.append_nil] at hRead
  refine ⟨opened r (payload w rtHandshake m.bytes iv), ?_⟩
  rw [readRecords, hRead]
  dsimp only [readRecords]
  rw [hType, hContent]

/-- The client's Finished is the first record with keys. -/
theorem clientFinished_sealed (hReady : Ready env) (hCipher : v.conn.cipherActive = true) :
    let m : HsMessage := ⟨htFinished, verifyData v.masterSecret "client finished" v.flight.hsHash⟩
    ∃ u wire, clientFinished env v = u.go ∧ Kept v u ∧ SameKeys v.conn u.conn ∧
      u.conn.seqSend = v.conn.seqSend + 1 ∧ u.masterSecret = v.masterSecret ∧
      u.flight.hsHash = v.flight.hsHash.update m.bytes ∧ u.sent = v.sent ++ wire ∧
      Sealed v.conn wire m := by
  intro finished
  have hBuilt : hsBuild htFinished (verifyData v.masterSecret "client finished" v.flight.hsHash) =
      finished.bytes := rfl
  generalize hMessage : finished = m at hBuilt ⊢
  have hLength : m.bytes.length = 16 := by
    rw [length_messageBytes, ← hMessage]
    show 4 + (tlsPrf _ _ _ 12).length = 16
    rw [length_tlsPrf]
  have hSealed : clientFinished env v = ({ v with
      conn := wrote v.conn rtHandshake m.bytes (List.ofFn env.iv)
      flight := { v.flight with hsHash := v.flight.hsHash.update m.bytes }
      writes := v.writes ++ [⟨.verifyData, 0, 12⟩]
      sent := v.sent ++ (recordHeader rtHandshake
        (payload v.conn rtHandshake m.bytes (List.ofFn env.iv)).length ++
          payload v.conn rtHandshake m.bytes (List.ofFn env.iv)) } : Vars).go := by
    unfold clientFinished sendMessage sendRecord
    rw [hBuilt]
    dsimp only
    rw [tlsWriteRecord_payload hCipher (by rw [maxRecord]; omega)]
    dsimp only
    rw [if_pos (hReady.sends 4)]
  have hWire := @sealed_payload v.conn m (List.ofFn env.iv) (List.length_ofFn ..)
    (by rw [hLength]; decide)
  have hKeys := sameKeys_wrote v.conn rtHandshake m.bytes (List.ofFn env.iv)
  have hSeq : (wrote v.conn rtHandshake m.bytes (List.ofFn env.iv)).seqSend =
    v.conn.seqSend + 1 := by
    rw [wrote]
  generalize wrote v.conn rtHandshake m.bytes (List.ofFn env.iv) = w at hSealed hKeys hSeq
  exact ⟨_, _, hSealed, ⟨rfl, rfl⟩, hKeys, hSeq, rfl, rfl, rfl, hWire⟩

end Sending

section Closing

variable {env : Env} {s : TlsServer} {v : Vars} {w : VTlsConn} {more iv : List UInt8}
  {closes : Bool}

/-- The server's ChangeCipherSpec begins its count of records. -/
theorem finishPass_changeCipher (hFeed : v.feed = ⟨clearWire rtChangeCipher [1] ++ more, closes⟩)
    (got : Bool) :
    finishPass env ⟨v, got⟩ = .again ⟨{ v with
      conn := { v.conn with seqRecv := 0 }, feed := ⟨more, closes⟩, records := v.records + 1 },
        true⟩ := by
  have hRead : tlsReadRecord v.conn v.feed =
    .done (⟨rtChangeCipher, [1], 1⟩, v.conn, ⟨more, closes⟩) := by
    rw [hFeed]
    exact tlsReadRecord_clearWire (fun h => absurd h.2 (by decide)) (by decide)
  unfold finishPass
  rw [hRead]
  rfl

/-- The server's Finished with the right data is the end of the handshake. -/
theorem finishPass_finished {secret : List UInt8} {hash : Sha256} {m : HsMessage}
    (hMirrored : Mirrored w v.conn)
    (hIv : iv.length = 16) (hSecret : v.masterSecret = secret) (hHash : v.flight.hsHash = hash)
    (hMessage : ⟨htFinished, verifyData secret "server finished" hash⟩ = m)
    (hFeed : v.feed = ⟨recordHeader rtHandshake (payload w rtHandshake m.bytes iv).length ++
      payload w rtHandshake m.bytes iv ++ more, closes⟩) :
    finishPass env ⟨v, true⟩ = .leave ({ v with
      conn := opened v.conn (payload w rtHandshake m.bytes iv)
      feed := ⟨more, closes⟩, records := v.records + 1 } : Vars).go := by
  have hVerify : (verifyData secret "server finished" hash).length = 12 := length_tlsPrf ..
  have hLength : m.bytes.length = 16 := by
    rw [length_messageBytes, ← hMessage]
    show 4 + (verifyData secret "server finished" hash).length = 16
    rw [hVerify]
  have hBytes : m.bytes = [htFinished, 0, 0, 12] ++ verifyData secret "server finished" hash := by
    rw [← hMessage, HsMessage.bytes, hsBuild, hVerify]
    rfl
  obtain ⟨r, hType, hContent, hRead⟩ :=
    @tlsReadRecord_payload w v.conn rtHandshake m.bytes iv hMirrored hIv
    (by rw [hLength]; decide) (by decide) more closes
  have hInside := tlsReadRecord_whole_buffer hRead
  have hLen : r.len = 16 := by
    have hTake := congrArg List.length hContent
    rw [Record.content, List.length_take, hLength] at hTake
    omega
  have hMem (k : Nat) (hk : k < 16) (outside : Int → UInt8) : (r.buffer outside).mem k =
    m.bytes.getD k 0 := by
    rw [← hContent, Record.content, List.getD_eq_getElem?_getD, List.getElem?_take_of_lt (by omega),
      ← List.getD_eq_getElem?_getD]
    exact if_pos ⟨by omega, by omega⟩
  rw [← hFeed] at hRead
  have hFinished (outside : Int → UInt8) : (r.buffer outside).mem 0 = htFinished := by
    have hFirst := hMem 0 (by decide) outside
    rw [hBytes] at hFirst
    exact hFirst
  have hData (outside : Int → UInt8) :
      (r.buffer outside).bytes 4 12 = verifyData secret "server finished" hash := by
    rw [bytes_map]
    apply List.ext_getElem
    · simp [hVerify]
    · intro k hk hk'
      rw [List.getElem_map, List.getElem_range]
      have hk : k < 12 := by omega
      have hByte := hMem (4 + k) (by omega) outside
      rw [hBytes, List.getD_append_right _ _ _ _ (by simp), List.getD_eq_getElem?_getD,
        List.getElem?_eq_getElem (by simp; omega)] at hByte
      simpa using hByte
  unfold finishPass
  rw [hRead]
  dsimp only
  rw [hType, if_neg (by decide), if_pos rfl, if_pos rfl,
    if_pos ⟨by show 4 ≤ r.len; omega, hFinished _⟩, hSecret, hHash,
      if_neg (not_not_intro (hData _))]

/-- Two passes. -/
theorem readFinished_two {u : Vars} {p : Progress}
    (hFirst : finishPass env ⟨v, false⟩ = .again ⟨u, true⟩)
    (hSecond : finishPass env ⟨u, true⟩ = .leave p) (fuel : Nat) (hLe : 2 ≤ fuel) :
    readFinished env fuel v = p := by
  have hSteady : Steady fun _ : Nat => finishPass env := fun _ _ _ => rfl
  rw [readFinished, hSteady.mono hLe ((run_again hFirst).trans (run_leave hSecond))]

end Closing

section Agreement

variable {env : Env} {s : TlsServer} {v : Vars}

/-- The client's random bytes. -/
def Env.random (env : Env) : List UInt8 := List.ofFn env.clientRandom

/-- The certificate gives the client the public key. -/
def TlsServer.Certified (s : TlsServer) (env : Env) : Prop :=
  ∃ key, x509ExtractRsa (certBuffer env s.cert) (int16 s.cert.length) = some key ∧
    (certBuffer env s.cert).bytes key.n.start key.n.len = s.n ∧
    (certBuffer env s.cert).bytes key.e.start key.e.len = s.e

/-- The client finds the server's key in its certificate. -/
theorem serverKey_server (hReady : Ready env) (hCertified : s.Certified env)
    (hHello : v.flight.gotHello = true)
    (hCert : v.flight.cert = some s.cert) : ∃ u, serverKey env v = u.go ∧ Kept v u ∧
      u.flight = v.flight ∧ u.sent = v.sent ∧ u.rsaN = s.n ∧ u.rsaE = s.e ∧
        u.conn.cipherActive = v.conn.cipherActive ∧ u.conn.peerCert = s.cert := by
  obtain ⟨key, hKey, hN, hE⟩ := hCertified
  -- That it is a function is enough: nothing is to compute it.
  obtain ⟨narrow, hNarrow⟩ : ∃ narrow, int16 = narrow := ⟨_, rfl⟩
  unfold serverKey
  rw [hNarrow] at hKey ⊢
  rw [hHello, hCert]
  dsimp only
  rw [hKey]
  dsimp only
  rw [if_pos ⟨hReady.keyAlloc _, hReady.keyAlloc _⟩, hN, hE]
  exact ⟨_, rfl, ⟨rfl, rfl⟩, rfl, rfl, rfl, rfl, rfl, rfl⟩

/-- The messages between the two flights of the server. -/
theorem keyExchange_server {encrypted : List UInt8} (hReady : Ready env)
    (hClear : v.conn.cipherActive = false) :
    let empty :=
      if v.flight.certRequested = true then [HsMessage.mk htCertificate [0, 0, 0]] else []
    let ms := empty ++ [HsMessage.mk htClientKeyEx (put16 v.rsaN.length ++ encrypted)]
    ∃ u, Kept v u ∧ u.conn = v.conn ∧ u.flight.serverRandom = v.flight.serverRandom ∧
      u.flight.hsHash = (ms.map HsMessage.bytes).foldl Sha256.update v.flight.hsHash ∧
      u.sent = v.sent ++ sentWire ms ∧ ∀ fuel,
        rsaEncrypt fuel env.rand v.rsaN v.rsaE (preMasterSecret env) = some (some encrypted) →
        ((emptyCertificate env v).andThen (keyExchange env fuel)) = u.go := by
  intro empty ms
  refine ⟨{ v.told ms with writes := v.writes ++ exchangeWrites v.rsaN.length },
    ⟨rfl, rfl⟩, rfl, rfl,
    rfl, rfl, fun fuel hEncrypt => ?_⟩
  have hEncrypt : rsaEncrypt fuel env.rand (v.told empty).rsaN (v.told empty).rsaE
    (preMasterSecret env) =
      some (some encrypted) := hEncrypt
  rw [emptyCertificate_clear hReady hClear, Vars.go_andThen]
  unfold keyExchange
  rw [if_pos (hReady.keyAlloc _), hEncrypt]
  refine (sendMessage_clear ⟨htClientKeyEx, put16 v.rsaN.length ++ encrypted⟩ hReady ?_).trans ?_
  · exact hClear
  · exact congrArg Vars.go (v.told_append empty _ (v.writes ++ exchangeWrites v.rsaN.length))

/-- The keys of a key block, on the client's side. -/
structure Keyed (block : List UInt8) (c : VTlsConn) : Prop where
  encKey : c.encKey = aesSetup ((block.drop 40).take 16)
  decKey : c.decKey = aesSetup ((block.drop 56).take 16)
  macEncKey : c.macEncKey = block.take 20
  macDecKey : c.macDecKey = (block.drop 20).take 20

/-- Connections with the same keys hold the same key block. -/
theorem SameKeys.keyed {c c' : VTlsConn} {block : List UInt8} (h : SameKeys c c')
    (hKeyed : Keyed block c) :
    Keyed block c' :=
  ⟨h.encKey.trans hKeyed.encKey, h.decKey.trans hKeyed.decKey, h.macEncKey.trans hKeyed.macEncKey,
    h.macDecKey.trans hKeyed.macDecKey⟩

/-- `deriveKeys` sets the keys of the client's side, and neither turns them on nor
touches the certificate. -/
theorem keyed_withKeys (c : VTlsConn) (block : List UInt8) : Keyed block (c.withKeys block) ∧
    (c.withKeys block).cipherActive = c.cipherActive ∧
    (c.withKeys block).peerCert = c.peerCert := by
  unfold VTlsConn.withKeys
  exact ⟨⟨rfl, rfl, rfl, rfl⟩, rfl, rfl⟩

/-- Switching the keys on leaves them as they are. -/
theorem Keyed.switchedOn {c : VTlsConn} {block : List UInt8} (h : Keyed block c) :
    ∃ d, { c with
      cipherActive := true, seqSend := 0 } = d ∧ Keyed block d ∧ d.peerCert = c.peerCert ∧
      d.cipherActive = true ∧ d.seqSend = 0 := by
  cases c
  exact ⟨_, rfl, ⟨h.encKey, h.decKey, h.macEncKey, h.macDecKey⟩, rfl, rfl, rfl⟩

/-- Behind `before` the stream goes on with ChangeCipherSpec and a message under the keys. -/
def SentSealed (block : List UInt8) (m : HsMessage) (before stream : List UInt8) : Prop :=
  ∃ c wire, Keyed block c ∧ c.cipherActive = true ∧ c.seqSend = 0 ∧ Sealed c wire m ∧
    stream = before ++ (clearWire rtChangeCipher [1] ++ wire)

/-- The keys, and the client's last two records. -/
theorem lastRecords_server (hReady : Ready env) (hClear : v.conn.cipherActive = false) :
    let m : HsMessage :=
      ⟨htFinished, verifyData (masterSecret env v.flight.serverRandom) "client finished"
        v.flight.hsHash⟩
    ∃ u, Kept v u ∧ u.masterSecret = masterSecret env v.flight.serverRandom ∧
      Keyed (keyBlock env v.flight.serverRandom) u.conn ∧ u.conn.peerCert = v.conn.peerCert ∧
      u.conn.cipherActive = true ∧ u.conn.seqSend = 1 ∧
      u.flight.hsHash = v.flight.hsHash.update m.bytes ∧
      SentSealed (keyBlock env v.flight.serverRandom) m v.sent u.sent ∧
      ((deriveKeys env v).andThen fun v => (changeCipherSpec env v).andThen (clientFinished env)) =
        u.go := by
  have hDerive : deriveKeys env v = ({ v with
    masterSecret := masterSecret env v.flight.serverRandom
    conn := v.conn.withKeys (keyBlock env v.flight.serverRandom)
    writes := v.writes ++ keyWrites } : Vars).go := by
    rw [deriveKeys]
  intro m
  obtain ⟨hKeyed, hActive, hCert⟩ := keyed_withKeys v.conn (keyBlock env v.flight.serverRandom)
  unfold m
  generalize masterSecret env v.flight.serverRandom = secret at hDerive ⊢
  generalize v.conn.withKeys (keyBlock env v.flight.serverRandom) = c
    at hDerive hKeyed hActive hCert
  obtain ⟨d, hSwitched, hKeyed', hCert', hActive', hZero⟩ := hKeyed.switchedOn
  rw [hDerive, Vars.go_andThen, changeCipherSpec_clear hReady (hActive.trans hClear),
    Vars.go_andThen]
  dsimp only
  rw [hSwitched]
  obtain ⟨u, wire, hSealed, hKept, hSame, hSeq, hSecret, hHash, hSent, hWire⟩ :=
    clientFinished_sealed (v := { v with
      masterSecret := secret, conn := d, writes := v.writes ++ keyWrites
      sent := v.sent ++ clearWire rtChangeCipher [1] }) hReady hActive'
  rw [hSealed]
  refine ⟨u, ⟨hKept.feed, hKept.records⟩, hSecret, hSame.keyed hKeyed',
    hSame.peerCert.trans (hCert'.trans hCert),
    hSame.cipherActive.trans hActive', ?_, hHash,
    ⟨d, wire, hKeyed', hActive', hZero, hWire, hSent.trans (List.append_assoc ..)⟩, rfl⟩
  rw [hSeq, hZero]
  decide

/-- The client's Finished. -/
def finishedMessage (env : Env) (s : TlsServer) (encrypted : List UInt8) : HsMessage :=
  ⟨htFinished, verifyData (masterSecret env s.random) "client finished"
    (hashAll (exchanged env s.flight s.n encrypted))⟩

/-- What the client sends in a handshake with the server. -/
def SentTo (env : Env) (s : TlsServer) (encrypted stream : List UInt8) : Prop :=
  SentSealed (keyBlock env s.random) (finishedMessage env s encrypted)
    (sentWire (⟨htClientHello, helloBody env⟩ :: exchangeMessages s.flight s.n encrypted)) stream

/-- The client behind its Finished: its keys, its hash and what it has sent. -/
structure Finished (env : Env) (s : TlsServer) (encrypted : List UInt8) (u : Vars) : Prop where
  cipher : u.conn.cipherActive = true
  keys : Keyed (keyBlock env s.random) u.conn
  seqSend : u.conn.seqSend = 1
  cert : u.conn.peerCert = s.cert
  secret : u.masterSecret = masterSecret env s.random
  hash : u.flight.hsHash = hashAll (transcript env s.flight s.n encrypted s.random)
  sent : SentTo env s encrypted u.sent

/-- The flight has a request exactly if the server makes one. -/
theorem TlsServer.requested_iff :
    (∃ m ∈ s.flight, m.type = htCertRequest) ↔ s.request.isSome = true := by
  have hKinds : htServerHello ≠ htCertRequest ∧ htCertificate ≠ htCertRequest ∧
    htServerDone ≠ htCertRequest := by
    decide
  unfold TlsServer.flight TlsServer.messages
  cases s.request with
  | none => simp [TlsServer.hello, TlsServer.certificate, hKinds]
  | some body => simp

/-- From the end of the first flight on, the client gets to its Finished. -/
theorem exchange_server {encrypted : List UInt8} (hReady : Ready env) (hCertified : s.Certified env)
    (hClear : v.conn.cipherActive = false)
    (hFlight : v.flight = s.taken (hashAll [⟨htClientHello, helloBody env⟩]))
    (hSent : v.sent = sentWire [⟨htClientHello, helloBody env⟩]) :
    ∃ u, Finished env s encrypted u ∧ u.feed = v.feed ∧ u.records = v.records ∧ ∀ fuel,
      rsaEncrypt fuel env.rand s.n s.e (preMasterSecret env) = some (some encrypted) →
      ((serverKey env v).andThen fun v => (emptyCertificate env v).andThen fun v =>
        (keyExchange env fuel v).andThen fun v => (deriveKeys env v).andThen fun v =>
          (changeCipherSpec env v).andThen (clientFinished env)) = u.go := by
  obtain ⟨v₁, hKey, hKept₁, hFlight₁, hSent₁, hN, hE, hClear₁, hCert₁⟩ :=
    serverKey_server hReady hCertified (v := v) (by rw [hFlight]; rfl) (by rw [hFlight]; rfl)
  rw [hClear] at hClear₁
  obtain ⟨v₂, hKept₂, hConn₂, hRandom₂, hHash₂, hSent₂, hExchange⟩ :=
    @keyExchange_server env v₁ encrypted hReady hClear₁
  rw [hN] at hHash₂ hSent₂
  rw [hN, hE] at hExchange
  rw [← hConn₂] at hClear₁ hCert₁
  have hRandom : v₂.flight.serverRandom = s.random := by
    rw [hRandom₂, hFlight₁, hFlight]
    rfl
  have hRequested : v₁.flight.certRequested = s.request.isSome := by
    rw [hFlight₁, hFlight]
    rfl
  have hSent : v₂.sent = sentWire
    (⟨htClientHello, helloBody env⟩ :: exchangeMessages s.flight s.n encrypted) := by
    rw [hSent₂, hSent₁, hSent, hRequested, exchangeMessages]
    simp only [TlsServer.requested_iff, sentWire, List.flatMap_cons, List.flatMap_nil,
      List.append_nil]
  have hHash : v₂.flight.hsHash = hashAll (exchanged env s.flight s.n encrypted) := by
    have hStart : v₁.flight.hsHash = hashAll (⟨htClientHello, helloBody env⟩ :: s.flight) := by
      rw [hFlight₁, hFlight]
      rfl
    rw [hHash₂, exchanged, hashAll_append, hStart, hRequested, exchangeMessages]
    simp only [TlsServer.requested_iff]
  obtain ⟨u, hKept, hSecret, hKeyed, hCert, hCipher, hSeq, hFinal, hWire, hSealed⟩ :=
    lastRecords_server hReady hClear₁
  rw [hRandom] at hSecret hFinal hKeyed hWire
  rw [hHash, hSent] at hWire
  refine ⟨u, ⟨hCipher, hKeyed, hSeq, hCert.trans hCert₁, hSecret, ?_, hWire⟩, ?_, ?_,
    fun fuel hEncrypt => ?_⟩
  · rw [hFinal, hHash, transcript, hashAll_append]
    rfl
  · rw [hKept.feed, hKept₂.feed, hKept₁.feed]
  · rw [hKept.records, hKept₂.records, hKept₁.records]
  · rw [hKey, Vars.go_andThen, ← Progress.andThen_assoc, hExchange fuel hEncrypt,
      Vars.go_andThen, hSealed]

/-- What the server decrypts is the client's secret: it has the client's keys. -/
theorem TlsServer.block_eq : s.block env.random (preMasterSecret env) = keyBlock env s.random := by
  rw [TlsServer.block, TlsServer.master, Env.random, keyBlock, masterSecret]

/-- Client and server compute one master secret from the random values and the
pre-master secret. -/
theorem TlsServer.master_eq :
    s.master env.random (preMasterSecret env) = masterSecret env s.random := by
  rw [TlsServer.master, Env.random, masterSecret]

/-- The server's connection, as the client's key block gives it. -/
structure Mirrors (block : List UInt8) (c : VTlsConn) : Prop where
  encKey : c.encKey = aesSetup ((block.drop 56).take 16)
  decKey : c.decKey = aesSetup ((block.drop 40).take 16)
  macEncKey : c.macEncKey = (block.drop 20).take 20
  macDecKey : c.macDecKey = block.take 20
  cipher : c.cipherActive = true

/-- The server sets its keys the other way round and starts counting at zero. -/
theorem TlsServer.conn_mirrors (random secret : List UInt8) :
    Mirrors (s.block random secret) (s.conn random secret) ∧
    (s.conn random secret).seqSend = 0 ∧ (s.conn random secret).seqRecv = 0 := by
  unfold TlsServer.conn
  generalize s.block random secret = block
  exact ⟨⟨rfl, rfl, rfl, rfl, rfl⟩, rfl, rfl⟩

/-- Writing a record and resetting the counter keeps the server's keys. -/
theorem Mirrors.established {block : List UInt8} {c : VTlsConn} (h : Mirrors block c) (ct : UInt8)
    (data iv : List UInt8) : Mirrors block { wrote c ct data iv with seqRecv := 1 } ∧
      ({ wrote c ct data iv with seqRecv := 1 } : VTlsConn).seqSend = c.seqSend + 1 ∧
      ({ wrote c ct data iv with seqRecv := 1 } : VTlsConn).seqRecv = 1 := by
  unfold wrote
  exact ⟨⟨h.encKey, h.decKey, h.macEncKey, h.macDecKey, h.cipher⟩, rfl, rfl⟩

/-- The server reads what the client writes. -/
theorem mirrored_server {block : List UInt8} {c d : VTlsConn} (hClient : Keyed block c)
    (hServer : Mirrors block d)
    (hCipher : c.cipherActive = true) (hSend : c.seqSend = d.seqRecv) : Mirrored c d :=
  ⟨hServer.decKey.trans hClient.encKey.symm,
    hServer.macDecKey.trans hClient.macEncKey.symm, hSend.symm,
    hCipher, hServer.cipher⟩

/-- The two sides of a connection. -/
theorem mirrored_sides {block : List UInt8} {c d : VTlsConn} (hClient : Keyed block c)
    (hServer : Mirrors block d)
    (hCipher : c.cipherActive = true) (hSend : c.seqSend = d.seqRecv)
    (hRecv : c.seqRecv = d.seqSend) :
    Mirrored c d ∧ Mirrored d c where
  left := mirrored_server hClient hServer hCipher hSend
  right := ⟨hClient.decKey.trans hServer.encKey.symm,
    hClient.macDecKey.trans hServer.macEncKey.symm, hRecv,
    hServer.cipher, hCipher⟩

/-- Opening a record changes no key and counts one record received. -/
theorem sameKeys_opened (r : VTlsConn) (body : List UInt8) : SameKeys r (opened r body) ∧
    (opened r body).seqSend = r.seqSend ∧ (opened r body).seqRecv = r.seqRecv + 1 := by
  unfold opened chained
  exact ⟨⟨rfl, rfl, rfl, rfl, rfl, rfl⟩, rfl, rfl⟩

/-- The server's last records are read, and both sides stand behind them. -/
theorem readFinished_server {encrypted more : List UInt8} {closes : Bool}
    (hFinished : Finished env s encrypted v)
    (hIv : s.iv.length = 16) (hFeed : v.feed = ⟨s.closing env.random (preMasterSecret env)
      (transcript env s.flight s.n encrypted s.random) ++ more, closes⟩) :
    ∃ u : Vars, u.conn.peerCert = s.cert ∧ SentTo env s encrypted u.sent ∧
      (Mirrored u.conn (s.established env.random (preMasterSecret env)
          (transcript env s.flight s.n encrypted s.random)) ∧
        Mirrored (s.established env.random (preMasterSecret env)
          (transcript env s.flight s.n encrypted s.random)) u.conn) ∧
      ∀ fuel, 2 ≤ fuel → readFinished env fuel v = u.go := by
  obtain ⟨hMirrors, hZero, -⟩ := s.conn_mirrors env.random (preMasterSecret env)
  rw [s.block_eq] at hMirrors
  rw [TlsServer.closing, List.append_assoc] at hFeed
  rw [TlsServer.established]
  unfold TlsServer.finished at hFeed ⊢
  rw [s.master_eq] at hFeed ⊢
  generalize s.conn env.random (preMasterSecret env) = w at hMirrors hZero hFeed ⊢
  generalize hMessage : HsMessage.mk htFinished
    (verifyData (masterSecret env s.random) "server finished"
    (hashAll (transcript env s.flight s.n encrypted s.random))) = m at hFeed ⊢
  obtain ⟨hEstablished, hServerSend, hServerRecv⟩ := hMirrors.established rtHandshake m.bytes s.iv
  obtain ⟨c, hReset, hSame, hSend, hRecv⟩ : ∃ c, { v.conn with seqRecv := 0 } = c ∧
    SameKeys v.conn c ∧
      c.seqSend = 1 ∧ c.seqRecv = 0 :=
    ⟨{ v.conn with seqRecv := 0 }, rfl, ⟨rfl, rfl, rfl, rfl, rfl, rfl⟩, hFinished.seqSend, rfl⟩
  have hFirst : finishPass env ⟨v, false⟩ = _ := finishPass_changeCipher hFeed false
  rw [hReset] at hFirst
  have hKeyed := hSame.keyed hFinished.keys
  have hCipher := hSame.cipherActive.trans hFinished.cipher
  have hMirrored : Mirrored w c :=
    ⟨hKeyed.decKey.trans hMirrors.encKey.symm, hKeyed.macDecKey.trans hMirrors.macEncKey.symm,
      hRecv.trans hZero.symm, hMirrors.cipher, hCipher⟩
  obtain ⟨hOpened, hSend', hRecv'⟩ := sameKeys_opened c (payload w rtHandshake m.bytes s.iv)
  have hSecond : finishPass env ⟨{ v with
      conn := c
      feed := ⟨recordHeader rtHandshake (payload w rtHandshake m.bytes s.iv).length ++
        payload w rtHandshake m.bytes s.iv ++ more, closes⟩
      records := v.records + 1 }, true⟩ = _ :=
    finishPass_finished hMirrored hIv hFinished.secret hFinished.hash hMessage rfl
  generalize opened c (payload w rtHandshake m.bytes s.iv) = d at hSecond hOpened hSend' hRecv'
  refine ⟨_, ?_, ?_, ?_, readFinished_two hFirst hSecond⟩
  · exact hOpened.peerCert.trans (hSame.peerCert.trans hFinished.cert)
  · exact hFinished.sent
  · apply mirrored_sides (hOpened.keyed hKeyed) hEstablished (hOpened.cipherActive.trans hCipher)
    · rw [hSend', hSend, hServerRecv]
    · rw [hRecv', hRecv, hServerSend, hZero]

/-- The ClientHello is sent in clear and becomes the transcript. -/
theorem clientHello_start (hReady : Ready env) (feed : Feed) :
    ∃ u : Vars, clientHello env (.start feed) = u.go ∧
    u.flight = noneTaken (hashAll [⟨htClientHello, helloBody env⟩]) ∧ u.feed = feed ∧
    u.sent = sentWire [⟨htClientHello, helloBody env⟩] ∧ u.conn.cipherActive = false :=
  ⟨_, sendMessage_clear ⟨htClientHello, helloBody env⟩ hReady rfl, rfl, rfl, List.nil_append _, rfl⟩

/-- The whole handshake with a server that decrypts the client's secret. -/
theorem handshake_server {encrypted more : List UInt8} {closes : Bool} (hReady : Ready env)
    (hSound : s.Sound)
    (hCertified : s.Certified env)
    (hEncrypt : Settles (fun fuel => rsaEncrypt fuel env.rand s.n s.e (preMasterSecret env))
      (some encrypted)) :
    let seen := transcript env s.flight s.n encrypted s.random
    let server := s.established env.random (preMasterSecret env) seen
    ∃ u : Vars, u.conn.peerCert = s.cert ∧ SentTo env s encrypted u.sent ∧
      (Mirrored u.conn server ∧ Mirrored server u.conn) ∧ ∃ N, ∀ fuel, N ≤ fuel →
      handshake env fuel (.start ⟨s.layout.flatMap messageWire ++
        (s.closing env.random (preMasterSecret env) seen ++ more), closes⟩) = u.go := by
  intro seen server
  obtain ⟨v₁, hHello, hFresh, hFeed₁, hSent₁, hClear₁⟩ :=
    clientHello_start hReady ⟨s.layout.flatMap messageWire ++
    (s.closing env.random (preMasterSecret env) seen ++ more), closes⟩
  obtain ⟨n₁, log, hFlight⟩ := readFlight_server hReady hSound hClear₁ hFresh hFeed₁
  generalize hTaken : ({ v₁ with
      feed := ⟨s.closing env.random (preMasterSecret env) seen ++ more, closes⟩
      records := v₁.records + s.layout.length
      flight := s.taken (hashAll [⟨htClientHello, helloBody env⟩]), log := log } : Vars) =
        v₂ at hFlight
  obtain ⟨u, hFinished, hFeed, -, hExchange⟩ :=
    @exchange_server env s v₂ encrypted hReady hCertified
    (by rw [← hTaken]; exact hClear₁) (by rw [← hTaken]) (by rw [← hTaken]; exact hSent₁)
  rw [← hTaken] at hFeed
  obtain ⟨w, hCert, hSent, hSides, hLast⟩ := readFinished_server hFinished hSound.iv hFeed
  obtain ⟨n₂, hEncrypt⟩ := hEncrypt
  refine ⟨w, hCert, hSent, hSides, max (max n₁ n₂) 2, fun fuel hLe => ?_⟩
  have hMiddle := hExchange fuel (hEncrypt fuel (by omega))
  have hAll := congrArg (Progress.andThen · (readFinished env fuel)) hMiddle
  simp only [Progress.andThen_assoc, Vars.go_andThen] at hAll
  rw [handshake, hHello, Vars.go_andThen, hFlight fuel (by omega), Vars.go_andThen, hAll]
  exact hLast fuel (by omega)

/-- It is reported as a success. -/
theorem vtlsHandshake_server {encrypted more : List UInt8} {closes : Bool} (hReady : Ready env)
    (hSound : s.Sound)
    (hCertified : s.Certified env)
    (hEncrypt : Settles (fun fuel => rsaEncrypt fuel env.rand s.n s.e (preMasterSecret env))
      (some encrypted)) :
    let seen := transcript env s.flight s.n encrypted s.random
    let server := s.established env.random (preMasterSecret env) seen
    ∃ (conn : VTlsConn) (sent : List UInt8), conn.peerCert = s.cert ∧ SentTo env s encrypted sent ∧
      (Mirrored conn server ∧ Mirrored server conn) ∧ ∃ N, ∀ fuel, N ≤ fuel →
      ∃ writes, vtlsHandshake env fuel ⟨s.layout.flatMap messageWire ++
        (s.closing env.random (preMasterSecret env) seen ++ more), closes⟩ =
          ⟨some 0, some conn, writes, sent⟩ := by
  intro seen server
  obtain ⟨u, hCert, hSent, hSides, N, hRun⟩ := handshake_server hReady hSound hCertified hEncrypt
  refine ⟨u.conn, u.sent, hCert, hSent, hSides, N, fun fuel hLe => ⟨u.allWrites, ?_⟩⟩
  unfold vtlsHandshake
  rw [if_pos hReady.slot, hRun fuel hLe]
  rfl

end Agreement

section Hearing

variable {env : Env} {s : TlsServer} {ms : List HsMessage} {encrypted stream more : List UInt8}
  {closes : Bool}

/-- What a server with the secret makes of the bytes sent to it: in clear the client's messages
and its ChangeCipherSpec, with the keys a Finished that has the right data for them. -/
structure TlsServer.Hears (s : TlsServer) (secret stream : List UInt8) (hello : HsMessage)
    (reply : List HsMessage) (finished : HsMessage) : Prop where
  reads : ∀ closes, ∃ c d rest,
    readRecords freshConn ⟨stream, closes⟩ (reply.length + 2) =
      .done ((hello :: reply).map (fun m => (rtHandshake, m.bytes)) ++
        [(rtChangeCipher, [1])], c, rest) ∧
    readRecords (s.conn hello.random secret) rest 1 =
      .done ([(rtHandshake, finished.bytes)], d, ⟨[], closes⟩)
  verified : finished = ⟨htFinished, verifyData (s.master hello.random secret) "client finished"
    (hashAll (hello :: s.flight ++ reply))⟩

/-- Messages and a ChangeCipherSpec in clear are read one by one. -/
theorem readRecords_sentWire {c : VTlsConn} (hClear : c.cipherActive = false)
    (hSizes : ∀ m ∈ ms, m.bytes.length ≤ maxRecord) :
    readRecords c ⟨sentWire ms ++ (clearWire rtChangeCipher [1] ++ more), closes⟩ (ms.length + 1) =
      .done (ms.map (fun m => (rtHandshake, m.bytes)) ++ [(rtChangeCipher, [1])], c,
        ⟨more, closes⟩) := by
  induction ms with
  | nil =>
      have hStream : sentWire [] ++ (clearWire rtChangeCipher [1] ++ more) =
          clearWire rtChangeCipher [1] ++ more := rfl
      rw [hStream, readRecords, tlsReadRecord_clearWire (by simp [hClear]) (by decide)]
      rfl
  | cons m ms ih =>
      have hStream : sentWire (m :: ms) ++ (clearWire rtChangeCipher [1] ++ more) =
          clearWire rtHandshake m.bytes ++
            (sentWire ms ++ (clearWire rtChangeCipher [1] ++ more)) :=
        List.append_assoc ..
      rw [hStream, List.length_cons, readRecords,
        tlsReadRecord_clearWire (by simp [hClear]) (hSizes m List.mem_cons_self)]
      dsimp only
      rw [ih fun m' hMem => hSizes m' (List.mem_cons_of_mem _ hMem)]
      dsimp only [Record.content]
      rw [List.take_length]
      rfl

/-- The random value of the ClientHello is the one drawn. -/
theorem hello_random : HsMessage.random ⟨htClientHello, helloBody env⟩ = env.random := by
  have hBody : helloBody env = put16 0x0303 ++
    (env.random ++ ([0] ++ put16 2 ++ put16 rsaAes128Sha ++
      [1, 0] ++ put16 12 ++
      (put16 0x000D ++ put16 8 ++ put16 6 ++ put16 0x0401 ++ put16 0x0501 ++ put16 0x0201))) := by
    simp only [helloBody, Env.random, List.append_assoc]
  have hVersion : (put16 0x0303).length = 2 := rfl
  have hLength : env.random.length = 32 := List.length_ofFn ..
  rw [HsMessage.random, hBody, List.drop_left' hVersion, List.take_left' hLength]

/-- The client's messages in clear are small. -/
theorem exchange_sizes (hLength : encrypted.length ≤ 518) :
    ∀ m ∈ ⟨htClientHello, helloBody env⟩ :: exchangeMessages s.flight s.n encrypted,
      m.bytes.length ≤ maxRecord := by
  intro m hMem
  have hPut (n : Nat) : (put16 n).length = 2 := rfl
  rw [length_messageBytes, maxRecord]
  unfold exchangeMessages at hMem
  rw [List.mem_cons, List.mem_append, List.mem_singleton] at hMem
  rcases hMem with rfl | hEmpty | rfl
  · simp [helloBody, hPut]
  · split_ifs at hEmpty
    · obtain rfl := List.mem_singleton.mp hEmpty
      decide
    · exact absurd hEmpty List.not_mem_nil
  · rw [List.length_append, hPut]
    omega

/-- A server that has the secret hears the client. -/
theorem TlsServer.hears (hSent : SentTo env s encrypted stream) (hLength : encrypted.length ≤ 518) :
    s.Hears (preMasterSecret env) stream ⟨htClientHello, helloBody env⟩
      (exchangeMessages s.flight s.n encrypted) (finishedMessage env s encrypted) where
  reads closes := by
    obtain ⟨c, wire, hKeyed, hCipher, hSeq, hSealed, rfl⟩ := hSent
    obtain ⟨hMirrors, -, hRecv⟩ := s.conn_mirrors env.random (preMasterSecret env)
    rw [s.block_eq] at hMirrors
    rw [hello_random]
    obtain ⟨d, hFinished⟩ := hSealed _ closes
      (mirrored_server hKeyed hMirrors hCipher (hSeq.trans hRecv.symm))
    exact ⟨freshConn, d, ⟨wire, closes⟩,
      readRecords_sentWire rfl (exchange_sizes hLength), hFinished⟩
  verified := by
    rw [hello_random, s.master_eq]
    rfl

end Hearing

/-- With a server that has the private key of its certificate the handshake ends with success.
The secret the server decrypts gives it the client's keys, and it reads the client's messages:
from then on records get through in both directions. -/
theorem handshake_agrees (env : Env) (s : TlsServer) (more : List UInt8) (closes : Bool)
    (hReady : Ready env)
    (hSound : s.Sound) (hCertified : s.Certified env) (hKey : PublicBytes s.key s.n s.e)
    (hMin : 59 ≤ s.n.length) (hN : s.n.length ≤ 518) (hE : s.e.length ≤ 2046) :
    ∃ encrypted secret conn sent hello reply finished,
      Settles (fun fuel => rsaEncrypt fuel env.rand s.n s.e (preMasterSecret env))
        (some encrypted) ∧
      s.key.decrypt s.n.length encrypted = some secret ∧
      reply.getLast? = some ⟨htClientKeyEx, put16 s.n.length ++ encrypted⟩ ∧
      s.Hears secret sent hello reply finished ∧
      let seen := hello :: s.flight ++ reply ++ [finished]
      let server := s.established hello.random secret seen
      (∃ N, ∀ fuel, N ≤ fuel → ∃ writes, vtlsHandshake env fuel ⟨s.layout.flatMap messageWire ++
        (s.closing hello.random secret seen ++ more), closes⟩ = ⟨some 0, some conn, writes, sent⟩) ∧
      conn.peerCert = s.cert ∧ ∀ recs : List Outgoing, (∀ o ∈ recs, o.ct ≠ rtAlert) →
        RoundTrips conn server recs ∧ RoundTrips server conn recs := by
  have hRoom : (preMasterSecret env).length + 11 ≤ s.n.length := by
    rw [preMasterSecret, List.length_append, List.length_ofFn]
    exact hMin
  have hEncrypt := @rsaEncrypt_spec env.rand _ _ _ (Nat.le_trans hN (by decide)) hE
    (two_le_modulus hKey hRoom) hRoom
  obtain ⟨conn, sent, hCert, hSent, ⟨hTo, hFrom⟩, hRuns⟩ :=
    vtlsHandshake_server hReady hSound hCertified hEncrypt
  refine ⟨_, _, conn, sent, ⟨htClientHello, helloBody env⟩, _, _, hEncrypt,
    decrypt_power hKey hRoom, ?_,
    TlsServer.hears hSent (by rw [Radix.length_toOctets]; exact hN), ?_⟩
  · exact List.getLast?_concat
  · rw [hello_random]
    exact ⟨hRuns, hCert, fun recs hTypes =>
      ⟨roundTrips_of_no_alert hTo hTypes, roundTrips_of_no_alert hFrom hTypes⟩⟩

/-- A server with the key of 66 bytes, and what it sends in two records. -/
def mersenneBase : TlsServer where
  key := mersenneKey
  n := mersenneModulus
  e := [0x01, 0x00, 0x01]
  cert := [0x30, 0x64, 0x30, 0x62, 0xA0, 0x03, 0x02, 0x01, 0x02, 0x02, 0x01, 0x01, 0x30,
    0x00, 0x30, 0x00,
    0x30, 0x00, 0x30, 0x00, 0x30, 0x50, 0x30, 0x00, 0x03, 0x4C, 0x00, 0x30, 0x49, 0x02, 0x42] ++
    mersenneModulus ++ [0x02, 0x03, 0x01, 0x00, 0x01]
  random := List.replicate 32 0x5A
  sid := [0x01, 0x02]
  chain := []
  request := some [0x01, 0x01]
  first := []
  last := []
  iv := List.replicate 16 0x11

def mersenneServer : TlsServer :=
  { mersenneBase with first := [[mersenneBase.hello]], last := mersenneBase.messages.drop 1 }

theorem mersenneServer_sound : mersenneServer.Sound where
  random := by decide
  sid := by decide
  iv := by decide
  cert := by decide +kernel
  split := rfl
  sizes := by decide +kernel

theorem mersenneServer_certified : mersenneServer.Certified willing :=
  ⟨⟨⟨31, 66⟩, ⟨99, 3⟩⟩, by decide +kernel, by decide +kernel, by decide +kernel⟩

theorem willing_ready : Ready willing := ⟨rfl, fun _ _ => rfl, fun _ => rfl, fun _ => rfl⟩

/-- The handshake with a server whose modulus has 66 bytes. -/
theorem handshake_agrees_mersenne :
    ∃ encrypted secret conn sent hello reply finished,
      Settles (fun fuel => rsaEncrypt fuel willing.rand mersenneModulus [0x01, 0x00, 0x01]
        (preMasterSecret willing)) (some encrypted) ∧
      mersenneKey.decrypt 66 encrypted = some secret ∧
      reply.getLast? = some ⟨htClientKeyEx, put16 66 ++ encrypted⟩ ∧
      mersenneServer.Hears secret sent hello reply finished ∧
      let seen := hello :: mersenneServer.flight ++ reply ++ [finished]
      let server := mersenneServer.established hello.random secret seen
      (∃ N, ∀ fuel, N ≤ fuel → ∃ writes,
        vtlsHandshake willing fuel ⟨mersenneServer.layout.flatMap messageWire ++
        (mersenneServer.closing hello.random secret seen ++ []), true⟩ =
          ⟨some 0, some conn, writes, sent⟩) ∧
      conn.peerCert = mersenneServer.cert ∧ ∀ recs : List Outgoing, (∀ o ∈ recs, o.ct ≠ rtAlert) →
        RoundTrips conn server recs ∧ RoundTrips server conn recs :=
  handshake_agrees willing mersenneServer [] true willing_ready mersenneServer_sound
    mersenneServer_certified
    mersenne_public (by decide) (by decide) (by decide)

end Vmodem.Tls
