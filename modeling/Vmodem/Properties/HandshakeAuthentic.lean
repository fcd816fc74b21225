import Vmodem.Properties.HandshakeAgreement

/-! What stands behind a handshake that reports success: a complete first flight of the server,
and a Finished under the keys that only the secret gives, for all messages of both sides. -/

namespace Vmodem.Tls

variable {env : Env} {fuel : Nat} {feed : Feed}

/-- A first flight with everything the client needs of it. -/
structure FirstFlightRead (env : Env) (feed rest : Feed) (k : Nat) (ms : List HsMessage)
    (hello certificate : HsMessage) (key : RsaKey) : Prop where
  reads : FlightReads env feed k ms rest
  isHello : IsLast ms htServerHello hello
  suite : hello.suite = rsaAes128Sha
  isCertificate : IsLast ms htCertificate certificate
  done : ∃ m ∈ ms, m.type = htServerDone
  key : x509ExtractRsa (certBuffer env certificate.cert) (int16 certificate.cert.length) = some key

/-- The client's secret, encrypted with the key of the certificate. -/
def SecretSent (env : Env) (fuel : Nat) (certificate : HsMessage) (key : RsaKey)
    (n encrypted : List UInt8) : Prop :=
  (certBuffer env certificate.cert).bytes key.n.start key.n.len = n ∧
    rsaEncrypt fuel env.rand n ((certBuffer env certificate.cert).bytes key.e.start key.e.len)
      (preMasterSecret env) = some (some encrypted)

/-- The server's keys of a key block, and that they are used. -/
structure ReadsWith (block : List UInt8) (c : VTlsConn) : Prop where
  decKey : c.decKey = aesSetup ((block.drop 56).take 16)
  macDecKey : c.macDecKey = (block.drop 20).take 20
  cipher : c.cipherActive = true

/-- The last flight behind `rest`: ChangeCipherSpec, and a record with the right Finished whose
MAC is right under the server's keys. -/
def LastFlightRead (env : Env) (rest : Feed) (k : Nat) (random : List UInt8) (seen : List HsMessage)
    (conn : VTlsConn) : Prop :=
  ∃ start types c last final, LastReads start rest types c last ∧ rtChangeCipher ∈ types ∧
    ReadsWith (keyBlock env random) c ∧
    (∃ hdr body, last.bytes = hdr ++ (body ++ final.bytes) ∧ Accepts c rtHandshake body) ∧
    Finishes env (masterSecret env random) (hashAll seen) (k + types.length + 1) c conn last final

section Steps

variable {v : Vars}

/-- Key derivation succeeds and keys the connection with the block of both random
values. -/
theorem deriveKeys_keyed (env : Env) (v : Vars) : ∃ u : Vars, deriveKeys env v = u.go ∧ Kept v u ∧
    u.flight = v.flight ∧ u.masterSecret = masterSecret env v.flight.serverRandom ∧
    Keyed (keyBlock env v.flight.serverRandom) u.conn ∧ u.conn.peerCert = v.conn.peerCert := by
  obtain ⟨hKeyed, -, hCert⟩ := keyed_withKeys v.conn (keyBlock env v.flight.serverRandom)
  rw [deriveKeys]
  generalize v.conn.withKeys (keyBlock env v.flight.serverRandom) = c at hKeyed hCert
  exact ⟨_, rfl, ⟨rfl, rfl⟩, rfl, rfl, hKeyed, hCert⟩

/-- The variables behind the client's Finished. -/
structure BehindFinished (env : Env) (random : List UInt8) (before : List HsMessage)
    (cert : List UInt8) (u : Vars) : Prop where
  keys : ReadsWith (keyBlock env random) u.conn
  secret : u.masterSecret = masterSecret env random
  hash : u.flight.hsHash = hashAll (before ++
    [⟨htFinished, verifyData (masterSecret env random) "client finished" (hashAll before)⟩])
  cert : u.conn.peerCert = cert

/-- The keys, and the client's last two records. -/
theorem lastRecords_going {random : List UInt8} {before : List HsMessage}
    (hRandom : v.flight.serverRandom = random)
    (hHash : v.flight.hsHash = hashAll before) (h : ((deriveKeys env v).andThen fun v =>
      (changeCipherSpec env v).andThen (clientFinished env)).status = .going) :
    ∃ u, ((deriveKeys env v).andThen fun v =>
      (changeCipherSpec env v).andThen (clientFinished env)) = u.go ∧
      Kept v u ∧ BehindFinished env random before v.conn.peerCert u := by
  obtain ⟨v₁, hDerive, hKept₁, hFlight₁, hSecret₁, hKeyed, hCert₁⟩ := deriveKeys_keyed env v
  rw [hRandom] at hSecret₁ hKeyed
  rw [hDerive, Vars.go_andThen] at h ⊢
  obtain ⟨hGoing₂, hNext⟩ := andThen_going h
  rw [hNext] at h ⊢
  obtain ⟨hKept₂, hFlight₂, hSecret₂, hCipher₂, hDec₂, hMac₂, hCert₂⟩ :=
    changeCipherSpec_going hGoing₂
  generalize (changeCipherSpec env v₁).vars = v₂
    at h hKept₂ hFlight₂ hSecret₂ hCipher₂ hDec₂ hMac₂ hCert₂ ⊢
  obtain ⟨hKept₃, hSecret₃, hCipher₃, hDec₃, hMac₃, hCert₃, hHash₃⟩ := clientFinished_going h
  refine ⟨(clientFinished env v₂).vars, ?_, ⟨?_, ?_⟩, ⟨⟨?_, ?_, ?_⟩, ?_, ?_, ?_⟩⟩
  · rw [Vars.go, ← h]
  · rw [hKept₃.feed, hKept₂.feed, hKept₁.feed]
  · rw [hKept₃.records, hKept₂.records, hKept₁.records]
  · rw [hDec₃, hDec₂, hKeyed.decKey]
  · rw [hMac₃, hMac₂, hKeyed.macDecKey]
  · rw [hCipher₃, hCipher₂]
  · rw [hSecret₃, hSecret₂, hSecret₁]
  · rw [hHash₃, hFlight₂, hFlight₁, hSecret₂, hSecret₁, hHash, hashAll_append]
    rfl
  · rw [hCert₃, hCert₂, hCert₁]

/-- From the end of the first flight to the client's Finished. -/
theorem exchange_going {ms : List HsMessage}
    (hTells : Tells (hashAll [⟨htClientHello, helloBody env⟩]) ms v.flight)
    (h : ((serverKey env v).andThen fun v => (emptyCertificate env v).andThen fun v =>
      (keyExchange env fuel v).andThen fun v => (deriveKeys env v).andThen fun v =>
        (changeCipherSpec env v).andThen (clientFinished env)).status = .going) :
    ∃ (u : Vars) (hello certificate : HsMessage) (key : RsaKey) (n encrypted : List UInt8),
      ((serverKey env v).andThen fun v => (emptyCertificate env v).andThen fun v =>
        (keyExchange env fuel v).andThen fun v => (deriveKeys env v).andThen fun v =>
          (changeCipherSpec env v).andThen (clientFinished env)) = u.go ∧
      (IsLast ms htServerHello hello ∧ hello.suite = rsaAes128Sha) ∧
      (IsLast ms htCertificate certificate ∧
        x509ExtractRsa (certBuffer env certificate.cert) (int16 certificate.cert.length) =
          some key) ∧
      SecretSent env fuel certificate key n encrypted ∧ Kept v u ∧
      BehindFinished env hello.random (exchanged env ms n encrypted) certificate.cert u := by
  obtain ⟨hGoing₁, hNext₁⟩ := andThen_going h
  rw [hNext₁] at h ⊢
  obtain ⟨hKept₁, hFlight₁, hHello, cert, key, hCert, hKey, hN, hE, hPeer₁⟩ :=
    serverKey_going hGoing₁
  generalize (serverKey env v).vars = v₁ at h hKept₁ hFlight₁ hN hE hPeer₁ ⊢
  obtain ⟨hello, hIsHello, hSuite, hRandom⟩ := hTells.hello hHello
  obtain ⟨certificate, hIsCert, rfl⟩ := hTells.cert cert hCert
  obtain ⟨hGoing₂, hNext₂⟩ := andThen_going h
  rw [hNext₂] at h ⊢
  obtain ⟨hKept₂, hPeer₂, hN₂, hE₂, hFlight₂⟩ := emptyCertificate_going hGoing₂
  generalize (emptyCertificate env v₁).vars = v₂ at h hKept₂ hPeer₂ hN₂ hE₂ hFlight₂ ⊢
  obtain ⟨hGoing₃, hNext₃⟩ := andThen_going h
  rw [hNext₃] at h ⊢
  obtain ⟨hKept₃, hPeer₃, encrypted, hEncrypt, hFlight₃⟩ := keyExchange_going hGoing₃
  generalize (keyExchange env fuel v₂).vars = v₃ at h hKept₃ hPeer₃ hFlight₃ ⊢
  have hHash : v₃.flight.hsHash = hashAll (exchanged env ms v₂.rsaN encrypted) := by
    have hStart : v.flight.hsHash = hashAll (⟨htClientHello, helloBody env⟩ :: ms) :=
      hTells.hash.trans (hashAll_append [⟨htClientHello, helloBody env⟩] ms).symm
    rw [hFlight₃, hFlight₂, hFlight₁, exchanged, hashAll_append, ← hStart, exchangeMessages]
    simp only [hTells.requested, List.map_append, List.foldl_append, List.map_cons, List.map_nil,
      List.foldl_cons,
      List.foldl_nil]
  have hRandom₃ : v₃.flight.serverRandom = hello.random := by
    rw [hFlight₃, hFlight₂, hFlight₁, hRandom]
  obtain ⟨u, hLast, hKept, hBehind⟩ := lastRecords_going hRandom₃ hHash h
  refine ⟨u, hello, certificate, key, v₂.rsaN, encrypted, hLast, ⟨hIsHello, hSuite⟩,
    ⟨hIsCert, hKey⟩, ⟨?_, ?_⟩, ⟨?_, ?_⟩, ?_⟩
  · rw [hN₂, hN]
  · rw [hE₂, hE] at hEncrypt
    exact hEncrypt
  · rw [hKept.feed, hKept₃.feed, hKept₂.feed, hKept₁.feed]
  · rw [hKept.records, hKept₃.records, hKept₂.records, hKept₁.records]
  · rwa [hPeer₃, hPeer₂, hPeer₁] at hBehind

end Steps

section Orderly

variable {rec : Buffer} {alloc : Nat → Bool} {off : Nat}

/-- A record holds its messages in one way. -/
theorem Holds.unique {ms ms' : List HsMessage} {whole whole' : Bool}
    (h : Holds rec alloc off ms whole)
    (h' : Holds rec alloc off ms' whole') : ms = ms' := by
  induction h generalizing ms' with
  | done =>
      cases h' with
      | done => rfl
      | noHeader hOff hShort => rfl
      | tooLong hHeader hBeyond hInt => rfl
      | message hWhole hComplete rest => omega
  | noHeader hOff hShort =>
      cases h' with
      | done => rfl
      | noHeader hOff hShort => rfl
      | tooLong hHeader hBeyond hInt => rfl
      | message hWhole hComplete rest => omega
  | tooLong hHeader hBeyond hInt =>
      cases h' with
      | done => rfl
      | noHeader hOff hShort => rfl
      | tooLong hHeader hBeyond hInt => rfl
      | message hWhole hComplete rest => omega
  | message hWhole hComplete rest ih =>
      cases h' with
      | done => omega
      | noHeader hOff hShort => omega
      | tooLong hHeader hBeyond hInt => omega
      | message hWhole' hComplete' rest' => rw [ih rest']

/-- A record of messages is read as it is. -/
theorem readsClear_wire {ms : List HsMessage} {more : List UInt8} {closes : Bool} {r : Record}
    {rest : Feed}
    (hSize : (ms.flatMap HsMessage.bytes).length ≤ maxRecord)
    (h : ReadsClear ⟨messageWire ms ++ more, closes⟩ r rest) :
    r = ⟨rtHandshake, ms.flatMap HsMessage.bytes, (ms.flatMap HsMessage.bytes).length⟩ ∧
      rest = ⟨more, closes⟩ := by
  obtain ⟨c, hClear, hRead⟩ := h
  rw [messageWire, clearWire, tlsReadRecord_framed (Nat.le_trans hSize (Nat.le_add_right _ _)),
    hClear,
    if_neg (by simp)] at hRead
  simp only [Outcome.done.injEq, Prod.mk.injEq] at hRead
  exact ⟨hRead.1.symm, hRead.2.2.symm⟩

/-- The records of the server contain its flight and nothing else. -/
theorem TlsServer.flatten_layout (s : TlsServer) (hSound : s.Sound) :
    s.layout.flatten = s.flight := by
  rw [TlsServer.layout, TlsServer.lastRecord, List.flatten_concat, ← List.append_assoc,
    hSound.split,
    TlsServer.flight]

/-- A record of a server holds its messages. -/
theorem TlsServer.holds (s : TlsServer) (hReady : Ready env) (hSound : s.Sound) {k : Nat}
    {ms : List HsMessage}
    (hMem : ms ∈ s.layout) :
    Holds (Record.buffer ⟨rtHandshake, ms.flatMap HsMessage.bytes,
      (ms.flatMap HsMessage.bytes).length⟩
      (env.outside k)) (env.alloc k) 0 ms true := by
  apply holds_record rtHandshake (env.outside k) (hSound.sizes ms hMem)
  rw [hReady.alloc_eq]
  intro m hIn
  apply s.complete hSound
  rw [← s.flatten_layout hSound]
  exact List.mem_flatten_of_mem hMem hIn

/-- Before ServerHelloDone the client has read the first records, and the others are left. -/
theorem TlsServer.flight_place (s : TlsServer) (hReady : Ready env) (hSound : s.Sound)
    {more : List UInt8}
    {closes : Bool} {k : Nat} {ms : List HsMessage} {feed' : Feed}
    (h : FlightReads env ⟨s.layout.flatMap messageWire ++ more, closes⟩ k ms feed')
    (hNone : ∀ m ∈ ms, m.type ≠ htServerDone) :
    ∃ front next behind, s.layout = front ++ next :: behind ∧ ms = front.flatten ∧
      feed' = ⟨messageWire next ++ (behind.flatMap messageWire ++ more), closes⟩ := by
  have hLeft {front behind : List (List HsMessage)} (hLayout : s.layout = front ++ behind)
      (hFront : ∀ m ∈ front.flatten, m.type ≠ htServerDone) : ∃ next others,
        behind = next :: others := by
    cases behind with
    | cons next others => exact ⟨next, others, rfl⟩
    | nil =>
        refine absurd rfl (hFront ⟨htServerDone, []⟩ ?_)
        rw [← List.append_nil front, ← hLayout, s.flatten_layout hSound]
        exact List.mem_append_right _ (List.mem_singleton_self _)
  induction h with
  | start =>
      obtain ⟨next, others, hLayout⟩ := @hLeft [] s.layout rfl nofun
      refine ⟨[], next, others, hLayout, rfl, ?_⟩
      rw [hLayout, List.flatMap_cons, List.append_assoc]
  | other before hRead hType hAlert ih =>
      obtain ⟨front, next, behind, hLayout, -, rfl⟩ := ih hNone
      have hMem : next ∈ s.layout := by
        rw [hLayout]
        exact List.mem_append_right _ List.mem_cons_self
      obtain ⟨rfl, -⟩ := readsClear_wire (hSound.sizes next hMem) hRead
      exact absurd rfl hType
  | handshake before hRead hType hHolds ih =>
      obtain ⟨front, next, behind, hLayout, rfl, rfl⟩ :=
        ih fun m hIn => hNone m (List.mem_append_left _ hIn)
      have hMem : next ∈ s.layout := by
        rw [hLayout]
        exact List.mem_append_right _ List.mem_cons_self
      obtain ⟨rfl, rfl⟩ := readsClear_wire (hSound.sizes next hMem) hRead
      obtain rfl := (s.holds hReady hSound hMem).unique hHolds
      rw [← List.flatten_concat] at hNone ⊢
      have hLayout' : s.layout = front ++ [next] ++ behind := by simpa using hLayout
      obtain ⟨next', others, rfl⟩ := hLeft hLayout' hNone
      refine ⟨front ++ [next], next', others, hLayout', rfl, ?_⟩
      rw [List.flatMap_cons, List.append_assoc]

/-- What a server sends is an orderly flight. -/
theorem TlsServer.orderly (s : TlsServer) (hReady : Ready env) (hSound : s.Sound)
    (more : List UInt8) (closes : Bool) :
    OrderlyFlight env ⟨s.layout.flatMap messageWire ++ more, closes⟩ := by
  intro k ms feed' r rest hReads hNone hRead _
  obtain ⟨front, next, behind, hLayout, -, rfl⟩ := s.flight_place hReady hSound hReads hNone
  have hMem : next ∈ s.layout := by
    rw [hLayout]
    exact List.mem_append_right _ List.mem_cons_self
  obtain ⟨rfl, -⟩ := readsClear_wire (hSound.sizes next hMem) hRead
  exact ⟨next, true, s.holds hReady hSound hMem⟩

end Orderly

section Moduli

/-- No certificate that the client can take its key from in the server's first flight has a
modulus of more than `bound` bytes. -/
def ModuliUpTo (env : Env) (feed : Feed) (bound : Nat) : Prop :=
  ∀ k ms rest certificate key, FlightReads env feed k ms rest →
    IsLast ms htCertificate certificate →
    x509ExtractRsa (certBuffer env certificate.cert) (int16 certificate.cert.length) = some key →
    key.n.len ≤ bound

/-- A client that comes past the first flight has read one, and goes on with what it tells. -/
theorem flight_going {next : Vars → Progress} (hOrderly : OrderlyFlight env feed)
    (hGoing : ((clientHello env (.start feed)).andThen fun v =>
      (readFlight env fuel v).andThen next).status = .going) :
    ∃ v ms, ((clientHello env (.start feed)).andThen fun v =>
        (readFlight env fuel v).andThen next) = next v ∧
      FlightReads env feed v.records ms v.feed ∧
      Tells (hashAll [⟨htClientHello, helloBody env⟩]) ms v.flight ∧ v.flight.gotDone = true := by
  obtain ⟨hHello, hFirst⟩ := andThen_going hGoing
  rw [hFirst] at hGoing ⊢
  obtain ⟨hFresh, hFeed, hRecords, hClear⟩ := clientHello_going hHello
  obtain ⟨hFlight, hSecond⟩ := andThen_going hGoing
  rw [hSecond]
  obtain ⟨ms, hFlying, hDone⟩ :=
    readFlight_flying (hFeed.symm ▸ hOrderly) hClear hFresh hRecords hFlight
  have hReads := hFlying.reads
  rw [hFeed] at hReads
  exact ⟨_, ms, rfl, hReads, .of_after hFlying.taken, hDone⟩

/-- The modulus that is copied is that of the last certificate of the flight. -/
theorem copiesModulus_key {n : Nat} (hOrderly : OrderlyFlight env feed)
    (hCopies : CopiesModulus env feed n) :
    ∃ k ms rest certificate key, FlightReads env feed k ms rest ∧
      IsLast ms htCertificate certificate ∧
      x509ExtractRsa (certBuffer env certificate.cert) (int16 certificate.cert.length) = some key ∧
      key.n.len = n := by
  obtain ⟨-, fuel, v, encrypted, hBefore, -, -, rfl⟩ := hCopies
  have hGoing : (beforeExchange env fuel (.start feed)).status = .going := by
    rw [hBefore]
    rfl
  have hVars : (beforeExchange env fuel (.start feed)).vars = v := by
    rw [hBefore]
    rfl
  rw [← hVars]
  unfold beforeExchange at hGoing ⊢
  obtain ⟨u, ms, hNext, hReads, hTells, -⟩ := flight_going hOrderly hGoing
  rw [hNext] at hGoing ⊢
  obtain ⟨hServerKey, hLast⟩ := andThen_going hGoing
  rw [hLast] at hGoing ⊢
  obtain ⟨-, -, -, cert, key, hCert, hKey, hN, -, -⟩ := serverKey_going hServerKey
  obtain ⟨-, -, hSame, -, -⟩ := emptyCertificate_going hGoing
  obtain ⟨certificate, hIsCert, rfl⟩ := hTells.cert cert hCert
  refine ⟨_, ms, _, certificate, key, hReads, hIsCert, hKey, ?_⟩
  rw [hSame, hN, bytes_length]

/-- An orderly server whose moduli have at most 518 bytes does not lead the client to write
beyond its arrays. -/
theorem writesInside_of_moduli (hOrderly : OrderlyFlight env feed)
    (hSmall : ModuliUpTo env feed 518) :
    WritesInside env feed := by
  apply writesInside_of_small
  intro n hCopies
  obtain ⟨k, ms, rest, certificate, key, hReads, hIsCert, hKey, rfl⟩ :=
    copiesModulus_key hOrderly hCopies
  exact hSmall k ms rest certificate key hReads hIsCert hKey

end Moduli

/-- Success is the end of all steps. -/
theorem vtlsHandshake_success (h : (vtlsHandshake env fuel feed).ret = some 0) :
    (handshake env fuel (.start feed)).status = .going ∧
      (vtlsHandshake env fuel feed).slot = some (handshake env fuel (.start feed)).vars.conn := by
  unfold vtlsHandshake at h ⊢
  by_cases hSlot : env.slotFree = true
  · rw [if_pos hSlot] at h ⊢
    cases hStatus : (handshake env fuel (.start feed)).status with
    | going =>
        simp only [hStatus]
        exact ⟨trivial, trivial⟩
    | failed =>
        simp only [hStatus] at h
        cases h
    | cut =>
        simp only [hStatus] at h
        cases h
  · rw [if_neg hSlot] at h
    cases h

/-- Where the handshake reports success, the client has read a ServerHello that chose its cipher
suite, a certificate with an RSA key, ServerHelloDone, ChangeCipherSpec, and, in a record with the
right MAC, the right Finished for all messages of both sides; its certificate is that one. The
bytes of a modulus beyond 518 would be written behind `body_buf`, where the model has nothing:
`writesInside_of_moduli` says when that does not happen. -/
theorem handshake_authentic (env : Env) (fuel : Nat) (feed : Feed)
    (hOrderly : OrderlyFlight env feed)
    (h : (vtlsHandshake env fuel feed).ret = some 0) :
    ∃ conn rest k ms hello certificate key n encrypted,
      (vtlsHandshake env fuel feed).slot = some conn ∧
      FirstFlightRead env feed rest k ms hello certificate key ∧
      SecretSent env fuel certificate key n encrypted ∧
      LastFlightRead env rest k hello.random (transcript env ms n encrypted hello.random) conn ∧
      conn.peerCert = certificate.cert := by
  obtain ⟨hGoing, hSlot⟩ := vtlsHandshake_success h
  rw [hSlot]
  unfold handshake at hGoing ⊢
  obtain ⟨v, ms, hFlight, hReadsFirst, hTells, hDone⟩ := flight_going hOrderly hGoing
  rw [hFlight] at hGoing ⊢
  simp only [← Progress.andThen_assoc] at hGoing ⊢
  obtain ⟨hExchange, hNext⟩ := andThen_going hGoing
  rw [hNext] at hGoing ⊢
  simp only [Progress.andThen_assoc] at hExchange hGoing ⊢
  obtain ⟨u, hello, certificate, key, n, encrypted, hAll, ⟨hIsHello, hSuite⟩, ⟨hIsCert, hKey⟩,
    hSent, hKept, hBehind⟩ :=
    exchange_going hTells hExchange
  rw [hAll] at hGoing ⊢
  obtain ⟨types, c, last, hReads, hCcs, hFinishes⟩ := readFinished_endsWell fuel u hGoing
  rw [hKept.feed] at hReads
  rw [hKept.records, hBehind.secret, hBehind.hash] at hFinishes
  obtain ⟨hDec, hMac, hCipher, hPeer⟩ := hReads.keys
  have hKeys : ReadsWith (keyBlock env hello.random) c :=
    ⟨hDec.trans hBehind.keys.decKey, hMac.trans hBehind.keys.macDecKey,
      hCipher.trans hBehind.keys.cipher⟩
  obtain ⟨r, hRead, hType, -⟩ := hFinishes.finished
  obtain ⟨hdr, body, hBody, -, hAccepts, -⟩ := tlsReadRecord_accepted hKeys.cipher hType hRead
  obtain ⟨-, -, -, hPeer'⟩ := tlsReadRecord_keys hRead
  exact ⟨_, v.feed, v.records, ms, hello, certificate, key, n, encrypted, rfl,
    ⟨hReadsFirst, hIsHello, hSuite, hIsCert, hTells.done.mp hDone, hKey⟩, hSent,
    ⟨_, types, c, last, _, hReads, hCcs, hKeys, ⟨hdr, body, hBody, hAccepts⟩, hFinishes⟩,
    (hPeer'.trans hPeer).trans hBehind.cert⟩

/-- The secret as the key of 66 bytes encrypts it. -/
def mersenneSecret : List UInt8 :=
  Radix.toOctets mersenneModulus.length (Radix.ofOctets (pkcs1 willing.rand mersenneModulus.length
    (preMasterSecret willing)) ^ Radix.ofOctets [0x01, 0x00, 0x01] % Radix.ofOctets mersenneModulus)

/-- What its server sends to the client. -/
def mersenneFeed : Feed :=
  ⟨mersenneServer.layout.flatMap messageWire ++
    (mersenneServer.closing willing.random (preMasterSecret willing)
    (transcript willing mersenneServer.flight mersenneServer.n mersenneSecret
      mersenneServer.random) ++ []), true⟩

/-- The client accepts what the server of the example sends. -/
theorem mersenneFeed_succeeds : ∃ fuel, (vtlsHandshake willing fuel mersenneFeed).ret = some 0 := by
  have hRoom : (preMasterSecret willing).length + 11 ≤ mersenneModulus.length := by decide
  have hEncrypt : BoundedLoop.Settles
    (fun fuel => rsaEncrypt fuel willing.rand mersenneServer.n mersenneServer.e
      (preMasterSecret willing)) (some mersenneSecret) := by
    rw [mersenneSecret, show mersenneServer.n = mersenneModulus from rfl,
      show mersenneServer.e = [0x01, 0x00, 0x01] from rfl]
    exact rsaEncrypt_spec (by decide) (by decide) (two_le_modulus mersenne_public hRoom) hRoom
  obtain ⟨conn, sent, -, -, -, N, hRun⟩ :=
    vtlsHandshake_server willing_ready mersenneServer_sound mersenneServer_certified hEncrypt
  obtain ⟨writes, hResult⟩ := hRun N (Nat.le_refl N)
  refine ⟨N, ?_⟩
  rw [mersenneFeed, hResult]

theorem handshake_authentic_mersenne : ∃ fuel conn rest k ms hello certificate key n encrypted,
    (vtlsHandshake willing fuel mersenneFeed).slot = some conn ∧
      FirstFlightRead willing mersenneFeed rest k ms hello certificate key ∧
      SecretSent willing fuel certificate key n encrypted ∧
      LastFlightRead willing rest k hello.random
        (transcript willing ms n encrypted hello.random) conn ∧
      conn.peerCert = certificate.cert :=
  mersenneFeed_succeeds.imp fun fuel h => handshake_authentic willing fuel mersenneFeed
    (mersenneServer.orderly willing_ready mersenneServer_sound _ true) h

end Vmodem.Tls
