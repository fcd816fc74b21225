import Vmodem.Properties.HandshakeBuffers
import Vmodem.Properties.RecordRoundTrip
import Vmodem.Properties.Transcript

/-! What a handshake that gets on has read and sent: the records of the server's first flight,
the messages of the client between them, and the records behind the client's Finished. -/

namespace Vmodem.Tls

/-- A connection without keys reads the next record. -/
def ReadsClear (feed : Feed) (r : Record) (rest : Feed) : Prop :=
  ∃ c : VTlsConn, c.cipherActive = false ∧ tlsReadRecord c feed = .done (r, c, rest)

/-- So many records of the feed are read in clear, with these handshake messages in them; what
is left of the feed. -/
inductive FlightReads (env : Env) (feed : Feed) : Nat → List HsMessage → Feed → Prop where
  | start : FlightReads env feed 0 [] feed
  | other {k : Nat} {ms : List HsMessage} {feed' rest : Feed} {r : Record}
      (before : FlightReads env feed k ms feed') (hRead : ReadsClear feed' r rest)
      (hType : r.ct ≠ rtHandshake) (hAlert : r.ct ≠ rtAlert) : FlightReads env feed (k + 1) ms rest
  | handshake {k : Nat} {ms new : List HsMessage} {feed' rest : Feed} {r : Record}
      (before : FlightReads env feed k ms feed') (hRead : ReadsClear feed' r rest)
      (hType : r.ct = rtHandshake)
      (hHolds : Holds (r.buffer (env.outside (k + 1))) (env.alloc (k + 1)) 0 new true) :
      FlightReads env feed (k + 1) (ms ++ new) rest

/-- Until its ServerHelloDone, every handshake record of the server holds complete messages, the
last one maybe cut off. -/
def OrderlyFlight (env : Env) (feed : Feed) : Prop :=
  ∀ k ms feed' r rest, FlightReads env feed k ms feed' → (∀ m ∈ ms, m.type ≠ htServerDone) →
    ReadsClear feed' r rest → r.ct = rtHandshake →
    ∃ new whole, Holds (r.buffer (env.outside (k + 1))) (env.alloc (k + 1)) 0 new whole

/-- The records read behind the client's Finished, by type: a ChangeCipherSpec begins a new
count of the server's records. -/
inductive LastReads (c : VTlsConn) (feed : Feed) : List UInt8 → VTlsConn → Feed → Prop where
  | start : LastReads c feed [] c feed
  | changeCipher {types : List UInt8} {c₁ c₂ : VTlsConn} {feed₁ feed₂ : Feed} {r : Record}
      (before : LastReads c feed types c₁ feed₁)
        (hRead : tlsReadRecord c₁ feed₁ = .done (r, c₂, feed₂))
      (hType : r.ct = rtChangeCipher) :
      LastReads c feed (types ++ [rtChangeCipher]) { c₂ with seqRecv := 0 } feed₂
  | other {types : List UInt8} {c₁ c₂ : VTlsConn} {feed₁ feed₂ : Feed} {r : Record}
      (before : LastReads c feed types c₁ feed₁)
        (hRead : tlsReadRecord c₁ feed₁ = .done (r, c₂, feed₂))
      (hType : r.ct ≠ rtChangeCipher) (hAlert : r.ct ≠ rtAlert) :
        LastReads c feed (types ++ [r.ct]) c₂ feed₂

/-- A Finished of the server that is accepted in this connection, and behind which it stands. -/
structure Finishes (env : Env) (secret : List UInt8) (hash : Sha256) (records : Nat)
    (c c' : VTlsConn)
    (feed feed' : Feed) : Prop where
  finished : ∃ r, tlsReadRecord c feed = .done (r, c', feed') ∧ r.ct = rtHandshake ∧ 4 ≤ r.len ∧
    (r.buffer (env.outside records)).mem 0 = htFinished ∧
    (r.buffer (env.outside records)).bytes 4 12 = verifyData secret "server finished" hash

section Records

variable {c c' : VTlsConn} {feed feed' : Feed} {r : Record} {bs : List UInt8} {n : Nat}

/-- What was received is the front of the feed, with the length asked for. -/
theorem tlsRecvAll_done (h : tlsRecvAll n feed = .done (bs, feed')) :
    feed.bytes = bs ++ feed'.bytes ∧ bs.length = n := by
  unfold tlsRecvAll at h
  split_ifs at h with hEnough
  simp only [Outcome.done.injEq, Prod.mk.injEq] at h
  obtain ⟨rfl, rfl⟩ := h
  exact ⟨(List.take_append_drop n feed.bytes).symm, List.length_take_of_le hEnough⟩

/-- A record that is read is a header and a body of the feed; a body that is decrypted has the
right MAC. -/
theorem tlsReadRecord_cases (h : tlsReadRecord c feed = .done (r, c', feed')) :
    ∃ hdr body, feed.bytes = hdr ++ (body ++ feed'.bytes) ∧ hdr.length = 5 ∧
      body.length ≤ maxRecord + 2048 ∧
      ((c.cipherActive ∧ decrypts r.ct) ∧ Accepts c r.ct body ∧ c' = opened c body ∧
          r.content = innerContent c body ∨
        ¬ (c.cipherActive ∧ decrypts r.ct) ∧ c' = c ∧ r = ⟨r.ct, body, body.length⟩) := by
  unfold tlsReadRecord at h
  cases hHeader : tlsRecvAll 5 feed with
  | fails => rw [hHeader] at h; cases h
  | hangs => rw [hHeader] at h; cases h
  | done out =>
      obtain ⟨hFeed, hLength⟩ := tlsRecvAll_done hHeader
      rw [hHeader] at h
      dsimp only at h
      generalize (out.1.getD 3 0).toNat * 256 + (out.1.getD 4 0).toNat = len at h
      by_cases hLong : maxRecord + 2048 < len
      · rw [if_pos hLong] at h
        cases h
      · rw [if_neg hLong] at h
        cases hBody : tlsRecvAll len out.2 with
        | fails => rw [hBody] at h; cases h
        | hangs => rw [hBody] at h; cases h
        | done out' =>
            obtain ⟨hRest, hLen⟩ := tlsRecvAll_done hBody
            rw [hBody] at h
            dsimp only at h
            by_cases hBoth : c.cipherActive = true ∧ decrypts (out.1.getD 0 0) = true
            · rw [if_pos hBoth] at h
              by_cases hAccepts : Accepts c (out.1.getD 0 0) out'.1
              · rw [openRecord_accepts hAccepts] at h
                simp only [Outcome.done.injEq, Prod.mk.injEq] at h
                obtain ⟨rfl, rfl, rfl⟩ := h
                exact ⟨out.1, out'.1, by rw [hFeed, hRest], hLength, by omega,
                  .inl ⟨hBoth, hAccepts, rfl, content_movedBody hAccepts.room⟩⟩
              · rw [(openRecord_rejects hAccepts).1] at h
                cases h
            · rw [if_neg hBoth] at h
              simp only [Outcome.done.injEq, Prod.mk.injEq] at h
              obtain ⟨rfl, rfl, rfl⟩ := h
              exact ⟨out.1, out'.1, by rw [hFeed, hRest], hLength, by
                omega, .inr ⟨hBoth, rfl, by rw [hLen]⟩⟩

/-- Nothing but the state of the decryption changes. -/
theorem tlsReadRecord_keys (h : tlsReadRecord c feed = .done (r, c', feed')) :
    c'.decKey = c.decKey ∧ c'.macDecKey = c.macDecKey ∧ c'.cipherActive = c.cipherActive ∧
      c'.peerCert = c.peerCert := by
  obtain ⟨-, -, -, -, -, ⟨-, -, rfl, -⟩ | ⟨-, rfl, -⟩⟩ := tlsReadRecord_cases h
  · unfold opened chained
    exact ⟨rfl, rfl, rfl, rfl⟩
  · exact ⟨rfl, rfl, rfl, rfl⟩

/-- A handshake record read with keys is accepted by its MAC. -/
theorem tlsReadRecord_accepted (hCipher : c.cipherActive) (hType : r.ct = rtHandshake)
    (h : tlsReadRecord c feed = .done (r, c', feed')) :
    ∃ hdr body, feed.bytes = hdr ++ (body ++ feed'.bytes) ∧
      hdr.length = 5 ∧ Accepts c rtHandshake body ∧ r.content = innerContent c body := by
  obtain ⟨hdr, body, hFeed, hLength, -, ⟨-, hAccepts, -, hContent⟩ | ⟨hNot, -⟩⟩ :=
    tlsReadRecord_cases h
  · exact ⟨hdr, body, hFeed, hLength, hType ▸ hAccepts, hContent⟩
  · exact absurd ⟨hCipher, by rw [hType]; rfl⟩ hNot

end Records

section Flight

open BoundedLoop (Pass)

variable {env : Env} {feed feed' : Feed} {c c' : VTlsConn} {r : Record}

/-- Without keys the connection is left alone. -/
theorem tlsReadRecord_clear (hClear : c.cipherActive = false)
    (h : tlsReadRecord c feed = .done (r, c', feed')) : c' = c ∧ ReadsClear feed r feed' ∧
      r.len ≤ maxRecord + 2048 := by
  obtain ⟨-, body, -, -, hSize, ⟨⟨hCipher, -⟩, -⟩ | ⟨-, rfl, hRecord⟩⟩ := tlsReadRecord_cases h
  · rw [hClear] at hCipher
    cases hCipher
  · exact ⟨rfl, ⟨c', hClear, h⟩, by rw [hRecord]; exact hSize⟩

/-- What is kept while the first flight is read. -/
structure Flying (env : Env) (hash : Sha256) (start v : Vars) (ms : List HsMessage) : Prop where
  reads : FlightReads env start.feed v.records ms v.feed
  taken : (noneTaken hash).after ms = some v.flight
  conn : v.conn = start.conn

/-- Nothing comes of a pass that fails. -/
theorem leave_fail {start v w : Vars} {hash : Sha256} :
    (∀ u, (.leave v.fail : Pass Vars Progress) = .again u → ∃ ms, Flying env hash start u ms) ∧
      ∀ p, (.leave v.fail : Pass Vars Progress) = .leave p → p.status = .going →
        p.vars = w ∧ w.flight.gotDone = true := by
  constructor
  · intro u hAgain
    cases hAgain
  · intro p hLeave hGoing
    cases hLeave
    cases hGoing

/-- A pass that waits neither goes on nor leaves. -/
theorem stuck_waits {start v w : Vars} {hash : Sha256} :
    (∀ u, (.stuck v : Pass Vars Progress) = .again u → ∃ ms, Flying env hash start u ms) ∧
      ∀ p, (.stuck v : Pass Vars Progress) = .leave p → p.status = .going →
        p.vars = w ∧ w.flight.gotDone = true := by
  constructor
  · intro u hAgain
    cases hAgain
  · intro p hLeave
    cases hLeave

/-- A pass over a record of the first flight goes on with its messages taken, or leaves with
ServerHelloDone or a failure. -/
theorem flightPass_flying {hash : Sha256} {start v : Vars} {ms : List HsMessage} {n : Nat}
    (hOrderly : OrderlyFlight env start.feed) (hClear : start.conn.cipherActive = false)
    (h : Flying env hash start v ms) :
    (∀ u, flightPass env n v = .again u → ∃ ms', Flying env hash start u ms') ∧
      ∀ p, flightPass env n v = .leave p → p.status = .going → p.vars = v ∧
        v.flight.gotDone = true := by
  unfold flightPass
  by_cases hDone : v.flight.gotDone = true
  · rw [if_pos hDone]
    refine ⟨fun u hAgain => ?_, fun p hLeave _ => ?_⟩
    · cases hAgain
    · cases hLeave
      exact ⟨rfl, hDone⟩
  · rw [if_neg hDone]
    cases hRead : tlsReadRecord v.conn v.feed with
    | hangs => exact stuck_waits
    | fails => exact leave_fail
    | done out =>
        obtain ⟨r, c, rest⟩ := out
        have hConn : v.conn.cipherActive = false := by rw [h.conn, hClear]
        obtain ⟨hSame, hRecord, hSize⟩ := tlsReadRecord_clear hConn hRead
        rw [h.conn] at hSame
        dsimp only
        by_cases hAlert : r.ct = rtAlert
        · rw [if_pos hAlert]
          exact leave_fail
        · rw [if_neg hAlert]
          by_cases hType : r.ct = rtHandshake
          · rw [if_pos hType]
            have hNoDone : ∀ m ∈ ms, m.type ≠ htServerDone := by
              intro m hMem hDoneType
              exact hDone ((Tells.of_after h.taken).done.mpr ⟨m, hMem, hDoneType⟩)
            obtain ⟨new, whole, hHolds⟩ := hOrderly _ _ _ _ _ h.reads hNoDone hRecord hType
            cases hLoop : messageLoop (r.buffer (env.outside (v.records + 1)))
                (env.alloc (v.records + 1)) n ⟨0, v.flight, []⟩ with
            | cut s => exact stuck_waits
            | ended out =>
                have hResult := hHolds.result hSize hLoop
                obtain ⟨flight, log⟩ := out
                dsimp only at hResult ⊢
                cases flight with
                | none => exact leave_fail
                | some g =>
                    obtain ⟨rfl, hFold⟩ := Option.ite_none_right_eq_some.mp hResult.symm
                    refine ⟨fun u hAgain => ⟨ms ++ new, ?_⟩, fun p hLeave => ?_⟩
                    · cases hAgain
                      refine ⟨.handshake h.reads hRecord hType hHolds, ?_, hSame⟩
                      rw [FirstFlight.after_append, h.taken]
                      exact foldlM_take_some hFold
                    · cases hLeave
          · rw [if_neg hType]
            refine ⟨fun u hAgain => ⟨ms, ?_⟩, fun p hLeave => ?_⟩
            · cases hAgain
              exact ⟨.other h.reads hRecord hType hAlert, h.taken, hSame⟩
            · cases hLeave

/-- The first flight as a whole. -/
theorem readFlight_flying {hash : Sha256} {start : Vars} {fuel : Nat}
    (hOrderly : OrderlyFlight env start.feed)
    (hClear : start.conn.cipherActive = false) (hFresh : start.flight = noneTaken hash)
    (hRecords : start.records = 0) (hGoing : (readFlight env fuel start).status = .going) :
    ∃ ms, Flying env hash start (readFlight env fuel start).vars ms ∧
      (readFlight env fuel start).vars.flight.gotDone = true := by
  have hStart : Flying env hash start start [] := by
    refine ⟨?_, ?_, rfl⟩
    · rw [hRecords]
      exact .start
    · rw [hFresh]
      rfl
  have hRuns {v : Vars} {p : Progress} (hRun : BoundedLoop.run (flightPass env) fuel v = .ended p) :
      ∀ ms, Flying env hash start v ms → p.status = .going →
        ∃ ms, Flying env hash start p.vars ms ∧ p.vars.flight.gotDone = true := by
    apply BoundedLoop.run_induction ?_ ?_ hRun
    · intro n v p hLeave ms hFlying hGoing
      obtain ⟨hVars, hDone⟩ := (flightPass_flying hOrderly hClear hFlying).2 p hLeave hGoing
      rw [hVars]
      exact ⟨ms, hFlying, hDone⟩
    · intro n v u p hAgain ih ms hFlying hGoing
      obtain ⟨ms', hNext⟩ := (flightPass_flying hOrderly hClear hFlying).1 u hAgain
      exact ih ms' hNext hGoing
  unfold readFlight at hGoing ⊢
  cases hRun : BoundedLoop.run (flightPass env) fuel start with
  | cut v =>
      rw [hRun] at hGoing
      cases hGoing
  | ended p =>
      rw [hRun] at hGoing
      exact hRuns hRun [] hStart hGoing

end Flight


section Finish

open BoundedLoop (Pass)

variable {env : Env} {start : Vars} {s : Finishing} {types : List UInt8}

/-- Records read on the way to Finished change no key and no certificate. -/
theorem LastReads.keys {c c' : VTlsConn} {feed feed' : Feed} (h : LastReads c feed types c' feed') :
    c'.decKey = c.decKey ∧ c'.macDecKey = c.macDecKey ∧ c'.cipherActive = c.cipherActive ∧
      c'.peerCert = c.peerCert := by
  induction h with
  | start => exact ⟨rfl, rfl, rfl, rfl⟩
  | changeCipher before hRead hType ih =>
      obtain ⟨hKey, hMac, hCipher, hCert⟩ := tlsReadRecord_keys hRead
      exact ⟨hKey.trans ih.1, hMac.trans ih.2.1, hCipher.trans ih.2.2.1, hCert.trans ih.2.2.2⟩
  | other before hRead hType hAlert ih =>
      obtain ⟨hKey, hMac, hCipher, hCert⟩ := tlsReadRecord_keys hRead
      exact ⟨hKey.trans ih.1, hMac.trans ih.2.1, hCipher.trans ih.2.2.1, hCert.trans ih.2.2.2⟩

/-- What is kept while the last flight is read. -/
structure Ending (start : Vars) (s : Finishing) (types : List UInt8) : Prop where
  reads : LastReads start.conn start.feed types s.vars.conn s.vars.feed
  ccs : s.gotCcs = true → rtChangeCipher ∈ types
  records : s.vars.records = start.records + types.length
  flight : s.vars.flight = start.flight
  secret : s.vars.masterSecret = start.masterSecret

/-- How the loop is left with success. -/
def EndsWell (env : Env) (start : Vars) (p : Progress) : Prop :=
  p.status = .going → ∃ types c feed, LastReads start.conn start.feed types c feed ∧
    rtChangeCipher ∈ types ∧
    Finishes env start.masterSecret start.flight.hsHash (start.records + types.length + 1) c
      p.vars.conn feed
      p.vars.feed

theorem endsWell_fail (v : Vars) : EndsWell env start v.fail := by
  intro hGoing
  cases hGoing

/-- A pass over a record of the last flight. -/
theorem finishPass_ending (h : Ending start s types) :
    (∀ t, finishPass env s = .again t → ∃ types', Ending start t types') ∧
      ∀ p, finishPass env s = .leave p → EndsWell env start p := by
  have hNext {r : Record} {c : VTlsConn} {feed : Feed}
      (hRead : tlsReadRecord s.vars.conn s.vars.feed = .done (r, c, feed))
      (hType : r.ct ≠ rtChangeCipher) (hAlert : r.ct ≠ rtAlert) :
      Ending start { s with vars := { s.vars with
        conn := c, feed := feed, records := s.vars.records + 1 } }
        (types ++ [r.ct]) := by
    refine ⟨.other h.reads hRead hType hAlert, fun hCcs => List.mem_append_left _ (h.ccs hCcs), ?_,
      h.flight, h.secret⟩
    rw [List.length_append, List.length_singleton, ← Nat.add_assoc, ← h.records]
  unfold finishPass
  cases hRead : tlsReadRecord s.vars.conn s.vars.feed with
  | hangs =>
      refine ⟨fun t hAgain => ?_, fun p hLeave => ?_⟩
      · cases hAgain
      · cases hLeave
  | fails =>
      refine ⟨fun t hAgain => ?_, fun p hLeave => ?_⟩
      · cases hAgain
      · cases hLeave
        exact endsWell_fail _
  | done out =>
      obtain ⟨r, c, feed⟩ := out
      dsimp only
      by_cases hCcs : r.ct = rtChangeCipher
      · rw [if_pos hCcs]
        refine ⟨fun t hAgain => ⟨types ++ [rtChangeCipher], ?_⟩, fun p hLeave => ?_⟩
        · cases hAgain
          refine ⟨.changeCipher h.reads hRead hCcs, fun _ => by simp, ?_, h.flight, h.secret⟩
          rw [List.length_append, List.length_singleton, ← Nat.add_assoc, ← h.records]
        · cases hLeave
      · rw [if_neg hCcs]
        by_cases hType : r.ct = rtHandshake
        · rw [if_pos hType]
          have hAlert : r.ct ≠ rtAlert := by
            rw [hType]
            decide
          by_cases hGot : s.gotCcs = true
          · rw [if_pos hGot]
            by_cases hFinished : 4 ≤ (r.buffer (env.outside (s.vars.records + 1))).len ∧
                (r.buffer (env.outside (s.vars.records + 1))).mem 0 = htFinished
            · rw [if_pos hFinished]
              by_cases hVerify : (r.buffer (env.outside (s.vars.records + 1))).bytes 4 12 =
                  verifyData s.vars.masterSecret "server finished" s.vars.flight.hsHash
              · rw [if_neg (not_not_intro hVerify)]
                refine ⟨fun t hAgain => ?_, fun p hLeave => ?_⟩
                · cases hAgain
                · cases hLeave
                  intro _
                  refine ⟨types, _, _, h.reads, h.ccs hGot, r, hRead, hType, hFinished.1, ?_, ?_⟩
                  · rw [← h.records]
                    exact hFinished.2
                  · rw [← h.records, ← h.secret, ← h.flight]
                    exact hVerify
              · rw [if_pos hVerify]
                refine ⟨fun t hAgain => ?_, fun p hLeave => ?_⟩
                · cases hAgain
                · cases hLeave
                  exact endsWell_fail _
            · rw [if_neg hFinished]
              refine ⟨fun t hAgain => ⟨types ++ [r.ct], ?_⟩, fun p hLeave => ?_⟩
              · cases hAgain
                exact hNext hRead hCcs hAlert
              · cases hLeave
          · rw [if_neg hGot]
            refine ⟨fun t hAgain => ?_, fun p hLeave => ?_⟩
            · cases hAgain
            · cases hLeave
              exact endsWell_fail _
        · rw [if_neg hType]
          by_cases hAlert : r.ct = rtAlert
          · rw [if_pos hAlert]
            refine ⟨fun t hAgain => ?_, fun p hLeave => ?_⟩
            · cases hAgain
            · cases hLeave
              exact endsWell_fail _
          · rw [if_neg hAlert]
            refine ⟨fun t hAgain => ⟨types ++ [r.ct], ?_⟩, fun p hLeave => ?_⟩
            · cases hAgain
              exact hNext hRead hCcs hAlert
            · cases hLeave

/-- The loop that reads Finished says what it has read. The induction is on its passes.
-/
theorem readFinished_endsWell (fuel : Nat) (start : Vars) :
    EndsWell env start (readFinished env fuel start) := by
  have hRuns {s : Finishing} {p : Progress}
    (hRun : BoundedLoop.run (fun _ => finishPass env) fuel s = .ended p) :
      ∀ types, Ending start s types → EndsWell env start p := by
    apply BoundedLoop.run_induction ?_ ?_ hRun
    · intro n s p hLeave types hEnding
      exact (finishPass_ending hEnding).2 p hLeave
    · intro n s t p hAgain ih types hEnding
      obtain ⟨types', hNext⟩ := (finishPass_ending hEnding).1 t hAgain
      exact ih types' hNext
  unfold readFinished
  cases hRun : BoundedLoop.run (fun _ => finishPass env) fuel ⟨start, false⟩ with
  | cut s =>
      intro hGoing
      cases hGoing
  | ended p => exact hRuns hRun [] ⟨.start, nofun, rfl, rfl, rfl⟩

end Finish

/-- The running hash over messages. -/
def hashAll (ms : List HsMessage) : Sha256 := (ms.map HsMessage.bytes).foldl Sha256.update .init

/-- What the client sends behind the server's first flight `ms`, but for its Finished. -/
def exchangeMessages (ms : List HsMessage) (n encrypted : List UInt8) : List HsMessage :=
  (if ∃ m ∈ ms, m.type = htCertRequest then [⟨htCertificate, [0, 0, 0]⟩] else []) ++
    [⟨htClientKeyEx, put16 n.length ++ encrypted⟩]

/-- All messages up to the ClientKeyExchange. -/
def exchanged (env : Env) (ms : List HsMessage) (n encrypted : List UInt8) : List HsMessage :=
  ⟨htClientHello, helloBody env⟩ :: ms ++ exchangeMessages ms n encrypted

/-- All messages up to the client's Finished. -/
def transcript (env : Env) (ms : List HsMessage)
    (n encrypted random : List UInt8) : List HsMessage :=
  exchanged env ms n encrypted ++
    [⟨htFinished, verifyData (masterSecret env random) "client finished"
      (hashAll (exchanged env ms n encrypted))⟩]

section Exchange

variable {env : Env} {fuel k : Nat} {ct : UInt8} {data : List UInt8} {v : Vars} {p : Progress}
  {next : Vars → Progress}

/-- A sequence goes on only where its first step does. -/
theorem andThen_going (h : (p.andThen next).status = .going) :
    p.status = .going ∧ p.andThen next = next p.vars := by
  obtain ⟨v, status⟩ := p
  cases status with
  | going => exact ⟨rfl, rfl⟩
  | failed => cases h
  | cut => cases h

theorem hashAll_append (ms more : List HsMessage) :
    hashAll (ms ++ more) = (more.map HsMessage.bytes).foldl Sha256.update (hashAll ms) := by
  rw [hashAll, List.map_append, List.foldl_append, hashAll]

/-- A message that is sent is hashed, and changes only the sending side of the connection. -/
theorem sendMessage_going {msg : List UInt8} (h : (sendMessage env k msg v).status = .going) :
    ∃ c sent, sendMessage env k msg v = ({ v with
        conn := c, sent := sent
        flight := { v.flight with hsHash := v.flight.hsHash.update msg } } : Vars).go ∧
      c.decKey = v.conn.decKey ∧ c.macDecKey = v.conn.macDecKey ∧
        c.cipherActive = v.conn.cipherActive ∧
      c.peerCert = v.conn.peerCert := by
  unfold sendMessage sendRecord at h ⊢
  dsimp only at h ⊢
  cases hWrite : tlsWriteRecord v.conn rtHandshake msg (List.ofFn env.iv) with
  | none =>
      rw [hWrite] at h
      cases h
  | some out =>
      rw [hWrite] at h
      dsimp only at h ⊢
      split_ifs at h ⊢
      · refine ⟨out.1, _, rfl, ?_⟩
        unfold tlsWriteRecord at hWrite
        split_ifs at hWrite <;> cases hWrite <;> exact ⟨rfl, rfl, rfl, rfl⟩
      · cases h

/-- What is true after a ClientHello that was sent. -/
theorem clientHello_going {feed : Feed} (h : (clientHello env (.start feed)).status = .going) :
    let u := (clientHello env (.start feed)).vars
    u.flight = noneTaken (hashAll [⟨htClientHello, helloBody env⟩]) ∧ u.feed = feed ∧
      u.records = 0 ∧
      u.conn.cipherActive = false := by
  unfold clientHello at h ⊢
  obtain ⟨c, _, hSend, -, -, hClear, -⟩ := sendMessage_going h
  rw [hSend]
  exact ⟨rfl, rfl, rfl, hClear⟩

/-- What is used of the variables while the ClientKeyExchange is prepared. -/
structure Kept (v u : Vars) : Prop where
  feed : u.feed = v.feed
  records : u.records = v.records

theorem serverKey_going (h : (serverKey env v).status = .going) :
    let u := (serverKey env v).vars
    Kept v u ∧ u.flight = v.flight ∧ v.flight.gotHello = true ∧
      ∃ cert key, v.flight.cert = some cert ∧
        x509ExtractRsa (certBuffer env cert) (int16 cert.length) = some key ∧
        u.rsaN = (certBuffer env cert).bytes key.n.start key.n.len ∧
        u.rsaE = (certBuffer env cert).bytes key.e.start key.e.len ∧ u.conn.peerCert = cert := by
  unfold serverKey at h ⊢
  -- That it is a function is enough: nothing is to compute it.
  obtain ⟨narrow, hNarrow⟩ : ∃ narrow, int16 = narrow := ⟨_, rfl⟩
  rw [hNarrow] at h ⊢
  cases hHello : v.flight.gotHello with
  | false =>
      rw [hHello] at h
      cases h
  | true =>
      cases hCert : v.flight.cert with
      | none =>
          rw [hHello, hCert] at h
          cases h
      | some cert =>
          rw [hHello, hCert] at h
          dsimp only at h ⊢
          cases hKey : x509ExtractRsa (certBuffer env cert) (narrow cert.length) with
          | none =>
              rw [hKey] at h
              cases h
          | some key =>
              rw [hKey] at h
              dsimp only at h ⊢
              by_cases hAlloc : env.keyAlloc key.n.len = true ∧ env.keyAlloc key.e.len = true
              · rw [if_pos hAlloc]
                exact ⟨⟨rfl, rfl⟩, rfl, rfl, cert, key, rfl, hKey, rfl, rfl, rfl⟩
              · rw [if_neg hAlloc] at h
                cases h

/-- What is true after the empty certificate, if one was asked for. -/
theorem emptyCertificate_going (h : (emptyCertificate env v).status = .going) :
    let u := (emptyCertificate env v).vars
    Kept v u ∧ u.conn.peerCert = v.conn.peerCert ∧ u.rsaN = v.rsaN ∧ u.rsaE = v.rsaE ∧
      u.flight = { v.flight with
      hsHash := ((if v.flight.certRequested = true then [⟨htCertificate, [0, 0, 0]⟩] else []).map
        HsMessage.bytes).foldl Sha256.update v.flight.hsHash } := by
  unfold emptyCertificate at h ⊢
  by_cases hRequested : v.flight.certRequested = true
  · rw [if_pos hRequested] at h ⊢
    obtain ⟨c, _, hSend, -, -, -, hCert⟩ := sendMessage_going h
    rw [hSend, if_pos hRequested]
    exact ⟨⟨rfl, rfl⟩, hCert, rfl, rfl, rfl⟩
  · rw [if_neg hRequested, if_neg hRequested]
    exact ⟨⟨rfl, rfl⟩, rfl, rfl, rfl, rfl⟩

/-- What is true after the key exchange: the secret was encrypted with the key found,
and the message is part of the transcript. -/
theorem keyExchange_going (h : (keyExchange env fuel v).status = .going) :
    let u := (keyExchange env fuel v).vars
    Kept v u ∧ u.conn.peerCert = v.conn.peerCert ∧ ∃ encrypted,
      rsaEncrypt fuel env.rand v.rsaN v.rsaE (preMasterSecret env) = some (some encrypted) ∧
      u.flight = { v.flight with
        hsHash := v.flight.hsHash.update
          (HsMessage.bytes ⟨htClientKeyEx, put16 v.rsaN.length ++ encrypted⟩) } := by
  unfold keyExchange at h ⊢
  by_cases hAlloc : env.keyAlloc v.rsaN.length = true
  · rw [if_pos hAlloc] at h ⊢
    cases hEncrypt : rsaEncrypt fuel env.rand v.rsaN v.rsaE (preMasterSecret env) with
    | none =>
        rw [hEncrypt] at h
        cases h
    | some out =>
        cases out with
        | none =>
            rw [hEncrypt] at h
            cases h
        | some encrypted =>
            rw [hEncrypt] at h
            dsimp only at h ⊢
            obtain ⟨c, _, hSend, -, -, -, hCert⟩ := sendMessage_going h
            rw [hSend]
            exact ⟨⟨rfl, rfl⟩, hCert, encrypted, rfl, rfl⟩
  · rw [if_neg hAlloc] at h
    cases h

/-- What is true after ChangeCipherSpec: keys are in use. -/
theorem changeCipherSpec_going (h : (changeCipherSpec env v).status = .going) :
    let u := (changeCipherSpec env v).vars
    Kept v u ∧ u.flight = v.flight ∧ u.masterSecret = v.masterSecret ∧ u.conn.cipherActive = true ∧
      u.conn.decKey = v.conn.decKey ∧ u.conn.macDecKey = v.conn.macDecKey ∧
      u.conn.peerCert = v.conn.peerCert := by
  unfold changeCipherSpec at h ⊢
  obtain ⟨hSent, hNext⟩ := andThen_going h
  rw [hNext]
  unfold sendRecord at hSent ⊢
  cases hWrite : tlsWriteRecord v.conn rtChangeCipher [1] (List.ofFn env.iv) with
  | none =>
      rw [hWrite] at hSent
      cases hSent
  | some out =>
      have hKeys : out.1.decKey = v.conn.decKey ∧ out.1.macDecKey = v.conn.macDecKey ∧
          out.1.peerCert = v.conn.peerCert := by
        unfold tlsWriteRecord at hWrite
        split_ifs at hWrite <;> cases hWrite <;> exact ⟨rfl, rfl, rfl⟩
      dsimp only
      split_ifs <;> exact ⟨⟨rfl, rfl⟩, rfl, rfl, rfl, hKeys.1, hKeys.2.1, hKeys.2.2⟩

/-- What is true after the client's Finished: it is part of the transcript. -/
theorem clientFinished_going (h : (clientFinished env v).status = .going) :
    let u := (clientFinished env v).vars
    Kept v u ∧ u.masterSecret = v.masterSecret ∧ u.conn.cipherActive = v.conn.cipherActive ∧
      u.conn.decKey = v.conn.decKey ∧ u.conn.macDecKey = v.conn.macDecKey ∧
        u.conn.peerCert = v.conn.peerCert ∧
      u.flight.hsHash = v.flight.hsHash.update (HsMessage.bytes
        ⟨htFinished, verifyData v.masterSecret "client finished" v.flight.hsHash⟩) := by
  unfold clientFinished at h ⊢
  obtain ⟨c, _, hSend, hKey, hMac, hCipher, hCert⟩ := sendMessage_going h
  rw [hSend]
  exact ⟨⟨rfl, rfl⟩, rfl, hCipher, hKey, hMac, hCert, rfl⟩

end Exchange

end Vmodem.Tls
