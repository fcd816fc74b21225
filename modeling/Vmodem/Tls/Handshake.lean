import Vmodem.Tls.Asn1
import Vmodem.Tls.Bignum
import Vmodem.Tls.Record

/-! `vtls_handshake`: the client side of a TLS 1.2 handshake with RSA key exchange. -/

namespace Vmodem.Tls

/-- What a handshake depends on besides the server: random bytes, memory and the network. -/
structure Env where
  slotFree : Bool
  clientRandom : Fin 32 → UInt8
  preMaster : Fin 46 → UInt8
  /-- What `rand` gives while the secret is padded. -/
  rand : Rand
  iv : Fin 16 → UInt8
  /-- Whether `malloc` gives a buffer of a size while a record is read. -/
  alloc : Nat → Nat → Bool
  /-- The same for the copies of the key and the encrypted secret. -/
  keyAlloc : Nat → Bool
  /-- Whether a message can be built and sent. -/
  sends : Nat → Bool
  /-- The memory around a record and around the certificate. -/
  outside : Nat → Int → UInt8
  certOutside : Int → UInt8

/-- The arrays of fixed size that depend on the messages. -/
inductive FixedArray where
  | body
  | bodyBuf
  | seed
  | keyBlock
  | serverRandom
  | verifyData
  deriving DecidableEq, Repr

def FixedArray.size : FixedArray → Nat
  | body => 128
  | bodyBuf => 520
  | seed => 64
  | keyBlock => 104
  | serverRandom => 32
  | verifyData => 12

/-- A write into such an array. -/
structure Write where
  array : FixedArray
  start : Nat
  count : Nat
  deriving DecidableEq, Repr

/-- The variables of the handshake. -/
structure Vars where
  conn : VTlsConn
  feed : Feed
  flight : FirstFlight
  rsaN : List UInt8
  rsaE : List UInt8
  masterSecret : List UInt8
  /-- How many records of the first flight were read, and how they were used. -/
  records : Nat
  log : List Access
  writes : List Write
  /-- The messages that went out whole. -/
  sent : List UInt8

/-- Whether the handshake goes on, has jumped to `fail`, or does not come back: the bound on
the passes is used up, or it waits for the server. -/
inductive Status where
  | going
  | failed
  | cut
  deriving DecidableEq, Repr

structure Progress where
  vars : Vars
  status : Status

/-- Go on unless the handshake failed. -/
def Progress.andThen (p : Progress) (next : Vars → Progress) : Progress :=
  match p.status with
  | .going => next p.vars
  | _ => p

def Vars.go (v : Vars) : Progress := ⟨v, .going⟩

def Vars.fail (v : Vars) : Progress := ⟨v, .failed⟩

def Vars.wait (v : Vars) : Progress := ⟨v, .cut⟩

/-- `hs_build`. -/
def hsBuild (type : UInt8) (body : List UInt8) : List UInt8 :=
  [type, .ofNat (body.length / 65536), .ofNat (body.length / 256), .ofNat body.length] ++ body

/-- Write a record; `k` counts the messages of the client. -/
def sendRecord (env : Env) (k : Nat) (ct : UInt8) (data : List UInt8) (v : Vars) : Progress :=
  match tlsWriteRecord v.conn ct data (List.ofFn env.iv) with
  | none => v.fail
  | some (c, wire) =>
      if env.sends k then { v with
        conn := c, sent := v.sent ++ wire }.go else { v with conn := c }.fail

/-- Hash a handshake message and send it. -/
def sendMessage (env : Env) (k : Nat) (msg : List UInt8) (v : Vars) : Progress :=
  sendRecord env k rtHandshake msg
    { v with flight := { v.flight with hsHash := v.flight.hsHash.update msg } }

/-- The body of the ClientHello: version, random, no session, one cipher suite, no
compression, signature algorithms. -/
def helloBody (env : Env) : List UInt8 :=
  put16 0x0303 ++ List.ofFn env.clientRandom ++ [0] ++ put16 2 ++ put16 rsaAes128Sha ++ [1, 0] ++
    put16 12 ++ (put16 0x000D ++ put16 8 ++ put16 6 ++ put16 0x0401 ++ put16 0x0501 ++ put16 0x0201)

/-- The writes that build it, in order. -/
def helloWrites : List Write :=
  [⟨.body, 0, 2⟩, ⟨.body, 2, 32⟩, ⟨.body, 34, 1⟩, ⟨.body, 35, 2⟩, ⟨.body, 37, 2⟩, ⟨.body, 39, 1⟩,
    ⟨.body, 40, 1⟩, ⟨.body, 43, 2⟩, ⟨.body, 45, 2⟩, ⟨.body, 47, 2⟩, ⟨.body, 49, 2⟩, ⟨.body, 51, 2⟩,
    ⟨.body, 53, 2⟩, ⟨.body, 41, 2⟩]

def clientHello (env : Env) (v : Vars) : Progress :=
  sendMessage env 0 (hsBuild htClientHello (helloBody env))
    { v with writes := v.writes ++ helloWrites }

/-- The memory a record was read into. -/
def Record.buffer (r : Record) (outside : Int → UInt8) : Buffer :=
  { Buffer.around r.buf outside with len := r.len }

open BoundedLoop (Pass)

/-- One pass of the loop that reads the server's first messages. -/
def flightPass (env : Env) (fuel : Nat) (v : Vars) : Pass Vars Progress :=
  if v.flight.gotDone then .leave v.go
  else
    match tlsReadRecord v.conn v.feed with
    | .hangs => .stuck v
    | .fails => .leave v.fail
    | .done (r, c, feed) =>
        let v := { v with conn := c, feed := feed, records := v.records + 1 }
        if r.ct = rtAlert then .leave v.fail
        else if r.ct = rtHandshake then
          match messageLoop (r.buffer (env.outside v.records)) (env.alloc v.records) fuel
              ⟨0, v.flight, []⟩ with
          | .cut s => .stuck { v with flight := s.flight, log := v.log ++ s.log }
          | .ended out =>
              let v := { v with log := v.log ++ out.log }
              match out.flight with
              | none => .leave v.fail
              | some flight => .again { v with flight := flight }
        else .again v

def readFlight (env : Env) (fuel : Nat) (v : Vars) : Progress :=
  match BoundedLoop.run (flightPass env) fuel v with
  | .cut v => v.wait
  | .ended p => p

/-- The certificate in memory. -/
def certBuffer (env : Env) (cert : List UInt8) : Buffer := .around cert env.certOutside

/-- Take the key out of the certificate. -/
def serverKey (env : Env) (v : Vars) : Progress :=
  match v.flight.gotHello, v.flight.cert with
  | true, some cert =>
      match x509ExtractRsa (certBuffer env cert) (int16 cert.length) with
      | none => v.fail
      | some key =>
          let v := { v with conn := { v.conn with peerKeyBits := int16 (key.n.len * 8) } }
          if env.keyAlloc key.n.len ∧ env.keyAlloc key.e.len then
            { v with
              rsaN := (certBuffer env cert).bytes key.n.start key.n.len
              rsaE := (certBuffer env cert).bytes key.e.start key.e.len
              conn := { v.conn with peerCert := cert } }.go
          else v.fail
  | _, _ => v.fail

/-- The empty client certificate, if the server asked for one. -/
def emptyCertificate (env : Env) (v : Vars) : Progress :=
  if v.flight.certRequested then sendMessage env 1 (hsBuild htCertificate [0, 0, 0]) v else v.go

def preMasterSecret (env : Env) : List UInt8 := [0x03, 0x03] ++ List.ofFn env.preMaster

/-- The writes into `body_buf` for a modulus of a length. -/
def exchangeWrites (rsaNLen : Nat) : List Write := [⟨.bodyBuf, 0, 2⟩, ⟨.bodyBuf, 2, rsaNLen⟩]

/-- The ClientKeyExchange. -/
def keyExchange (env : Env) (fuel : Nat) (v : Vars) : Progress :=
  if env.keyAlloc v.rsaN.length then
    match rsaEncrypt fuel env.rand v.rsaN v.rsaE (preMasterSecret env) with
    | none => v.wait
    | some none => v.fail
    | some (some encrypted) =>
        sendMessage env 2 (hsBuild htClientKeyEx (put16 v.rsaN.length ++ encrypted))
          { v with writes := v.writes ++ exchangeWrites v.rsaN.length }
  else v.fail

def masterSecret (env : Env) (serverRandom : List UInt8) : List UInt8 :=
  tlsPrf (preMasterSecret env) "master secret" (List.ofFn env.clientRandom ++ serverRandom) 48

def keyBlock (env : Env) (serverRandom : List UInt8) : List UInt8 :=
  tlsPrf (masterSecret env serverRandom) "key expansion"
    (serverRandom ++ List.ofFn env.clientRandom) 104

def keyWrites : List Write :=
  [⟨.seed, 0, 32⟩, ⟨.seed, 32, 32⟩, ⟨.seed, 0, 32⟩, ⟨.seed, 32, 32⟩, ⟨.keyBlock, 0, 104⟩,
    ⟨.keyBlock, 0, 104⟩]

/-- A connection with the keys of a key block. -/
def VTlsConn.withKeys (c : VTlsConn) (block : List UInt8) : VTlsConn :=
  { c with
    macEncKey := block.take 20
    macDecKey := (block.drop 20).take 20
    encKey := aesSetup ((block.drop 40).take 16)
    decKey := aesSetup ((block.drop 56).take 16) }

def deriveKeys (env : Env) (v : Vars) : Progress :=
  { v with
    masterSecret := masterSecret env v.flight.serverRandom
    conn := v.conn.withKeys (keyBlock env v.flight.serverRandom)
    writes := v.writes ++ keyWrites }.go

def changeCipherSpec (env : Env) (v : Vars) : Progress :=
  (sendRecord env 3 rtChangeCipher [1] v).andThen fun v =>
    { v with conn := { v.conn with cipherActive := true, seqSend := 0 } }.go

/-- `verify_data` for a hash of the messages. -/
def verifyData (secret : List UInt8) (label : String) (hash : Sha256) : List UInt8 :=
  tlsPrf secret label hash.final 12

def clientFinished (env : Env) (v : Vars) : Progress :=
  sendMessage env 4
    (hsBuild htFinished (verifyData v.masterSecret "client finished" v.flight.hsHash))
    { v with writes := v.writes ++ [⟨.verifyData, 0, 12⟩] }

/-- The loop that reads the server's last messages, between two passes. -/
structure Finishing where
  vars : Vars
  gotCcs : Bool

/-- One pass of it. -/
def finishPass (env : Env) (s : Finishing) : Pass Finishing Progress :=
  match tlsReadRecord s.vars.conn s.vars.feed with
  | .hangs => .stuck s
  | .fails => .leave s.vars.fail
  | .done (r, c, feed) =>
      let v := { s.vars with conn := c, feed := feed, records := s.vars.records + 1 }
      if r.ct = rtChangeCipher then
        .again ⟨{ v with conn := { c with seqRecv := 0 } }, true⟩
      else if r.ct = rtHandshake then
        if s.gotCcs then
          let buf := r.buffer (env.outside v.records)
          if 4 ≤ buf.len ∧ buf.mem 0 = htFinished then
            if buf.bytes 4 12 ≠ verifyData v.masterSecret "server finished" v.flight.hsHash then
              .leave v.fail
            else .leave v.go
          else .again { s with vars := v }
        else .leave v.fail
      else if r.ct = rtAlert then .leave v.fail
      else .again { s with vars := v }

def readFinished (env : Env) (fuel : Nat) (v : Vars) : Progress :=
  match BoundedLoop.run (fun _ => finishPass env) fuel ⟨v, false⟩ with
  | .cut s => s.vars.wait
  | .ended p => p

/-- Everything from the ClientHello to the server's Finished. -/
def handshake (env : Env) (fuel : Nat) (v : Vars) : Progress :=
  (clientHello env v).andThen fun v => (readFlight env fuel v).andThen fun v =>
    (serverKey env v).andThen fun v => (emptyCertificate env v).andThen fun v =>
      (keyExchange env fuel v).andThen fun v => (deriveKeys env v).andThen fun v =>
        (changeCipherSpec env v).andThen fun v => (clientFinished env v).andThen fun v =>
          readFinished env fuel v

/-- A connection slot after `memset`. -/
def freshConn : VTlsConn where
  active := true
  encKey := ⟨⟨0, 0, 0, 0⟩, List.replicate 9 ⟨0, 0, 0, 0⟩, ⟨0, 0, 0, 0⟩⟩
  encIv := ⟨0, 0, 0, 0⟩
  decKey := ⟨⟨0, 0, 0, 0⟩, List.replicate 9 ⟨0, 0, 0, 0⟩, ⟨0, 0, 0, 0⟩⟩
  decIv := ⟨0, 0, 0, 0⟩
  macEncKey := List.replicate 20 0
  macDecKey := List.replicate 20 0
  seqSend := 0
  seqRecv := 0
  cipherActive := false
  peerCert := []
  peerKeyBits := 0

def Vars.start (feed : Feed) : Vars where
  conn := freshConn
  feed := feed
  flight := ⟨.init, [], false, none, false, false⟩
  rsaN := []
  rsaE := []
  masterSecret := []
  records := 0
  log := []
  writes := []
  sent := []

/-- The write a use of a record comes with. -/
def Access.write : Access → Option Write
  | .random _ count => some ⟨.serverRandom, 0, count⟩
  | _ => none

/-- All writes into the arrays. -/
def Vars.allWrites (v : Vars) : List Write := v.writes ++ v.log.filterMap Access.write

/-- What `vtls_handshake` returns, if it does, and leaves in its connection slot, if it got
one. -/
structure HsResult where
  ret : Option Int
  slot : Option VTlsConn
  writes : List Write
  sent : List UInt8

/-- `vtls_handshake`, with a bound on the passes of its loops. -/
def vtlsHandshake (env : Env) (fuel : Nat) (feed : Feed) : HsResult :=
  if env.slotFree then
    let p := handshake env fuel (.start feed)
    match p.status with
    | .going => ⟨some 0, some p.vars.conn, p.vars.allWrites, p.vars.sent⟩
    | .failed =>
        ⟨some (-1), some { p.vars.conn with active := false }, p.vars.allWrites, p.vars.sent⟩
    | .cut => ⟨none, some p.vars.conn, p.vars.allWrites, p.vars.sent⟩
  else ⟨some (-1), none, [], []⟩

end Vmodem.Tls
