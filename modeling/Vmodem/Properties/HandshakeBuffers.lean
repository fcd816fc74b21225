import Vmodem.Properties.MessageLoop
import Vmodem.Tls.Handshake

/-! The writes of a handshake into its arrays of fixed size. -/

namespace Vmodem.Tls

def Write.Fits (w : Write) : Prop := w.start + w.count ≤ w.array.size

instance (w : Write) : Decidable w.Fits := inferInstanceAs (Decidable (_ ≤ _))

/-- Later variables: the writes so far are kept, and those that came fit. -/
structure Grows (v v' : Vars) : Prop where
  kept : ∀ w ∈ v.allWrites, w ∈ v'.allWrites
  fits : ∀ w ∈ v'.allWrites, w ∈ v.allWrites ∨ w.Fits

section Growth

variable {env : Env} {fuel k : Nat} {ct : UInt8} {data : List UInt8} {v v' u : Vars} {p : Progress}
  {next : Vars → Progress}

theorem Grows.refl (v : Vars) : Grows v v := ⟨fun _ h => h, fun _ h => .inl h⟩

theorem Grows.trans (h : Grows v v') (h' : Grows v' u) : Grows v u where
  kept w hw := h'.kept w (h.kept w hw)
  fits w hw := by
    rcases h'.fits w hw with hOld | hFits
    · exact h.fits w hOld
    · exact .inr hFits

/-- New writes and uses of records. -/
theorem Grows.of_append {log : List Access} {writes : List Write} (hLog : v'.log = v.log ++ log)
    (hWrites : v'.writes = v.writes ++ writes) (hFits : ∀ w ∈ writes, w.Fits)
    (hUses : ∀ a ∈ log, ∀ w, a.write = some w → w.Fits) : Grows v v' := by
  have hAll (w : Write) : w ∈ v'.allWrites ↔
      w ∈ v.allWrites ∨ w ∈ writes ∨ w ∈ log.filterMap Access.write := by
    unfold Vars.allWrites
    rw [hLog, hWrites, List.filterMap_append]
    simp only [List.mem_append]
    tauto
  refine ⟨fun w hw => (hAll w).mpr (.inl hw), fun w hw => ?_⟩
  rcases (hAll w).mp hw with hOld | hNew | hUse
  · exact .inl hOld
  · exact .inr (hFits w hNew)
  · obtain ⟨a, ha, hWrite⟩ := List.mem_filterMap.mp hUse
    exact .inr (hUses a ha w hWrite)

/-- A step whose new writes all fit, and which uses no record, grows. -/
theorem Grows.of_writes {writes : List Write} (hLog : v'.log = v.log)
    (hWrites : v'.writes = v.writes ++ writes) (hFits : ∀ w ∈ writes, w.Fits) : Grows v v' := by
  rw [← List.append_nil v.log] at hLog
  exact .of_append hLog hWrites hFits nofun

/-- Nothing is written. -/
theorem Grows.of_same (hLog : v'.log = v.log) (hWrites : v'.writes = v.writes) : Grows v v' := by
  rw [← List.append_nil v.writes] at hWrites
  exact .of_writes hLog hWrites nofun

/-- A step and everything behind it grow if both do, also where the first one ends it.
-/
theorem Progress.andThen_grows (hFirst : Grows v p.vars) (hNext : ∀ u, Grows u (next u).vars) :
    Grows v (p.andThen next).vars := by
  unfold Progress.andThen
  split
  · exact hFirst.trans (hNext _)
  · exact hFirst

theorem Vars.go_andThen (v : Vars) (next : Vars → Progress) : v.go.andThen next = next v := rfl

theorem Progress.andThen_assoc (p : Progress) (f g : Vars → Progress) :
    (p.andThen f).andThen g = p.andThen fun v => (f v).andThen g := by
  obtain ⟨v, status⟩ := p
  cases status <;> rfl

theorem sendRecord_grows (v : Vars) : Grows v (sendRecord env k ct data v).vars := by
  unfold sendRecord
  cases tlsWriteRecord v.conn ct data (List.ofFn env.iv) with
  | none => exact .refl v
  | some out =>
      dsimp only
      split_ifs <;> exact .of_same rfl rfl

theorem sendMessage_grows (v : Vars) : Grows v (sendMessage env k data v).vars := by
  unfold sendMessage
  apply Grows.trans ?_ (sendRecord_grows _)
  exact .of_same rfl rfl

/-- The writes of the ClientHello have fixed places, and fit. -/
theorem clientHello_grows (v : Vars) : Grows v (clientHello env v).vars := by
  have hFits : ∀ w ∈ helloWrites, w.Fits := by decide
  unfold clientHello
  apply Grows.trans ?_ (sendMessage_grows _)
  exact .of_writes rfl rfl hFits

end Growth

section Flight

variable {env : Env} {fuel : Nat} {rec : Buffer} {alloc : Nat → Bool} {off hlen : Int}
  {f : FirstFlight}

/-- A use of a record that writes at most the server random. -/
def Access.Small (a : Access) : Prop := ∀ w, a.write = some w → w.Fits

theorem Access.small_read (start : Int) (count : Nat) : (Access.read start count).Small := nofun

theorem Access.small_hash (start len : Int) (message : Nat) :
    (Access.hash start len message).Small :=
  nofun

/-- The server's random value is 32 bytes, and so is its array. -/
theorem Access.small_random (start : Int) : (Access.random start 32).Small := by
  rintro w ⟨⟩
  decide

theorem serverHello_small : ∀ a ∈ (serverHello rec off hlen f).log, a.Small := by
  unfold serverHello
  dsimp only
  intro a hMem
  split_ifs at hMem
  · nomatch hMem
  all_goals
    simp only [List.mem_cons, List.not_mem_nil, or_false] at hMem
    rcases hMem with rfl | rfl | rfl
    · exact Access.small_random _
    · exact Access.small_read _ _
    · exact Access.small_read _ _

theorem certificate_small : ∀ a ∈ (certificate rec alloc off f).log, a.Small := by
  unfold certificate
  dsimp only
  intro a hMem
  split_ifs at hMem
  all_goals
    simp only [List.cons_append, List.nil_append, List.mem_cons, List.not_mem_nil, or_false] at hMem
    rcases hMem with rfl | rfl | rfl <;> exact Access.small_read _ _

/-- A message writes at most the server's random value. One case for each type. -/
theorem messageBody_small : ∀ a ∈ (messageBody rec alloc off hlen f).log, a.Small := by
  unfold messageBody
  dsimp only
  split_ifs
  · exact serverHello_small
  · exact certificate_small
  all_goals exact nofun

theorem messagePass_small (s : Splitting) (h : ∀ a ∈ s.log, a.Small) :
    ∀ a ∈ passLog (messagePass rec alloc s), a.Small := by
  unfold messagePass
  dsimp only
  split_ifs
  · exact h
  · exact h
  · intro a hMem
    rcases List.mem_append.mp hMem with hMem | hMem
    · exact h a hMem
    · obtain rfl := List.mem_singleton.mp hMem
      exact Access.small_read _ _
  · have hAll : ∀ a ∈ s.log ++ [.read s.off 4,
        .hash s.off (int16 (4 + int16 (rec.get24 (s.off + 1)))) (4 + rec.get24 (s.off + 1))] ++
        (messageBody rec alloc s.off (int16 (rec.get24 (s.off + 1)))
          { s.flight with
            hsHash := s.flight.hsHash.updateFrom rec s.off
              (int16 (4 + int16 (rec.get24 (s.off + 1)))) }).log, a.Small := by
      intro a hMem
      rcases List.mem_append.mp hMem with hMem | hMem
      · rcases List.mem_append.mp hMem with hMem | hMem
        · exact h a hMem
        · simp only [List.mem_cons, List.not_mem_nil, or_false] at hMem
          rcases hMem with rfl | rfl
          · exact Access.small_read _ _
          · exact Access.small_hash _ _ _
      · exact messageBody_small a hMem
    split <;> exact hAll

/-- However far the loop over a record gets, it writes at most the server random. -/
theorem messageLoop_small (s : Splitting) (h : ∀ a ∈ s.log, a.Small) :
    (messageLoop rec alloc fuel s).Holds (fun t => ∀ a ∈ t.log, a.Small)
      (fun out => ∀ a ∈ out.log, a.Small) := by
  have hPass (s : Splitting) (p : BoundedLoop.Pass Splitting Split) (hInv : ∀ a ∈ s.log, a.Small)
      (hPass : messagePass rec alloc s = p) : ∀ a ∈ passLog p, a.Small := by
    rw [← hPass]
    exact messagePass_small s hInv
  apply BoundedLoop.run_holds ?_ ?_ ?_ h
  · exact fun _ s t hInv h => hPass s _ hInv h
  · exact fun _ s out hInv h => hPass s _ hInv h
  · exact fun _ s t hInv h => hPass s _ hInv h

end Flight

section Phases

variable {env : Env} {fuel : Nat}

open BoundedLoop (Pass Ran)

/-- The variables behind a pass over a record of the first flight. -/
def flightVars : Pass Vars Progress → Vars
  | .again v => v
  | .leave p => p.vars
  | .stuck v => v

/-- A record of the first flight writes what its messages write. -/
theorem flightPass_grows (v : Vars) : Grows v (flightVars (flightPass env fuel v)) := by
  unfold flightPass
  split_ifs with hDone
  · exact .refl v
  cases tlsReadRecord v.conn v.feed with
  | hangs => exact .refl v
  | fails => exact .refl v
  | done out =>
      obtain ⟨r, c, feed⟩ := out
      dsimp only
      split_ifs
      · exact .of_same rfl rfl
      · have hSmall := @messageLoop_small fuel (r.buffer (env.outside (v.records + 1)))
          (env.alloc (v.records + 1)) ⟨0, v.flight, []⟩ nofun
        cases hLoop : messageLoop (r.buffer (env.outside (v.records + 1)))
            (env.alloc (v.records + 1)) fuel ⟨0, v.flight, []⟩ with
        | cut s =>
            rw [hLoop] at hSmall
            exact .of_append rfl (List.append_nil _).symm nofun hSmall
        | ended out =>
            rw [hLoop] at hSmall
            dsimp only
            cases out.flight <;> exact .of_append rfl (List.append_nil _).symm nofun hSmall
      · exact .of_same rfl rfl

/-- So does the whole flight, by induction on its records. -/
theorem readFlight_grows (v : Vars) : Grows v (readFlight env fuel v).vars := by
  have hPass (n : Nat) (u : Vars) (p : Pass Vars Progress) (hInv : Grows v u)
      (hPass : flightPass env n u = p) : Grows v (flightVars p) := by
    rw [← hPass]
    exact hInv.trans (flightPass_grows u)
  have hHolds : (BoundedLoop.run (flightPass env) fuel v).Holds (Grows v)
    (fun p => Grows v p.vars) := by
    apply BoundedLoop.run_holds ?_ ?_ ?_ (.refl v)
    · exact fun n u t hInv h => hPass n u _ hInv h
    · exact fun n u p hInv h => hPass n u _ hInv h
    · exact fun n u t hInv h => hPass n u _ hInv h
  unfold readFlight
  cases hRun : BoundedLoop.run (flightPass env) fuel v with
  | cut u =>
      rw [hRun] at hHolds
      exact hHolds
  | ended p =>
      rw [hRun] at hHolds
      exact hHolds

/-- The copies of modulus and exponent are allocated, and no fixed array is written. -/
theorem serverKey_grows (v : Vars) : Grows v (serverKey env v).vars := by
  unfold serverKey
  cases v.flight.gotHello with
  | false => exact .refl v
  | true =>
      cases v.flight.cert with
      | none => exact .refl v
      | some cert =>
          dsimp only
          cases x509ExtractRsa (certBuffer env cert) (int16 cert.length) with
          | none => exact .refl v
          | some key =>
              dsimp only
              generalize (certBuffer env cert).bytes key.n.start key.n.len = n
              generalize (certBuffer env cert).bytes key.e.start key.e.len = e
              generalize int16 (key.n.len * 8) = bits
              split_ifs <;> exact .of_same rfl rfl

theorem emptyCertificate_grows (v : Vars) : Grows v (emptyCertificate env v).vars := by
  unfold emptyCertificate
  split_ifs
  · exact sendMessage_grows v
  · exact .refl v

/-- Master secret and key block have fixed lengths, and fit. -/
theorem keyWrites_fit : ∀ w ∈ keyWrites, w.Fits := by decide

theorem Grows.keys (v : Vars) (secret : List UInt8) (c : VTlsConn) :
    Grows v { v with masterSecret := secret, conn := c, writes := v.writes ++ keyWrites } :=
  .of_writes rfl rfl keyWrites_fit

/-- The derivation of the keys writes these and nothing else. -/
theorem deriveKeys_grows (v : Vars) : Grows v (deriveKeys env v).vars :=
  Grows.keys v (masterSecret env v.flight.serverRandom)
    (v.conn.withKeys (keyBlock env v.flight.serverRandom))

theorem changeCipherSpec_grows (v : Vars) : Grows v (changeCipherSpec env v).vars :=
  Progress.andThen_grows (sendRecord_grows v) fun _ => .of_same rfl rfl

theorem clientFinished_grows (v : Vars) : Grows v (clientFinished env v).vars := by
  unfold clientFinished
  apply Grows.trans ?_ (sendMessage_grows _)
  exact .of_writes rfl rfl (by decide)

/-- The variables behind a pass over a record of the last flight. -/
def finishVars : Pass Finishing Progress → Vars
  | .again s => s.vars
  | .leave p => p.vars
  | .stuck s => s.vars

theorem finishPass_grows (s : Finishing) : Grows s.vars (finishVars (finishPass env s)) := by
  unfold finishPass
  cases tlsReadRecord s.vars.conn s.vars.feed with
  | hangs => exact .refl _
  | fails => exact .refl _
  | done out =>
      obtain ⟨r, c, feed⟩ := out
      dsimp only
      split_ifs <;> exact .of_same rfl rfl

theorem readFinished_grows (v : Vars) : Grows v (readFinished env fuel v).vars := by
  have hPass (s : Finishing) (p : Pass Finishing Progress) (hInv : Grows v s.vars)
      (hPass : finishPass env s = p) : Grows v (finishVars p) := by
    rw [← hPass]
    exact hInv.trans (finishPass_grows s)
  have hHolds : (BoundedLoop.run (fun _ => finishPass env) fuel ⟨v, false⟩).Holds
      (fun s => Grows v s.vars) (fun p => Grows v p.vars) := by
    refine BoundedLoop.run_holds ?_ ?_ ?_ ?_
    · exact fun _ s t hInv h => hPass s _ hInv h
    · exact fun _ s p hInv h => hPass s _ hInv h
    · exact fun _ s t hInv h => hPass s _ hInv h
    · exact .refl v
  unfold readFinished
  cases hRun : BoundedLoop.run (fun _ => finishPass env) fuel ⟨v, false⟩ with
  | cut s =>
      rw [hRun] at hHolds
      exact hHolds
  | ended p =>
      rw [hRun] at hHolds
      exact hHolds

/-- The handshake up to the point where the ClientKeyExchange is built. -/
def beforeExchange (env : Env) (fuel : Nat) (v : Vars) : Progress :=
  (clientHello env v).andThen fun v => (readFlight env fuel v).andThen fun v =>
    (serverKey env v).andThen (emptyCertificate env)

/-- The handshake from the key block on. -/
def afterExchange (env : Env) (fuel : Nat) (v : Vars) : Progress :=
  (deriveKeys env v).andThen fun v => (changeCipherSpec env v).andThen fun v =>
    (clientFinished env v).andThen (readFinished env fuel)

/-- The handshake as what comes before the key exchange, the exchange, and the rest. -/
theorem handshake_eq (v : Vars) : handshake env fuel v =
    (beforeExchange env fuel v).andThen fun v =>
    (keyExchange env fuel v).andThen (afterExchange env fuel) := by
  unfold handshake beforeExchange afterExchange
  simp only [Progress.andThen_assoc]

theorem beforeExchange_grows (v : Vars) : Grows v (beforeExchange env fuel v).vars :=
  Progress.andThen_grows (clientHello_grows v) fun v =>
    Progress.andThen_grows (readFlight_grows v) fun v =>
      Progress.andThen_grows (serverKey_grows v) emptyCertificate_grows

theorem afterExchange_grows (v : Vars) : Grows v (afterExchange env fuel v).vars :=
  Progress.andThen_grows (deriveKeys_grows v) fun v =>
    Progress.andThen_grows (changeCipherSpec_grows v) fun v =>
      Progress.andThen_grows (clientFinished_grows v) readFinished_grows

end Phases

section Buffers

variable {env : Env} {fuel : Nat} {feed : Feed}

/-- The handshake gets as far as copying an encrypted secret of `n` bytes. -/
def CopiesModulus (env : Env) (feed : Feed) (n : Nat) : Prop :=
  env.slotFree ∧ ∃ (fuel : Nat) (v : Vars) (encrypted : List UInt8),
    beforeExchange env fuel (.start feed) = v.go ∧
    env.keyAlloc v.rsaN.length ∧
    rsaEncrypt fuel env.rand v.rsaN v.rsaE (preMasterSecret env) = some (some encrypted) ∧
    v.rsaN.length = n

/-- However far the handshake gets, what it wrote into its arrays is inside them. -/
def WritesInside (env : Env) (feed : Feed) : Prop :=
  ∀ fuel, ∀ w ∈ (vtlsHandshake env fuel feed).writes, w.Fits

/-- The encrypted secret fits into `body_buf` exactly up to a modulus of 518 bytes. -/
theorem exchangeWrites_fit {n : Nat} : (∀ w ∈ exchangeWrites n, w.Fits) ↔ n ≤ 518 := by
  constructor
  · intro hAll
    have hCopy := hAll ⟨.bodyBuf, 2, n⟩ (by simp [exchangeWrites])
    unfold Write.Fits FixedArray.size at hCopy
    dsimp only at hCopy
    omega
  · intro hSmall w hMem
    simp only [exchangeWrites, List.mem_cons, List.not_mem_nil, or_false] at hMem
    rcases hMem with rfl | rfl <;> unfold Write.Fits FixedArray.size <;> dsimp only <;> omega

/-- The writes of the call are those of the handshake. -/
theorem vtlsHandshake_writes (hSlot : env.slotFree) :
    (vtlsHandshake env fuel feed).writes = (handshake env fuel (.start feed)).vars.allWrites := by
  unfold vtlsHandshake
  rw [if_pos hSlot]
  cases hStatus : (handshake env fuel (.start feed)).status <;> simp [hStatus]

theorem fits_of_grows {v : Vars} (h : Grows (.start feed) v) : ∀ w ∈ v.allWrites, w.Fits := by
  intro w hw
  rcases h.fits w hw with hOld | hFits
  · nomatch hOld
  · exact hFits

/-- What the variables are after the copy. -/
def copied (v : Vars) : Vars := { v with writes := v.writes ++ exchangeWrites v.rsaN.length }

/-- A key exchange that encrypts has copied the result. -/
theorem keyExchange_copied {v : Vars} {encrypted : List UInt8} (hAlloc : env.keyAlloc v.rsaN.length)
    (hRsa : rsaEncrypt fuel env.rand v.rsaN v.rsaE (preMasterSecret env) = some (some encrypted)) :
    Grows (copied v) ((keyExchange env fuel v).andThen (afterExchange env fuel)).vars := by
  unfold keyExchange
  rw [if_pos hAlloc, hRsa]
  exact Progress.andThen_grows (sendMessage_grows _) afterExchange_grows

theorem copied_grows {v : Vars} (hSmall : v.rsaN.length ≤ 518) : Grows v (copied v) :=
  .of_writes rfl rfl (exchangeWrites_fit.mpr hSmall)

/-- If every modulus that is copied is small enough, so are the writes from the exchange on. -/
theorem exchange_grows (v : Vars) (hSmall : ∀ encrypted, env.keyAlloc v.rsaN.length →
    rsaEncrypt fuel env.rand v.rsaN v.rsaE (preMasterSecret env) = some (some encrypted) →
      v.rsaN.length ≤ 518) :
    Grows v ((keyExchange env fuel v).andThen (afterExchange env fuel)).vars := by
  by_cases hAlloc : env.keyAlloc v.rsaN.length
  · cases hRsa : rsaEncrypt fuel env.rand v.rsaN v.rsaE (preMasterSecret env) with
    | none =>
        rw [keyExchange, if_pos hAlloc, hRsa]
        exact .refl v
    | some out =>
        cases out with
        | none =>
            rw [keyExchange, if_pos hAlloc, hRsa]
            exact .refl v
        | some encrypted =>
            exact (copied_grows (hSmall encrypted hAlloc hRsa)).trans
              (keyExchange_copied hAlloc hRsa)
  · rw [keyExchange, if_neg hAlloc]
    exact .refl v

/-- If no modulus of more than 518 bytes is copied, no write leaves its array. -/
theorem writesInside_of_small (hSmall : ∀ n, CopiesModulus env feed n → n ≤ 518) :
    WritesInside env feed := by
  intro fuel w hw
  by_cases hSlot : env.slotFree
  · rw [vtlsHandshake_writes hSlot, handshake_eq] at hw
    have hBefore := @beforeExchange_grows env fuel (.start feed)
    cases hProgress : beforeExchange env fuel (.start feed) with
    | mk v status =>
        rw [hProgress] at hw hBefore
        cases status with
        | going =>
            have hGo : beforeExchange env fuel (.start feed) = v.go := hProgress
            rw [← Vars.go, Vars.go_andThen] at hw
            have hRest := @exchange_grows env fuel v fun encrypted hAlloc hRsa =>
              hSmall _ ⟨hSlot, fuel, v, encrypted, hGo, hAlloc, hRsa, rfl⟩
            exact fits_of_grows (hBefore.trans hRest) w hw
        | failed => exact fits_of_grows hBefore w hw
        | cut => exact fits_of_grows hBefore w hw
  · unfold vtlsHandshake at hw
    rw [if_neg hSlot] at hw
    nomatch hw

/-- Everything works: memory, network and a free slot. -/
def willing : Env where
  slotFree := true
  clientRandom _ := 1
  preMaster _ := 2
  rand := ⟨fun _ => 3, fun k => ⟨k, k.le_refl, by decide⟩⟩
  iv _ := 4
  alloc _ _ := true
  keyAlloc _ := true
  sends _ := true
  outside _ _ := 0
  certOutside _ := 0

end Buffers

end Vmodem.Tls
