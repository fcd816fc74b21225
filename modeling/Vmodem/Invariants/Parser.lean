import Vmodem.Invariants.Past
import Vmodem.Invariants.Transmit

/-! The telnet parser of a port over a run: it sees the bytes received on the port and starts
anew with every call, and nothing else touches it. -/

namespace Vmodem

/-- The parser is where it was. -/
structure PortState.SameParser (p q : PortState) : Prop where
  iacState : q.iacState = p.iacState
  gathered : q.gathered = p.gathered

/-- The step gives the port a call. -/
def connects (i : PortIdx) (st : Config × Action) : Bool :=
  match st.2, st.1.todo with
  | .run a, b :: _ => (st.1.sys.ports i).sock.isNone && ((exec b a st.1.sys).1.ports i).sock.isSome
  | _, _ => false

/-- The byte the parser of the port is given in a step. -/
def parsed (i : PortIdx) (st : Config × Action) : List UInt8 :=
  match st.2, st.1.todo with
  | .run _, .rx j _ (b :: _) _ :: _ => if j = i then [b] else []
  | _, _ => []

/-- What the parser of the port has been given of the last call there. -/
def heard (i : PortIdx) : Past → List UInt8
  | [] => []
  | st :: past => if connects i st then [] else heard i past ++ parsed i st

section Parser

variable {b : Block} {a : Answer} {s t u : Sys} {i : PortIdx}

namespace PortState.SameParser

variable {p q r : PortState}

theorem refl (p : PortState) : p.SameParser p := ⟨rfl, rfl⟩

/-- A parser that did not move in two steps did not move in both. -/
theorem trans (left : p.SameParser q) (right : q.SameParser r) : p.SameParser r :=
  ⟨right.iacState.trans left.iacState, right.gathered.trans left.gathered⟩

theorem ttype (h : p.SameParser q) : q.ttype = p.ttype :=
  congrArg (fun g => g.2.2.2) h.gathered

theorem sbLen (h : p.SameParser q) : q.sbLen = p.sbLen :=
  congrArg (fun g => g.2.1) h.gathered

theorem sbOpt (h : p.SameParser q) : q.sbOpt = p.sbOpt :=
  congrArg (fun g => g.1) h.gathered

end PortState.SameParser

/-- What is left to the parser outside the receive loop and `accept()`. -/
theorem Effect.sameParser (h : Effect b a s t)
    (hOld : (t.ports i).sock.isSome → (s.ports i).sock.isSome)
    (hRx : ∀ y tmp drop, b ≠ .rx i y tmp drop) : (s.ports i).SameParser (t.ports i) := by
  cases h with
  | quiet h => exact ⟨(h.port i).iacState, (h.port i).gathered⟩
  | store j y v hSock h =>
      obtain ⟨_, rfl⟩ := storeTx_eq_some h
      exact .refl _
  | filter j y tmp drop hb hSock =>
      have hj : i ≠ j := by
        rintro rfl
        exact hRx y tmp drop hb
      simpa [hj] using PortState.SameParser.refl _
  | receive j hb =>
      rcases pollRecv_cases j a s with hNone | ⟨y, _, _, _, hSome⟩
      · rw [hNone]
        exact .refl _
      · rw [hSome]
        by_cases hj : i = j <;> split_ifs <;> simp [hj] <;> exact ⟨rfl, rfl⟩
  | attach j y net hb hSock hAccept =>
      have hj : i ≠ j := by
        rintro rfl
        simp [hSock, telnetReset] at hOld
      simpa [hj] using PortState.SameParser.refl _
  | reconfigure j f hb hf =>
      by_cases hj : i = j
      · subst hj
        simpa using ⟨(hf _).iacState, (hf _).gathered⟩
      · simpa [hj] using PortState.SameParser.refl _
  | read j n | clearRx j hb | clearRemote j hb | close j why hb
  | listenPort j tcpPort y net hb hFree hGet =>
      by_cases hj : i = j <;> simp [hj] <;> exact ⟨rfl, rfl⟩
  | _ => first | exact ⟨rfl, rfl⟩ | simpa using PortState.SameParser.refl _

/-- Only received bytes and an accepted call move the parser. The induction is on the
effects of the block. -/
theorem Effects.sameParser (h : Effects b a s t) (hAccepts : b.accepts = false)
    (hRx : ∀ y tmp drop, b ≠ .rx i y tmp drop) : (s.ports i).SameParser (t.ports i) := by
  induction h with
  | refl => exact .refl _
  | tail _ last ih =>
      refine ih.trans (last.sameParser (fun hSome => ?_) hRx)
      rcases last.sock_mono hAccepts i with hSame | hNone
      · exact hSame ▸ hSome
      · simp [hNone] at hSome

/-- A call starts with the parser reset. -/
theorem Effect.resetParser (h : Effect b a s t) (hBefore : (s.ports i).sock = none)
    (hAfter : (t.ports i).sock.isSome) : (telnetReset (s.ports i)).SameParser (t.ports i) := by
  cases h.transmit with
  | idle h =>
      rcases h.sock i with hSame | hNone
      · simp [hSame, hBefore] at hAfter
      · simp [hNone] at hAfter
  | store j y v _ _ ht =>
      subst ht
      simp [Sys.stored, hBefore] at hAfter
  | purge j hb ht =>
      subst ht
      simp [Sys.purged, hBefore] at hAfter
  | flush j hb ht =>
      subst ht
      simp [hBefore] at hAfter
  | attach j y net hb hSock hAccept ht =>
      subst ht
      by_cases hj : i = j
      · subst hj
        simpa using ⟨rfl, rfl⟩
      · simp [hj, hBefore] at hAfter

/-- The receive loop gives the parser one byte. -/
theorem pollRx_sameParser (x : SockId) (v : UInt8) (tmp : List UInt8) (drop : Bool) :
    (telnetFilter (s.ports i) v).port.SameParser
      ((pollRx i x (v :: tmp) drop a s).1.ports i) := by
  rw [pollRx_cons]
  dsimp only
  split_ifs <;> simp <;> exact ⟨rfl, rfl⟩

/-- What one block does to the parser of a port. -/
inductive ParserStep (i : PortIdx) (st : Config × Action) (p q : PortState) : Prop where
  | stays (hParsed : parsed i st = []) (hConnects : connects i st = false) (h : p.SameParser q)
  | byte (b : UInt8) (hParsed : parsed i st = [b]) (hConnects : connects i st = false)
      (h : (telnetFilter p b).port.SameParser q)
  | reset (hConnects : connects i st) (h : (telnetReset p).SameParser q)

variable {rest : List Block}

theorem connects_run (i : PortIdx) (a : Answer) (s : Sys) (b : Block) (rest : List Block) :
    connects i (⟨s, b :: rest⟩, .run a) =
      ((s.ports i).sock.isNone && ((exec b a s).1.ports i).sock.isSome) := rfl

/-- Only a received chunk gives the parser a byte. -/
theorem parsed_run (hRx : ∀ y tmp drop, b ≠ .rx i y tmp drop) :
    parsed i (⟨s, b :: rest⟩, .run a) = [] := by
  cases b with
  | rx j y tmp drop =>
      have hj : j ≠ i := by
        rintro rfl
        exact hRx y tmp drop rfl
      cases tmp <;> simp [parsed, hj]
  | _ => rfl

/-- What a block does to the parser of a port: it starts anew with a call, takes a byte,
or stays. -/
theorem exec_parserStep (h : Config.Sound ⟨s, b :: rest⟩) (a : Answer) (i : PortIdx) :
    ParserStep i (⟨s, b :: rest⟩, .run a) (s.ports i) ((exec b a s).1.ports i) := by
  have hConnects := connects_run i a s b rest
  cases hAccepts : b.accepts with
  | true =>
      have hRx : ∀ y tmp drop, b ≠ .rx i y tmp drop := by
        rintro y tmp drop rfl
        cases hAccepts
      have hParsed : parsed i (⟨s, b :: rest⟩, .run a) = [] := parsed_run hRx
      have hEffect := exec_accepts a s hAccepts h.idle
      generalize (exec b a s).1 = t at hConnects hEffect ⊢
      by_cases hNew : (s.ports i).sock = none ∧ (t.ports i).sock.isSome
      · cases hEffect with
        | refl => simp [hNew.1] at hNew
        | single hOne =>
            refine .reset (hConnects.trans ?_) (hOne.resetParser hNew.1 hNew.2)
            simp [hNew.1, hNew.2]
      · have hOld : (t.ports i).sock.isSome → (s.ports i).sock.isSome := fun hSome =>
          Option.isSome_iff_ne_none.mpr fun hNone => hNew ⟨hNone, hSome⟩
        refine .stays hParsed (hConnects.trans ?_) ?_
        · cases hBefore : (s.ports i).sock with
          | none => simpa [hBefore] using hOld
          | some x => rfl
        · cases hEffect with
          | refl => exact .refl _
          | single hOne => exact hOne.sameParser hOld hRx
  | false =>
      have hEffects := h.effects a
      have hOld : connects i (⟨s, b :: rest⟩, .run a) = false := by
        rw [hConnects]
        rcases hEffects.sock_mono hAccepts i with hSame | hNone
        · rw [hSame]
          cases (s.ports i).sock <;> rfl
        · simp [hNone]
      by_cases hRx : ∀ y tmp drop, b ≠ .rx i y tmp drop
      · exact .stays (parsed_run hRx) hOld (hEffects.sameParser hAccepts hRx)
      · simp only [not_forall, not_not] at hRx
        obtain ⟨y, tmp, drop, rfl⟩ := hRx
        cases tmp with
        | nil => exact .stays rfl hOld (.refl _)
        | cons v tmp =>
            exact .byte v (by simp [parsed]) hOld (pollRx_sameParser y v tmp drop)

/-- What holds of a parser and the bytes it was given, over every run. -/
theorem Reached.parser {P : List UInt8 → PortState → Prop} {past : Past} {c : Config}
    (h : Reached past c) (i : PortIdx) (start : P [] PortState.zero)
    (same : ∀ l p q, p.SameParser q → P l p → P l q)
    (reset : ∀ l p, P l p → P [] (telnetReset p))
    (byte : ∀ l p b, P l p → P (l ++ [b]) (telnetFilter p b).port) :
    P (heard i past) (c.sys.ports i) := by
  refine h.induct (A := fun _ _ => True) (P := fun past c => P (heard i past) (c.sys.ports i))
    (fun _ _ _ => start) ?_ ?_ ?_ fun _ _ => trivial
  · intro past s b _ _ _ ih
    simpa [heard, connects, parsed] using ih
  · intro past s b rest a hReach _ ih
    cases exec_parserStep hReach.reachable.sound a i with
    | stays hParsed hConnects hSame =>
        rw [heard, hConnects, if_neg Bool.false_ne_true, hParsed, List.append_nil]
        exact same _ _ _ hSame ih
    | byte v hParsed hConnects hSame =>
        rw [heard, hConnects, if_neg Bool.false_ne_true, hParsed]
        exact same _ _ _ hSame (byte _ _ _ ih)
    | reset hConnects hSame =>
        rw [heard, hConnects, if_pos rfl]
        exact same _ _ _ hSame (reset _ _ ih)
  · intro past s t e todo _ _ hOut ih
    show P (heard i ((⟨s, todo⟩, .outside e) :: past)) (t.ports i)
    rw [outside_ports hOut]
    simpa [heard, connects, parsed] using ih

end Parser

end Vmodem
