import Vmodem.Driver.Terminal
import Vmodem.Invariants.Parser
import Vmodem.Properties.Subnegotiations

/-! What MUX_PORT_TTYPE shows over a run, against the terminal types the caller has sent. The
parser writes into the visible string while a subnegotiation is still going on. -/

namespace Vmodem

open TelnetReceiver (receive)

/-- What the receiver has of the subnegotiation it is in. -/
def openContent : TelnetReceiver.State → Option (List UInt8)
  | .sub content | .subIac content => some content
  | _ => none

/-- The receiver is in the string of a terminal type. -/
def MidText (state : TelnetReceiver.State) : Prop :=
  ∃ cmd b text, openContent state = some (teloptTtype :: cmd :: b :: text)

/-- The string of a TTYPE subnegotiation, behind the option and its command. -/
def typeOf : TelnetReceiver.Item → Option (List UInt8)
  | .subnegotiation (o :: _ :: text) => if o = teloptTtype then some text else none
  | _ => none

/-- The terminal types a stream has completed. -/
def terminalTypes (l : List UInt8) : List (List UInt8) := (receive .data l).2.filterMap typeOf

/-- The bytes of a subnegotiation the parser keeps. -/
def keptBytes (content : List UInt8) : List UInt8 := content.filter (· ≠ telIac)

/-- The parser takes the byte for what it is: a doubled 255 does not belong to a terminal type,
and no terminal type seems to begin where the length wraps around. -/
def TakenRight (state : TelnetReceiver.State) (b : UInt8) : Prop :=
  match state with
  | .sub content => b = teloptTtype → content = [] ∨ (keptBytes content).length % 256 ≠ 0
  | .subIac content => b = telIac → content.head?.any (· ≠ teloptTtype)
  | _ => True

instance (state : TelnetReceiver.State) (b : UInt8) : Decidable (TakenRight state b) :=
  match state with
  | .data | .iac | .option _ => .isTrue trivial
  | .sub _ => inferInstanceAs (Decidable (_ → _))
  | .subIac _ => inferInstanceAs (Decidable (_ → _))

/-- All bytes of the stream are taken right. -/
def Undistorted (l : List UInt8) : Prop :=
  ∀ front b, front ++ [b] <+: l → TakenRight (receive .data front).1 b

instance (l : List UInt8) : Decidable (Undistorted l) :=
  decidable_of_iff (∀ k : Fin l.length, TakenRight (receive .data (l.take k)).1 l[k]) <| by
    constructor
    · rintro h front b ⟨back, rfl⟩
      have hHere := h ⟨front.length, by simp⟩
      simpa [List.append_assoc] using hHere
    · intro h k
      apply h
      rw [Fin.getElem_fin, ← List.take_succ_eq_append_getElem]
      exact List.take_prefix _ _

section Content

variable {p : PortState} {b : UInt8} {content : List UInt8}

/-- What the parser has gathered of a content. -/
structure Collected (content : List UInt8) (p : PortState) : Prop where
  len : p.sbLen.toNat = (lastBlock (keptBytes content)).length
  opt : ∀ o u, lastBlock (keptBytes content) = o :: u → p.sbOpt = o
  first : ∀ u, lastBlock (keptBytes content) = teloptTtype :: u → content = teloptTtype :: u
  whole : ∀ u, content = teloptTtype :: u → telIac ∉ u
  text : ∀ cmd text, content = teloptTtype :: cmd :: text →
    ∀ k (h : k < text.length), k < 40 → p.ttype k = text[k]

/-- A byte other than IAC is kept behind the others. -/
theorem keptBytes_append_singleton (h : b ≠ telIac) :
    keptBytes (content ++ [b]) = keptBytes content ++ [b] := by
  rw [keptBytes, List.filter_append, List.filter_cons_of_pos (by simpa using h)]
  rfl

namespace Collected

/-- The parser believes to be in a text only where it is. -/
theorem of_text (h : Collected content p) (hText : p.sbOpt = teloptTtype ∧ 2 ≤ p.sbLen) :
    ∃ cmd u, content = teloptTtype :: cmd :: u ∧ p.sbLen.toNat = u.length + 2 := by
  have hLong := UInt8.le_iff_toNat_le.mp hText.2
  have hLen := h.len
  cases hLast : lastBlock (keptBytes content) with
  | nil =>
      rw [hLast] at hLen
      rw [hLen] at hLong
      cases hLong
  | cons o v =>
      obtain rfl := (h.opt o v hLast).symm.trans hText.1
      cases v with
      | nil =>
          rw [hLast] at hLen
          rw [hLen] at hLong
          exact absurd hLong (by decide)
      | cons cmd u =>
          rw [hLast] at hLen
          exact ⟨cmd, u, h.first _ hLast, hLen⟩

/-- Before the length wraps around, it knows a text. -/
theorem to_text (h : Collected content p) {cmd : UInt8} {u : List UInt8}
    (hContent : content = teloptTtype :: cmd :: u) (hShort : content.length < 256) :
    p.sbOpt = teloptTtype ∧ p.sbLen.toNat = u.length + 2 := by
  have hKept : keptBytes content = content := by
    apply List.filter_eq_self.mpr
    intro c hc
    rw [hContent] at hc
    rcases List.mem_cons.mp hc with rfl | hTail
    · decide
    · have hOther : c ≠ telIac := fun hIac => h.whole _ hContent (hIac ▸ hTail)
      simpa using hOther
  have hLast : lastBlock (keptBytes content) = teloptTtype :: cmd :: u := by
    rw [hKept, lastBlock_short hShort, hContent]
  refine ⟨h.opt _ _ hLast, ?_⟩
  rw [h.len, hLast]
  rfl

/-- What a byte of the content does to the visible string. -/
theorem ttype_byte (h : Collected content p) (b : UInt8) :
    (∃ cmd u, content = teloptTtype :: cmd :: u ∧ (subnegotiationByte p b).ttype =
        fun k => if k = u.length ∧ k < 40 then b else p.ttype k) ∨
      ((subnegotiationByte p b).ttype = p.ttype ∧
        ∀ cmd u, content = teloptTtype :: cmd :: u → 40 ≤ u.length) := by
  by_cases hText : p.sbOpt = teloptTtype ∧ 2 ≤ p.sbLen
  · obtain ⟨cmd, u, hContent, hLen⟩ := h.of_text hText
    refine .inl ⟨cmd, u, hContent, ?_⟩
    rw [subnegotiationByte_ttype p hText, hLen]
    rfl
  · refine .inr ⟨subnegotiationByte_other p hText, fun cmd u hContent => ?_⟩
    by_contra hRoom
    have hShort : content.length < 256 := by
      rw [hContent, List.length_cons, List.length_cons]
      omega
    obtain ⟨hOpt, hLen⟩ := h.to_text hContent hShort
    exact hText ⟨hOpt, UInt8.le_iff_toNat_le.mpr (by rw [hLen]; exact Nat.le_add_left 2 _)⟩

/-- One more byte of the content is collected, unless it begins the text anew in its
middle. -/
theorem byte (h : Collected content p) (hIac : b ≠ telIac)
    (hTaken : b = teloptTtype → content = [] ∨ (keptBytes content).length % 256 ≠ 0) :
    Collected (content ++ [b]) (subnegotiationByte p b) := by
  have hLast := lastBlock_append_singleton (keptBytes content) b
  rw [← keptBytes_append_singleton hIac, ← length_lastBlock] at hLast
  have hBlock := length_lastBlock (keptBytes content)
  have hLen := h.len
  refine ⟨?_, ?_, ?_, ?_, ?_⟩
  · rw [subnegotiationByte_sbLen, UInt8.toNat_add, hLen, hLast, UInt8.toNat_one]
    split_ifs with hFull
    · rw [hFull]
      rfl
    · rw [List.length_append, List.length_singleton]
      omega
  · intro o u hCons
    rw [hLast] at hCons
    split_ifs at hCons
    cases hOld : lastBlock (keptBytes content) with
    | nil =>
        rw [hOld] at hCons hLen
        rw [(subnegotiationByte_first p (UInt8.toNat_inj.mp hLen)).1]
        exact (List.cons.inj hCons).1
    | cons o' v =>
        rw [hOld] at hCons hLen
        have hMore : p.sbLen ≠ 0 := by
          intro hZero
          rw [hZero] at hLen
          cases hLen
        rw [subnegotiationByte_sbOpt p hMore, h.opt o' v hOld]
        exact (List.cons.inj hCons).1
  · intro u hCons
    rw [hLast] at hCons
    split_ifs at hCons
    cases hOld : lastBlock (keptBytes content) with
    | nil =>
        rw [hOld] at hCons hBlock
        obtain ⟨rfl, rfl⟩ := List.cons.inj hCons
        rcases hTaken rfl with hNil | hMore
        · rw [hNil]
          rfl
        · exact absurd hBlock.symm hMore
    | cons o' v =>
        rw [hOld] at hCons
        obtain ⟨rfl, rfl⟩ := List.cons.inj hCons
        rw [h.first v hOld]
        rfl
  · intro u hCons
    cases content with
    | nil =>
        obtain ⟨-, rfl⟩ := List.cons.inj hCons
        exact List.not_mem_nil
    | cons o v =>
        rw [List.cons_append] at hCons
        obtain ⟨rfl, rfl⟩ := List.cons.inj hCons
        rw [List.mem_append, List.mem_singleton, not_or]
        exact ⟨h.whole v rfl, hIac.symm⟩
  · intro cmd text hCons k hk hRoom
    match content, hCons with
    | [_], hCons =>
        obtain ⟨-, hRest⟩ := List.cons.inj hCons
        obtain ⟨-, rfl⟩ := List.cons.inj hRest
        cases hk
    | _ :: _ :: v, hCons =>
        rw [List.cons_append, List.cons_append] at hCons
        obtain ⟨rfl, hRest⟩ := List.cons.inj hCons
        obtain ⟨rfl, rfl⟩ := List.cons.inj hRest
        rw [List.length_append, List.length_singleton] at hk
        rw [getElem_append_singleton]
        rcases h.ttype_byte b with ⟨cmd', u, hContent, hWrite⟩ | ⟨hSame, hFull⟩
        · obtain rfl : v = u := (List.cons.inj (List.cons.inj hContent).2).2
          rw [hWrite]
          dsimp only
          split_ifs with hHere hOld hOld
          · omega
          · rfl
          · exact h.text _ v rfl k hOld hRoom
          · omega
        · have hOld := hFull _ v rfl
          rw [hSame, dif_pos (by omega)]
          exact h.text _ v rfl k (by omega) hRoom

/-- A doubled 255 of another option is left out. -/
theorem escaped (h : Collected content p)
    (hOther : content.head?.any (· ≠ teloptTtype)) : Collected (content ++ [telIac]) p := by
  obtain ⟨o, hHead, hOption⟩ := (Option.any_eq_true _ _).mp hOther
  obtain ⟨rest, rfl⟩ := List.head?_eq_some_iff.mp hHead
  rw [decide_eq_true_eq] at hOption
  have hKept : keptBytes (o :: rest ++ [telIac]) = keptBytes (o :: rest) := by
    rw [keptBytes, List.filter_append]
    simp [keptBytes]
  refine ⟨by rw [hKept]; exact h.len, by rw [hKept]; exact h.opt, ?_, ?_, ?_⟩
  · intro u hLast
    rw [hKept] at hLast
    exact absurd (List.cons.inj (h.first u hLast)).1 hOption
  · intro u hCons
    exact absurd (List.cons.inj hCons).1 hOption
  · intro cmd text hCons
    exact absurd (List.cons.inj hCons).1 hOption

/-- What IAC SE makes of a terminal type. -/
theorem done_text {cmd : UInt8} {u : List UInt8} (h : Collected (teloptTtype :: cmd :: u) p)
    (hSome : u ≠ []) (hLast : p.ttype 40 = 0) :
    CString.Holds (subnegotiationDone p).ttype (u.take 40) := by
  have hPos := List.length_pos_iff.mpr hSome
  have hText := h.text cmd u rfl
  rw [done_ttype]
  by_cases hEnds : p.sbOpt = teloptTtype ∧ 2 < p.sbLen
  · obtain ⟨cmd', v, hContent, hLen⟩ := h.of_text ⟨hEnds.1, UInt8.le_of_lt hEnds.2⟩
    obtain rfl : u = v := (List.cons.inj (List.cons.inj hContent).2).2
    rw [if_pos hEnds, hLen]
    refine ⟨fun k hk => ?_, ?_⟩
    · rw [List.length_take] at hk
      rw [if_neg (by omega), List.getElem_take]
      exact hText k (by omega) (by omega)
    · rw [List.length_take, if_pos (by omega)]
  · have hLong : 40 ≤ u.length := by
      by_contra hRoom
      have hShort : (teloptTtype :: cmd :: u).length < 256 := by
        rw [List.length_cons, List.length_cons]
        omega
      obtain ⟨hOpt, hLen⟩ := h.to_text rfl hShort
      exact hEnds ⟨hOpt, UInt8.lt_iff_toNat_lt.mpr
        (by rw [hLen]; exact Nat.lt_add_of_pos_left hPos)⟩
    rw [if_neg hEnds]
    refine ⟨fun k hk => ?_, ?_⟩
    · rw [List.length_take] at hk
      rw [List.getElem_take]
      exact hText k (by omega) (by omega)
    · rw [List.length_take, Nat.min_eq_left hLong]
      exact hLast

/-- Any other content leaves the visible string alone. -/
theorem done_other (h : Collected content p)
    (hOther : ¬ ∃ cmd b u, content = teloptTtype :: cmd :: b :: u) :
    (subnegotiationDone p).ttype = p.ttype := by
  rw [done_ttype, if_neg]
  intro hEnds
  obtain ⟨cmd, u, hContent, hLen⟩ := h.of_text ⟨hEnds.1, UInt8.le_of_lt hEnds.2⟩
  cases u with
  | nil =>
      have hMore := UInt8.lt_iff_toNat_lt.mp hEnds.2
      rw [hLen] at hMore
      exact absurd hMore (by decide)
  | cons b u => exact hOther ⟨cmd, b, u, hContent⟩

end Collected

end Content

section Tracking

variable {p q : PortState} {state : TelnetReceiver.State} {types : List (List UInt8)} {b : UInt8}
  {l : List UInt8}

/-- The parser against a receiver that has reported these terminal types. -/
structure Tracks (state : TelnetReceiver.State) (types : List (List UInt8)) (p : PortState) :
    Prop where
  follows : p.iacState.follows state
  sub : ∀ content, openContent state = some content → Collected content p
  shown : ¬ MidText state → ∃ text ∈ [] :: types, CString.Holds p.ttype (text.take 40)

/-- Outside subnegotiations the visible string stays. -/
theorem Tracks.outside (h : Tracks state types p) (hText : ¬ MidText state)
    (follows : q.iacState.follows (TelnetReceiver.next state b).1)
    (hSub : ∀ content, openContent (TelnetReceiver.next state b).1 = some content →
      Collected content q)
    (hSame : q.ttype = p.ttype) :
    Tracks (TelnetReceiver.next state b).1
      (types ++ (TelnetReceiver.next state b).2.filterMap typeOf) q := by
  refine ⟨follows, hSub, fun _ => ?_⟩
  obtain ⟨text, hMem, hHolds⟩ := h.shown hText
  refine ⟨text, ?_, hSame ▸ hHolds⟩
  rw [← List.cons_append]
  exact List.mem_append_left _ hMem

theorem not_midText (h : openContent state = none) : ¬ MidText state := by
  rintro ⟨cmd, c, text, hContent⟩
  rw [h] at hContent
  cases hContent

theorem MidText.append {content : List UInt8} (h : MidText (.sub content)) (b : UInt8) :
    MidText (.sub (content ++ [b])) := by
  obtain ⟨cmd, c, text, hContent⟩ := h
  refine ⟨cmd, c, text ++ [b], ?_⟩
  obtain rfl := Option.some.inj hContent
  rfl

/-- A byte inside a subnegotiation. -/
theorem Tracks.content {content : List UInt8} (h : Tracks (.sub content) types p)
    (hIac : b ≠ telIac) (hTaken : TakenRight (.sub content) b)
    (follows : (subnegotiationByte p b).iacState.follows (.sub (content ++ [b]))) :
    Tracks (.sub (content ++ [b])) types (subnegotiationByte p b) := by
  have hCollected := h.sub content rfl
  refine ⟨follows, fun content' hContent => ?_, fun hText => ?_⟩
  · obtain rfl := Option.some.inj hContent
    exact hCollected.byte hIac hTaken
  · rcases hCollected.ttype_byte b with ⟨cmd, u, rfl, -⟩ | ⟨hSame, -⟩
    · refine absurd ?_ hText
      cases u with
      | nil => exact ⟨cmd, b, [], rfl⟩
      | cons c u => exact ⟨cmd, c, u ++ [b], rfl⟩
    · rw [hSame]
      exact h.shown fun hMid => hText (hMid.append b)

/-- The end of a subnegotiation. -/
theorem Tracks.finish {content : List UInt8} (h : Tracks (.subIac content) types p)
    (hLast : p.ttype 40 = 0) :
    Tracks .data (types ++ (typeOf (.subnegotiation content)).toList)
      { subnegotiationDone p with iacState := .normal } := by
  have hCollected := h.sub content rfl
  refine ⟨trivial, (fun content' hContent => nomatch hContent), fun _ => ?_⟩
  show ∃ text ∈ [] :: (types ++ _), CString.Holds (subnegotiationDone p).ttype (text.take 40)
  by_cases hMid : ∃ cmd b u, content = teloptTtype :: cmd :: b :: u
  · obtain ⟨cmd, b, u, rfl⟩ := hMid
    refine ⟨b :: u, ?_, hCollected.done_text (List.cons_ne_nil b u) hLast⟩
    rw [← List.cons_append]
    apply List.mem_append_right
    simp [typeOf]
  · rw [hCollected.done_other hMid]
    obtain ⟨text, hMem, hHolds⟩ := h.shown fun ⟨cmd, b, u, hContent⟩ =>
      hMid ⟨cmd, b, u, Option.some.inj hContent⟩
    refine ⟨text, ?_, hHolds⟩
    rw [← List.cons_append]
    exact List.mem_append_left _ hMem

/-- The last place of the array is never anything but NUL. -/
theorem telnetFilter_ttype_last (h : p.ttype 40 = 0) (b : UInt8) :
    (telnetFilter p b).port.ttype 40 = 0 := by
  unfold telnetFilter
  cases p.iacState with
  | normal | sawFF =>
      dsimp only
      split_ifs <;> exact h
  | sawCmd =>
      obtain ⟨_, _, _, _, _, hPort⟩ := telnetHandleOption_renegotiates p p.iacCmd b
      dsimp only
      rw [hPort]
      exact h
  | inSB =>
      dsimp only
      split_ifs
      · exact h
      · by_cases hText : p.sbOpt = teloptTtype ∧ 2 ≤ p.sbLen
        · show (subnegotiationByte p b).ttype 40 = 0
          rw [subnegotiationByte_ttype p hText]
          simpa using h
        · exact (congrFun (subnegotiationByte_other p hText) 40).trans h
  | sbIac =>
      dsimp only
      split_ifs
      · show (subnegotiationDone p).ttype 40 = 0
        rw [done_ttype]
        split_ifs
        · dsimp only
          split_ifs
          · rfl
          · exact h
        · exact h
      · exact h

/-- What was collected is read off the option, the count and the text. -/
theorem Collected.congr {content : List UInt8} (h : Collected content p) (hOpt : q.sbOpt = p.sbOpt)
    (hLen : q.sbLen = p.sbLen) (hText : q.ttype = p.ttype) : Collected content q := by
  refine ⟨hLen ▸ h.len, hOpt ▸ h.opt, h.first, h.whole, ?_⟩
  rw [hText]
  exact h.text

/-- One byte, taken for what it is. -/
theorem Tracks.byte (h : Tracks state types p) (hLast : p.ttype 40 = 0)
    (hTaken : TakenRight state b) :
    Tracks (TelnetReceiver.next state b).1
      (types ++ (TelnetReceiver.next state b).2.filterMap typeOf) (telnetFilter p b).port := by
  have hFollows := (telnetFilter_follows h.follows b).1
  have hState := h.follows
  cases state with
  | data =>
      cases hp : p.iacState <;> simp only [hp, IacState.follows] at hState
      have hNone : openContent (TelnetReceiver.next .data b).1 = none := by
        simp only [TelnetReceiver.next]
        split_ifs <;> rfl
      refine h.outside (not_midText rfl) hFollows (fun content hContent => ?_) ?_
      · rw [hNone] at hContent
        cases hContent
      · unfold telnetFilter
        rw [hp]
        dsimp only
        split_ifs <;> rfl
  | iac =>
      cases hp : p.iacState <;> simp only [hp, IacState.follows] at hState
      by_cases hSb : b = telSB
      · subst hSb
        have hOpen : (telnetFilter p telSB).port =
            { p with sbLen := 0, sbOpt := 0, iacState := .inSB } := by
          rw [telnetFilter, hp]
          rfl
        refine h.outside (not_midText rfl) hFollows (fun content hContent => ?_) (by rw [hOpen])
        obtain rfl := Option.some.inj hContent
        rw [hOpen]
        exact ⟨rfl, by simp [keptBytes, lastBlock], by simp [keptBytes, lastBlock], by
          simp, by simp⟩
      · have hNone : openContent (TelnetReceiver.next .iac b).1 = none := by
          simp only [TelnetReceiver.next, receiver_codes, if_neg hSb]
          split_ifs <;> rfl
        refine h.outside (not_midText rfl) hFollows (fun content hContent => ?_) ?_
        · rw [hNone] at hContent
          cases hContent
        · unfold telnetFilter
          rw [hp]
          dsimp only
          split_ifs <;> rfl
  | option verb =>
      cases hp : p.iacState <;> simp only [hp, IacState.follows] at hState
      refine h.outside (not_midText rfl) hFollows (fun content hContent => ?_) ?_
      · cases hContent
      · obtain ⟨_, _, _, _, _, hPort⟩ := telnetHandleOption_renegotiates p p.iacCmd b
        unfold telnetFilter
        rw [hp]
        dsimp only
        rw [hPort]
  | sub content =>
      cases hp : p.iacState <;> simp only [hp, IacState.follows] at hState
      by_cases hIac : b = telIac
      · subst hIac
        have hPort : (telnetFilter p telIac).port = { p with iacState := .sbIac } := by
          rw [telnetFilter, hp]
          rfl
        rw [hPort]
        show Tracks (.subIac content) (types ++ []) _
        rw [List.append_nil]
        exact ⟨trivial, fun content' hContent => (h.sub content' hContent).congr rfl rfl rfl,
          h.shown⟩
      · have hPort : (telnetFilter p b).port = subnegotiationByte p b := by
          rw [telnetFilter, hp]
          exact congrArg Filtered.port (if_neg hIac)
        have hNext : TelnetReceiver.next (.sub content) b = (.sub (content ++ [b]), []) :=
          if_neg hIac
        rw [hNext, hPort] at hFollows
        rw [hNext, hPort]
        show Tracks (.sub (content ++ [b])) (types ++ []) _
        rw [List.append_nil]
        exact h.content hIac hTaken hFollows
  | subIac content =>
      cases hp : p.iacState <;> simp only [hp, IacState.follows] at hState
      have hCollected := h.sub content rfl
      by_cases hSe : b = telSE
      · subst hSe
        have hPort : (telnetFilter p telSE).port =
            { subnegotiationDone p with iacState := .normal } := by
          rw [telnetFilter, hp]
          rfl
        have hTypes : (TelnetReceiver.next (.subIac content) telSE).2.filterMap typeOf =
            (typeOf (.subnegotiation content)).toList := by
          show [TelnetReceiver.Item.subnegotiation content].filterMap typeOf = _
          cases hType : typeOf (.subnegotiation content) <;> simp [hType]
        rw [hPort, hTypes]
        exact h.finish hLast
      · have hPort : (telnetFilter p b).port = { p with iacState := .inSB } := by
          rw [telnetFilter, hp]
          exact congrArg Filtered.port (if_neg hSe)
        rw [hPort]
        by_cases hIac : b = telIac
        · subst hIac
          show Tracks (.sub (content ++ [telIac])) (types ++ []) _
          rw [List.append_nil]
          have hOther := hTaken rfl
          refine ⟨trivial, fun content' hContent => ?_, fun _ => h.shown fun hMid => ?_⟩
          · obtain rfl := Option.some.inj hContent
            exact (hCollected.escaped hOther).congr rfl rfl rfl
          · obtain ⟨cmd, c, text, hContent⟩ := hMid
            obtain rfl := Option.some.inj hContent
            simp at hOther
        · have hNext : TelnetReceiver.next (.subIac content) b = (.sub content, []) :=
            (if_neg hSe).trans (if_neg hIac)
          rw [hNext]
          show Tracks (.sub content) (types ++ []) _
          rw [List.append_nil]
          exact ⟨trivial, fun content' hContent => (h.sub content' hContent).congr rfl rfl rfl,
            h.shown⟩

/-- The receiver tracks a parser that did not move. -/
theorem Tracks.congr (h : Tracks state types p) (hSame : p.SameParser q) :
    Tracks state types q := by
  refine ⟨hSame.iacState ▸ h.follows, fun content hContent => ?_, hSame.ttype ▸ h.shown⟩
  exact (h.sub content hContent).congr hSame.sbOpt hSame.sbLen hSame.ttype

/-- A fresh parser is tracked by a fresh receiver. -/
theorem tracks_fresh (hNormal : p.iacState = .normal) (hEmpty : p.ttype 0 = 0) :
    Tracks .data [] p := by
  refine ⟨by rw [hNormal]; trivial, (fun content hContent => nomatch hContent), fun _ => ?_⟩
  exact ⟨[], List.mem_singleton_self _, (fun k hk => nomatch hk), hEmpty⟩

/-- A stream is undistorted if it was so before and its last byte was taken right. -/
theorem undistorted_append (h : Undistorted (l ++ [b])) :
    Undistorted l ∧ TakenRight (receive .data l).1 b :=
  ⟨fun front c hFront => h front c (hFront.trans (List.prefix_append l [b])),
    h l b (List.prefix_refl _)⟩

/-- A byte completes a terminal type or adds none. -/
theorem terminalTypes_append (l : List UInt8) (b : UInt8) : terminalTypes (l ++ [b]) =
    terminalTypes l ++ (TelnetReceiver.next (receive .data l).1 b).2.filterMap typeOf := by
  rw [terminalTypes, TelnetReceiver.receive_append, List.filterMap_append]
  simp [terminalTypes, receive]

/-- The parser of every port, in every run. -/
theorem Reached.tracks {past : Past} {c : Config} (h : Reached past c) (i : PortIdx)
    (hTaken : Undistorted (heard i past)) :
    Tracks (receive .data (heard i past)).1 (terminalTypes (heard i past)) (c.sys.ports i) := by
  suffices hBoth : (c.sys.ports i).ttype 40 = 0 ∧ (Undistorted (heard i past) →
      Tracks (receive .data (heard i past)).1 (terminalTypes (heard i past)) (c.sys.ports i)) from
    hBoth.2 hTaken
  refine h.parser (P := fun l p => p.ttype 40 = 0 ∧
    (Undistorted l → Tracks (receive .data l).1 (terminalTypes l) p)) i ?_ ?_ ?_ ?_
  · exact ⟨rfl, fun _ => tracks_fresh rfl rfl⟩
  · rintro l p q hSame ⟨hLast, hTracks⟩
    exact ⟨by rw [hSame.ttype]; exact hLast, fun hRight => (hTracks hRight).congr hSame⟩
  · rintro l p ⟨hLast, -⟩
    exact ⟨hLast, fun _ => tracks_fresh rfl rfl⟩
  · rintro l p b ⟨hLast, hTracks⟩
    refine ⟨telnetFilter_ttype_last hLast b, fun hRight => ?_⟩
    obtain ⟨hBefore, hByte⟩ := undistorted_append hRight
    rw [terminalTypes_append, TelnetReceiver.receive_append]
    simpa [receive] using (hTracks hBefore).byte hLast hByte

end Tracking

/-- The program has been told this string. -/
def TtypeReply.Says (r : TtypeReply) (text : List UInt8) : Prop :=
  r.ax.toNat = text.length ∧ (r.stored = text ++ [0] ∨ text = [] ∧ r.stored = [])

/-- A completed terminal type as a C string of at most 40 characters, in a buffer of this size. -/
def visibleText (text : List UInt8) (bufsz : UInt16) : List UInt8 :=
  ((text.take 40).takeWhile (· ≠ 0)).take (bufsz.toNat - 1)

/-- The terminal types completed on the current connection of the port. -/
def currentTypes (i : PortIdx) (past : Past) (c : Config) : List (List UInt8) :=
  if (c.sys.ports i).sock.isSome then terminalTypes (heard i past) else []

/-- The reply is the empty string or a terminal type of the current connection. -/
def RealType (i : PortIdx) (bufsz : UInt16) (past : Past) (c : Config) : Prop :=
  (portTtype i bufsz c.sys).Says [] ∨
    ∃ text ∈ currentTypes i past c, (portTtype i bufsz c.sys).Says (visibleText text bufsz)

/-- The caller is not in the middle of a terminal type and has sent nothing the parser mistakes;
after the call, it has sent no terminal type. -/
structure TypeSettled (i : PortIdx) (past : Past) (c : Config) : Prop where
  undistorted : Undistorted (heard i past)
  complete : ¬ MidText (receive .data (heard i past)).1
  ended : (c.sys.ports i).sock = none → ∀ text ∈ terminalTypes (heard i past), text = []

section Reply

variable {array : Nat → UInt8} {text : List UInt8}

/-- The copy stops at the zero, or when the caller's buffer is full. -/
theorem copyText_holds (h : CString.Holds array text) (room : Nat) :
    ∀ k ≤ text.length, copyText array room k = ((text.drop k).takeWhile (· ≠ 0)).take room := by
  induction room with
  | zero => exact fun k _ => rfl
  | succ room ih =>
      intro k hk
      rw [copyText]
      rcases Nat.lt_or_eq_of_le hk with hLt | rfl
      · rw [List.drop_eq_getElem_cons hLt, h.chars k hLt]
        by_cases hNul : text[k] = 0
        · rw [if_neg (not_not.mpr hNul), List.takeWhile_cons_of_neg (by simpa using hNul)]
          rfl
        · rw [if_pos hNul, List.takeWhile_cons_of_pos (by simpa using hNul), List.take_succ_cons,
            ih (k + 1) hLt]
      · rw [h.terminated, List.drop_length]
        rfl

/-- MUX_PORT_TTYPE says the text, cut to forty bytes and to the caller's buffer. -/
theorem portTtype_says {i : PortIdx} {s : Sys} (h : CString.Holds (s.ports i).ttype (text.take 40))
    (bufsz : UInt16) : (portTtype i bufsz s).Says (visibleText text bufsz) := by
  unfold portTtype
  by_cases hRoom : 0 < bufsz
  · have hSub : (bufsz - 1).toNat = bufsz.toNat - 1 :=
      UInt16.toNat_sub_of_le _ _
        (UInt16.le_iff_toNat_le.mpr (Nat.succ_le_of_lt (UInt16.lt_iff_toNat_lt.mp hRoom)))
    have hCopy : copyText (s.ports i).ttype (bufsz - 1).toNat 0 = visibleText text bufsz := by
      rw [copyText_holds h _ 0 (Nat.zero_le _), hSub]
      rfl
    rw [if_pos hRoom, hCopy]
    refine ⟨?_, .inl rfl⟩
    have hFit : (visibleText text bufsz).length < 2 ^ 16 := by
      have := bufsz.toNat_lt
      rw [visibleText, List.length_take]
      omega
    exact UInt16.toNat_ofNat_of_lt' hFit
  · have hNone : visibleText text bufsz = [] := by
      have hZero : bufsz.toNat = 0 := by
        by_contra hPos
        exact hRoom (UInt16.lt_iff_toNat_lt.mpr (Nat.pos_of_ne_zero hPos))
      rw [visibleText, hZero]
      rfl
    rw [if_neg hRoom, hNone]
    exact ⟨rfl, .inr ⟨rfl, rfl⟩⟩

end Reply

/-- In every run, a settled port shows the empty string or a terminal type that has been
completed on its current connection. -/
theorem terminal_type_real {past : Past} {c : Config} (h : Reached past c) (i : PortIdx)
    (hSettled : TypeSettled i past c) (bufsz : UInt16) : RealType i bufsz past c := by
  obtain ⟨text, hMem, hHolds⟩ := (h.tracks i hSettled.undistorted).shown hSettled.complete
  have hSays := portTtype_says hHolds bufsz
  have hNil : visibleText [] bufsz = [] := List.take_nil
  rcases List.mem_cons.mp hMem with rfl | hType
  · rw [hNil] at hSays
    exact .inl hSays
  · cases hSock : (c.sys.ports i).sock with
    | none =>
        obtain rfl := hSettled.ended hSock text hType
        rw [hNil] at hSays
        exact .inl hSays
    | some x =>
        refine .inr ⟨text, ?_, hSays⟩
        rw [currentTypes, if_pos (by rw [hSock]; rfl)]
        exact hType

/-- A caller says that its terminal is a VT100. -/
def vt100 : List UInt8 := [telIac, telSB, teloptTtype, 0] ++ bytes "VT100" ++ [telIac, telSE]

def vt100Received : List Move :=
  answeredCall ++ [.outside (.deliver 1 vt100), .call (.mux .poll) { received := 256 }]

theorem terminal_type_real_vt100 :
    ∃ (past : Past) (c : Config), Reached past c ∧ RealType 0 41 past c := by
  have hRecord : (record vt100Received ([], install [.listen 0 2323] true 0)).any (fun r =>
      decide (heard 0 r.1 = vt100) && (r.2.sys.ports 0).sock.isSome) = true := by decide +kernel
  obtain ⟨past, c, hReached, hp⟩ := exists_reached hRecord
  simp only [Bool.and_eq_true, decide_eq_true_eq] at hp
  obtain ⟨hHeard, hSock⟩ := hp
  refine ⟨past, c, hReached, terminal_type_real hReached 0 ⟨?_, ?_, fun hNone => ?_⟩ 41⟩
  · rw [hHeard]
    decide +kernel
  · rw [hHeard]
    exact not_midText (by decide)
  · rw [hNone] at hSock
    cases hSock

/-- The same caller names its terminal again and has come to the first letter. -/
def secondType : List Move :=
  vt100Received ++ [.outside (.deliver 1 [telIac, telSB, teloptTtype, 0, 0x41]),
    .call (.mux .poll) { received := 256 }]

/-- A program that asks now is told `AT100`. -/
theorem mixed_type_shown : ¬ ∀ past c, Reached past c → ∀ i bufsz, RealType i bufsz past c := by
  have hRecord : (record secondType ([], install [.listen 0 2323] true 0)).any (fun r =>
      decide (terminalTypes (heard 0 r.1) = [bytes "VT100"]) && (r.2.sys.ports 0).sock.isSome &&
        decide ((portTtype 0 41 r.2.sys).stored = bytes "AT100" ++ [0])) = true := by decide +kernel
  intro hAll
  obtain ⟨past, c, hReached, hp⟩ := exists_reached hRecord
  simp only [Bool.and_eq_true, decide_eq_true_eq] at hp
  obtain ⟨⟨hTypes, hSock⟩, hStored⟩ := hp
  have hOther : ∀ text, text ≠ bytes "AT100" → ¬ (portTtype 0 41 c.sys).Says text := by
    rintro text hText ⟨-, hSame | ⟨-, hNone⟩⟩
    · rw [hStored] at hSame
      exact hText (List.append_cancel_right hSame).symm
    · rw [hStored] at hNone
      cases List.append_eq_nil_iff.mp hNone |>.2
  rcases hAll past c hReached 0 41 with hEmpty | ⟨text, hMem, hSays⟩
  · exact hOther [] (by decide) hEmpty
  · rw [currentTypes, if_pos hSock, hTypes] at hMem
    obtain rfl := List.mem_singleton.mp hMem
    exact hOther _ (by decide) hSays

end Vmodem
