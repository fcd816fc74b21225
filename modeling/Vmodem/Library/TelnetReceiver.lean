import Mathlib.Data.List.Basic

/-! A telnet receiver after RFC 854 and RFC 855, and what it makes of a stream
put together from complete pieces. -/

namespace TelnetReceiver

def iac : UInt8 := 255
def sb : UInt8 := 250
def se : UInt8 := 240

/-- What a receiver reports. -/
inductive Item where
  | data (b : UInt8)
  | command (c : UInt8)
  | option (verb opt : UInt8)
  | subnegotiation (content : List UInt8)
  deriving DecidableEq, Repr

inductive State where
  | data
  | iac
  | option (verb : UInt8)
  | sub (content : List UInt8)
  | subIac (content : List UInt8)
  deriving DecidableEq, Repr

/-- One byte. Between IAC SB and IAC SE, an IAC is doubled; 251 to 254 are WILL,
WONT, DO and DONT. -/
def next : State → UInt8 → State × List Item
  | .data, b => if b = iac then (.iac, []) else (.data, [.data b])
  | .iac, b =>
      if b = iac then (.data, [.data b])
      else if b = sb then (.sub [], [])
      else if 251 ≤ b then (.option b, [])
      else (.data, [.command b])
  | .option verb, b => (.data, [.option verb b])
  | .sub content, b => if b = iac then (.subIac content, []) else (.sub (content ++ [b]), [])
  | .subIac content, b =>
      if b = se then (.data, [.subnegotiation content])
      else if b = iac then (.sub (content ++ [b]), [])
      else (.sub content, [])

def receive (state : State) : List UInt8 → State × List Item
  | [] => (state, [])
  | b :: bs =>
      ((receive (next state b).1 bs).1, (next state b).2 ++ (receive (next state b).1 bs).2)

/-- The receiver is between two items again after the bytes. -/
def Complete (bs : List UInt8) : Prop := (receive .data bs).1 = .data

/-- The items of complete bytes. -/
def items (bs : List UInt8) : List Item := (receive .data bs).2

instance (bs : List UInt8) : Decidable (Complete bs) :=
  inferInstanceAs (Decidable (_ = _))

/-- A data byte as it has to be sent. -/
def stuff (b : UInt8) : List UInt8 := if b = iac then [iac, iac] else [b]

variable {state : State} {bs : List UInt8}

/-- A stream in two parts is received part by part, the state carried across. -/
theorem receive_append (state : State) (front back : List UInt8) :
    receive state (front ++ back) =
      ((receive (receive state front).1 back).1,
        (receive state front).2 ++ (receive (receive state front).1 back).2) := by
  induction front generalizing state with
  | nil => rfl
  | cons b front ih => simp [receive, ih]

/-- A state without the content of the subnegotiation it is in. -/
def State.outline : State → State
  | .sub _ => .sub []
  | .subIac _ => .subIac []
  | state => state

/-- An item without the content of a subnegotiation. -/
def Item.outline : Item → Item
  | .subnegotiation _ => .subnegotiation []
  | item => item

theorem State.outline_outline (state : State) : state.outline.outline = state.outline := by
  cases state <;> rfl

/-- Between commands the receiver forgets nothing of interest: its outline says so too.
-/
theorem State.outline_eq_data : state.outline = .data ↔ state = .data := by
  cases state <;> simp [State.outline]

/-- What a receiver reports does not depend on the content it has collected, up to that
content. -/
theorem next_outline (state : State) (b : UInt8) :
    (next state.outline b).1.outline = (next state b).1.outline ∧
      (next state.outline b).2.map Item.outline = (next state b).2.map Item.outline := by
  cases state with
  | data | iac | option => exact ⟨rfl, rfl⟩
  | sub content =>
      by_cases hIac : b = iac <;> simp [next, State.outline, hIac]
  | subIac content =>
      by_cases hSe : b = se
      · simp [next, State.outline, Item.outline, hSe]
      · by_cases hIac : b = iac
        · subst hIac
          exact ⟨rfl, rfl⟩
        · simp [next, State.outline, hSe, hIac]

/-- Two receivers that differ only in what they have collected so far stay alike, state
and items. -/
theorem receive_congr {state' : State} (h : state.outline = state'.outline) (bs : List UInt8) :
    (receive state bs).1.outline = (receive state' bs).1.outline ∧
      (receive state bs).2.map Item.outline = (receive state' bs).2.map Item.outline := by
  induction bs generalizing state state' with
  | nil => exact ⟨h, rfl⟩
  | cons b bs ih =>
      obtain ⟨hState, hItems⟩ := next_outline state b
      obtain ⟨hState', hItems'⟩ := next_outline state' b
      rw [h] at hState hItems
      obtain ⟨hLast, hRest⟩ := ih (hState.symm.trans hState')
      refine ⟨hLast, ?_⟩
      rw [receive, receive, List.map_append, List.map_append, ← hItems, hItems', hRest]

/-- A stream of whole pieces leaves the receiver where it began. -/
theorem receive_of_complete (h : Complete bs) : receive .data bs = (.data, items bs) :=
  Prod.ext h rfl

/-- A stream of complete pieces is received piece by piece. -/
theorem receive_flatMap {Piece : Type*} {encode : Piece → List UInt8} {units : List Piece}
    (h : ∀ u ∈ units, Complete (encode u)) :
    receive .data (units.flatMap encode) = (.data, units.flatMap fun u => items (encode u)) := by
  induction units with
  | nil => rfl
  | cons u units ih =>
      have hRest := ih fun v hv => h v (by simp [hv])
      have hFirst := receive_of_complete (h u (by simp))
      simp [receive_append, hFirst, hRest]

/-- A stuffed byte, doubled if it is IAC, is received as one data byte. -/
theorem receive_stuff (b : UInt8) : receive .data (stuff b) = (.data, [.data b]) := by
  unfold stuff
  by_cases hb : b = iac
  · subst hb
    rfl
  · rw [if_neg hb]
    simp [receive, next, hb]

/-- A stuffed byte is a whole piece of a stream. -/
theorem complete_stuff (b : UInt8) : Complete (stuff b) := by
  rw [Complete, receive_stuff]

theorem items_stuff (b : UInt8) : items (stuff b) = [.data b] := by
  rw [items, receive_stuff]

/-- A negotiation is complete whatever option it is about. -/
theorem complete_option {verb : UInt8} (h : 251 ≤ verb) (hIac : verb ≠ iac) (opt : UInt8) :
    Complete [iac, verb, opt] := by
  have hSb : verb ≠ sb := by
    rintro rfl
    exact absurd h (by decide)
  simp [Complete, receive, next, hIac, hSb, h]

/-- A whole element of a telnet stream. Above SB lie only the four option verbs
and IAC itself. -/
inductive Piece where
  | data (b : UInt8)
  | command (c : UInt8) (h : c < sb)
  | option (verb opt : UInt8) (h : 251 ≤ verb) (hIac : verb ≠ iac)
  | subnegotiation (content : List UInt8)

namespace Piece

def encode : Piece → List UInt8
  | data b => stuff b
  | command c _ => [iac, c]
  | option verb opt _ _ => [iac, verb, opt]
  | subnegotiation content => [iac, sb] ++ content.flatMap stuff ++ [iac, se]

def item : Piece → Item
  | data b => .data b
  | command c _ => .command c
  | option verb opt _ _ => .option verb opt
  | subnegotiation content => .subnegotiation content

end Piece

/-- The data bytes among the reported items. -/
def dataBytes (reported : List Item) : List UInt8 :=
  reported.filterMap fun
    | .data b => some b
    | _ => none

/-- Inside a subnegotiation stuffed bytes are collected as the bytes they stand for. -/
theorem receive_content (content rest : List UInt8) :
    receive (.sub content) (rest.flatMap stuff) = (.sub (content ++ rest), []) := by
  induction rest generalizing content with
  | nil => simp [receive]
  | cons b rest ih =>
      have hByte : receive (.sub content) (stuff b) = (.sub (content ++ [b]), []) := by
        unfold stuff
        by_cases hb : b = iac
        · subst hb
          rfl
        · rw [if_neg hb]
          simp [receive, next, hb]
      rw [List.flatMap_cons, receive_append, hByte, ih]
      simp

/-- A receiver between two items takes an element for what it is. -/
theorem receive_piece (u : Piece) : receive .data u.encode = (.data, [u.item]) := by
  cases u with
  | data b => exact receive_stuff b
  | command c h =>
      have hIac : c ≠ iac := by
        rintro rfl
        exact absurd h (by decide)
      have hVerb : ¬ 251 ≤ c := UInt8.not_le.mpr (UInt8.lt_trans h (by decide))
      have hSb : c ≠ sb := UInt8.ne_of_lt h
      simp [Piece.encode, Piece.item, receive, next, hIac, hSb, hVerb]
  | option verb opt h hIac =>
      have hSb : verb ≠ sb := by
        rintro rfl
        exact absurd h (by decide)
      simp [Piece.encode, Piece.item, receive, next, hIac, hSb, h]
  | subnegotiation content =>
      have hOpen : receive .data [iac, sb] = (.sub [], []) := rfl
      have hClose : receive (.sub content) [iac, se] = (.data, [.subnegotiation content]) := rfl
      rw [Piece.encode, receive_append, receive_append, hOpen, receive_content,
        List.nil_append, hClose]
      rfl

/-- A stream encoded piece by piece is received as those pieces. -/
theorem receive_pieces (us : List Piece) :
    receive .data (us.flatMap Piece.encode) = (.data, us.map Piece.item) := by
  induction us with
  | nil => rfl
  | cons u us ih =>
      rw [List.flatMap_cons, receive_append, receive_piece, ih]
      rfl

end TelnetReceiver
