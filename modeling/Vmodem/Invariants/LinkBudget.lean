import Vmodem.Invariants.Negotiation
import Vmodem.Library.Accounting
import Vmodem.Library.Potential

/-! What two endpoints can still say to each other. A DO or WILL in flight counts twice,
for itself and for the refusal it may be answered with; every flag that is still clear
stands for one more DO or WILL. -/

namespace Vmodem

open TelnetReceiver (Item receive items Complete)

def weight : Item → Nat
  | .option verb _ => if verb = telDo ∨ verb = telWill then 2 else 1
  | .subnegotiation _ => 1
  | _ => 0

def load (reported : List Item) : Nat := (reported.map weight).sum

/-- The options that have not been agreed to yet. -/
def PortState.budget (p : PortState) : Nat := negotiatedOptions.countP fun o => !p.agreed o

section Messages

variable {p : PortState} {verb opt : UInt8} {flags flags' : UInt8 → Bool}
  {reply : Option (List UInt8)}

/-- The load of two lists of items is the sum of their loads. -/
@[simp] theorem load_append (front back : List Item) :
    load (front ++ back) = load front + load back := by
  simp [load]

/-- The load of an item is that of its outline: contents do not count. -/
theorem load_outline (reported : List Item) : load (reported.map Item.outline) = load reported := by
  have hWeight : weight ∘ Item.outline = weight := by
    funext item
    cases item <;> rfl
  rw [load, List.map_map, hWeight, load]

theorem items_response (h : verb ∈ [telWill, telWont, telDo, telDont]) :
    items (response verb opt) = [.option verb opt] := by
  have hVerb : 251 ≤ verb ∧ verb ≠ TelnetReceiver.iac := by
    simp only [List.mem_cons, List.not_mem_nil, or_false] at h
    rcases h with rfl | rfl | rfl | rfl <;> decide
  exact congrArg Prod.snd (TelnetReceiver.receive_piece (.option verb opt hVerb.1 hVerb.2))

/-- What is sent to agree to an option weighs two at most. -/
theorem load_agreement_le (verb opt : UInt8) : load (items (agreement verb opt)) ≤ 2 := by
  unfold agreement
  split_ifs
  · rw [items_response (by simp)]
    exact Nat.le_refl 2
  · decide
  · rw [items_response (by simp)]
    exact Nat.le_refl 2

theorem load_refusal (verb opt : UInt8) : load (items (refusal verb opt)) = 1 := by
  unfold refusal
  split_ifs <;> rw [items_response (by simp)] <;> rfl

/-- A reply and what may follow from it are paid by the command and the flag it set. -/
theorem Handled.paid (h : Handled verb opt flags flags' reply) :
    reply.toList.length + load (items reply.toList.flatten) +
        2 * (negotiatedOptions.countP fun o => !flags' o) ≤
      weight (.option verb opt) + 2 * negotiatedOptions.countP fun o => !flags o := by
  cases h with
  | agrees hVerb hOpt hBefore =>
      have hBudget := Accounting.countP_update (by decide) hOpt hBefore
      have hLoad := load_agreement_le verb opt
      simp only [weight, if_pos hVerb, Option.toList_some, List.length_singleton,
        List.flatten_singleton]
      omega
  | refuses hVerb =>
      have hLoad := load_refusal verb opt
      simp only [weight, if_pos hVerb, Option.toList_some, List.length_singleton,
        List.flatten_singleton]
      omega
  | ignores => simp [load, items, receive]

/-- A reply is at most two messages of three bytes. -/
theorem Handled.length_le (h : Handled verb opt flags flags' reply) {buf : List UInt8}
    (hReply : reply = some buf) : buf.length ≤ 6 := by
  cases h with
  | agrees =>
      obtain rfl := Option.some.inj hReply
      unfold agreement
      split_ifs <;> simp [response, ttypeRequest]
  | refuses =>
      obtain rfl := Option.some.inj hReply
      unfold refusal
      split_ifs <;> simp [response]
  | ignores => cases hReply

end Messages

/-- The port as `telnet_filter` will see it. -/
def Endpoint.live (e : Endpoint) : PortState := if e.connected then e.port else telnetReset e.port

/-- What a receiver will report of the bytes in flight. -/
def Endpoint.inFlight (e : Endpoint) : List Item := (receive e.live.receiver e.inbound).2

/-- The bytes in flight end between two items. -/
def Endpoint.Synced (e : Endpoint) : Prop := (receive e.live.receiver e.inbound).1 = .data

/-- Everything that can still come of the endpoint and of what is on its way to it. -/
def Endpoint.demand (e : Endpoint) : Nat :=
  load e.inFlight + 2 * e.live.budget + if e.connected then 0 else 21

section Arrivals

variable {e : Endpoint} {buf : List UInt8}

/-- Complete bytes join those in flight. -/
theorem Endpoint.Synced.more (h : e.Synced) (hBuf : Complete buf) :
    Endpoint.Synced { e with inbound := e.inbound ++ buf } ∧
      Endpoint.demand { e with inbound := e.inbound ++ buf } = e.demand + load (items buf) := by
  have hAll : receive e.live.receiver (e.inbound ++ buf) = (.data, e.inFlight ++ items buf) := by
    rw [TelnetReceiver.receive_append, h, TelnetReceiver.receive_of_complete hBuf]
    rfl
  refine ⟨congrArg Prod.fst hAll, ?_⟩
  have hLoad : load (Endpoint.inFlight { e with inbound := e.inbound ++ buf }) =
      load e.inFlight + load (items buf) :=
    (congrArg (fun r => load r.2) hAll).trans (load_append _ _)
  show load _ + 2 * e.live.budget + (if e.connected then 0 else 21) = _
  rw [hLoad, Endpoint.demand]
  omega

/-- One byte of those in flight is filtered. -/
theorem Endpoint.Synced.filter {b : UInt8} {rest : List UInt8} {said : List (List UInt8)}
    (h : e.Synced) (hConnected : e.connected) (hInbound : e.inbound = b :: rest) :
    Endpoint.Synced { e with port := (telnetFilter e.port b).port, inbound := rest, said := said } ∧
      (telnetFilter e.port b).reply.toList.length +
          load (items (telnetFilter e.port b).reply.toList.flatten) +
          Endpoint.demand
            { e with port := (telnetFilter e.port b).port, inbound := rest, said := said } ≤
        e.demand := by
  generalize hFiltered : telnetFilter e.port b = f
  have hLive : e.live = e.port := if_pos hConnected
  have hNext : Endpoint.live { e with port := f.port, inbound := rest, said := said } = f.port :=
    if_pos hConnected
  unfold Endpoint.Synced Endpoint.demand Endpoint.inFlight at *
  rw [hLive, hInbound] at h ⊢
  rw [hNext]
  dsimp only
  cases hFiltered ▸ telnetFilter_negotiates e.port b with
  | option verb hReceiver hState hHandled =>
      have hAll : receive e.port.receiver (b :: rest) =
          ((receive .data rest).1, [.option verb b] ++ (receive .data rest).2) := by
        rw [hReceiver]
        rfl
      have hPaid := hHandled.paid
      rw [hAll] at h ⊢
      refine ⟨by rw [hState]; exact h, ?_⟩
      have hOne : load [Item.option verb b] = weight (.option verb b) := by simp [load]
      rw [load_append, hOne, hState]
      unfold PortState.budget
      omega
  | other state items hItem hState _ hFlags hReply =>
      have hAll : receive e.port.receiver (b :: rest) =
          ((receive state rest).1, items ++ (receive state rest).2) := by
        rw [receive, hItem]
      have hOutline : f.port.receiver.outline = state.outline := by
        rw [hState, TelnetReceiver.State.outline_outline]
      obtain ⟨hLast, hRest⟩ := TelnetReceiver.receive_congr hOutline rest
      have hLoad := congrArg load hRest
      rw [load_outline, load_outline] at hLoad
      rw [hAll] at h ⊢
      refine ⟨?_, ?_⟩
      · rw [← TelnetReceiver.State.outline_eq_data, hLast]
        exact TelnetReceiver.State.outline_eq_data.mpr h
      · rw [load_append, hLoad, hReply]
        unfold PortState.budget
        rw [hFlags]
        simp [load, TelnetReceiver.items, receive]

/-- Replies are complete and short. -/
theorem telnetFilter_complete (p : PortState) (b : UInt8) :
    Complete (telnetFilter p b).reply.toList.flatten := by
  cases hReply : (telnetFilter p b).reply with
  | none => decide
  | some buf => simpa using (telnetFilter_reply hReply).complete

/-- So a byte makes the parser send six bytes at most. -/
theorem telnetFilter_reply_length (p : PortState) (b : UInt8) :
    (telnetFilter p b).reply.toList.flatten.length ≤
      6 * (telnetFilter p b).reply.toList.length := by
  cases telnetFilter_negotiates p b with
  | option verb _ _ hHandled =>
      cases hReply : (telnetFilter p b).reply with
      | none => simp
      | some buf => simpa using hHandled.length_le hReply
  | other _ _ _ _ _ _ hReply => simp [hReply]

end Arrivals

namespace Link

/-- The sum over both endpoints. -/
def total (f : Endpoint → Nat) (l : Link) : Nat := f (l .caller) + f (l .host)

/-- The negotiation messages sent so far. -/
def messages (l : Link) : Nat := l.total fun e => e.said.length

def demand (l : Link) : Nat := l.total Endpoint.demand

def bytes (l : Link) : Nat := l.total fun e => e.inbound.length

def Synced (l : Link) : Prop := ∀ side, (l side).Synced

/-- `n` bytes are on their way no longer, and every message sent is paid for. -/
def Advances (n : Nat) (l l' : Link) : Prop :=
  ∃ m, l'.messages = l.messages + m ∧ l'.demand + m ≤ l.demand ∧ l'.bytes + n ≤ l.bytes + 6 * m

section Steps

variable {side : Side} {l l' l'' : Link} {here there : Endpoint} {f : Endpoint → Nat}

theorem total_eq (side : Side) : l.total f = f (l side) + f (l side.other) := by
  cases side with
  | caller => rfl
  | host => exact Nat.add_comm _ _

@[simp] theorem place_self : place side here there side = here := if_pos rfl

@[simp] theorem place_other : place side here there side.other = there :=
  if_neg (by cases side <;> decide)

/-- The sum over a link put together from its two endpoints. -/
theorem total_place : (place side here there).total f = f here + f there := by
  rw [total_eq side, place_self, place_other]

theorem Synced.place (hHere : here.Synced) (hThere : there.Synced) :
    (place side here there).Synced := by
  intro t
  unfold Link.place
  split_ifs
  · exact hHere
  · exact hThere

/-- Two advances make one: bytes on the way add up and so do the messages paid for. -/
theorem Advances.trans {m n : Nat} (first : Advances m l l') (second : Advances n l' l'') :
    Advances (m + n) l l'' := by
  obtain ⟨k, hMessages, hDemand, hBytes⟩ := first
  obtain ⟨k', hMessages', hDemand', hBytes'⟩ := second
  exact ⟨k + k', by omega, by omega, by omega⟩

/-- Delivering a byte shortens the queue of its receiver by that byte. -/
theorem deliverByte_self (side : Side) (l : Link) :
    ((deliverByte side l) side).connected = (l side).connected ∧
      ((deliverByte side l) side).inbound = (l side).inbound.tail := by
  unfold deliverByte
  cases hInbound : (l side).inbound with
  | nil => exact ⟨rfl, hInbound⟩
  | cons b rest =>
      dsimp only
      rw [place_self]
      exact ⟨rfl, rfl⟩

/-- A delivered byte is on its way no longer, and what its receiver says in answer was
paid for before. -/
theorem deliverByte_advances (hSynced : l.Synced) (hConnected : (l side).connected)
    (hBytes : (l side).inbound ≠ []) :
    (deliverByte side l).Synced ∧ Advances 1 l (deliverByte side l) := by
  obtain ⟨b, rest, hInbound⟩ := List.exists_cons_of_ne_nil hBytes
  have hFilter := @Endpoint.Synced.filter _ b rest
    ((l side).said ++ (telnetFilter (l side).port b).reply.toList) (hSynced side)
      hConnected hInbound
  have hMore := (hSynced side.other).more (telnetFilter_complete (l side).port b)
  have hLength := telnetFilter_reply_length (l side).port b
  unfold deliverByte
  rw [hInbound]
  dsimp only
  generalize telnetFilter (l side).port b = f at hFilter hMore hLength ⊢
  refine ⟨.place hFilter.1 hMore.1, f.reply.toList.length, ?_, ?_, ?_⟩
  · rw [messages, messages, total_place, total_eq side]
    simp only [List.length_append]
    omega
  · have hSpent := hFilter.2
    rw [demand, demand, total_place, total_eq side, hMore.2]
    omega
  · rw [bytes, bytes, total_place, total_eq side, hInbound]
    simp only [List.length_append, List.length_cons]
    omega

theorem Advances.refl (l : Link) : Advances 0 l l := ⟨0, rfl, Nat.le_refl _, Nat.le_refl _⟩

/-- A chunk, byte by byte. -/
theorem deliver_advances (n : Nat) (hSynced : l.Synced) (hConnected : (l side).connected)
    (hBytes : n ≤ (l side).inbound.length) :
    ((deliverByte side)^[n] l).Synced ∧ Advances n l ((deliverByte side)^[n] l) := by
  induction n generalizing l with
  | zero => exact ⟨hSynced, .refl l⟩
  | succ n ih =>
      have hSome : (l side).inbound ≠ [] := List.ne_nil_of_length_pos (by omega)
      obtain ⟨hNext, hFirst⟩ := deliverByte_advances hSynced hConnected hSome
      obtain ⟨hSame, hTail⟩ := deliverByte_self side l
      have hLeft : n ≤ ((deliverByte side l) side).inbound.length := by
        rw [hTail, List.length_tail]
        omega
      obtain ⟨hLast, hRest⟩ := ih hNext (hSame.trans hConnected) hLeft
      rw [Function.iterate_succ_apply]
      refine ⟨hLast, ?_⟩
      rw [Nat.add_comm]
      exact hFirst.trans hRest

/-- The offers of `telnet_on_connect` are paid from what the endpoint held back for them. -/
theorem connect_advances (hSynced : l.Synced) (hNew : (l side).connected = false) :
    (connect side l).Synced ∧ Advances 1 l (connect side l) := by
  have hOffers : Complete (connectOffers ++ connectRequests) := by decide
  have hMore := (hSynced side.other).more hOffers
  have hLoad : load (items (connectOffers ++ connectRequests)) = 14 := by decide
  have hLive : (l side).live = telnetReset (l side).port := by simp [Endpoint.live, hNew]
  refine ⟨.place ?_ hMore.1, 7, ?_, ?_, ?_⟩
  · have hHere := hSynced side
    unfold Endpoint.Synced at hHere ⊢
    rw [hLive] at hHere
    exact hHere
  · unfold connect
    rw [messages, messages, total_place, total_eq side]
    simp only [List.length_append]
    have hSeven : connectMessages.length = 7 := rfl
    omega
  · unfold connect
    rw [demand, demand, total_place, total_eq side, hMore.2, hLoad]
    have hBefore : (l side).demand =
        load (receive (telnetReset (l side).port).receiver (l side).inbound).2 +
          2 * (telnetReset (l side).port).budget + 21 := by
      simp [Endpoint.demand, Endpoint.inFlight, hLive, hNew]
    have hAfter : Endpoint.demand { l side with
        port := telnetReset (l side).port, connected := true,
        said := (l side).said ++ connectMessages } =
        load (receive (telnetReset (l side).port).receiver (l side).inbound).2 +
          2 * (telnetReset (l side).port).budget := rfl
    omega
  · unfold connect
    rw [bytes, bytes, total_place, total_eq side]
    simp only [List.length_append]
    have hLengths : connectOffers.length = 15 ∧ connectRequests.length = 6 := ⟨rfl, rfl⟩
    omega

end Steps

end Link

end Vmodem
