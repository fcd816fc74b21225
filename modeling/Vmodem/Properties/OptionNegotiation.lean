import Vmodem.Invariants.LinkBudget
import Vmodem.Properties.TelnetFilter

/-! Option negotiation comes to an end. On one endpoint every option is agreed to at most
once and only a DO or WILL is answered; between two endpoints the messages in flight and
the clear flags pay for everything that is still to be said. -/

namespace Vmodem

open TelnetReceiver (Item receive items Complete)
open Transition (Run Path Stuck Spends)

/-- A WILL or DO for the option, or the request for the terminal type. -/
def agreesTo (opt : UInt8) (buf : List UInt8) : Bool :=
  buf = response telWill opt ∨ buf = response telDo opt ∨ opt = teloptTtype ∧ buf = ttypeRequest

section Stream

variable {p : PortState} {verb opt : UInt8} {flags flags' : UInt8 → Bool}
  {reply : Option (List UInt8)}

theorem response_inj {verb' opt' : UInt8} :
    response verb opt = response verb' opt' ↔ verb = verb' ∧ opt = opt' := by
  simp [response]

/-- No response is the request for a terminal type. -/
theorem response_ne_request : response verb opt ≠ ttypeRequest := by
  simp [response, ttypeRequest]

/-- A response agrees to its own option, by WILL or DO. -/
theorem agreesTo_response {o : UInt8} (h : agreesTo o (response verb opt)) :
    (verb = telWill ∨ verb = telDo) ∧ o = opt := by
  obtain hWill | hDo | ⟨_, hRequest⟩ := of_decide_eq_true h
  · obtain ⟨rfl, rfl⟩ := response_inj.mp hWill
    exact ⟨.inl rfl, rfl⟩
  · obtain ⟨rfl, rfl⟩ := response_inj.mp hDo
    exact ⟨.inr rfl, rfl⟩
  · exact absurd hRequest response_ne_request

/-- What is sent to agree agrees to that option. -/
theorem agreesTo_agreement {o : UInt8} (h : agreesTo o (agreement verb opt)) : o = opt := by
  unfold agreement at h
  split_ifs at h with hDo hTtype
  · exact (agreesTo_response h).2
  · obtain hWill | hAsk | ⟨rfl, _⟩ := of_decide_eq_true h
    · exact absurd hWill.symm response_ne_request
    · exact absurd hAsk.symm response_ne_request
    · exact hTtype.symm
  · exact (agreesTo_response h).2

theorem not_agreesTo_refusal (o : UInt8) : agreesTo o (refusal verb opt) = false := by
  rw [Bool.eq_false_iff]
  intro h
  unfold refusal at h
  split_ifs at h
  · exact absurd (agreesTo_response h).1 (by decide)
  · exact absurd (agreesTo_response h).1 (by decide)

/-- An agreement sets its flag, which was clear. -/
theorem Handled.once (h : Handled verb opt flags flags' reply) (o : UInt8) :
    reply.toList.countP (agreesTo o) + (flags o).toNat ≤ (flags' o).toNat := by
  cases h with
  | agrees _ _ hBefore =>
      by_cases ho : o = opt
      · subst ho
        have hOne : (some (agreement verb o)).toList.countP (agreesTo o) ≤ 1 :=
          List.countP_le_length
        rw [hBefore, Function.update_self]
        exact hOne
      · have hNone : agreesTo o (agreement verb opt) = false := by
          rw [Bool.eq_false_iff]
          exact fun hAgrees => ho (agreesTo_agreement hAgrees)
        rw [Function.update_of_ne ho]
        simp [hNone]
  | refuses => simp [not_agreesTo_refusal]
  | ignores => simp

/-- A byte makes the parser agree to an option at most once, and sets the flag with it.
-/
theorem telnetFilter_once (p : PortState) (b o : UInt8) :
    (telnetFilter p b).reply.toList.countP (agreesTo o) + (p.agreed o).toNat ≤
      ((telnetFilter p b).port.agreed o).toNat := by
  cases telnetFilter_negotiates p b with
  | option verb _ _ hHandled => exact hHandled.once o
  | other _ _ _ _ _ hFlags hReply => simp [hFlags, hReply]

/-- So a whole stream does. The induction is on the stream. -/
theorem telnetReplies_once (bs : List UInt8) (o : UInt8) :
    (telnetReplies p bs).countP (agreesTo o) + (p.agreed o).toNat ≤ 1 := by
  induction bs generalizing p with
  | nil =>
      rw [telnetReplies, List.countP_nil, Nat.zero_add]
      exact Bool.toNat_le _
  | cons b bs ih =>
      have hByte := telnetFilter_once p b o
      have hRest := ih (p := (telnetFilter p b).port)
      rw [telnetReplies, List.countP_append]
      omega

/-- The parser is where a receiver of the same bytes is. -/
theorem telnetFilterAll_receiver {state : TelnetReceiver.State} (bs : List UInt8)
    (h : p.receiver = state.outline) :
    (telnetFilterAll p bs).1.receiver = (receive state bs).1.outline := by
  induction bs generalizing p state with
  | nil => exact h
  | cons b bs ih =>
      apply ih
      have hOutline := (TelnetReceiver.next_outline state b).1
      rw [← h] at hOutline
      rw [← hOutline]
      cases telnetFilter_negotiates p b with
      | option verb hReceiver hState _ =>
          rw [hState, hReceiver]
          rfl
      | other _ _ hNext hState _ _ _ => rw [hState, hNext]

/-- A reply answers the DO or WILL that the byte completes. -/
theorem answers_command {pre : List UInt8} {b : UInt8} {buf : List UInt8}
    (hReply : (telnetFilter (telnetFilterAll (telnetReset p) pre).1 b).reply = some buf) :
    ∃ verb, (verb = telDo ∨ verb = telWill) ∧
      (receive .data (pre ++ [b])).2 = (receive .data pre).2 ++ [.option verb b] ∧
      (buf = agreement verb b ∨ buf = refusal verb b) := by
  have hSame := @telnetFilterAll_receiver (telnetReset p) .data pre rfl
  cases telnetFilter_negotiates (telnetFilterAll (telnetReset p) pre).1 b with
  | option verb hReceiver _ hHandled =>
      have hState : (receive .data pre).1 = .option verb := by
        rw [hReceiver] at hSame
        cases hHere : (receive .data pre).1 with
        | option verb' =>
            rw [hHere] at hSame
            exact hSame.symm
        | _ =>
            rw [hHere] at hSame
            cases hSame
      refine ⟨verb, ?_⟩
      rw [TelnetReceiver.receive_append, hState]
      rw [hReply] at hHandled
      generalize (telnetFilter (telnetFilterAll (telnetReset p) pre).1 b).port.agreed = flags
        at hHandled
      cases hHandled with
      | agrees hVerb => exact ⟨hVerb, rfl, .inl rfl⟩
      | refuses hVerb => exact ⟨hVerb, rfl, .inr rfl⟩
  | other _ _ _ _ _ _ hNone => rw [hNone] at hReply; cases hReply

end Stream

namespace Link

/-- Nothing is in flight between two endpoints that have both made their offers. -/
def Quiet (l : Link) : Prop :=
  ∀ side, (l side).connected ∧ (l side).inbound = [] ∧ (l side).port.iacState = .normal

/-- Every action but a write of the application. -/
def settles : Action → Bool
  | .write _ _ => false
  | _ => true

section Runs

variable {l l' : Link} {act : Action}

theorem write_keeps {side : Side} (bs : List TxByte) (hSynced : l.Synced) :
    (write side bs l).Synced ∧ (write side bs l).messages = l.messages ∧
      (write side bs l).demand = l.demand := by
  have hPieces := TelnetReceiver.receive_pieces (bs.map fun b => TelnetReceiver.Piece.data b.val)
  rw [← escape_pieces] at hPieces
  have hComplete : Complete ((bs.flatMap escape).map WireByte.val) := congrArg Prod.fst hPieces
  have hLoad : load (items ((bs.flatMap escape).map WireByte.val)) = 0 := by
    rw [items, hPieces]
    simp [load, weight, TelnetReceiver.Piece.item, Function.comp_def]
  have hMore := (hSynced side.other).more hComplete
  refine ⟨.place (hSynced side) hMore.1, ?_, ?_⟩
  · unfold write
    rw [messages, messages, total_place, total_eq side]
  · unfold write
    rw [demand, demand, total_place, total_eq side, hMore.2, hLoad]
    rfl

/-- What a step says is paid for. -/
theorem step_paid (hSynced : l.Synced) (h : step act l = some l') :
    l'.Synced ∧ l'.messages + l'.demand ≤ l.messages + l.demand ∧
      (settles act → l'.bytes + 6 * l'.demand < l.bytes + 6 * l.demand) := by
  cases act with
  | connect side =>
      unfold step at h
      dsimp only at h
      split_ifs at h with hConnected
      obtain rfl := Option.some.inj h
      obtain ⟨hNext, m, hMessages, hDemand, hBytes⟩ :=
        connect_advances hSynced (by simpa using hConnected)
      exact ⟨hNext, by omega, fun _ => by omega⟩
  | deliver side n =>
      unfold step at h
      dsimp only at h
      split_ifs at h with hEnabled
      obtain ⟨hConnected, hPositive, hLength⟩ := hEnabled
      obtain rfl := Option.some.inj h
      obtain ⟨hNext, m, hMessages, hDemand, hBytes⟩ := deliver_advances n hSynced hConnected hLength
      exact ⟨hNext, by omega, fun _ => by omega⟩
  | write side bs =>
      unfold step at h
      dsimp only at h
      split_ifs at h with hConnected
      obtain rfl := Option.some.inj h
      obtain ⟨hNext, hMessages, hDemand⟩ := @write_keeps l side bs hSynced
      exact ⟨hNext, by omega, fun hSettles => nomatch hSettles⟩

/-- Connecting and delivering use up the bytes and the demand. -/
theorem spends : Spends step (fun _ act => settles act) Synced fun l => l.bytes + 6 * l.demand := by
  intro l act l' hSynced hSettles hStep
  obtain ⟨hNext, _, hLess⟩ := step_paid hSynced hStep
  exact ⟨hNext, hLess hSettles⟩

/-- Where neither endpoint can connect or be handed a byte, nothing is in flight. -/
theorem Synced.quiet (hSynced : l.Synced) (h : Stuck step (fun _ act => settles act) l) :
    l.Quiet := by
  intro side
  have hConnected : (l side).connected := by
    have hStep := h (.connect side) rfl
    unfold step at hStep
    dsimp only at hStep
    split_ifs at hStep with hConnected
    exact hConnected
  have hEmpty : (l side).inbound = [] := by
    by_contra hSome
    have hStep := h (.deliver side 1) rfl
    have hLength := List.length_pos_of_ne_nil hSome
    unfold step at hStep
    dsimp only at hStep
    rw [if_pos ⟨hConnected, Nat.one_pos, hLength⟩] at hStep
    cases hStep
  refine ⟨hConnected, hEmpty, ?_⟩
  have hHere := hSynced side
  rw [Endpoint.Synced, Endpoint.live, if_pos hConnected, hEmpty, receive, PortState.receiver]
    at hHere
  cases hState : (l side).port.iacState with
  | normal => rfl
  | _ =>
      rw [hState] at hHere
      cases hHere

theorem start_synced (port : Side → PortState) : (start port).Synced := fun _ => rfl

/-- In every run from the start, at most 62 messages. -/
theorem reached {port : Side → PortState} (run : Run step (fun _ _ => True) (start port) l) :
    l.Synced ∧ l.messages + l.demand ≤ 62 := by
  have hStart : (start port).Synced ∧ (start port).messages + (start port).demand ≤ 62 :=
    ⟨start_synced port, Nat.le_refl 62⟩
  apply run.invariant hStart
  rintro l act l' ⟨hSynced, hBound⟩ _ hStep
  obtain ⟨hNext, hPaid, _⟩ := step_paid hSynced hStep
  exact ⟨hNext, hPaid.trans hBound⟩

end Runs

end Link

/-- On one connection every option is agreed to at most once and a reply answers the DO or
WILL just received. Two endpoints never send more than 62 messages between them, whatever
their applications write in between; when they only connect and receive, in any order and
any chunks, they stop after boundedly many steps, and stop where nothing is in flight. -/
theorem option_negotiation :
    (∀ (p : PortState) (bs : List UInt8) (opt : UInt8),
      (telnetReplies (telnetReset p) bs).countP (agreesTo opt) ≤ 1) ∧
    (∀ (p : PortState) (pre : List UInt8) (b : UInt8) (buf : List UInt8),
      (telnetFilter (telnetFilterAll (telnetReset p) pre).1 b).reply = some buf →
      ∃ verb, (verb = telDo ∨ verb = telWill) ∧
        (receive .data (pre ++ [b])).2 = (receive .data pre).2 ++ [.option verb b] ∧
        (buf = agreement verb b ∨ buf = refusal verb b)) ∧
    ∀ (port : Side → PortState) (l : Link), Run Link.step (fun _ _ => True) (Link.start port) l →
      l.messages ≤ 62 ∧
      (∀ past l', Path Link.step l past l' → (∀ st ∈ past, Link.settles st.2) →
        past.length ≤ l.bytes + 6 * 62 ∧
          (Stuck Link.step (fun _ act => Link.settles act) l' → l'.Quiet)) ∧
      ∃ l', Run Link.step (fun _ act => Link.settles act) l l' ∧ l'.Quiet := by
  refine ⟨fun p bs opt => ?_, fun p pre b buf hReply => answers_command hReply,
    fun port l hRun => ?_⟩
  · have hOnce := telnetReplies_once (p := telnetReset p) bs opt
    omega
  · obtain ⟨hSynced, hBound⟩ := Link.reached hRun
    refine ⟨by omega, fun past l' hPath hSettles => ?_, ?_⟩
    · obtain ⟨hLast, hLength⟩ := hPath.length_add_potential_le Link.spends hSynced hSettles
      exact ⟨by omega, hLast.quiet⟩
    · obtain ⟨l', hRest, hStuck⟩ := Transition.exists_stuck Link.spends hSynced
      have hLast : l'.Synced := hRest.invariant hSynced
        fun _ _ _ hHere _ hStep => (Link.step_paid hHere hStep).1
      exact ⟨l', hRest, hLast.quiet hStuck⟩

/-- Both endpoints make their offers; a lone DO BINARY is agreed to. -/
theorem option_negotiation_offers :
    (telnetFilter (telnetFilterAll (telnetReset .zero) [telIac, telDo]).1 teloptBinary).reply =
        some (response telWill teloptBinary) ∧
    (∃ verb, (verb = telDo ∨ verb = telWill) ∧
      (receive .data ([telIac, telDo] ++ [teloptBinary])).2 =
        (receive .data [telIac, telDo]).2 ++ [.option verb teloptBinary] ∧
      (response telWill teloptBinary = agreement verb teloptBinary ∨
        response telWill teloptBinary = refusal verb teloptBinary)) ∧
    ∃ l, l.messages = 14 ∧ ∃ l', Run Link.step (fun _ act => Link.settles act) l l' ∧ l'.Quiet := by
  obtain ⟨_, hAnswers, hLink⟩ := option_negotiation
  refine ⟨rfl, hAnswers .zero [telIac, telDo] teloptBinary _ rfl, ?_⟩
  have hRun : Run Link.step (fun _ _ => True) (Link.start fun _ => .zero)
      (Link.connect .host (Link.connect .caller (Link.start fun _ => .zero))) :=
    ((Run.refl _).tail (a := .connect .caller) trivial rfl).tail (a := .connect .host) trivial rfl
  exact ⟨_, rfl, (hLink _ _ hRun).2.2⟩

end Vmodem
