import Vmodem.Driver.Endpoints
import Vmodem.Invariants.ControlWrites

/-! The option policy: which commands are answered, how, and at what cost in flags. -/

namespace Vmodem

open TelnetReceiver (Item receive)

/-- The options the policy ever agrees to. -/
def negotiatedOptions : List UInt8 :=
  [teloptBinary, teloptEcho, teloptSga, teloptNaws, teloptTtype]

/-- `neg_binary`, `neg_echo`, `neg_sga`, `neg_naws` and `neg_ttype` by option. -/
def PortState.agreed (p : PortState) (opt : UInt8) : Bool :=
  if opt = teloptBinary then p.negBinary
  else if opt = teloptEcho then p.negEcho
  else if opt = teloptSga then p.negSga
  else if opt = teloptNaws then p.negNaws
  else if opt = teloptTtype then p.negTtype
  else false

/-- The reply that agrees to a DO or WILL. -/
def agreement (verb opt : UInt8) : List UInt8 :=
  if verb = telDo then response telWill opt
  else if opt = teloptTtype then ttypeRequest
  else response telDo opt

/-- The reply that refuses a DO or WILL. -/
def refusal (verb opt : UInt8) : List UInt8 :=
  if verb = telDo then response telWont opt else response telDont opt

/-- What `telnet_handle_option` can do to the flags, and its reply. -/
inductive Handled (verb opt : UInt8) (flags : UInt8 → Bool) :
    (UInt8 → Bool) → Option (List UInt8) → Prop where
  | agrees (hVerb : verb = telDo ∨ verb = telWill) (hOpt : opt ∈ negotiatedOptions)
      (hBefore : flags opt = false) :
      Handled verb opt flags (Function.update flags opt true) (some (agreement verb opt))
  | refuses (hVerb : verb = telDo ∨ verb = telWill) :
      Handled verb opt flags flags (some (refusal verb opt))
  | ignores : Handled verb opt flags flags none

section Policy

variable {p p' : PortState} {verb opt : UInt8}

/-- Agreeing to one option sets its flag and no other. -/
theorem agreed_update (hNew : p'.agreed opt = true)
    (hOld : ∀ o, o ≠ opt → p'.agreed o = p.agreed o) :
    p'.agreed = Function.update p.agreed opt true := by
  funext o
  by_cases ho : o = opt
  · rw [ho, Function.update_self, hNew]
  · rw [Function.update_of_ne ho, hOld o ho]

/-- The first request for an option of the policy is agreed to and noted. -/
theorem Handled.agrees_of (hVerb : verb = telDo ∨ verb = telWill) (hOpt : opt ∈ negotiatedOptions)
    (hBefore : p.agreed opt = false) (hNew : p'.agreed opt = true)
    (hOld : ∀ o, o ≠ opt → p'.agreed o = p.agreed o) :
    Handled verb opt p.agreed p'.agreed (some (agreement verb opt)) := by
  rw [agreed_update hNew hOld]
  exact .agrees hVerb hOpt hBefore

/-- An option is agreed to once, confirmed silently afterwards, or refused. One case for
each command and option. -/
theorem telnetHandleOption_handled (p : PortState) (verb opt : UInt8) :
    Handled verb opt p.agreed (telnetHandleOption p verb opt).1.agreed
      (telnetHandleOption p verb opt).2 := by
  unfold telnetHandleOption
  by_cases hDo : verb = telDo
  · subst hDo
    rw [if_pos rfl]
    split_ifs with hBinary hEcho hSga
    · obtain ⟨rfl, hFlag⟩ := hBinary
      exact .agrees_of (.inl rfl) (by decide) ((Bool.not_eq_true' _).mp hFlag)
        rfl fun o ho => by simp [PortState.agreed, ho]
    · obtain ⟨rfl, hFlag⟩ := hEcho
      exact .agrees_of (.inl rfl) (by decide) ((Bool.not_eq_true' _).mp hFlag)
        rfl fun o ho => by simp [PortState.agreed, ho]
    · obtain ⟨rfl, hFlag⟩ := hSga
      exact .agrees_of (.inl rfl) (by decide) ((Bool.not_eq_true' _).mp hFlag)
        rfl fun o ho => by simp [PortState.agreed, ho]
    · exact .refuses (.inl rfl)
    · exact .ignores
  · rw [if_neg hDo]
    by_cases hWill : verb = telWill
    · subst hWill
      rw [if_pos rfl]
      split_ifs with hBinary hSga hNaws hTtype
      · obtain ⟨rfl, hFlag⟩ := hBinary
        exact .agrees_of (.inr rfl) (by decide) ((Bool.not_eq_true' _).mp hFlag)
          rfl fun o ho => by simp [PortState.agreed, ho]
      · obtain ⟨rfl, hFlag⟩ := hSga
        exact .agrees_of (.inr rfl) (by decide) ((Bool.not_eq_true' _).mp hFlag)
          rfl fun o ho => by simp [PortState.agreed, ho]
      · obtain ⟨rfl, hFlag⟩ := hNaws
        exact .agrees_of (.inr rfl) (by decide) ((Bool.not_eq_true' _).mp hFlag)
          rfl fun o ho => by simp [PortState.agreed, ho]
      · obtain ⟨rfl, hFlag⟩ := hTtype
        exact .agrees_of (.inr rfl) (by decide) ((Bool.not_eq_true' _).mp hFlag)
          rfl fun o ho => by simp [PortState.agreed, ho]
      · exact .refuses (.inr rfl)
      · exact .ignores
    · rw [if_neg hWill]
      exact .ignores

end Policy

section Filter

variable {p : PortState}

/-- Where a receiver would be in the stream. -/
def PortState.receiver (p : PortState) : TelnetReceiver.State :=
  match p.iacState with
  | .normal => .data
  | .sawFF => .iac
  | .sawCmd => .option p.iacCmd
  | .inSB => .sub []
  | .sbIac => .subIac []

/-- Above SB there are the four verbs and IAC. -/
theorem verb_of_high {b : UInt8} (hHigh : 251 ≤ b) (hIac : b ≠ telIac) :
    b = telWill ∨ b = telWont ∨ b = telDo ∨ b = telDont := by
  have hCases : b = telWill ∨ b = telWont ∨ b = telDo ∨ b = telDont ∨ b = telIac := by
    have hLe := UInt8.le_iff_toNat_le.mp hHigh
    have hLt := b.toNat_lt
    simp only [telWill, telWont, telDo, telDont, telIac, ← UInt8.toNat_inj, UInt8.reduceToNat]
      at hLe ⊢
    omega
  tauto

/-- A byte inside a subnegotiation neither ends it nor touches what was agreed to. -/
theorem subnegotiationByte_frame (p : PortState) (b : UInt8) :
    (subnegotiationByte p b).receiver = p.receiver ∧
    (subnegotiationByte p b).agreed = p.agreed := by
  unfold subnegotiationByte
  dsimp only
  split_ifs <;> exact ⟨rfl, rfl⟩

theorem subnegotiationDone_agreed (p : PortState) : (subnegotiationDone p).agreed = p.agreed := by
  unfold subnegotiationDone
  dsimp only
  split_ifs <;> rfl

/-- What one byte does to the parser as a negotiator. -/
inductive Negotiates (p : PortState) (b : UInt8) (f : Filtered) : Prop where
  | option (verb : UInt8) (hReceiver : p.receiver = .option verb)
      (hState : f.port.receiver = .data) (h : Handled verb b p.agreed f.port.agreed f.reply)
  | other (state : TelnetReceiver.State) (items : List Item)
      (hNext : TelnetReceiver.next p.receiver b = (state, items))
      (hState : f.port.receiver = state.outline) (hItems : ∀ verb opt, Item.option verb opt ∉ items)
      (hFlags : f.port.agreed = p.agreed) (hReply : f.reply = none)

/-- The parser negotiates exactly where a receiver sees an option, and follows the
stream as the receiver does. -/
theorem telnetFilter_negotiates (p : PortState) (b : UInt8) :
    Negotiates p b (telnetFilter p b) := by
  unfold telnetFilter
  cases hState : p.iacState with
  | normal =>
      have hReceiver : p.receiver = .data := by rw [PortState.receiver, hState]
      dsimp only
      split_ifs with hIac
      · have hNext : TelnetReceiver.next p.receiver b = (.iac, []) := by
          rw [hReceiver]
          exact if_pos hIac
        exact .other _ _ hNext rfl (by simp) rfl rfl
      · have hNext : TelnetReceiver.next p.receiver b = (.data, [.data b]) := by
          rw [hReceiver]
          exact if_neg hIac
        exact .other _ _ hNext hReceiver (by simp) rfl rfl
  | sawFF =>
      have hReceiver : p.receiver = .iac := by rw [PortState.receiver, hState]
      dsimp only
      split_ifs with hIac hVerb hSb
      · have hNext : TelnetReceiver.next p.receiver b = (.data, [.data b]) := by
          rw [hReceiver]
          exact if_pos hIac
        exact .other _ _ hNext rfl (by simp) rfl rfl
      · have hNext : TelnetReceiver.next p.receiver b = (.option b, []) := by
          rw [hReceiver]
          rcases hVerb with rfl | rfl | rfl | rfl <;> rfl
        exact .other _ _ hNext rfl (by simp) rfl rfl
      · have hNext : TelnetReceiver.next p.receiver b = (.sub [], []) := by
          rw [hReceiver, hSb]
          rfl
        exact .other _ _ hNext rfl (by simp) rfl rfl
      · have hLow : ¬ 251 ≤ b := fun hHigh => hVerb (verb_of_high hHigh hIac)
        have hNext : TelnetReceiver.next p.receiver b = (.data, [.command b]) := by
          rw [hReceiver]
          exact (if_neg hIac).trans ((if_neg hSb).trans (if_neg hLow))
        exact .other _ _ hNext rfl (by simp) rfl rfl
  | sawCmd =>
      have hReceiver : p.receiver = .option p.iacCmd := by rw [PortState.receiver, hState]
      exact .option p.iacCmd hReceiver rfl (telnetHandleOption_handled p p.iacCmd b)
  | inSB =>
      have hReceiver : p.receiver = .sub [] := by rw [PortState.receiver, hState]
      dsimp only
      split_ifs with hIac
      · have hNext : TelnetReceiver.next p.receiver b = (.subIac [], []) := by
          rw [hReceiver]
          exact if_pos hIac
        exact .other _ _ hNext rfl (by simp) rfl rfl
      · have hNext : TelnetReceiver.next p.receiver b = (.sub [b], []) := by
          rw [hReceiver]
          exact if_neg hIac
        obtain ⟨hSame, hFlags⟩ := subnegotiationByte_frame p b
        exact .other _ _ hNext (hSame.trans hReceiver) (by simp) hFlags rfl
  | sbIac =>
      have hReceiver : p.receiver = .subIac [] := by rw [PortState.receiver, hState]
      dsimp only
      split_ifs with hSe
      · have hNext : TelnetReceiver.next p.receiver b = (.data, [.subnegotiation []]) := by
          rw [hReceiver]
          exact if_pos hSe
        exact .other _ _ hNext rfl (by simp) (subnegotiationDone_agreed p) rfl
      · by_cases hIac : b = telIac
        · have hNext : TelnetReceiver.next p.receiver b = (.sub [b], []) := by
            rw [hReceiver]
            exact (if_neg hSe).trans (if_pos hIac)
          exact .other _ _ hNext rfl (by simp) rfl rfl
        · have hNext : TelnetReceiver.next p.receiver b = (.sub [], []) := by
            rw [hReceiver]
            exact (if_neg hSe).trans (if_neg hIac)
          exact .other _ _ hNext rfl (by simp) rfl rfl

end Filter

end Vmodem
