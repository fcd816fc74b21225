import Vmodem.Driver.Machine

/-! Scripts: runs of the machine written down as data. A script names the
driver calls and what happens around them; the blocks of a call are run to the
end with one set of mTCP results. -/

namespace Vmodem

inductive Move where
  /-- A driver call, every block of it with the same results. -/
  | call (b : Block) (a : Answer)
  /-- Only the start of a driver call. -/
  | enter (b : Block)
  /-- The next block of the current call. -/
  | run (a : Answer)
  /-- The rest of the current call. -/
  | finish (a : Answer)
  | outside (e : Outside)

section Play

variable (ok : Config → Action → Bool)

/-- One step, if it is allowed and enabled. -/
def Config.act (act : Action) (c : Config) : Option Config :=
  if ok c act then step act c else none

/-- Run blocks until the stack is empty. -/
def Config.settle (a : Answer) : Nat → Config → Option Config
  | 0, c => some c
  | fuel + 1, c => if c.todo = [] then some c else (c.act ok (.run a)).bind (settle a fuel)

/-- The blocks a scripted call may take. -/
def scriptFuel : Nat := 200

def Config.move (c : Config) : Move → Option Config
  | .call b a => (c.act ok (.call b)).bind (settle ok a scriptFuel)
  | .enter b => c.act ok (.call b)
  | .run a => c.act ok (.run a)
  | .finish a => c.settle ok a scriptFuel
  | .outside e => c.act ok (.outside e)

def Config.play : List Move → Config → Option Config
  | [], c => some c
  | m :: rest, c => (c.move ok m).bind (play rest)

variable {ok} {P : Config → Action → Prop} {c d : Config}

/-- A checked step is a run of one allowed step. -/
theorem Config.act_run (hOk : ∀ c act, ok c act → P c act) {act : Action}
    (h : c.act ok act = some d) : Transition.Run step P c d := by
  unfold Config.act at h
  split_ifs at h with hAct
  exact (Transition.Run.refl c).tail (hOk c act hAct) h

/-- Running the remaining blocks is a run of allowed steps. -/
theorem Config.settle_run (hOk : ∀ c act, ok c act → P c act) {a : Answer} {fuel : Nat}
    (h : c.settle ok a fuel = some d) : Transition.Run step P c d := by
  induction fuel generalizing c with
  | zero =>
      obtain rfl := Option.some.inj h
      exact .refl _
  | succ fuel ih =>
      unfold Config.settle at h
      split_ifs at h
      · obtain rfl := Option.some.inj h
        exact .refl _
      · obtain ⟨middle, hAct, hRest⟩ := Option.bind_eq_some_iff.mp h
        exact (Config.act_run hOk hAct).trans (ih hRest)

/-- A scripted move is a run: the entry into the driver, then its blocks. -/
theorem Config.move_run (hOk : ∀ c act, ok c act → P c act) {m : Move}
    (h : c.move ok m = some d) : Transition.Run step P c d := by
  cases m with
  | call b a =>
      obtain ⟨middle, hAct, hRest⟩ := Option.bind_eq_some_iff.mp h
      exact (Config.act_run hOk hAct).trans (Config.settle_run hOk hRest)
  | enter b => exact Config.act_run hOk h
  | run a => exact Config.act_run hOk h
  | finish a => exact Config.settle_run hOk h
  | outside e => exact Config.act_run hOk h

/-- A script that plays to its end is a run. -/
theorem Config.play_run (hOk : ∀ c act, ok c act → P c act) {moves : List Move}
    (h : c.play ok moves = some d) : Transition.Run step P c d := by
  induction moves generalizing c with
  | nil =>
      obtain rfl := Option.some.inj h
      exact .refl _
  | cons m rest ih =>
      obtain ⟨middle, hMove, hRest⟩ := Option.bind_eq_some_iff.mp h
      exact (Config.move_run hOk hMove).trans (ih hRest)

/-- What a script shows of the configuration it ends in. -/
theorem exists_of_play (hOk : ∀ c act, ok c act → P c act) {args : List PortArg}
    {eager : Bool} {tick : Tick} {moves : List Move} {p : Config → Bool}
    (h : ((install args eager tick).play ok moves).any p) :
    ∃ c, ReachableBy P c ∧ p c := by
  cases hPlay : (install args eager tick).play ok moves with
  | none => simp [hPlay] at h
  | some c =>
      rw [hPlay] at h
      exact ⟨c, ⟨args, eager, tick, Config.play_run hOk hPlay⟩, h⟩

/-- What two scripts show, one run after the other. -/
theorem exists_continued {okFirst : Config → Action → Bool} {Q : Config → Action → Prop}
    (hFirst : ∀ c act, okFirst c act → Q c act) (hSecond : ∀ c act, ok c act → P c act)
    {args : List PortArg} {eager : Bool} {tick : Tick} {first second : List Move}
    {p : Config → Config → Bool}
    (h : ((install args eager tick).play okFirst first).any fun c => (c.play ok second).any (p c)) :
    ∃ c d, ReachableBy Q c ∧ Transition.Run step P c d ∧ p c d := by
  cases hPlayed : (install args eager tick).play okFirst first with
  | none => simp [hPlayed] at h
  | some c =>
      rw [hPlayed, Option.any_some] at h
      cases hLater : c.play ok second with
      | none => simp [hLater] at h
      | some d =>
          rw [hLater, Option.any_some] at h
          exact ⟨c, d, ⟨args, eager, tick, Config.play_run hFirst hPlayed⟩,
            Config.play_run hSecond hLater, h⟩

/-- What two scripts show, the second of them run under a condition. -/
theorem exists_segment (hOk : ∀ c act, ok c act → P c act) {args : List PortArg}
    {eager : Bool} {tick : Tick} {first second : List Move} {p : Config → Config → Bool}
    (h : ((install args eager tick).play (fun _ _ => true) first).any fun c =>
      (c.play ok second).any (p c)) :
    ∃ c d, Reachable c ∧ Transition.Run step P c d ∧ p c d :=
  exists_continued (fun _ _ _ => trivial) hOk h

end Play

/-- A caller reaches a standalone port and is answered: `/L:1:2323`, the accept,
AH=04h, DTR raised while ringing, and the delayed CONNECT. The listen socket is
0 and the caller 1. -/
def answeredCall : List Move :=
  [.finish {}, .outside (.arrive 0 0x0A000001 5000), .call (.mux .poll) { accepted := some 0 },
    .call (.int14 0 .init) {}, .call (.int14 0 (.dtr 1)) {}, .outside (.ticks 40),
    .call (.mux .poll) {}]

/-- AH=03h up to the point where it reports the status of a single call, with
nothing to be closed. -/
def statusPoll : List Move := .enter (.int14 0 .status) :: List.replicate 23 (.run {})

/-- Scripts without a side condition. -/
def anyStep (_ : Config) (_ : Action) : Bool := true

/-- What a script reaches from an installation is reachable, so a property it ends in is
one of some reachable state. -/
theorem exists_reachable {args : List PortArg} {eager : Bool} {tick : Tick} {moves : List Move}
    {p : Config → Bool} (h : ((install args eager tick).play anyStep moves).any p) :
    ∃ c, Reachable c ∧ p c :=
  exists_of_play (fun _ _ _ => trivial) h

end Vmodem
