import Vmodem.Driver.Script
import Vmodem.Library.Path

/-! Configurations together with the steps that led to them. -/

namespace Vmodem

/-- The steps of a run, newest first. -/
abbrev Past := List (Config × Action)

/-- Reached from an installation by these steps. -/
def Reached (past : Past) (c : Config) : Prop :=
  ∃ args eager tick, Transition.Path step (install args eager tick) past c

/-- A state reached with a recorded past is a reachable one. -/
theorem Reached.reachable {past : Past} {c : Config} (h : Reached past c) : Reachable c := by
  obtain ⟨args, eager, tick, path⟩ := h
  exact ⟨args, eager, tick, path.run fun _ _ => trivial⟩

section Record

/-- Take a step and note it. -/
def recordStep (act : Action) (r : Past × Config) : Option (Past × Config) :=
  (step act r.2).map fun d => ((r.2, act) :: r.1, d)

def recordRest (a : Answer) : Nat → Past × Config → Option (Past × Config)
  | 0, r => some r
  | fuel + 1, r =>
      if r.2.todo = [] then some r else (recordStep (.run a) r).bind (recordRest a fuel)

def recordMove (r : Past × Config) : Move → Option (Past × Config)
  | .call b a => (recordStep (.call b) r).bind (recordRest a scriptFuel)
  | .enter b => recordStep (.call b) r
  | .run a => recordStep (.run a) r
  | .finish a => recordRest a scriptFuel r
  | .outside e => recordStep (.outside e) r

/-- Play a script and keep its steps. -/
def record : List Move → Past × Config → Option (Past × Config)
  | [], r => some r
  | m :: rest, r => (recordMove r m).bind (record rest)

variable {start : Config} {r r' : Past × Config}

/-- A recorded step extends the path by that step. -/
theorem recordStep_path {act : Action} (h : recordStep act r = some r')
    (path : Transition.Path step start r.1 r.2) : Transition.Path step start r'.1 r'.2 := by
  obtain ⟨d, hStep, rfl⟩ := Option.map_eq_some_iff.mp h
  exact path.snoc hStep

/-- Running the remaining blocks extends the path by one step for each. -/
theorem recordRest_path {a : Answer} {fuel : Nat} (h : recordRest a fuel r = some r')
    (path : Transition.Path step start r.1 r.2) : Transition.Path step start r'.1 r'.2 := by
  induction fuel generalizing r with
  | zero =>
      obtain rfl := Option.some.inj h
      exact path
  | succ fuel ih =>
      unfold recordRest at h
      split_ifs at h
      · obtain rfl := Option.some.inj h
        exact path
      · obtain ⟨middle, hStep, hRest⟩ := Option.bind_eq_some_iff.mp h
        exact ih hRest (recordStep_path hStep path)

/-- A scripted move extends the path by the steps it stands for. -/
theorem recordMove_path {m : Move} (h : recordMove r m = some r')
    (path : Transition.Path step start r.1 r.2) : Transition.Path step start r'.1 r'.2 := by
  cases m with
  | call b a =>
      obtain ⟨middle, hStep, hRest⟩ := Option.bind_eq_some_iff.mp h
      exact recordRest_path hRest (recordStep_path hStep path)
  | enter b | run a | outside e => exact recordStep_path h path
  | finish a => exact recordRest_path h path

/-- A scripted record is a path of the machine, from its first move to its last. -/
theorem record_path {moves : List Move} (h : record moves r = some r')
    (path : Transition.Path step start r.1 r.2) : Transition.Path step start r'.1 r'.2 := by
  induction moves generalizing r with
  | nil =>
      obtain rfl := Option.some.inj h
      exact path
  | cons m rest ih =>
      obtain ⟨middle, hMove, hRest⟩ := Option.bind_eq_some_iff.mp h
      exact ih hRest (recordMove_path hMove path)

/-- What a script shows of its steps and the configuration it ends in. -/
theorem exists_reached {args : List PortArg} {eager : Bool} {tick : Tick} {moves : List Move}
    {p : Past × Config → Bool} (h : (record moves ([], install args eager tick)).any p) :
    ∃ past c, Reached past c ∧ p (past, c) := by
  cases hRecord : record moves ([], install args eager tick) with
  | none => simp [hRecord] at h
  | some r =>
      rw [hRecord] at h
      exact ⟨r.1, r.2, ⟨args, eager, tick, record_path hRecord .nil⟩, h⟩

end Record

end Vmodem
