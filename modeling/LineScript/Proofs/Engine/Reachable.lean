import LineScript.Engine.Host
import LineScript.Proofs.Engine.Outcome

/-!
# Reachable machines

A machine does not run alone: between two steps the clock goes on, files change and triggers arrive (`Engine.Elapses`). A run is
a sequence of machines, each a step after the one before it (`Machine.Next`), and a machine is reachable if the calls of some
host lead to it. Variables keep their slots on the way, and errors are only added where threads end.
-/

namespace LineScript

/-- What may happen outside between two steps: the world goes on, and triggers arrive. -/
def Engine.Elapses (engine engine' : Engine) : Prop :=
  ∃ world triggers, engine' = { engine with world, queue := engine.queue ++ triggers }

/-- No time need pass between two steps. -/
theorem Engine.Elapses.refl (engine : Engine) : engine.Elapses engine :=
  ⟨engine.world, [], by simp⟩

namespace Machine

/-- A machine comes after another one: it has taken one step, some time later. -/
def Next (setup : Setup) (machine machine' : Machine) : Prop :=
  ∃ engine, machine.engine.Elapses engine ∧ machine' = step setup ⟨engine, machine.control⟩

/-- The machines that the calls of a host lead to. -/
inductive Reachable (setup : Setup) (engine : Engine) : Machine → Prop
  /-- Nothing has been asked for. -/
  | start : Reachable setup engine ⟨engine, .done 0⟩
  /-- A step is taken. -/
  | step {machine machine' : Machine} (h : Reachable setup engine machine) (hnext : Next setup machine machine') :
    Reachable setup engine machine'
  /-- The host asks for something once nothing is to be done. -/
  | call {now : Engine} {ran : Nat} (h : Reachable setup engine ⟨now, .done ran⟩) (call : HostCall) :
    Reachable setup engine (call.start setup now)
  /-- The host takes the errors. -/
  | taken {now : Engine} {ran : Nat} (h : Reachable setup engine ⟨now, .done ran⟩) :
    Reachable setup engine ⟨{ now with errors := [] }, .done ran⟩

end Machine

/-- What every step but the end of a thread keeps: the slots of the variables, the errors, and that the program has ended. -/
structure Engine.Carries (engine engine' : Engine) : Prop where
  vars : engine.vars.Extends engine'.vars
  errors_eq : engine'.errors = engine.errors
  terminated : engine.terminated = true → engine'.terminated = true

namespace Engine

theorem Carries.refl (engine : Engine) : engine.Carries engine :=
  ⟨.refl _, rfl, fun h => h⟩

theorem Carries.trans {a b c : Engine} (hab : a.Carries b) (hbc : b.Carries c) : a.Carries c :=
  ⟨hab.vars.trans hbc.vars, hbc.errors_eq.trans hab.errors_eq, fun h => hbc.terminated (hab.terminated h)⟩

/-- Work of the running thread carries everything on. -/
theorem Worked.carries {engine engine' : Engine} (h : engine.Worked engine') : engine.Carries engine' :=
  ⟨h.vars, h.errors_eq, h.terminated⟩

/-- What happens outside carries everything on. -/
theorem Elapses.carries {engine engine' : Engine} (h : engine.Elapses engine') : engine.Carries engine' := by
  obtain ⟨world, triggers, rfl⟩ := h
  exact ⟨.refl _, rfl, fun h => h⟩

/-- A change to the running thread carries everything on. -/
theorem carries_onThread (engine : Engine) (change : Thread → Thread) : engine.Carries (engine.onThread change) := by
  unfold onThread
  split <;> exact ⟨.refl _, rfl, fun h => h⟩

theorem carries_advanceLoop (engine : Engine) : engine.Carries engine.advanceLoop.1 := by
  unfold advanceLoop
  split
  · exact .refl _
  · split
    · exact .refl _
    · exact carries_onThread engine _

theorem carries_pushThread (setup : Setup) (engine : Engine) (label : Option LabelId) (trigger : Trigger) :
    engine.Carries (engine.pushThread setup label trigger) := by
  unfold pushThread
  cases trigger.isHotkey <;> exact ⟨.refl _, rfl, fun h => h⟩

/-- Ending a thread carries everything on. -/
theorem carries_popThread (setup : Setup) (engine : Engine) (waiting : Bool) :
    engine.Carries (engine.popThread setup waiting) := by
  unfold popThread
  split
  · exact ⟨.refl _, rfl, fun h => h⟩
  · exact ⟨Variables.extends_put _ _ _, rfl, fun h => h⟩

end Engine

namespace Machine

variable {setup : Setup} {engine : Engine}

/-- Launching a thread carries everything on. -/
theorem carries_launch {before : Engine} (h : engine.Carries before) (start : LineId) (label : Option LabelId)
    (trigger : Trigger) (stack : Stack .thread) :
    engine.Carries (launch setup before start label trigger stack).engine :=
  h.trans (before.carries_pushThread setup label trigger)

/-- A line carries everything on. -/
theorem carries_outcome {id : LineId} {stack : Stack .line} {machine : Machine}
    (h : Outcome setup engine id stack machine) : engine.Carries machine.engine := by
  cases h with
  | failed hw | wentOn hw | diverted hw | opened hw | slept hw => exact hw.carries
  | looped hw => exact hw.carries.trans (Engine.carries_onThread _ _)
  | called => exact .refl _
  | waited => exact ⟨.refl _, rfl, fun h => h⟩
  | exiting =>
    apply carries_launch
    exact ⟨.refl _, rfl, fun h => h⟩

theorem carries_callCommand (id : LineId) (cmd : CommandId) (stack : Stack .line) :
    engine.Carries (callCommand setup engine id cmd stack).engine := by
  have hw := engine.worked_call setup (setup.script.line id) (setup.script.commands.get cmd)
  have hbranch (engine' : Engine) (truth : Bool) : (branch setup engine' id truth stack).engine = engine' := by
    unfold branch
    dsimp only
    split <;> rfl
  simp only [callCommand]
  cases hcall : engine.call setup (setup.script.line id) (setup.script.commands.get cmd) with
  | mk engine' answer =>
    rw [hcall] at hw
    cases answer with
    | error problem => exact hw.carries
    | ok status =>
      dsimp only
      split
      · rw [hbranch]
        exact hw.carries
      · split
        · rw [hbranch]
          exact hw.carries
        · exact hw.carries

/-- Going on with a run carries everything on. -/
theorem carries_walk (cur level : Option LineId) (mode : Mode) (stack : Stack .run) :
    engine.Carries (walk setup engine cur level mode stack).engine := by
  unfold walk
  split
  · exact ⟨.refl _, rfl, fun h => h⟩
  · rename_i id
    have hw := (engine.worked_noteLine id).carries
    dsimp only
    split
    · split <;> exact ⟨.refl _, rfl, fun h => h⟩
    · split
      · exact hw.trans ⟨.refl _, rfl, fun h => h⟩
      · exact hw

theorem carries_afterLine (answer : Except RuntimeError (Flow × Option LineId)) (level : Option LineId) (mode : Mode)
    (stack : Stack .run) : engine.Carries (afterLine setup engine answer level mode stack).engine := by
  unfold afterLine
  split
  · exact ⟨.refl _, rfl, fun h => h⟩
  · split
    · exact ⟨.refl _, rfl, fun h => h⟩
    · split
      · split <;> exact ⟨.refl _, rfl, fun h => h⟩
      · split <;> exact ⟨.refl _, rfl, fun h => h⟩
      · split <;> exact ⟨.refl _, rfl, fun h => h⟩
      · exact ⟨.refl _, rfl, fun h => h⟩

/-- A run of lines that ends carries everything on, unless it ends a thread with an error. -/
theorem carries_afterRun (answer : Except RuntimeError Flow) (stack : Stack .run) :
    engine.Carries (afterRun setup engine answer stack).engine ∨
      ∃ error mode waiting rest, answer = .error error ∧ stack = .thread mode waiting rest ∧
        { engine with errors := engine.errors ++ [error] }.Carries (afterRun setup engine answer stack).engine := by
  have hpop := engine.carries_popThread setup
  cases stack with
  | body after rest =>
    left
    simp only [afterRun, afterBody]
    split <;> exact .refl _
  | loop id body rest =>
    left
    simp only [afterRun, afterRound]
    split
    · exact engine.carries_onThread _
    · exact .refl _
    · exact .refl _
    · exact engine.carries_onThread _
    · exact engine.carries_onThread _
  | thread mode waiting rest =>
    simp only [afterRun, afterThread]
    split
    · exact .inl (.refl _)
    · exact .inl ((hpop waiting).trans ⟨.refl _, rfl, fun _ => rfl⟩)
    · exact .inl (hpop waiting)
    · rename_i error
      refine .inr ⟨error, mode, waiting, rest, rfl, rfl, (hpop waiting).vars, ?_, (hpop waiting).terminated⟩
      exact congrArg (· ++ [error]) (hpop waiting).errors_eq

/-- What follows a look at the queue carries everything on. -/
theorem carries_afterPoll (ran : Nat) (stack : Stack .queue) :
    engine.Carries (afterPoll setup engine ran stack).engine := by
  cases stack with
  | hostQueue => exact .refl _
  | hostIdle deadline =>
    simp only [afterPoll]
    split <;> exact ⟨.refl _, rfl, fun h => h⟩
  | tick id level mode rest => exact .refl _
  | sleep id deadline waiting rest =>
    simp only [afterPoll, afterSlice]
    split <;> exact ⟨.refl _, rfl, fun h => h⟩
  | command id cmd waiting rest =>
    simp only [afterPoll]
    split <;> exact ⟨.refl _, rfl, fun h => h⟩

/-- A step carries everything on, unless a thread ends with an error: then that is added to the errors. -/
theorem carries_step (machine : Machine) :
    machine.engine.Carries (machine.step setup).engine ∨
      ∃ error mode waiting rest, machine.control = .ran (.error error) (.thread mode waiting rest) ∧
        { machine.engine with errors := machine.engine.errors ++ [error] }.Carries (machine.step setup).engine := by
  obtain ⟨engine, control⟩ := machine
  cases control with
  | ran answer stack =>
    rcases @carries_afterRun setup engine answer stack with h | ⟨error, mode, waiting, rest, h⟩
    · exact .inl h
    · obtain ⟨rfl, rfl, h⟩ := h
      exact .inr ⟨error, mode, waiting, rest, rfl, h⟩
  | enter start mode stack =>
    left
    simp only [Machine.step]
    split <;> exact ⟨.refl _, rfl, fun h => h⟩
  | walk cur level mode stack => exact .inl (carries_walk cur level mode stack)
  | reach id level mode stack =>
    left
    simp only [Machine.step]
    split <;> exact ⟨.refl _, rfl, fun h => h⟩
  | step id stack => exact .inl (carries_outcome outcome_runLine)
  | call id cmd stack => exact .inl (carries_callCommand id cmd stack)
  | round id body stack =>
    left
    have hadvance := engine.carries_advanceLoop
    simp only [Machine.step]
    cases hround : engine.advanceLoop with
    | mk engine' answer =>
      rw [hround] at hadvance
      have hpop : engine.Carries engine'.popLoop := hadvance.trans (engine'.carries_onThread _)
      cases answer with
      | error problem => exact hpop
      | ok goesOn =>
        cases goesOn with
        | false => exact hpop
        | true => exact hadvance
  | sleep id deadline stack => exact .inl ⟨.refl _, rfl, fun h => h⟩
  | poll ran stack =>
    left
    simp only [Machine.step]
    split
    · exact .refl _
    · split
      · exact .refl _
      · split
        · apply carries_launch
          exact ⟨.refl _, rfl, fun h => h⟩
        · exact ⟨.refl _, rfl, fun h => h⟩
        · exact .refl _
  | idle deadline =>
    left
    simp only [Machine.step]
    split <;> exact ⟨.refl _, rfl, fun h => h⟩
  | stepped answer stack =>
    cases stack with
    | line mark level mode rest =>
      have hafter := @carries_afterLine setup { engine with scratch := engine.scratch.release mark } answer level mode rest
      exact .inl ⟨hafter.vars, hafter.errors_eq, hafter.terminated⟩
  | polled ran stack => exact .inl (carries_afterPoll ran stack)
  | ended stack =>
    left
    cases stack with
    | host | queue => exact .refl _
    | hostExit => exact ⟨.refl _, rfl, fun _ => rfl⟩
    | exitRoutine => exact ⟨.refl _, rfl, fun h => h⟩
  | done ran => exact .inl (.refl _)

/-- From one machine to the next everything is carried on, up to the error that a thread ends with. -/
theorem Next.carries {machine machine' : Machine} (h : Next setup machine machine') :
    machine.engine.Carries machine'.engine ∨
      ∃ error mode waiting rest, machine.control = .ran (.error error) (.thread mode waiting rest) ∧
        { machine.engine with errors := machine.engine.errors ++ [error] }.Carries machine'.engine := by
  obtain ⟨now, helapses, rfl⟩ := h
  have hnow := helapses.carries
  rcases @carries_step setup ⟨now, machine.control⟩ with h | ⟨error, mode, waiting, rest, hcontrol, h⟩
  · exact .inl (hnow.trans h)
  · have hadded := congrArg (· ++ [error]) hnow.errors_eq
    refine .inr ⟨error, mode, waiting, rest, hcontrol, ?_⟩
    exact Engine.Carries.trans (b := { now with errors := now.errors ++ [error] })
      ⟨hnow.vars, hadded, hnow.terminated⟩ h

/-- From one machine to the next slots stay. -/
theorem Next.extends {machine machine' : Machine} (h : Next setup machine machine') :
    machine.engine.vars.Extends machine'.engine.vars := by
  rcases h.carries with h | ⟨_, _, _, _, _, h⟩
  · exact h.vars
  · exact h.vars

/-- A program that has ended stays so. -/
theorem Next.terminated {machine machine' : Machine} (h : Next setup machine machine')
    (hended : machine.engine.terminated = true) : machine'.engine.terminated = true := by
  rcases h.carries with h | ⟨_, _, _, _, _, h⟩
  · exact h.terminated hended
  · exact h.terminated hended

/-- What a host asks for carries everything on. -/
theorem carries_start (call : HostCall) : engine.Carries (call.start setup engine).engine := by
  cases call with
  | autoExecute =>
    simp only [HostCall.start, HostCall.autoExecuteOn]
    split
    · exact carries_launch (.refl _) _ _ _ _
    · exact .refl _
  | dispatch trigger =>
    simp only [HostCall.start, HostCall.dispatchOn]
    split
    · exact carries_launch (.refl _) _ _ _ _
    · exact ⟨.refl _, rfl, fun h => h⟩
    · exact .refl _
  | send trigger | runPending | fireTimers now | idle ms => exact ⟨.refl _, rfl, fun h => h⟩
  | exitApp =>
    simp only [HostCall.start, HostCall.exitAppOn]
    split
    · exact .refl _
    · split
      · apply carries_launch
        exact ⟨.refl _, rfl, fun h => h⟩
      · exact ⟨.refl _, rfl, fun _ => rfl⟩

/-- Slots stay whatever the host calls lead to. -/
theorem Reachable.extends {machine : Machine} (h : Reachable setup engine machine) :
    engine.vars.Extends machine.engine.vars := by
  induction h with
  | start => exact .refl _
  | step _ hnext ih => exact ih.trans hnext.extends
  | call _ call ih => exact ih.trans (carries_start call).vars
  | taken _ ih => exact ih

/-- A variable of the program stays one whatever the host calls lead to. -/
theorem Reachable.isOwn {machine : Machine} {id : VarId} (hown : engine.vars.IsOwn id)
    (h : Reachable setup engine machine) : machine.engine.vars.IsOwn id :=
  h.extends.isOwn hown

end Machine

end LineScript
