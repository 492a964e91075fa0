import Mathlib.Logic.Relation
import LineScript.Proofs.Engine.Jumping
import LineScript.Proofs.Engine.Spared

/-!
# After the end of a program

A program ends at a line or at a call of the host, perhaps inside loops, routines, sleeps and interrupting threads. From then on
the machine only unwinds (`Control.Busy` says what it does not do any more), and later calls of the host find nothing to do: no
line runs, no command is called, and the only variable that changes is the error level, which ending threads give back
(`Program.nothing_after_end`).
-/

namespace LineScript

namespace Variables

/-- Storing into a slot leaves the others alone. -/
theorem slot_put_of_ne {vars : Variables} {id id' : VarId} (hne : id' ≠ id) (value : Value) :
    (vars.put id value).slots[id']? = vars.slots[id']? := by
  unfold put set
  split
  · rename_i h
    split at h
    · cases h
      rfl
    · split at h
      · cases h
      · cases h
        exact Array.getElem?_setIfInBounds_ne (Ne.symm hne)
  · rfl

end Variables

/-! ## Work does not end the program -/

/-- What happens outside does not end the program. -/
theorem Engine.Elapses.terminated_eq {engine engine' : Engine} (h : engine.Elapses engine') :
    engine'.terminated = engine.terminated := by
  obtain ⟨world, triggers, rfl⟩ := h
  rfl

/-- Whether a machine does what only a program that goes on does: it runs a line, calls a command, sleeps, or is about to run a
body, a routine or the next round of a loop. -/
def Control.Busy : Control → Prop
  | .enter _ _ (.thread ..) | .walk _ _ _ (.thread ..) => False
  | .enter .. | .walk .. | .step .. | .call .. | .round .. | .sleep .. => True
  | .ran (.ok .normal) (.loop ..) | .ran (.ok .continueLoop) (.loop ..) => True
  | _ => False

namespace Machine

/-- Whether a command is about to be called. -/
def IsCall (machine : Machine) : Prop :=
  ∃ id cmd stack, machine.control = .call id cmd stack

section

variable {setup : Setup} {engine : Engine}

/-- A line after which there is more to do does not end the program. -/
theorem terminated_runLine {id : LineId} {stack : Stack .line} (h : (runLine setup engine id stack).control.Busy) :
    (runLine setup engine id stack).engine.terminated = engine.terminated := by
  refine (spares_runLine fun hexit => ?_).terminated_eq
  -- the line that ends the program leaves an exit routine to run, or nothing
  simp only [runLine, hexit, exitApp] at h
  split at h <;> exact h

/-- Calling a command does not end the program. -/
theorem terminated_callCommand (id : LineId) (cmd : CommandId) (stack : Stack .line) :
    (callCommand setup engine id cmd stack).engine.terminated = engine.terminated := by
  rw [engine_callCommand]
  exact (engine.spares_call setup _ _).terminated_eq

/-- A run that goes on has not ended the program. -/
theorem terminated_walk {cur level : Option LineId} {mode : Mode} {stack : Stack .run}
    (h : (walk setup engine cur level mode stack).control.Busy) :
    (walk setup engine cur level mode stack).engine.terminated = engine.terminated := by
  revert h
  unfold walk
  split
  · exact fun _ => rfl
  · dsimp only
    split
    · split <;> exact fun _ => rfl
    · split <;> exact fun h => h.elim

/-- What follows a line does not end the program. -/
theorem terminated_afterLine (answer : Except RuntimeError (Flow × Option LineId)) (level : Option LineId) (mode : Mode)
    (stack : Stack .run) : (afterLine setup engine answer level mode stack).engine.terminated = engine.terminated := by
  unfold afterLine
  split
  · rfl
  · split
    · rfl
    · split
      · split <;> rfl
      · split <;> rfl
      · split <;> rfl
      · rfl

/-- A step after which there is more to do does not end the program. -/
theorem terminated_step_of_busy {machine : Machine} (h : (machine.step setup).control.Busy) :
    (machine.step setup).engine.terminated = machine.engine.terminated := by
  obtain ⟨engine, control⟩ := machine
  cases control with
  | enter start mode stack =>
    simp only [Machine.step]
    split <;> rfl
  | walk cur level mode stack => exact terminated_walk h
  | reach id level mode stack =>
    simp only [Machine.step]
    split <;> rfl
  | step id stack => exact terminated_runLine h
  | call id cmd stack => exact terminated_callCommand id cmd stack
  | round id body stack =>
    have hadvance := engine.inward_advanceLoop.terminated_eq
    simp only [Machine.step]
    split
    · rename_i heq
      rw [heq] at hadvance
      exact (Engine.inward_popLoop _).terminated_eq.trans hadvance
    · rename_i heq
      rw [heq] at hadvance
      exact hadvance
    · rename_i heq
      rw [heq] at hadvance
      exact (Engine.inward_popLoop _).terminated_eq.trans hadvance
  | ran answer stack =>
    cases stack with
    | body after rest =>
      simp only [Machine.step, afterRun, afterBody]
      split <;> rfl
    | loop id body rest =>
      simp only [Machine.step, afterRun, afterRound]
      split
      · exact engine.inward_popLoop.terminated_eq
      · rfl
      · rfl
      · exact engine.inward_popLoop.terminated_eq
      · exact engine.inward_popLoop.terminated_eq
    | thread mode waiting rest =>
      revert h
      simp only [Machine.step, afterRun, afterThread]
      split <;> exact fun h => h.elim
  | stepped answer stack =>
    cases stack with
    | line mark level mode rest => exact terminated_afterLine answer level mode rest
  | polled ran stack =>
    cases stack with
    | hostQueue | tick => rfl
    | hostIdle | command =>
      simp only [Machine.step, afterPoll]
      split <;> rfl
    | sleep =>
      simp only [Machine.step, afterPoll, afterSlice]
      split <;> rfl
  | poll ran stack =>
    revert h
    simp only [Machine.step]
    split
    · exact fun _ => rfl
    · split
      · exact fun _ => rfl
      · split <;> exact fun h => h.elim
  | idle deadline =>
    simp only [Machine.step]
    split <;> rfl
  | ended stack => cases stack <;> exact h.elim
  | sleep | done => rfl

end

/-! ## Unwinding -/

/-- How the variables change once a program has ended: not at all, or the thread on top ends and gives the error level back. -/
inductive Restores (setup : Setup) (engine engine' : Engine) : Prop
  | kept (h : engine'.vars = engine.vars)
  | restored {thread : Thread} {rest : List Thread} (hthreads : engine.threads = thread :: rest)
    (hrest : engine'.threads = rest) (h : engine'.vars = engine.vars.put setup.errorLevel thread.savedErrorLevel)

section

variable {setup : Setup} {engine engine' : Engine}

/-- Only the error level can change. -/
theorem Restores.slot_eq (h : Restores setup engine engine') {id : VarId} (hne : id ≠ setup.errorLevel) :
    engine'.vars.slots[id]? = engine.vars.slots[id]? := by
  cases h with
  | kept h => rw [h]
  | restored _ _ h => rw [h, Variables.slot_put_of_ne hne]

/-- A change to the running thread changes no variables. -/
theorem restores_onThread (engine : Engine) (change : Thread → Thread) :
    Restores setup engine (engine.onThread change) := by
  unfold Engine.onThread
  split <;> exact .kept rfl

/-- Noting a line changes no variables. -/
theorem restores_noteLine (setup : Setup) (engine : Engine) (id : LineId) : Restores setup engine (engine.noteLine id) := by
  unfold Engine.noteLine Engine.onThread
  split <;> exact .kept rfl

/-- Ending a thread changes no variable but the error level it gives back. -/
theorem restores_popThread (setup : Setup) (engine : Engine) (waiting : Bool) :
    Restores setup engine (engine.popThread setup waiting) := by
  unfold Engine.popThread
  split
  · exact .kept rfl
  · rename_i hthreads
    exact .restored hthreads rfl rfl

/-- What looks only at threads and variables does not see the rest of the engine. -/
theorem Restores.congr {before after : Engine} (h : Restores setup engine engine') (hvars : before.vars = engine.vars)
    (hthreads : before.threads = engine.threads) (hvars' : after.vars = engine'.vars)
    (hthreads' : after.threads = engine'.threads) : Restores setup before after := by
  cases h with
  | kept h => exact .kept (by rw [hvars', h, hvars])
  | restored hstack hrest h => exact .restored (hthreads.trans hstack) (hthreads'.trans hrest) (by rw [hvars', h, hvars])

/-- A run of lines that ends after the program only unwinds. -/
theorem unwinds_afterRun {answer : Except RuntimeError Flow} {stack : Stack .run}
    (hquiet : ¬ (Control.ran answer stack).Busy) :
    ¬ (afterRun setup engine answer stack).control.Busy ∧
      Restores setup engine (afterRun setup engine answer stack).engine := by
  cases stack with
  | body after rest =>
    simp only [afterRun, afterBody]
    split <;> exact ⟨id, .kept rfl⟩
  | loop id body rest =>
    have hpop : Restores setup engine engine.popLoop := restores_onThread engine _
    simp only [afterRun, afterRound]
    split
    · exact ⟨fun h => h, hpop⟩
    · exact absurd trivial hquiet
    · exact absurd trivial hquiet
    · exact ⟨fun h => h, hpop⟩
    · exact ⟨fun h => h, hpop⟩
  | thread mode waiting rest =>
    have hpop := restores_popThread setup engine waiting
    simp only [afterRun, afterThread]
    split
    · exact ⟨id, .kept rfl⟩
    · exact ⟨id, hpop.congr rfl rfl rfl rfl⟩
    · exact ⟨id, hpop⟩
    · exact ⟨id, hpop.congr rfl rfl rfl rfl⟩

/-- After the end of the program a step only unwinds. -/
theorem unwinds_step {machine : Machine} (hended : machine.engine.terminated = true) (hquiet : ¬ machine.control.Busy) :
    ¬ (machine.step setup).control.Busy ∧ Restores setup machine.engine (machine.step setup).engine := by
  obtain ⟨engine, control⟩ := machine
  replace hended : engine.terminated = true := hended
  cases control with
  | enter start mode stack =>
    cases stack with
    | body | loop => exact absurd trivial hquiet
    | thread =>
      simp only [Machine.step]
      split <;> exact ⟨id, .kept rfl⟩
  | walk cur level mode stack =>
    cases stack with
    | body | loop => exact absurd trivial hquiet
    | thread =>
      simp only [Machine.step, walk]
      split
      · exact ⟨id, .kept rfl⟩
      · rename_i start
        have hnote := restores_noteLine setup engine start
        split
        · split <;> exact ⟨id, .kept rfl⟩
        · split
          · exact ⟨id, hnote.congr rfl rfl rfl rfl⟩
          · exact ⟨id, hnote⟩
  | reach id level mode stack =>
    simp only [Machine.step, hended, if_true]
    exact ⟨by cases stack <;> exact fun h => h, .kept rfl⟩
  | step | call | round | sleep => exact absurd trivial hquiet
  | ran answer stack => exact unwinds_afterRun hquiet
  | stepped answer stack =>
    cases stack with
    | line mark level mode rest =>
      simp only [Machine.step, afterLine, hended, if_true]
      split <;> exact ⟨by cases rest <;> exact id, .kept rfl⟩
  | poll ran stack =>
    simp only [Machine.step, hended, if_true]
    exact ⟨id, .kept rfl⟩
  | polled ran stack =>
    cases stack with
    | hostQueue | tick => exact ⟨id, .kept rfl⟩
    | hostIdle =>
      simp only [Machine.step, afterPoll]
      split <;> exact ⟨id, .kept rfl⟩
    | command | sleep =>
      simp only [Machine.step, afterPoll, afterSlice, hended, Bool.true_or, if_true]
      exact ⟨fun h => h, .kept rfl⟩
  | idle deadline =>
    simp only [Machine.step, hended, if_true]
    exact ⟨id, .kept rfl⟩
  | ended stack => cases stack <;> exact ⟨id, .kept rfl⟩
  | done ran => exact ⟨id, .kept rfl⟩

/-- What a host asks for starts a thread, looks at the queue or is done at once. -/
theorem not_busy_start (call : HostCall) : ¬ (call.start setup engine).control.Busy := by
  cases call with
  | autoExecute =>
    simp only [HostCall.start, HostCall.autoExecuteOn]
    split <;> exact id
  | dispatch trigger =>
    simp only [HostCall.start, HostCall.dispatchOn]
    split <;> exact id
  | send | runPending | fireTimers | idle => exact id
  | exitApp =>
    simp only [HostCall.start, HostCall.exitAppOn]
    split
    · exact id
    · split <;> exact id

/-- What a host asks of a program that has ended changes no variable. -/
theorem vars_start (hended : engine.terminated = true) (call : HostCall) :
    (call.start setup engine).engine.vars = engine.vars := by
  cases call with
  | autoExecute =>
    simp only [HostCall.start, HostCall.autoExecuteOn]
    split <;> rfl
  | dispatch trigger => simp only [HostCall.start, HostCall.dispatchOn, Engine.decide, hended, if_true]
  | send | runPending | fireTimers | idle => rfl
  | exitApp => simp only [HostCall.start, HostCall.exitAppOn, hended, if_true]

end

/-! ## Whatever comes later -/

/-- What happens to a machine next: it takes a step, or the host asks for something or takes the errors. -/
inductive Move (setup : Setup) : Machine → Machine → Prop
  | step {machine machine' : Machine} (h : Next setup machine machine') : Move setup machine machine'
  | call {now : Engine} {ran : Nat} (call : HostCall) : Move setup ⟨now, .done ran⟩ (call.start setup now)
  | taken {now : Engine} {ran : Nat} : Move setup ⟨now, .done ran⟩ ⟨{ now with errors := [] }, .done ran⟩

variable {setup : Setup} {engine : Engine} {machine machine' : Machine}

/-- A program that has ended is not busy. -/
theorem Reachable.not_busy (h : Reachable setup engine machine) (hended : machine.engine.terminated = true) :
    ¬ machine.control.Busy := by
  induction h with
  | start | taken => exact id
  | call _ call => exact not_busy_start call
  | @step machine _ _ hnext ih =>
    obtain ⟨now, helapses, rfl⟩ := hnext
    by_cases hbefore : now.terminated = true
    · exact (@unwinds_step setup ⟨now, machine.control⟩ hbefore (ih (helapses.terminated_eq.symm.trans hbefore))).1
    · exact fun hbusy => hbefore ((terminated_step_of_busy hbusy).symm.trans hended)

/-- Whatever happens after the end, the program has ended, is not busy, and at most gives the error level back. -/
theorem Move.unwinds (h : Move setup machine machine') (hended : machine.engine.terminated = true)
    (hquiet : ¬ machine.control.Busy) :
    machine'.engine.terminated = true ∧ ¬ machine'.control.Busy ∧ Restores setup machine.engine machine'.engine := by
  cases h with
  | step hnext =>
    refine ⟨hnext.terminated hended, ?_⟩
    obtain ⟨now, helapses, rfl⟩ := hnext
    obtain ⟨hquiet', hrestores⟩ := @unwinds_step setup ⟨now, machine.control⟩ (helapses.terminated_eq.trans hended) hquiet
    obtain ⟨world, triggers, rfl⟩ := helapses
    exact ⟨hquiet', hrestores.congr rfl rfl rfl rfl⟩
  | call call => exact ⟨(carries_start call).terminated hended, not_busy_start call, .kept (vars_start hended call)⟩
  | taken => exact ⟨hended, id, .kept rfl⟩

/-- A sequence of moves after the end keeps all variables but the error level. -/
theorem unwinds_moves {later : Machine} (h : Relation.ReflTransGen (Move setup) machine later)
    (hended : machine.engine.terminated = true) (hquiet : ¬ machine.control.Busy) :
    later.engine.terminated = true ∧ ¬ later.control.Busy ∧
      ∀ id, id ≠ setup.errorLevel → later.engine.vars.slots[id]? = machine.engine.vars.slots[id]? := by
  induction h with
  | refl => exact ⟨hended, hquiet, fun _ _ => rfl⟩
  | tail _ hmove ih =>
    obtain ⟨hended', hquiet', hslots⟩ := ih
    obtain ⟨hended'', hquiet'', hrestores⟩ := hmove.unwinds hended' hquiet'
    exact ⟨hended'', hquiet'', fun id hne => (hrestores.slot_eq hne).trans (hslots id hne)⟩

end Machine

namespace Program

open Machine

/-- Once a program has ended it stays so, whatever the host asks for: no line runs, no command is called, no variable but the
error level changes, and that one changes only when a thread ends and gives back what it found. -/
theorem nothing_after_end (program : Program) (config : Config) (perform : Performer) (world : World) :
    let setup := (Engine.start program config perform world).1
    let engine := (Engine.start program config perform world).2
    ∀ machine later, Reachable setup engine machine → machine.engine.terminated = true →
      Relation.ReflTransGen (Move setup) machine later →
      later.engine.terminated = true ∧ ¬ later.IsStep ∧ ¬ later.IsCall ∧
      (∀ id, id ≠ setup.errorLevel → later.engine.vars.slots[id]? = machine.engine.vars.slots[id]?) ∧
      ∀ after, Move setup later after → Restores setup later.engine after.engine := by
  intro setup engine machine later hreach hended hmoves
  obtain ⟨hended', hquiet, hslots⟩ := unwinds_moves hmoves hended (hreach.not_busy hended)
  refine ⟨hended', ?_, ?_, hslots, fun after hmove => (hmove.unwinds hended' hquiet).2.2⟩
  · rintro ⟨id, stack, hcontrol⟩
    exact hquiet (hcontrol ▸ trivial)
  · rintro ⟨id, cmd, stack, hcontrol⟩
    exact hquiet (hcontrol ▸ trivial)

/-- A program that ends in a routine of a thread that interrupts it while it sleeps in a loop. -/
def endedInside : List Item :=
  let line (keyword : String) (args : List String) (lineNo : Nat) : Item :=
    .statement { keyword, args := args.map .plain, lineNo } []
  [line "Fire" ["quit"] 1, line "Loop" ["2"] 2, line "\x7b" [] 3, line "Sleep" ["20"] 4, line "+=" ["n", "1"] 5,
    line "\x7d" [] 6, line "Return" [] 7, .label "quit" 8, line "Gosub" ["out"] 8, line "Return" [] 9, .label "out" 10,
    line "ExitApp" [] 10]

/-- After some steps `endedInside` has ended, with two threads and five nested runs of lines. -/
theorem endedInside_ends :
    (match load Standard.commands endedInside with
    | .ok program =>
      let (setup, engine) := Engine.start program {} Standard.perform default
      let machine := (step setup)^[28] (HostCall.autoExecute.start setup engine)
      machine.engine.terminated && machine.engine.threads.length == 2 && machine.engine.depth == 5
    | .error _ => false) = true := by
  decide +kernel

/-- With two threads and five nested runs of lines still there, the end of the program is the end of everything. -/
theorem nothing_after_endedInside :
    ∃ program, load Standard.commands endedInside = .ok program ∧
      let setup := (Engine.start program {} Standard.perform default).1
      let engine := (Engine.start program {} Standard.perform default).2
      let machine := (step setup)^[28] (HostCall.autoExecute.start setup engine)
      Reachable setup engine machine ∧ machine.engine.terminated = true ∧ machine.engine.threads.length = 2 ∧
      machine.engine.depth = 5 ∧
      ∀ later, Relation.ReflTransGen (Move setup) machine later →
        later.engine.terminated = true ∧ ¬ later.IsStep ∧ ¬ later.IsCall ∧
        (∀ id, id ≠ setup.errorLevel → later.engine.vars.slots[id]? = machine.engine.vars.slots[id]?) ∧
        ∀ after, Move setup later after → Restores setup later.engine after.engine := by
  have hends := endedInside_ends
  cases hload : load Standard.commands endedInside with
  | error e => rw [hload] at hends; cases hends
  | ok program =>
    simp only [hload, Bool.and_eq_true, beq_iff_eq] at hends
    obtain ⟨⟨hended, hthreads⟩, hdepth⟩ := hends
    refine ⟨program, rfl, ?_⟩
    intro setup engine machine
    have hreach : Reachable setup engine machine := reachable_iterate (.call .start .autoExecute) 28
    exact ⟨hreach, hended, hthreads, hdepth, fun later hlater =>
      nothing_after_end program {} Standard.perform default machine later hreach hended hlater⟩

end Program

end LineScript
