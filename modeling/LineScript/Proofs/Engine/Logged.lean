import Mathlib.Logic.Function.Iterate
import LineScript.Proofs.Engine.Reachable
import LineScript.Proofs.Engine.Spared
import LineScript.Proofs.Structured.Simulation

/-!
# The log of a run

What happened in a run so far and cannot be read off the engine any more: which triggers were sent and which the host handed
over, in order, and what each thread on the stack was started by (`Log`). Every reachable machine has a log
(`Machine.Reachable.exists_log`); the log only watches and decides nothing.
-/

namespace LineScript

/-- What a thread on the stack was started by. -/
inductive Start where
  /-- The host let the program run from its first line. -/
  | program
  /-- The program is to end, and its exit routine comes first. -/
  | exit
  /-- A trigger was let in at a label. The engine is the one that was asked, and the flag says whether a thread that is idle on
  purpose looked at the queue. -/
  | trigger (trigger : Trigger) (label : LabelId) (asked : Engine) (idle : Bool)

/-- What happened so far. -/
structure Log where
  /-- The triggers put on the queue, first sent first. -/
  sent : List Trigger := []
  /-- The triggers that the host handed over without the queue. -/
  offered : List Trigger := []
  /-- What the threads on the stack were started by, the running one first. -/
  starts : List Start := []

/-- The trigger that a command sends by a deed. -/
def Deed.trigger? : Deed → Option Trigger
  | .send trigger => some trigger
  | _ => none

/-- The triggers that a command sends, in order. -/
def Reply.triggers (reply : Reply) : List Trigger :=
  reply.deeds.filterMap Deed.trigger?

/-- The triggers of the timers that are due at a time. -/
def Engine.timerTriggers (setup : Setup) (engine : Engine) (now : Nat) : List Trigger :=
  (engine.timers.due now).map fun timer =>
    { kind := .timer, label := setup.script.labels.name timer.label, priority := timer.priority }

/-- Whether what a stack waits for is a look at the queue by a thread that is idle on purpose, or a thread that such a look has
started. -/
def Stack.isIdle : {a : Awaited} → Stack a → Bool
  | _, .sleep .. | _, .command .. => true
  | _, .queue _ rest => rest.isIdle
  | _, _ => false

namespace Machine

/-- A machine some time later: the world has gone on, and triggers have arrived. -/
def later (machine : Machine) (world : World) (triggers : List Trigger) : Machine :=
  ⟨{ machine.engine with world, queue := machine.engine.queue ++ triggers }, machine.control⟩

/-- The trigger that is decided on in the next step, with the decision. -/
def asked? (setup : Setup) (machine : Machine) : Option (Trigger × Decision) :=
  match machine.control with
  | .poll _ _ =>
    if machine.engine.terminated then none
    else machine.engine.queue.head?.map fun trigger => (trigger, machine.engine.decide setup trigger)
  | _ => none

/-- Whether the next step begins a look at the queue. -/
def looks (setup : Setup) (machine : Machine) : Bool :=
  match machine.control with
  | .walk (some id) _ _ _ =>
    (setup.script.line id).action != .blockEnd && (machine.engine.noteLine id).isBatchOver setup
  | .step id _ =>
    match (setup.script.line id).action with
    | .command cmd => (setup.script.commands.get cmd).waits
    | _ => false
  | .sleep .. => true
  | .idle _ => !machine.engine.terminated
  | _ => false

/-- The triggers that the next step sends: those of timers that are due when the queue is looked at, and those of a command. -/
def sends (setup : Setup) (machine : Machine) : List Trigger :=
  (if machine.looks setup then machine.engine.timerTriggers setup machine.engine.world.now else []) ++
    (machine.calls setup).flatMap fun call => (setup.perform call).triggers

/-- Whether the next step starts the exit routine. -/
def startsExit (setup : Setup) (machine : Machine) : Bool :=
  match machine.control with
  | .step id _ =>
    (setup.script.line id).action == .exitApp && machine.engine.onExit.isSome && !machine.engine.exitRunning
  | _ => false

/-- What the threads on the stack were started by, after the next step. -/
def startsAfter (setup : Setup) (machine : Machine) (starts : List Start) : List Start :=
  match machine.control with
  | .poll _ stack =>
    match machine.asked? setup with
    | some (trigger, .run label) => .trigger trigger label machine.engine stack.isIdle :: starts
    | _ => starts
  | .ran answer (.thread ..) =>
    match answer with
    | .ok (.goto _) => starts
    | _ => starts.tail
  | _ => if machine.startsExit setup then .exit :: starts else starts

end Machine

namespace HostCall

/-- The triggers that a call of the host sends. One that is handed over is sent only if it has to wait. -/
def sends (setup : Setup) (engine : Engine) : HostCall → List Trigger
  | .send trigger => [trigger]
  | .dispatch trigger => if engine.decide setup trigger = .defer then [trigger] else []
  | .runPending => engine.timerTriggers setup engine.world.now
  | .fireTimers now => engine.timerTriggers setup now
  | .autoExecute | .idle _ | .exitApp => []

/-- The trigger that a call of the host hands over without the queue. -/
def offers : HostCall → List Trigger
  | .dispatch trigger => [trigger]
  | _ => []

/-- What the thread that a call of the host starts is started by, if there is one. -/
def starts (setup : Setup) (engine : Engine) : HostCall → List Start
  | .autoExecute => if setup.script.firstLine?.isSome then [.program] else []
  | .dispatch trigger =>
    match engine.decide setup trigger with
    | .run label => [.trigger trigger label engine false]
    | _ => []
  | .exitApp => if !engine.terminated && engine.onExit.isSome && !engine.exitRunning then [.exit] else []
  | .send _ | .runPending | .fireTimers _ | .idle _ => []

end HostCall

namespace Log

/-- The log after triggers have arrived and a step was taken. -/
def afterStep (setup : Setup) (triggers : List Trigger) (machine : Machine) (log : Log) : Log :=
  { log with
    sent := log.sent ++ triggers ++ machine.sends setup
    starts := machine.startsAfter setup log.starts }

/-- The log after a call of the host. -/
def afterCall (setup : Setup) (engine : Engine) (call : HostCall) (log : Log) : Log :=
  { sent := log.sent ++ call.sends setup engine
    offered := log.offered ++ call.offers
    starts := call.starts setup engine ++ log.starts }

end Log

namespace Machine

/-- The machines that the calls of a host lead to, each with its log. -/
inductive Logged (setup : Setup) (engine : Engine) : Machine → Log → Prop
  /-- Nothing has been asked for. -/
  | start : Logged setup engine ⟨engine, .done 0⟩ {}
  /-- A step is taken, some time later. -/
  | step {machine : Machine} {log : Log} (h : Logged setup engine machine log) (world : World) (triggers : List Trigger) :
    Logged setup engine ((machine.later world triggers).step setup)
      (log.afterStep setup triggers (machine.later world triggers))
  /-- The host asks for something once nothing is to be done. -/
  | call {now : Engine} {ran : Nat} {log : Log} (h : Logged setup engine ⟨now, .done ran⟩ log) (call : HostCall) :
    Logged setup engine (call.start setup now) (log.afterCall setup now call)
  /-- The host takes the errors. -/
  | taken {now : Engine} {ran : Nat} {log : Log} (h : Logged setup engine ⟨now, .done ran⟩ log) :
    Logged setup engine ⟨{ now with errors := [] }, .done ran⟩ log

variable {setup : Setup} {engine : Engine} {machine : Machine}

/-- Every reachable machine has a log. -/
theorem Reachable.exists_log (h : Reachable setup engine machine) : ∃ log, Logged setup engine machine log := by
  induction h with
  | start => exact ⟨{}, .start⟩
  | step _ hnext ih =>
    obtain ⟨log, hlog⟩ := ih
    obtain ⟨now, ⟨world, triggers, rfl⟩, rfl⟩ := hnext
    exact ⟨_, .step hlog world triggers⟩
  | call _ call ih =>
    obtain ⟨log, hlog⟩ := ih
    exact ⟨_, .call hlog call⟩
  | taken _ ih =>
    obtain ⟨log, hlog⟩ := ih
    exact ⟨log, .taken hlog⟩

/-- Only reachable machines have logs. -/
theorem Logged.reachable {log : Log} (h : Logged setup engine machine log) : Reachable setup engine machine := by
  induction h with
  | start => exact .start
  | step _ world triggers ih => exact .step ih ⟨_, ⟨world, triggers, rfl⟩, rfl⟩
  | call _ call ih => exact .call ih call
  | taken _ ih => exact .taken ih

/-- A machine and its log after a step with nothing happening outside. -/
def advance (setup : Setup) (state : Machine × Log) : Machine × Log :=
  (state.1.step setup, state.2.afterStep setup [] state.1)

/-- A machine is the same later if nothing changed outside. -/
theorem later_self (machine : Machine) : machine.later machine.engine.world [] = machine := by
  simp only [later, List.append_nil]

/-- Steps taken one after the other, with nothing happening outside, are logged. -/
theorem Logged.iterate {log : Log} (h : Logged setup engine machine log) (n : Nat) :
    Logged setup engine ((advance setup)^[n] (machine, log)).1 ((advance setup)^[n] (machine, log)).2 := by
  induction n with
  | zero => exact h
  | succ n ih =>
    rw [Function.iterate_succ_apply']
    have hnext := Logged.step ih ((advance setup)^[n] (machine, log)).1.engine.world []
    rw [later_self] at hnext
    exact hnext

end Machine

end LineScript
