import LineScript.Command.Standard
import LineScript.Engine.Host

/-!
# Running a program from start to end

A host that runs a program on its own: first the lines from the start, then the routines of some labels, then what waits
in the queue, then the timers for a limited time, and at last the exit routine. `Runner.step` takes one step, so whoever
drives it may pass on what was printed and let time pass.
-/

namespace LineScript

/-- What the host asked for last. -/
inductive Phase where
  /-- To run the program, with labels to fire after it. -/
  | firing (labels : List String)
  /-- To look at the queue, with the time for timers after it. -/
  | pending
  /-- To serve timers until a time. -/
  | timers (deadline : Nat)
  /-- To end. -/
  | ending
  /-- Nothing more: the program is done. -/
  | finished
  deriving DecidableEq

/-- A program on its way from start to end. -/
structure Runner where
  /-- What stays the same. -/
  setup : Setup
  /-- How long timers are served, in milliseconds. -/
  timeout : Nat
  /-- What the host asked for last. -/
  phase : Phase
  /-- The machine that does it. -/
  machine : Machine

namespace Runner

/-- How long timers are served at a time, in milliseconds. -/
def timerSlice : Nat := 10

/-- A program before its first line. -/
def start (program : Program) (config : Config) (labels : List String) (timeout : Nat) (world : World) : Runner :=
  let (setup, engine) := Engine.start program config Standard.perform world
  { setup, timeout, phase := .firing labels, machine := HostCall.autoExecute.start setup engine }

/-- What the engine holds. -/
def engine (runner : Runner) : Engine :=
  runner.machine.engine

/-- Whether the program is done. -/
def isFinished (runner : Runner) : Bool :=
  runner.phase == .finished

/-- Asks the host's next question. -/
def ask (runner : Runner) (phase : Phase) (call : HostCall) : Runner :=
  { runner with phase, machine := call.start runner.setup runner.engine }

/-- Serves timers while there are any and time is left, and ends then. -/
def serveTimers (runner : Runner) (deadline : Nat) : Runner :=
  let engine := runner.engine
  if engine.timers.anyEnabled && !engine.terminated && engine.world.now < deadline then
    runner.ask (.timers deadline) (.idle timerSlice)
  else runner.ask .ending .exitApp

/-- Goes on once the machine has done what it was asked for. -/
def proceed (runner : Runner) : Runner :=
  match runner.phase with
  | .firing [] => runner.ask .pending .runPending
  | .firing (label :: rest) =>
    if runner.engine.terminated then runner.ask .pending .runPending
    else runner.ask (.firing rest) (.dispatch { kind := .hotkey, label })
  | .pending => runner.serveTimers (runner.engine.world.now + runner.timeout)
  | .timers deadline => runner.serveTimers deadline
  | .ending | .finished => { runner with phase := .finished }

/-- Takes one step. -/
def step (runner : Runner) : Runner :=
  match runner.machine.control with
  | .done _ => runner.proceed
  | _ => { runner with machine := runner.machine.step runner.setup }

/-- Takes steps until the program is done, at most `fuel` of them. -/
def run : (fuel : Nat) → Runner → Runner
  | 0, runner => runner
  | fuel + 1, runner => if runner.isFinished then runner else run fuel runner.step

end Runner

end LineScript
