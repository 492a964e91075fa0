import LineScript.Engine.Machine

/-!
# Calls of the host

What the host of a program may ask of it: to run from its first line, to admit a trigger, to look at the queue, to pass
time and to end. Each call gives the machine that does it.
-/

namespace LineScript

/-- What became of a trigger that the host handed over. -/
inductive Admission where
  | ran
  | deferred
  | refused
  deriving DecidableEq

/-- A call of the host. -/
inductive HostCall where
  /-- Runs the program from its first line. -/
  | autoExecute
  /-- Starts the routine of a trigger if it may run, queues the trigger if it has to wait, and drops it otherwise. -/
  | dispatch (trigger : Trigger)
  /-- Puts a trigger on the queue. -/
  | send (trigger : Trigger)
  /-- Starts the threads of waiting triggers, in order, until one has to wait. -/
  | runPending
  /-- Queues triggers for the timers that are due at a time. -/
  | fireTimers (now : Nat)
  /-- Looks at the queue for some milliseconds, or until the program ends. -/
  | idle (ms : Nat)
  /-- Ends the program. The exit routine comes first. -/
  | exitApp
  deriving DecidableEq

namespace HostCall

/-- The machine that runs a program from its first line. -/
def autoExecuteOn (setup : Setup) (engine : Engine) : Machine :=
  match setup.script.firstLine? with
  | some first => Machine.launch setup engine first none { kind := .internal, label := "" } .host
  | none => ⟨engine, .done 0⟩

/-- What becomes of a trigger that the host hands over. -/
def admission (setup : Setup) (engine : Engine) (trigger : Trigger) : Admission :=
  match engine.decide setup trigger with
  | .run _ => .ran
  | .defer => .deferred
  | .refuse => .refused

/-- The machine that does what becomes of a trigger. -/
def dispatchOn (setup : Setup) (engine : Engine) (trigger : Trigger) : Machine :=
  match engine.decide setup trigger with
  | .run label => Machine.launchLabel setup engine label trigger .host
  | .defer => ⟨engine.send trigger, .done 0⟩
  | .refuse => ⟨engine, .done 0⟩

/-- The machine that ends a program. -/
def exitAppOn (setup : Setup) (engine : Engine) : Machine :=
  if engine.terminated then ⟨engine, .done 0⟩
  else match engine.onExit, engine.exitRunning with
    | some label, false => Machine.launchExit setup engine label .hostExit
    | _, _ => ⟨{ engine with terminated := true }, .done 0⟩

/-- The machine that does what the host asks for. -/
def start (setup : Setup) (engine : Engine) : HostCall → Machine
  | autoExecute => autoExecuteOn setup engine
  | dispatch trigger => dispatchOn setup engine trigger
  | send trigger => ⟨engine.send trigger, .done 0⟩
  | runPending => Machine.lookAtQueue setup engine .hostQueue
  | fireTimers now => ⟨engine.fireTimers setup now, .done (engine.timers.due now).length⟩
  | idle ms => ⟨engine, .idle (engine.world.now + ms)⟩
  | exitApp => exitAppOn setup engine

/-- Does what the host asks for, in at most `fuel` steps. -/
def run (setup : Setup) (fuel : Nat) (engine : Engine) (call : HostCall) : Option (Nat × Engine) :=
  (call.start setup engine).run setup fuel

end HostCall

end LineScript
