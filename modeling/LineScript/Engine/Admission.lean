import LineScript.Engine.Basic

/-!
# Admitting triggers

Whether a trigger may start a thread now, has to wait, or is dropped; and what changes when a thread starts and ends.
-/

namespace LineScript

/-- What becomes of a trigger. -/
inductive Decision where
  /-- The routine at the label runs now. -/
  | run (label : LabelId)
  /-- It waits until the running thread can be interrupted. -/
  | defer
  /-- It is dropped. -/
  | refuse
  deriving DecidableEq

namespace Engine

/-- The number of threads of a label. -/
def runningOf (engine : Engine) (label : LabelId) : Nat :=
  (engine.threads.filter fun thread => thread.label == some label).length

/-- Whether the running thread lets a trigger interrupt it. -/
def mayInterrupt (engine : Engine) (trigger : Trigger) : Bool :=
  match engine.threads.head? with
  | none => true
  | some thread => (engine.waiting || !thread.isFresh engine.world.now) && !(trigger.priority < thread.priority)

/-- What becomes of a trigger now. A trigger is dropped when the program has ended, when its label does not exist or has
as many threads as the trigger allows, and when it is a hotkey while hotkeys are suspended. It waits when there are as
many threads as the settings allow, or when the running thread does not let it interrupt. -/
def decide (setup : Setup) (engine : Engine) (trigger : Trigger) : Decision :=
  if engine.terminated then .refuse
  else match setup.script.labels.find? trigger.label with
    | none => .refuse
    | some label =>
      if trigger.maxThreads ≤ engine.runningOf label then .refuse
      else if engine.suspended && trigger.isHotkey && !setup.script.isExempt label then .refuse
      else if setup.config.maxThreads ≤ engine.threads.length then .defer
      else if engine.mayInterrupt trigger then .run label
      else .defer

/-- The thread a trigger starts. -/
def newThread (setup : Setup) (engine : Engine) (label : Option LabelId) (trigger : Trigger) : Thread :=
  { label, labelName := trigger.label, name := trigger.name, kind := trigger.kind, priority := trigger.priority
    started := engine.world.now, freshMs := engine.freshMs, freshLines := engine.freshLines
    mark := engine.scratch.mark, savedErrorLevel := engine.vars.get setup.errorLevel }

/-- Stacks a thread. One that starts while another waits is not itself waiting. -/
def pushThread (setup : Setup) (engine : Engine) (label : Option LabelId) (trigger : Trigger) : Engine :=
  let thread := engine.newThread setup label trigger
  let engine := if trigger.isHotkey then
      { engine with priorHotkey := engine.lastHotkey, lastHotkey := trigger.name }
    else engine
  { engine with threads := thread :: engine.threads, waiting := false }

/-- Takes the running thread off the stack. The error level and the scratch buffer are as they were when it started. -/
def popThread (setup : Setup) (engine : Engine) (waiting : Bool) : Engine :=
  match engine.threads with
  | [] => { engine with waiting }
  | thread :: rest =>
    { engine with
      waiting
      threads := rest
      vars := engine.vars.put setup.errorLevel thread.savedErrorLevel
      scratch := engine.scratch.release thread.mark }

end Engine

end LineScript
