import LineScript.Text.Basic

/-!
# Triggers

A trigger asks for the routine at a label to run as a new thread. Triggers that cannot run at once wait in a queue, first
in, first out.
-/

namespace LineScript

/-- What a trigger comes from. -/
inductive TriggerKind where
  | hotkey
  | hotstring
  | timer
  | menu
  | onExit
  | internal
  deriving DecidableEq

/-- A request to run the routine at a label. -/
structure Trigger where
  /-- What it comes from. -/
  kind : TriggerKind
  /-- The label. -/
  label : String
  /-- The name the routine sees as its hotkey. -/
  name : String := label
  /-- Threads of a higher priority are not interrupted by it. -/
  priority : Int32 := 0
  /-- How many threads of the label may run at once. -/
  maxThreads : Nat := 1
  deriving DecidableEq

namespace Trigger

/-- A trigger lets at least one thread of its label run. -/
def withMaxThreads (trigger : Trigger) (n : Nat) : Trigger :=
  { trigger with maxThreads := max 1 n }

/-- Whether suspending hotkeys keeps a trigger out. -/
def isHotkey (trigger : Trigger) : Bool :=
  trigger.kind == .hotkey || trigger.kind == .hotstring

end Trigger

end LineScript
