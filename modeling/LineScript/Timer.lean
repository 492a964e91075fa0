import LineScript.Line

/-!
# Timers

A timer runs the routine at a label again and again. There is at most one timer for a label; setting it again changes it.
Times are in milliseconds.
-/

namespace LineScript

/-- The timer of a label. -/
structure Timer where
  /-- The label. -/
  label : LabelId
  /-- The time from one run to the next. -/
  period : Nat
  /-- The priority of the threads it starts. -/
  priority : Int32 := 0
  /-- Whether it runs at all. -/
  enabled : Bool := false
  /-- Whether it stops after its next run. -/
  once : Bool := false
  /-- When it last ran or was started. -/
  lastRun : Nat
  deriving DecidableEq

namespace Timer

/-- How often a timer is to run: every so many milliseconds, or once after that time. -/
structure Schedule where
  /-- The time from one run to the next. -/
  period : Nat
  /-- Whether there is only one. -/
  once : Bool
  deriving DecidableEq

/-- A change to a timer. -/
structure Setting where
  /-- Whether it is to run. -/
  enabled : Bool
  /-- How often, where that is given. -/
  schedule : Option Schedule := none
  /-- The priority, where that is given. -/
  priority : Option Int32 := none
  deriving DecidableEq

/-- Changes a timer at a time. Starting it, or giving it a schedule while it runs, lets its period begin anew. -/
def change (timer : Timer) (setting : Setting) (now : Nat) : Timer :=
  { timer with
    period := (setting.schedule.map (·.period)).getD timer.period
    once := (setting.schedule.map (·.once)).getD timer.once
    priority := setting.priority.getD timer.priority
    lastRun := if setting.enabled && (!timer.enabled || setting.schedule.isSome) then now else timer.lastRun
    enabled := setting.enabled }

/-- Whether the period of a running timer has passed. -/
def isDue (timer : Timer) (now : Nat) : Bool :=
  timer.enabled && timer.period ≤ now - timer.lastRun

/-- A timer after it ran. -/
def ran (timer : Timer) (now : Nat) : Timer :=
  { timer with lastRun := now, enabled := !timer.once }

end Timer

/-- The timers of a program, in the order they were first set. -/
structure Timers where
  /-- The timers. -/
  entries : List Timer := []
  deriving DecidableEq

namespace Timers

/-- The timer of a label. -/
def get? (timers : Timers) (label : LabelId) : Option Timer :=
  timers.entries.find? (·.label == label)

/-- Sets the timer of a label. One that is new has the default period until it is given a schedule. -/
def set (timers : Timers) (label : LabelId) (setting : Timer.Setting) (defaultPeriod now : Nat) : Timers :=
  match timers.get? label with
  | some _ => ⟨timers.entries.map fun t => if t.label == label then t.change setting now else t⟩
  | none => ⟨timers.entries ++ [({ label, period := defaultPeriod, lastRun := now } : Timer).change setting now]⟩

/-- The timers whose period has passed. -/
def due (timers : Timers) (now : Nat) : List Timer :=
  timers.entries.filter (·.isDue now)

/-- The timers after those that are due ran. -/
def afterDue (timers : Timers) (now : Nat) : Timers :=
  ⟨timers.entries.map fun t => if t.isDue now then t.ran now else t⟩

/-- Whether any timer runs. -/
def anyEnabled (timers : Timers) : Bool :=
  timers.entries.any (·.enabled)

end Timers

end LineScript
