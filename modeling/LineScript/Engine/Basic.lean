import LineScript.Config
import LineScript.History
import LineScript.Script
import LineScript.Thread
import LineScript.Timer
import LineScript.World

/-!
# The engine

What a running program holds: its variables, its threads, the triggers that wait, its timers and the world it runs in.
What stays the same while it runs (the program, the settings, the meaning of commands) is kept apart in a `Setup`.
-/

namespace LineScript

/-- What stays the same while a program runs. -/
structure Setup where
  /-- The program. -/
  script : Script
  /-- The settings. -/
  config : Config
  /-- What the commands do. -/
  perform : Performer
  /-- The slot of the variable that says how a command ended. -/
  errorLevel : VarId

/-- What a running program holds. -/
structure Engine where
  /-- The variables. -/
  vars : Variables
  /-- The world outside. -/
  world : World
  /-- The expanded texts of running lines. -/
  scratch : Scratch
  /-- The threads, the running one first. -/
  threads : List Thread := []
  /-- The triggers that wait, the first to be looked at first. -/
  queue : List Trigger := []
  /-- The timers. -/
  timers : Timers := {}
  /-- The routine to run before the program ends. -/
  onExit : Option LabelId := none
  /-- Whether that routine is running. -/
  exitRunning : Bool := false
  /-- Whether hotkeys are suspended. -/
  suspended : Bool := false
  /-- Whether the program has ended. -/
  terminated : Bool := false
  /-- Whether the running thread is idle on purpose, and may be interrupted even while fresh. -/
  waiting : Bool := false
  /-- How deep runs of lines are nested. -/
  depth : Nat := 0
  /-- The name of the hotkey before the last one. -/
  priorHotkey : String := ""
  /-- The name of the last hotkey. -/
  lastHotkey : String := ""
  /-- For how long new threads are not interrupted, in milliseconds. -/
  freshMs : Nat
  /-- For how many lines new threads are not interrupted. -/
  freshLines : Nat
  /-- The problems that ended threads. -/
  errors : List RuntimeError := []
  /-- The lines run last. -/
  history : History := {}
  /-- The lines run since waiting triggers were looked at. -/
  batchLines : Nat := 0
  /-- When waiting triggers were looked at. -/
  batchStarted : Nat := 0

namespace Setup

/-- A problem at a line of the program. -/
def problemAt (setup : Setup) (id : LineId) (problem : Problem) : RuntimeError :=
  { problem, place := setup.script.place id, line := id }

end Setup

namespace Engine

/-- The name of the variable that says how a command ended. -/
def errorLevelName : String := "ErrorLevel"

/-- An engine for a program, before its first line, with what stays the same while it runs. -/
def start (program : Program) (config : Config) (perform : Performer) (world : World) : Setup × Engine :=
  let (vars, errorLevel) := program.vars.intern errorLevelName
  ({ script := program.script, config, perform, errorLevel },
    { vars, world, scratch := { limit := config.maxMemory }, freshMs := config.uninterruptibleMs
      freshLines := config.uninterruptedLines, batchStarted := world.now })

/-- What the engine variables hold at the moment. -/
def view (engine : Engine) : Expansion.View
  | .priorHotkey => .text engine.priorHotkey
  | .tickCount => .int (Int64.ofNat engine.world.now)
  | .space => .text " "
  | .tab => .text "\t"
  | b =>
    match engine.threads.head? with
    | some thread => thread.view b
    | none => if b == .index then .int 0 else .empty

/-- Expands the arguments of a line. -/
def expand (engine : Engine) (line : Line) : Engine × Except Problem ExpandedArgs :=
  match Expansion.expand engine.view engine.vars engine.scratch line with
  | (vars, .error e) => ({ engine with vars }, .error e)
  | (vars, .ok (scratch, args)) => ({ engine with vars, scratch }, .ok args)

/-- Changes the running thread. -/
def onThread (engine : Engine) (change : Thread → Thread) : Engine :=
  match engine.threads with
  | [] => engine
  | thread :: rest => { engine with threads := change thread :: rest }

/-- Queues a trigger. -/
def send (engine : Engine) (trigger : Trigger) : Engine :=
  { engine with queue := engine.queue ++ [trigger] }

/-- Queues a trigger for every timer that is due at a time. -/
def fireTimers (setup : Setup) (engine : Engine) (now : Nat) : Engine :=
  let triggers := (engine.timers.due now).map fun timer =>
    ({ kind := .timer, label := setup.script.labels.name timer.label, priority := timer.priority } : Trigger)
  { engine with timers := engine.timers.afterDue now, queue := engine.queue ++ triggers }

/-- Does what a command asked for. -/
def act (engine : Engine) : Deed → Engine
  | .print text => { engine with world := engine.world.print text }
  | .append path text =>
    match engine.world.files.append path (text ++ "\n").toUTF8 with
    | .ok files => { engine with world := { engine.world with files } }
    | .error _ => engine
  | .declare name =>
    match engine.vars.resolve name with
    | .ok (vars, _) => { engine with vars }
    | .error _ => engine
  | .store var value => { engine with vars := engine.vars.put var value }
  | .send trigger => engine.send trigger
  | .wait ms => { engine with world := engine.world.wait ms }

/-- What is noted before a line runs: the history, and how many lines the thread has run. -/
def noteLine (engine : Engine) (id : LineId) : Engine :=
  let engine := engine.onThread fun thread => { thread with linesRun := thread.linesRun + 1 }
  { engine with history := engine.history.push id, batchLines := engine.batchLines + 1 }

/-- Whether it is time to look at waiting triggers. -/
def isBatchOver (setup : Setup) (engine : Engine) : Bool :=
  let config := setup.config
  (0 < config.batchLines && config.batchLines ≤ engine.batchLines) ||
    (0 < config.batchMs && config.batchMs ≤ engine.world.now - engine.batchStarted)

/-- Starts counting lines and time anew. -/
def startBatch (engine : Engine) : Engine :=
  { engine with batchLines := 0, batchStarted := engine.world.now }

end Engine

end LineScript
