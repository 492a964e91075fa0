import LineScript.Engine.Admission
import LineScript.Engine.Statement

/-!
# Running lines

Execution as a machine that takes one small step at a time. A run of lines walks from line to line under one of four
modes and ends with a `Flow`; loops, routines and interrupting threads are runs inside runs, kept on a `Stack`. What a
stack waits for is part of its type, so every answer meets a frame that can take it.
-/

namespace LineScript

/-- How far a run of lines goes. -/
inductive Mode where
  /-- Until the lines run out. -/
  | toEnd
  /-- Until a `Return`. -/
  | untilReturn
  /-- Until the end of the block that holds the first line. -/
  | untilBlockEnd
  /-- One statement, which may be a whole block or an if with its else. -/
  | oneStatement
  deriving DecidableEq

/-- How a run of lines ended. -/
inductive Flow where
  | normal
  | ret
  | breakLoop
  | continueLoop
  /-- A jump whose target lies outside; runs hand it up until one holds the target. -/
  | goto (target : LineId)
  | exit
  /-- The program ends. -/
  | exitApp
  deriving DecidableEq

/-- What a stack waits for: the end of a run of lines, of a line, of a look at the queue, or of a thread. -/
inductive Awaited where
  | run
  | line
  | queue
  | thread
  deriving DecidableEq

/-- What is still to be done once what it waits for has ended. -/
inductive Stack : Awaited → Type where
  /-- The host started a thread. -/
  | host : Stack .thread
  /-- The host looks at the queue. -/
  | hostQueue : Stack .queue
  /-- The host lets the program end. -/
  | hostExit : Stack .thread
  /-- The host looks at the queue until a time. -/
  | hostIdle (deadline : Nat) : Stack .queue
  /-- A thread runs its lines; the flag says whether the one below was waiting. -/
  | thread (mode : Mode) (waiting : Bool) (rest : Stack .thread) : Stack .run
  /-- A run stands at a line. The mark is where the scratch buffer stood before the line. -/
  | line (mark : Nat) (level : Option LineId) (mode : Mode) (rest : Stack .run) : Stack .line
  /-- A line runs a body or a routine, and goes on after it. -/
  | body (after : Option LineId) (rest : Stack .line) : Stack .run
  /-- A loop runs its body. -/
  | loop (id body : LineId) (rest : Stack .line) : Stack .run
  /-- A run looks at the queue before a line. -/
  | tick (id : LineId) (level : Option LineId) (mode : Mode) (rest : Stack .run) : Stack .queue
  /-- A `Sleep` looks at the queue; the flag says whether the thread was waiting before. -/
  | sleep (id : LineId) (deadline : Nat) (waiting : Bool) (rest : Stack .line) : Stack .queue
  /-- A command that waits looks at the queue first. -/
  | command (id : LineId) (cmd : CommandId) (waiting : Bool) (rest : Stack .line) : Stack .queue
  /-- The queue has started a thread, after so many others. -/
  | queue (ran : Nat) (rest : Stack .queue) : Stack .thread
  /-- An `ExitApp` runs the exit routine. -/
  | exitRoutine (rest : Stack .line) : Stack .thread

/-- What a machine does next. -/
inductive Control where
  /-- Starts a run of lines. -/
  | enter (start : LineId) (mode : Mode) (stack : Stack .run)
  /-- Goes on with a run at a line. The level is the line that encloses its first one. -/
  | walk (cur : Option LineId) (level : Option LineId) (mode : Mode) (stack : Stack .run)
  /-- Comes to a line, after it was noted. -/
  | reach (id : LineId) (level : Option LineId) (mode : Mode) (stack : Stack .run)
  /-- Runs a line. -/
  | step (id : LineId) (stack : Stack .line)
  /-- Calls the command of a line. -/
  | call (id : LineId) (cmd : CommandId) (stack : Stack .line)
  /-- Goes to the next round of a loop. -/
  | round (id body : LineId) (stack : Stack .line)
  /-- Sleeps until a time. -/
  | sleep (id : LineId) (deadline : Nat) (stack : Stack .line)
  /-- Looks at the front of the queue, after so many threads ran. -/
  | poll (ran : Nat) (stack : Stack .queue)
  /-- Looks at the queue until a time. -/
  | idle (deadline : Nat)
  /-- Has ended a run of lines, with a flow or an error. -/
  | ran (answer : Except RuntimeError Flow) (stack : Stack .run)
  /-- Has ended a line, with a flow and the line to go on with, or an error. -/
  | stepped (answer : Except RuntimeError (Flow × Option LineId)) (stack : Stack .line)
  /-- Has looked at the queue, after so many threads ran. -/
  | polled (ran : Nat) (stack : Stack .queue)
  /-- Has ended a thread. -/
  | ended (stack : Stack .thread)
  /-- Has ended, after so many threads from the queue. -/
  | done (ran : Nat)

/-- An engine at work. -/
structure Machine where
  /-- What the program holds. -/
  engine : Engine
  /-- What is done next. -/
  control : Control

namespace Machine

/-- How long a sleeping thread waits between looks at the queue, in milliseconds. -/
def sleepSlice : Nat := 10

/-- How long an idle host waits between looks at the queue, in milliseconds. -/
def idleSlice : Nat := 5

/-- Ends a run of lines. -/
def leave (engine : Engine) (answer : Except RuntimeError Flow) (stack : Stack .run) : Machine :=
  ⟨{ engine with depth := engine.depth - 1 }, .ran answer stack⟩

/-- Ends a line normally. -/
def goOn (engine : Engine) (next : Option LineId) (stack : Stack .line) : Machine :=
  ⟨engine, .stepped (.ok (.normal, next)) stack⟩

/-- Ends a line with a flow other than the normal one. -/
def divert (engine : Engine) (flow : Flow) (stack : Stack .line) : Machine :=
  ⟨engine, .stepped (.ok (flow, none)) stack⟩

/-- Ends a line with a problem. -/
def fail (setup : Setup) (engine : Engine) (id : LineId) (problem : Problem) (stack : Stack .line) : Machine :=
  ⟨engine, .stepped (.error (setup.problemAt id problem)) stack⟩

/-- Ends a line whose statement is done. -/
def settle (setup : Setup) (id : LineId) (next : Option LineId) (stack : Stack .line) :
    Engine × Except Problem Unit → Machine
  | (engine, .error problem) => fail setup engine id problem stack
  | (engine, .ok ()) => goOn engine next stack

/-- Looks at the queue, with the timers that are due in it. -/
def lookAtQueue (setup : Setup) (engine : Engine) (stack : Stack .queue) : Machine :=
  ⟨engine.fireTimers setup engine.world.now, .poll 0 stack⟩

/-- Starts a thread at a line. The program itself runs to its end, a routine until it returns. -/
def launch (setup : Setup) (engine : Engine) (start : LineId) (label : Option LabelId) (trigger : Trigger)
    (stack : Stack .thread) : Machine :=
  let mode := if label.isSome then Mode.untilReturn else Mode.toEnd
  ⟨engine.pushThread setup label trigger, .enter start mode (.thread mode engine.waiting stack)⟩

/-- Starts a thread at a label. -/
def launchLabel (setup : Setup) (engine : Engine) (label : LabelId) (trigger : Trigger) (stack : Stack .thread) : Machine :=
  launch setup engine (setup.script.labels.target label) (some label) trigger stack

/-- Starts the exit routine. -/
def launchExit (setup : Setup) (engine : Engine) (label : LabelId) (stack : Stack .thread) : Machine :=
  launchLabel setup { engine with exitRunning := true } label
    { kind := .onExit, label := setup.script.labels.name label } stack

/-- Runs the body of a conditional line that its answer selects, if there is one. -/
def branch (setup : Setup) (engine : Engine) (id : LineId) (truth : Bool) (stack : Stack .line) : Machine :=
  let line := setup.script.line id
  let (body, after) : Option LineId × Option LineId :=
    match truth, setup.script.elseOf? id with
    | true, some other => (line.next, (setup.script.line other).related)
    | true, none => (line.next, line.related)
    | false, some other => ((setup.script.line other).next, (setup.script.line other).related)
    | false, none => (none, line.related)
  match body with
  | some body => ⟨engine, .enter body .oneStatement (.body after stack)⟩
  | none => goOn engine after stack

/-- Runs an `ExitApp`. The exit routine comes first, unless it is what runs; if it returns, only the thread ends. -/
def exitApp (setup : Setup) (engine : Engine) (stack : Stack .line) : Machine :=
  match engine.onExit, engine.exitRunning with
  | some label, false => launchExit setup engine label (.exitRoutine stack)
  | _, _ => divert { engine with terminated := true } .exitApp stack

/-- Runs a line. -/
def runLine (setup : Setup) (engine : Engine) (id : LineId) (stack : Stack .line) : Machine :=
  let line := setup.script.line id
  let next := line.next
  match line.action with
  | .blockBegin =>
    let after := line.related.bind fun stop => (setup.script.line stop).next
    match next with
    | some first => ⟨engine, .enter first .untilBlockEnd (.body after stack)⟩
    | none => goOn engine after stack
  | .blockEnd => goOn engine next stack
  | .otherwise => goOn engine line.related stack
  | .cond cond =>
    match engine.condition line cond with
    | (engine, .error problem) => fail setup engine id problem stack
    | (engine, .ok truth) => branch setup engine id truth stack
  | .loop =>
    match engine.startLoop line with
    | (engine, .error problem) => fail setup engine id problem stack
    | (engine, .ok loop) =>
      match next with
      | some body => ⟨engine.pushLoop loop, .round id body stack⟩
      | none => goOn engine line.related stack
  | .breakLoop => divert engine .breakLoop stack
  | .continueLoop => divert engine .continueLoop stack
  | .goto =>
    match engine.jumpTarget setup id with
    | (engine, .error problem) => fail setup engine id problem stack
    | (engine, .ok target) => divert engine (.goto target) stack
  | .gosub =>
    match engine.jumpTarget setup id with
    | (engine, .error problem) => fail setup engine id problem stack
    | (engine, .ok target) => ⟨engine, .enter target .untilReturn (.body next stack)⟩
  | .ret => divert engine .ret stack
  | .exit => divert engine .exit stack
  | .exitApp => exitApp setup engine stack
  | .assign op => settle setup id next stack (engine.assign setup line op)
  | .sleep =>
    match engine.sleepTime line with
    | (engine, .error problem) => fail setup engine id problem stack
    | (engine, .ok ms) => ⟨engine, .sleep id (engine.world.now + ms) stack⟩
  | .setTimer => settle setup id next stack (engine.setTimer setup line)
  | .onExit => settle setup id next stack (engine.setOnExit setup line)
  | .suspend => settle setup id next stack (engine.suspend line)
  | .thread => settle setup id next stack (engine.threadSetting line)
  | .command cmd =>
    if (setup.script.commands.get cmd).waits then
      lookAtQueue setup { engine with waiting := true } (.command id cmd engine.waiting stack)
    else ⟨engine, .call id cmd stack⟩

/-- Calls the command of a line. The answer of a conditional one selects its body. -/
def callCommand (setup : Setup) (engine : Engine) (id : LineId) (cmd : CommandId) (stack : Stack .line) : Machine :=
  let line := setup.script.line id
  let spec := setup.script.commands.get cmd
  match engine.call setup line spec with
  | (engine, .error problem) => fail setup engine id problem stack
  | (engine, .ok status) =>
    if spec.conditional && status == .yes then branch setup engine id true stack
    else if spec.conditional && status == .no then branch setup engine id false stack
    else goOn engine line.next stack

/-- Goes on with a run of lines. The end of a block is passed over, unless the run ends there. -/
def walk (setup : Setup) (engine : Engine) (cur : Option LineId) (level : Option LineId) (mode : Mode)
    (stack : Stack .run) : Machine :=
  match cur with
  | none => leave engine (.ok .normal) stack
  | some id =>
    let line := setup.script.line id
    if line.action == .blockEnd then
      if mode == .untilBlockEnd then leave engine (.ok .normal) stack
      else ⟨engine, .walk line.next level mode stack⟩
    else
      let engine := engine.noteLine id
      if engine.isBatchOver setup then lookAtQueue setup engine.startBatch (.tick id level mode stack)
      else ⟨engine, .reach id level mode stack⟩

/-- Goes on with a run after one of its lines. A jump to a line of the same level stays in the run. -/
def afterLine (setup : Setup) (engine : Engine) (answer : Except RuntimeError (Flow × Option LineId))
    (level : Option LineId) (mode : Mode) (stack : Stack .run) : Machine :=
  match answer with
  | .error e => leave engine (.error e) stack
  | .ok (flow, next) =>
    if engine.terminated then leave engine (.ok .exitApp) stack
    else match flow with
      | .normal =>
        if mode == .oneStatement then leave engine (.ok .normal) stack
        else ⟨engine, .walk next level mode stack⟩
      | .goto target =>
        if mode != .oneStatement && (setup.script.line target).parent == level then
          ⟨engine, .walk (some target) level mode stack⟩
        else leave engine (.ok flow) stack
      | .ret =>
        if mode == .untilReturn || mode == .toEnd then leave engine (.ok .normal) stack
        else leave engine (.ok flow) stack
      | flow => leave engine (.ok flow) stack

/-- Goes on with a loop after its body. -/
def afterRound (setup : Setup) (engine : Engine) (answer : Except RuntimeError Flow) (id body : LineId)
    (stack : Stack .line) : Machine :=
  match answer with
  | .error e => ⟨engine.popLoop, .stepped (.error e) stack⟩
  | .ok .normal | .ok .continueLoop => ⟨engine, .round id body stack⟩
  | .ok .breakLoop => goOn engine.popLoop (setup.script.line id).related stack
  | .ok flow => divert engine.popLoop flow stack

/-- Ends a thread, unless a jump is left over: then it goes on at the target. -/
def afterThread (setup : Setup) (engine : Engine) (answer : Except RuntimeError Flow) (mode : Mode) (waiting : Bool)
    (stack : Stack .thread) : Machine :=
  match answer with
  | .ok (.goto target) => ⟨engine, .enter target mode (.thread mode waiting stack)⟩
  | .ok .exitApp =>
    let engine := engine.popThread setup waiting
    ⟨{ engine with terminated := true }, .ended stack⟩
  | .ok _ => ⟨engine.popThread setup waiting, .ended stack⟩
  | .error e =>
    let engine := engine.popThread setup waiting
    ⟨{ engine with errors := engine.errors ++ [e] }, .ended stack⟩

/-- Goes on with a `Sleep` after a look at the queue. -/
def afterSlice (setup : Setup) (engine : Engine) (id : LineId) (deadline : Nat) (stack : Stack .line) : Machine :=
  if engine.terminated || deadline ≤ engine.world.now then goOn engine (setup.script.line id).next stack
  else
    let slice := min sleepSlice (deadline - engine.world.now)
    ⟨{ engine with world := engine.world.wait slice }, .sleep id deadline stack⟩

/-- Goes on after a body or a routine. -/
def afterBody (engine : Engine) (answer : Except RuntimeError Flow) (after : Option LineId) (stack : Stack .line) : Machine :=
  match answer with
  | .error e => ⟨engine, .stepped (.error e) stack⟩
  | .ok .normal => goOn engine after stack
  | .ok flow => divert engine flow stack

/-- Goes on after a run of lines. -/
def afterRun (setup : Setup) (engine : Engine) (answer : Except RuntimeError Flow) : Stack .run → Machine
  | .body after stack => afterBody engine answer after stack
  | .loop id body stack => afterRound setup engine answer id body stack
  | .thread mode waiting stack => afterThread setup engine answer mode waiting stack

/-- Goes on after a look at the queue. -/
def afterPoll (setup : Setup) (engine : Engine) (ran : Nat) : Stack .queue → Machine
  | .hostQueue => ⟨engine, .done ran⟩
  | .hostIdle deadline =>
    if deadline ≤ engine.world.now then ⟨engine, .done 0⟩
    else
      let slice := min idleSlice (deadline - engine.world.now)
      ⟨{ engine with world := engine.world.wait slice }, .idle deadline⟩
  | .tick id level mode stack => ⟨engine, .reach id level mode stack⟩
  | .sleep id deadline waiting stack => afterSlice setup { engine with waiting } id deadline stack
  | .command id cmd waiting stack =>
    if engine.terminated then divert { engine with waiting } .exitApp stack
    else ⟨{ engine with waiting }, .call id cmd stack⟩

/-- Goes on after a thread. -/
def afterEnd (engine : Engine) : Stack .thread → Machine
  | .host => ⟨engine, .done 1⟩
  | .hostExit => ⟨{ engine with exitRunning := false, terminated := true }, .done 1⟩
  | .queue ran stack => ⟨engine, .poll (ran + 1) stack⟩
  | .exitRoutine stack =>
    divert { engine with exitRunning := false } (if engine.terminated then .exitApp else .exit) stack

/-- Takes one step. A machine that has ended stays as it is. -/
def step (setup : Setup) (machine : Machine) : Machine :=
  let engine := machine.engine
  match machine.control with
  | .enter start mode stack =>
    if setup.config.maxDepth ≤ engine.depth then
      ⟨engine, .ran (.error (setup.problemAt start (.tooDeep setup.config.maxDepth))) stack⟩
    else
      ⟨{ engine with depth := engine.depth + 1 }, .walk (some start) (setup.script.line start).parent mode stack⟩
  | .walk cur level mode stack => walk setup engine cur level mode stack
  | .reach id level mode stack =>
    if engine.terminated then leave engine (.ok .exitApp) stack
    else ⟨engine, .step id (.line engine.scratch.mark level mode stack)⟩
  | .step id stack => runLine setup engine id stack
  | .call id cmd stack => callCommand setup engine id cmd stack
  | .round id body stack =>
    match engine.advanceLoop with
    | (engine, .error problem) => fail setup engine.popLoop id problem stack
    | (engine, .ok true) => ⟨engine, .enter body .oneStatement (.loop id body stack)⟩
    | (engine, .ok false) => goOn engine.popLoop (setup.script.line id).related stack
  | .sleep id deadline stack =>
    lookAtQueue setup { engine with waiting := true } (.sleep id deadline engine.waiting stack)
  | .poll ran stack =>
    if engine.terminated then ⟨engine, .polled ran stack⟩
    else match engine.queue with
      | [] => ⟨engine, .polled ran stack⟩
      | trigger :: rest =>
        match engine.decide setup trigger with
        | .run label => launchLabel setup { engine with queue := rest } label trigger (.queue ran stack)
        | .refuse => ⟨{ engine with queue := rest }, .poll ran stack⟩
        | .defer => ⟨engine, .polled ran stack⟩
  | .idle deadline =>
    if engine.terminated then ⟨engine, .done 0⟩ else lookAtQueue setup engine (.hostIdle deadline)
  | .ran answer stack => afterRun setup engine answer stack
  | .stepped answer (.line mark level mode stack) =>
    afterLine setup { engine with scratch := engine.scratch.release mark } answer level mode stack
  | .polled ran stack => afterPoll setup engine ran stack
  | .ended stack => afterEnd engine stack
  | .done ran => ⟨engine, .done ran⟩

/-- Takes steps until the machine has ended, at most `fuel` of them: how many threads ran, and the engine. -/
def run (setup : Setup) : (fuel : Nat) → Machine → Option (Nat × Engine)
  | 0, _ => none
  | fuel + 1, machine =>
    match machine.control with
    | .done ran => some (ran, machine.engine)
    | _ => run setup fuel (machine.step setup)

end Machine

end LineScript
