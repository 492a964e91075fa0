import LineScript.Condition
import LineScript.Engine.Basic

/-!
# Statements of the engine

The lines that change what the engine holds and leave the order of lines alone. Each reads its arguments first and
changes the engine only when nothing can go wrong any more.
-/

namespace LineScript

namespace Engine

/-- Expands the arguments of a line and goes on with them. -/
def withArgs {α : Type} (engine : Engine) (line : Line) (use : Engine → ExpandedArgs → Engine × Except Problem α) :
    Engine × Except Problem α :=
  match engine.expand line with
  | (engine, .error e) => (engine, .error e)
  | (engine, .ok args) => use engine args

/-- Whether the condition of a line holds. -/
def condition (engine : Engine) (line : Line) (cond : Condition) : Engine × Except Problem Bool :=
  engine.withArgs line fun engine args =>
    (engine, if cond == .expr then .ok ((args.value? 0).any Value.isTrue) else cond.holds args.texts)

/-- The label a line names: the one found when the program was loaded, or the one its first argument names now. A blank
argument names none. -/
def labelArg (setup : Setup) (engine : Engine) (line : Line) : Engine × Except Problem (Option LabelId) :=
  match line.note with
  | .label label => (engine, .ok (some label))
  | _ =>
    engine.withArgs line fun engine args =>
      let name := Text.trim (args.text 0)
      if name.isEmpty then (engine, .ok none)
      else match setup.script.labels.find? name with
        | some label => (engine, .ok (some label))
        | none => (engine, .error (.unknownLabel name))

/-- The line a jump goes to. Labels found when the program was loaded were checked then. -/
def jumpTarget (setup : Setup) (engine : Engine) (id : LineId) : Engine × Except Problem LineId :=
  let line := setup.script.line id
  match engine.labelArg setup line with
  | (engine, .error e) => (engine, .error e)
  | (engine, .ok none) => (engine, .error (.unknownLabel ""))
  | (engine, .ok (some label)) =>
    let target := setup.script.labels.target label
    match line.note with
    | .label _ => (engine, .ok target)
    | _ =>
      if setup.script.isJumpValid id target then (engine, .ok target)
      else (engine, .error (.invalidJump (setup.script.labels.name label)))

/-- The value an assignment stores. -/
def assigned (setup : Setup) (engine : Engine) (op : AssignOp) (var : VarId) (args : ExpandedArgs) : Except Problem Value :=
  match op with
  | .text =>
    let text := args.text 1
    .ok (.text (if setup.config.autoTrim then Text.trimTabs text else text))
  | .expr => .ok ((args.value? 1).getD .empty)
  | op =>
    let current := ((engine.vars.get var).toNumber?).getD (.int 0)
    let operand := (Number.ofText? (args.text 1)).getD (.int 0)
    Arith.assign op current operand

/-- Runs an assignment. -/
def assign (setup : Setup) (engine : Engine) (line : Line) (op : AssignOp) : Engine × Except Problem Unit :=
  engine.withArgs line fun engine args =>
    match args.output? 0 with
    | none => (engine, .error (.badParameter .blankOutput))
    | some var =>
      match engine.assigned setup op var args with
      | .error e => (engine, .error e)
      | .ok value =>
        match engine.vars.set var value with
        | .error e => (engine, .error (.naming e))
        | .ok vars => ({ engine with vars }, .ok ())

/-- How long a `Sleep` takes, in milliseconds. -/
def sleepTime (engine : Engine) (line : Line) : Engine × Except Problem Nat :=
  engine.withArgs line fun engine args =>
    (engine, .ok (((Number.ofText? (args.text 0)).map fun n => n.toInt64.toInt.toNat).getD 0))

/-- What the second argument of `SetTimer` asks for. A negative period runs once. -/
def timerSetting (arg : String) : Except Problem Timer.Setting :=
  let text := Text.asciiLower (Text.trim arg)
  if text == "" || text == "on" then .ok { enabled := true }
  else if text == "off" then .ok { enabled := false }
  else match Number.ofText? text with
    | some n =>
      let ms := n.toInt64.toInt
      .ok { enabled := true, schedule := some { period := ms.natAbs, once := ms < 0 } }
    | none => .error (.badParameter (.timerPeriod text))

/-- A number as a priority: its lowest 32 bits. -/
def priorityOf (n : Number) : Int32 :=
  n.toInt64.toInt32

/-- Runs `SetTimer`. A blank label stands for the one of the running thread. -/
def setTimer (setup : Setup) (engine : Engine) (line : Line) : Engine × Except Problem Unit :=
  match engine.labelArg setup line with
  | (engine, .error e) => (engine, .error e)
  | (engine, .ok named) =>
    match named.or (engine.threads.head?.bind (·.label)) with
    | none => (engine, .error (.unknownLabel ""))
    | some label =>
      engine.withArgs line fun engine args =>
        match timerSetting (args.text 1) with
        | .error e => (engine, .error e)
        | .ok setting =>
          let setting := { setting with priority := (Number.ofText? (args.text 2)).map priorityOf }
          let timers := engine.timers.set label setting setup.config.defaultTimerPeriodMs engine.world.now
          ({ engine with timers }, .ok ())

/-- Runs `OnExit`. A blank label takes the routine away. -/
def setOnExit (setup : Setup) (engine : Engine) (line : Line) : Engine × Except Problem Unit :=
  match engine.labelArg setup line with
  | (engine, .error e) => (engine, .error e)
  | (engine, .ok label) => ({ engine with onExit := label }, .ok ())

/-- Whether hotkeys are suspended after a `Suspend` with an argument, given whether they are before it. -/
def suspendMode (suspended : Bool) (arg : String) : Except Problem Bool :=
  let text := Text.asciiLower (Text.trim arg)
  if text == "" || text == "toggle" then .ok !suspended
  else if text == "on" then .ok true
  else if text == "off" then .ok false
  else if text == "permit" then .ok suspended
  else .error (.badParameter (.suspendMode text))

/-- Runs `Suspend`. -/
def suspend (engine : Engine) (line : Line) : Engine × Except Problem Unit :=
  engine.withArgs line fun engine args =>
    match suspendMode engine.suspended (args.text 0) with
    | .error e => (engine, .error e)
    | .ok suspended => ({ engine with suspended }, .ok ())

/-- Runs `Thread`: the priority of the running thread, or how long new threads are not interrupted. -/
def threadSetting (engine : Engine) (line : Line) : Engine × Except Problem Unit :=
  engine.withArgs line fun engine args =>
    let number (i : Nat) := Number.ofText? (args.text i)
    let amount (n : Number) : Nat := n.toInt64.toInt.toNat
    let text := Text.asciiLower (Text.trim (args.text 0))
    if text == "priority" then
      let priority := ((number 1).map priorityOf).getD 0
      (engine.onThread fun thread => { thread with priority }, .ok ())
    else if text == "interrupt" then
      ({ engine with
          freshMs := ((number 1).map amount).getD engine.freshMs
          freshLines := ((number 2).map amount).getD engine.freshLines }, .ok ())
    else (engine, .error (.badParameter (.threadSetting text)))

/-- Starts the loop of a line for the running thread. -/
def startLoop (engine : Engine) (line : Line) : Engine × Except Problem LoopContext :=
  let kind := match line.note with
    | .loop kind => kind
    | _ => .count
  engine.withArgs line fun engine args => (engine, LoopContext.start engine.world.files kind args.texts)

/-- Enters a loop. -/
def pushLoop (engine : Engine) (loop : LoopContext) : Engine :=
  engine.onThread fun thread => { thread with loops := loop :: thread.loops }

/-- Leaves the innermost loop. -/
def popLoop (engine : Engine) : Engine :=
  engine.onThread fun thread => { thread with loops := thread.loops.tail }

/-- Moves the innermost loop to its next round. Says whether there is one. -/
def advanceLoop (engine : Engine) : Engine × Except Problem Bool :=
  match engine.threads.head?.bind (·.loops.head?) with
  | none => (engine, .ok false)
  | some loop =>
    match loop.advance engine.world.files engine.world.registry with
    | .error e => (engine, .error e)
    | .ok (goesOn, loop) =>
      (engine.onThread fun thread => { thread with loops := loop :: thread.loops.tail }, .ok goesOn)

/-- Calls a command with the expanded arguments of its line and does what it asks for. -/
def call (setup : Setup) (engine : Engine) (line : Line) (spec : CommandSpec) : Engine × Except Problem Status :=
  engine.withArgs line fun engine args =>
    let thread := engine.threads.head?
    let reply := setup.perform
      { spec, args, lastResult := thread.bind (·.lastResult), loops := (thread.map (·.loops)).getD []
        vars := engine.vars, errorLevel := setup.errorLevel, files := engine.world.files }
    let engine := reply.deeds.foldl act engine
    let engine := engine.onThread fun thread => { thread with lastResult := some reply.status }
    match reply.status with
    | .fail message => (engine, .error (.commandFailed spec.name message))
    | status => (engine, .ok status)

end Engine

end LineScript
