import LineScript.Engine.Machine
import LineScript.Proofs.Engine.Worked

/-!
# What a line can come to

Running a line, or calling its command, ends in one of a few ways (`Machine.Outcome`): the line fails, goes on by itself, hands
up a flow, opens a run of other lines, starts a loop, or lets threads run first. The relations of `Script` below say which lines
come into play; everything about single steps is derived from them.
-/

namespace LineScript

namespace Script

/-- A line may jump to another one: its label was found when the program was loaded, or the jump is valid. -/
def Jumps (script : Script) (id target : LineId) : Prop :=
  (∃ label, (script.line id).note = .label label ∧ script.labels.target label = target) ∨
    script.isJumpValid id target = true

/-- A line that owns the statement after it. -/
def IsOwner (script : Script) (id : LineId) : Prop :=
  script.isIfFamily id = true ∨ (script.line id).action = .otherwise ∨ (script.line id).action = .loop

/-- Where a run goes on after a line that has ended normally. -/
inductive Follows (script : Script) (id : LineId) : Option LineId → Prop
  /-- A line that is no block goes on with the next one. -/
  | next (h : (script.line id).action ≠ .blockBegin) : Follows script id (script.line id).next
  /-- The owner of a body goes on after it. -/
  | related (h : script.IsOwner id) : Follows script id (script.line id).related
  /-- A condition with an else goes on after the body of that. -/
  | otherwise {other : LineId} (hif : script.isIfFamily id = true) (h : script.elseOf? id = some other) :
    Follows script id (script.line other).related
  /-- A block goes on after its end. -/
  | block (h : (script.line id).action = .blockBegin) :
    Follows script id ((script.line id).related.bind fun stop => (script.line stop).next)

/-- The run of lines that a line opens, and how far it goes. -/
inductive Opens (script : Script) (id : LineId) : LineId → Mode → Prop
  /-- A block runs its lines. -/
  | block {start : LineId} (h : (script.line id).action = .blockBegin) (hnext : (script.line id).next = some start) :
    Opens script id start .untilBlockEnd
  /-- A condition that holds runs its body. -/
  | body {start : LineId} (h : script.isIfFamily id = true) (hnext : (script.line id).next = some start) :
    Opens script id start .oneStatement
  /-- A condition that does not hold runs the body of its else. -/
  | otherwise {other start : LineId} (h : script.isIfFamily id = true) (helse : script.elseOf? id = some other)
    (hnext : (script.line other).next = some start) : Opens script id start .oneStatement
  /-- A `Gosub` runs a routine. -/
  | routine {target : LineId} (h : (script.line id).action = .gosub) (hjump : script.Jumps id target) :
    Opens script id target .untilReturn

/-- The flow that a line hands up. -/
inductive Diverts (script : Script) (id : LineId) : Flow → Prop
  | breakLoop (h : (script.line id).action = .breakLoop) : Diverts script id .breakLoop
  | continueLoop (h : (script.line id).action = .continueLoop) : Diverts script id .continueLoop
  | goto {target : LineId} (h : (script.line id).action = .goto) (hjump : script.Jumps id target) :
    Diverts script id (.goto target)
  | ret (h : (script.line id).action = .ret) : Diverts script id .ret
  | exit (h : (script.line id).action = .exit) : Diverts script id .exit
  | exitApp (h : (script.line id).action = .exitApp) : Diverts script id .exitApp

end Script

/-- A jump that the engine takes is one that the line may take. -/
theorem Engine.jumps_of_jumpTarget {setup : Setup} {engine engine' : Engine} {id target : LineId}
    (h : engine.jumpTarget setup id = (engine', .ok target)) : setup.script.Jumps id target := by
  simp only [jumpTarget] at h
  split at h
  · cases h
  · cases h
  · split at h
    · rename_i label hnote
      cases h
      exact .inl ⟨_, hnote, by simp_all [labelArg]⟩
    · split at h
      · rename_i hvalid
        cases h
        exact .inr hvalid
      · cases h

namespace Machine

/-- What running a line can come to. -/
inductive Outcome (setup : Setup) (engine : Engine) (id : LineId) (stack : Stack .line) : Machine → Prop
  /-- The line fails. -/
  | failed {engine' : Engine} (hw : engine.Worked engine') (error : RuntimeError) :
    Outcome setup engine id stack ⟨engine', .stepped (.error error) stack⟩
  /-- The line ends normally. -/
  | wentOn {engine' : Engine} {next : Option LineId} (hw : engine.Worked engine') (h : setup.script.Follows id next) :
    Outcome setup engine id stack ⟨engine', .stepped (.ok (.normal, next)) stack⟩
  /-- The line hands up a flow. -/
  | diverted {engine' : Engine} {flow : Flow} (hw : engine.Worked engine') (h : setup.script.Diverts id flow) :
    Outcome setup engine id stack ⟨engine', .stepped (.ok (flow, none)) stack⟩
  /-- The line opens a run of other lines. -/
  | opened {engine' : Engine} {start : LineId} {mode : Mode} {after : Option LineId} (hw : engine.Worked engine')
    (h : setup.script.Opens id start mode) (hafter : setup.script.Follows id after) :
    Outcome setup engine id stack ⟨engine', .enter start mode (.body after stack)⟩
  /-- The line starts a loop. -/
  | looped {engine' : Engine} {loop : LoopContext} {body : LineId} (hw : engine.Worked engine')
    (h : (setup.script.line id).action = .loop) (hnext : (setup.script.line id).next = some body) :
    Outcome setup engine id stack ⟨engine'.pushLoop loop, .round id body stack⟩
  /-- The line sleeps. -/
  | slept {engine' : Engine} {deadline : Nat} (hw : engine.Worked engine') (h : (setup.script.line id).action = .sleep) :
    Outcome setup engine id stack ⟨engine', .sleep id deadline stack⟩
  /-- The line calls its command. -/
  | called {cmd : CommandId} (h : (setup.script.line id).action = .command cmd) :
    Outcome setup engine id stack ⟨engine, .call id cmd stack⟩
  /-- The line looks at the queue before it calls its command. -/
  | waited {cmd : CommandId} (h : (setup.script.line id).action = .command cmd) :
    Outcome setup engine id stack
      (lookAtQueue setup { engine with waiting := true } (.command id cmd engine.waiting stack))
  /-- The line lets the exit routine run. -/
  | exiting {label : LabelId} (h : (setup.script.line id).action = .exitApp) :
    Outcome setup engine id stack (launchExit setup engine label (.exitRoutine stack))

variable {setup : Setup} {engine : Engine} {id : LineId} {stack : Stack .line}

/-- What selects a branch is what a line comes to. -/
theorem outcome_branch {engine' : Engine} (hw : engine.Worked engine') (hif : setup.script.isIfFamily id = true)
    (truth : Bool) : Outcome setup engine id stack (branch setup engine' id truth stack) := by
  have hrelated : setup.script.Follows id (setup.script.line id).related := .related (.inl hif)
  unfold branch
  cases helse : setup.script.elseOf? id with
  | none =>
    cases truth with
    | false => exact .wentOn hw hrelated
    | true =>
      cases hnext : (setup.script.line id).next with
      | none => simpa [hnext] using .wentOn hw hrelated
      | some start => simpa [hnext] using .opened hw (.body hif hnext) hrelated
  | some other =>
    have hother : setup.script.Follows id (setup.script.line other).related := .otherwise hif helse
    cases truth with
    | false =>
      cases hnext : (setup.script.line other).next with
      | none => simpa [hnext] using .wentOn hw hother
      | some start => simpa [hnext] using .opened hw (.otherwise hif helse hnext) hother
    | true =>
      cases hnext : (setup.script.line id).next with
      | none => simpa [hnext] using .wentOn hw hother
      | some start => simpa [hnext] using .opened hw (.body hif hnext) hother

/-- A statement that does its work and nothing else fails or ends normally. -/
theorem outcome_settle {result : Engine × Except Problem Unit} (hw : engine.Worked result.1)
    (hplain : (setup.script.line id).action ≠ .blockBegin) :
    Outcome setup engine id stack (settle setup id (setup.script.line id).next stack result) := by
  obtain ⟨engine', outcome⟩ := result
  cases outcome with
  | error problem => exact .failed hw _
  | ok _ => exact .wentOn hw (.next hplain)

/-- Running a line comes to one of its outcomes. -/
theorem outcome_runLine : Outcome setup engine id stack (runLine setup engine id stack) := by
  simp only [runLine]
  cases haction : (setup.script.line id).action with
  | blockBegin =>
    have hafter := Script.Follows.block haction
    simp only
    split
    · rename_i start hnext
      exact .opened (.refl _) (.block haction hnext) hafter
    · exact .wentOn (.refl _) hafter
  | blockEnd => exact .wentOn (.refl _) (.next (by simp [haction]))
  | otherwise => exact .wentOn (.refl _) (.related (.inr (.inl haction)))
  | cond cond =>
    simp only
    have hw := engine.worked_condition (setup.script.line id) cond
    cases hcond : engine.condition (setup.script.line id) cond with
    | mk engine' answer =>
      rw [hcond] at hw
      cases answer with
      | error problem => exact .failed hw _
      | ok truth => exact outcome_branch hw (by simp [Script.isIfFamily, haction, Script.isConditional]) truth
  | loop =>
    have hw := engine.worked_startLoop (setup.script.line id)
    cases hloop : engine.startLoop (setup.script.line id) with
    | mk engine' answer =>
      rw [hloop] at hw
      cases answer with
      | error problem => exact .failed hw _
      | ok loop =>
        simp only
        split
        · rename_i body hnext
          exact .looped hw haction hnext
        · exact .wentOn hw (.related (.inr (.inr haction)))
  | breakLoop => exact .diverted (.refl _) (.breakLoop haction)
  | continueLoop => exact .diverted (.refl _) (.continueLoop haction)
  | goto =>
    have hw := engine.worked_jumpTarget setup id
    cases hjump : engine.jumpTarget setup id with
    | mk engine' answer =>
      rw [hjump] at hw
      cases answer with
      | error problem => exact .failed hw _
      | ok target => exact .diverted hw (.goto haction (Engine.jumps_of_jumpTarget hjump))
  | gosub =>
    have hw := engine.worked_jumpTarget setup id
    cases hjump : engine.jumpTarget setup id with
    | mk engine' answer =>
      rw [hjump] at hw
      cases answer with
      | error problem => exact .failed hw _
      | ok target =>
        exact .opened hw (.routine haction (Engine.jumps_of_jumpTarget hjump)) (.next (by simp [haction]))
  | ret => exact .diverted (.refl _) (.ret haction)
  | exit => exact .diverted (.refl _) (.exit haction)
  | exitApp =>
    simp only [exitApp]
    split
    · exact .exiting haction
    · exact .diverted { Engine.Worked.refl engine with terminated := fun _ => rfl } (.exitApp haction)
  | assign op => exact outcome_settle (engine.worked_assign setup _ op) (by simp [haction])
  | sleep =>
    have hw := engine.worked_sleepTime (setup.script.line id)
    cases hsleep : engine.sleepTime (setup.script.line id) with
    | mk engine' answer =>
      rw [hsleep] at hw
      cases answer with
      | error problem => exact .failed hw _
      | ok ms => exact .slept hw haction
  | setTimer => exact outcome_settle (engine.worked_setTimer setup _) (by simp [haction])
  | onExit => exact outcome_settle (engine.worked_setOnExit setup _) (by simp [haction])
  | suspend => exact outcome_settle (engine.worked_suspend _) (by simp [haction])
  | thread => exact outcome_settle (engine.worked_threadSetting _) (by simp [haction])
  | command cmd =>
    simp only
    split
    · exact .waited haction
    · exact .called haction

/-- Calling the command of a line comes to one of the outcomes of the line. -/
theorem outcome_callCommand {cmd : CommandId} (haction : (setup.script.line id).action = .command cmd) :
    Outcome setup engine id stack (callCommand setup engine id cmd stack) := by
  have hw := engine.worked_call setup (setup.script.line id) (setup.script.commands.get cmd)
  have hif : (setup.script.commands.get cmd).conditional = true → setup.script.isIfFamily id = true := by
    intro h
    simpa [Script.isIfFamily, haction, Script.isConditional] using h
  unfold callCommand
  cases hcall : engine.call setup (setup.script.line id) (setup.script.commands.get cmd) with
  | mk engine' answer =>
    rw [hcall] at hw
    cases answer with
    | error problem => simpa [hcall] using .failed hw _
    | ok status =>
      simp only [hcall]
      split
      · rename_i h
        exact outcome_branch hw (hif (Bool.and_eq_true_iff.mp h).1) true
      · split
        · rename_i h
          exact outcome_branch hw (hif (Bool.and_eq_true_iff.mp h).1) false
        · exact .wentOn hw (.next (by simp [haction]))

end Machine

end LineScript
