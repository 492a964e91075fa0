import LineScript.Proofs.Engine.Outcome
import LineScript.Proofs.Engine.Room
import LineScript.Proofs.Structured.Evaluation

/-!
# What statements spare

A statement works for the running thread (`Engine.Worked`). Whatever it does, it spares what ties threads together: who the
threads are, whether the program has ended or is ending, and the ceiling of the scratch buffer (`Engine.Spares`). Only commands
reach the queue and the world outside; every other statement works inward (`Engine.Inward`).
-/

namespace LineScript

namespace Thread

/-- The same thread, whatever its settings: what started it, and the routine it runs. -/
structure Same (thread thread' : Thread) : Prop where
  label_eq : thread'.label = thread.label
  labelName_eq : thread'.labelName = thread.labelName
  name_eq : thread'.name = thread.name
  kind_eq : thread'.kind = thread.kind

theorem Same.refl (thread : Thread) : Same thread thread :=
  ⟨rfl, rfl, rfl, rfl⟩

theorem Same.trans {a b c : Thread} (hab : Same a b) (hbc : Same b c) : Same a c :=
  ⟨hbc.label_eq.trans hab.label_eq, hbc.labelName_eq.trans hab.labelName_eq, hbc.name_eq.trans hab.name_eq,
    hbc.kind_eq.trans hab.kind_eq⟩

end Thread

namespace Engine

/-- What every statement spares. -/
structure Spares (engine engine' : Engine) : Prop where
  exitRunning_eq : engine'.exitRunning = engine.exitRunning
  terminated_eq : engine'.terminated = engine.terminated
  limit_eq : engine'.scratch.limit = engine.scratch.limit
  threads : Thread.OnTop Thread.Same engine.threads engine'.threads

/-- What every statement but a command spares. -/
structure Inward (engine engine' : Engine) : Prop extends Spares engine engine' where
  queue_eq : engine'.queue = engine.queue
  world_eq : engine'.world = engine.world

theorem Spares.refl (engine : Engine) : engine.Spares engine :=
  ⟨rfl, rfl, rfl, .refl Thread.Same.refl _⟩

theorem Spares.trans {a b c : Engine} (hab : a.Spares b) (hbc : b.Spares c) : a.Spares c :=
  ⟨hbc.exitRunning_eq.trans hab.exitRunning_eq, hbc.terminated_eq.trans hab.terminated_eq,
    hbc.limit_eq.trans hab.limit_eq, hab.threads.trans Thread.Same.trans hbc.threads⟩

theorem Inward.refl (engine : Engine) : engine.Inward engine :=
  ⟨.refl engine, rfl, rfl⟩

theorem Inward.trans {a b c : Engine} (hab : a.Inward b) (hbc : b.Inward c) : a.Inward c :=
  ⟨hab.toSpares.trans hbc.toSpares, hbc.queue_eq.trans hab.queue_eq, hbc.world_eq.trans hab.world_eq⟩

variable (setup : Setup) (engine : Engine) (line : Line)

/-- A change to the running thread works inward if the thread stays the same. -/
theorem inward_onThread {change : Thread → Thread} (h : ∀ thread, Thread.Same thread (change thread)) :
    engine.Inward (engine.onThread change) := by
  unfold onThread
  split
  · exact .refl _
  · rename_i thread rest hthreads
    exact { Inward.refl engine with threads := hthreads ▸ .cons (h thread) }

/-- A change to the running thread leaves what it waits for. -/
theorem waiting_onThread (change : Thread → Thread) : (engine.onThread change).waiting = engine.waiting := by
  unfold onThread
  split <;> rfl

/-- A change to the running thread leaves the depth of the runs. -/
theorem depth_onThread (change : Thread → Thread) : (engine.onThread change).depth = engine.depth := by
  unfold onThread
  split <;> rfl

theorem depth_pushThread (label : Option LabelId) (trigger : Trigger) :
    (engine.pushThread setup label trigger).depth = engine.depth := by
  unfold pushThread
  cases trigger.isHotkey <;> rfl

theorem depth_popThread (waiting : Bool) : (engine.popThread setup waiting).depth = engine.depth := by
  unfold popThread
  split <;> rfl

/-- Noting the last result works inward. -/
theorem inward_lastResult (status : Status) :
    engine.Inward (engine.onThread fun thread => { thread with lastResult := some status }) :=
  inward_onThread engine fun _ => ⟨rfl, rfl, rfl, rfl⟩

/-- Entering a loop works inward. -/
theorem inward_pushLoop (loop : LoopContext) : engine.Inward (engine.pushLoop loop) :=
  inward_onThread engine fun _ => ⟨rfl, rfl, rfl, rfl⟩

/-- Leaving a loop works inward. -/
theorem inward_popLoop : engine.Inward engine.popLoop :=
  inward_onThread engine fun _ => ⟨rfl, rfl, rfl, rfl⟩

/-- Going on with a loop works inward. -/
theorem inward_advanceLoop : engine.Inward engine.advanceLoop.1 := by
  unfold advanceLoop
  split
  · exact .refl _
  · split
    · exact .refl _
    · exact inward_onThread engine fun _ => ⟨rfl, rfl, rfl, rfl⟩

/-- Noting a line works inward. -/
theorem inward_noteLine (id : LineId) : engine.Inward (engine.noteLine id) := by
  have h : engine.Inward (engine.onThread fun thread => { thread with linesRun := thread.linesRun + 1 }) :=
    inward_onThread engine fun _ => ⟨rfl, rfl, rfl, rfl⟩
  exact { h with }

/-! ## Statements -/

/-- Expanding arguments works inward. -/
theorem inward_expand : engine.Inward (engine.expand line).1 := by
  unfold expand Expansion.expand
  cases Expansion.planAll engine.view engine.vars line.args with
  | mk vars planned =>
    cases planned with
    | error e => exact { Inward.refl engine with }
    | ok planned =>
      simp only
      cases hreserve : engine.scratch.reserve (Expansion.totalSize planned) with
      | error e => exact { Inward.refl engine with }
      | ok scratch =>
        have hlimit := (Expansion.limit_hold scratch (planned.map Expansion.write)).trans (Expansion.limit_reserve hreserve)
        exact { Inward.refl engine with limit_eq := hlimit }

/-- A statement works inward if what it does with its arguments does. -/
theorem inward_withArgs {α : Type} {use : Engine → ExpandedArgs → Engine × Except Problem α}
    (h : ∀ engine args, Inward engine (use engine args).1) : engine.Inward (engine.withArgs line use).1 := by
  have hexpand := inward_expand engine line
  unfold withArgs
  cases hargs : engine.expand line with
  | mk engine' args =>
    rw [hargs] at hexpand
    cases args with
    | error e => exact hexpand
    | ok args => exact hexpand.trans (h engine' args)

theorem inward_condition (cond : Condition) : engine.Inward (engine.condition line cond).1 :=
  inward_withArgs engine line fun engine _ => .refl engine

theorem inward_sleepTime : engine.Inward (engine.sleepTime line).1 :=
  inward_withArgs engine line fun engine _ => .refl engine

theorem inward_startLoop : engine.Inward (engine.startLoop line).1 :=
  inward_withArgs engine line fun engine _ => .refl engine

theorem inward_labelArg : engine.Inward (engine.labelArg setup line).1 := by
  unfold labelArg
  split
  · exact .refl _
  · refine inward_withArgs engine line fun engine args => ?_
    dsimp only
    split
    · exact .refl _
    · split <;> exact .refl _

theorem inward_jumpTarget (id : LineId) : engine.Inward (engine.jumpTarget setup id).1 := by
  have hlabel := inward_labelArg setup engine (setup.script.line id)
  simp only [jumpTarget]
  cases hfound : engine.labelArg setup (setup.script.line id) with
  | mk engine' answer =>
    rw [hfound] at hlabel
    cases answer with
    | error problem => exact hlabel
    | ok label? =>
      cases label? with
      | none => exact hlabel
      | some label =>
        dsimp only
        split
        · exact hlabel
        · split <;> exact hlabel

/-- An assignment works inward. -/
theorem inward_assign (op : AssignOp) : engine.Inward (engine.assign setup line op).1 := by
  refine inward_withArgs engine line fun engine args => ?_
  split
  · exact .refl _
  · split
    · exact .refl _
    · split
      · exact .refl _
      · exact { Inward.refl engine with }

theorem inward_setTimer : engine.Inward (engine.setTimer setup line).1 := by
  have hlabel := inward_labelArg setup engine line
  unfold setTimer
  cases hfound : engine.labelArg setup line with
  | mk engine' answer =>
    rw [hfound] at hlabel
    cases answer with
    | error problem => exact hlabel
    | ok named =>
      dsimp only
      split
      · exact hlabel
      · refine hlabel.trans (inward_withArgs engine' line fun engine args => ?_)
        split
        · exact .refl _
        · exact { Inward.refl engine with }

theorem inward_setOnExit : engine.Inward (engine.setOnExit setup line).1 := by
  have hlabel := inward_labelArg setup engine line
  unfold setOnExit
  cases hfound : engine.labelArg setup line with
  | mk engine' answer =>
    rw [hfound] at hlabel
    cases answer with
    | error problem => exact hlabel
    | ok label => exact { hlabel with }

theorem inward_suspend : engine.Inward (engine.suspend line).1 := by
  refine inward_withArgs engine line fun engine args => ?_
  split
  · exact .refl _
  · exact { Inward.refl engine with }

theorem inward_threadSetting : engine.Inward (engine.threadSetting line).1 := by
  refine inward_withArgs engine line fun engine args => ?_
  dsimp only
  split
  · exact inward_onThread engine fun _ => ⟨rfl, rfl, rfl, rfl⟩
  · split
    · exact { Inward.refl engine with }
    · exact .refl _

/-! ## Commands -/

/-- A deed of a command spares what every statement does. -/
theorem spares_act (deed : Deed) : engine.Spares (engine.act deed) := by
  cases deed with
  | print | store | send | wait => exact { Spares.refl engine with }
  | append path text =>
    unfold act
    dsimp only
    split <;> exact { Spares.refl engine with }
  | declare name =>
    unfold act
    dsimp only
    split <;> exact { Spares.refl engine with }

/-- The deeds of a command spare what every statement does. -/
theorem spares_deeds (deeds : List Deed) : engine.Spares (deeds.foldl act engine) := by
  induction deeds generalizing engine with
  | nil => exact .refl _
  | cons deed rest ih => exact (spares_act engine deed).trans (ih _)

/-- Obeying a command's answer spares what every statement does. -/
theorem spares_obey (spec : CommandSpec) (reply : Reply) : engine.Spares (engine.obey spec reply).1 := by
  have hdone := (spares_deeds engine reply.deeds).trans (inward_lastResult _ reply.status).toSpares
  unfold obey
  dsimp only
  split <;> exact hdone

/-- Calling a command spares what every statement does. -/
theorem spares_call (spec : CommandSpec) : engine.Spares (engine.call setup line spec).1 := by
  rw [call_eq]
  have hexpand := (inward_expand engine line).toSpares
  unfold withArgs
  cases hargs : engine.expand line with
  | mk engine' args =>
    rw [hargs] at hexpand
    cases args with
    | error e => exact hexpand
    | ok args => exact hexpand.trans (spares_obey engine' spec _)

end Engine

namespace Machine

variable {setup : Setup} {engine : Engine} {id : LineId} {stack : Stack .line}

theorem engine_branch (truth : Bool) : (branch setup engine id truth stack).engine = engine := by
  unfold branch
  dsimp only
  split <;> rfl

theorem engine_settle (next : Option LineId) (result : Engine × Except Problem Unit) :
    (settle setup id next stack result).engine = result.1 := by
  obtain ⟨engine', outcome⟩ := result
  cases outcome <;> rfl

/-- A line works inward, unless it ends the program or lets other threads run before its command. -/
theorem inward_runLine (hexit : (setup.script.line id).action ≠ .exitApp)
    (hwaits : ∀ cmd, (setup.script.line id).action = .command cmd → (setup.script.commands.get cmd).waits = false) :
    engine.Inward (runLine setup engine id stack).engine := by
  simp only [runLine]
  cases haction : (setup.script.line id).action with
  | blockBegin =>
    simp only
    split <;> exact .refl _
  | blockEnd | otherwise | breakLoop | continueLoop | ret | exit => exact .refl _
  | exitApp => exact absurd haction hexit
  | cond cond =>
    have h := engine.inward_condition (setup.script.line id) cond
    simp only
    cases hcond : engine.condition (setup.script.line id) cond with
    | mk engine' answer =>
      rw [hcond] at h
      cases answer with
      | error problem => exact h
      | ok truth =>
        dsimp only
        rw [engine_branch]
        exact h
  | loop =>
    have h := engine.inward_startLoop (setup.script.line id)
    simp only
    cases hloop : engine.startLoop (setup.script.line id) with
    | mk engine' answer =>
      rw [hloop] at h
      cases answer with
      | error problem => exact h
      | ok loop =>
        dsimp only
        split
        · exact h.trans (engine'.inward_pushLoop loop)
        · exact h
  | goto | gosub =>
    have h := engine.inward_jumpTarget setup id
    simp only
    cases hjump : engine.jumpTarget setup id with
    | mk engine' answer =>
      rw [hjump] at h
      cases answer <;> exact h
  | sleep =>
    have h := engine.inward_sleepTime (setup.script.line id)
    simp only
    cases hsleep : engine.sleepTime (setup.script.line id) with
    | mk engine' answer =>
      rw [hsleep] at h
      cases answer <;> exact h
  | assign op =>
    simp only [engine_settle]
    exact engine.inward_assign setup _ op
  | setTimer =>
    simp only [engine_settle]
    exact engine.inward_setTimer setup _
  | onExit =>
    simp only [engine_settle]
    exact engine.inward_setOnExit setup _
  | suspend =>
    simp only [engine_settle]
    exact engine.inward_suspend _
  | thread =>
    simp only [engine_settle]
    exact engine.inward_threadSetting _
  | command cmd =>
    simp only [hwaits cmd haction, Bool.false_eq_true, if_false]
    exact .refl _

/-- A line spares what ties threads together, unless it ends the program. -/
theorem spares_runLine (hexit : (setup.script.line id).action ≠ .exitApp) :
    engine.Spares (runLine setup engine id stack).engine := by
  by_cases hwaits : ∃ cmd, (setup.script.line id).action = .command cmd ∧ (setup.script.commands.get cmd).waits = true
  · obtain ⟨cmd, haction, hwaits⟩ := hwaits
    simp only [runLine, haction, hwaits, if_true]
    exact { Engine.Spares.refl engine with }
  · have hquiet : ∀ cmd, (setup.script.line id).action = .command cmd → (setup.script.commands.get cmd).waits = false :=
      fun cmd haction => Bool.eq_false_iff.mpr fun h => hwaits ⟨cmd, haction, h⟩
    exact (inward_runLine hexit hquiet).toSpares

/-- Calling a command changes the engine as the call says. -/
theorem engine_callCommand (cmd : CommandId) :
    (callCommand setup engine id cmd stack).engine =
      (engine.call setup (setup.script.line id) (setup.script.commands.get cmd)).1 := by
  simp only [callCommand]
  cases engine.call setup (setup.script.line id) (setup.script.commands.get cmd) with
  | mk engine' answer =>
    cases answer with
    | error problem => rfl
    | ok status =>
      dsimp only
      split
      · exact engine_branch true
      · split
        · exact engine_branch false
        · rfl

end Machine

end LineScript
