import LineScript.Command.Standard
import LineScript.Proofs.Engine.Stacked

/-!
# Bounds of the stack of threads

How the threads came to the stack bounds it, and keeps lower priorities from interrupting higher ones. Runs of lines are nested
no deeper than the settings allow, and every thread that a trigger started goes back to one that was sent or handed over.
-/

namespace LineScript

namespace Machine

variable {setup : Setup} {engine : Engine} {starts : List Start}

/-! ## How deep runs of lines are nested -/

/-- A line leaves the depth of the runs as it is. -/
theorem depth_outcome {id : LineId} {stack : Stack .line} {machine : Machine} (h : Outcome setup engine id stack machine) :
    machine.engine.depth = engine.depth := by
  cases h with
  | failed hw | wentOn hw | diverted hw | opened hw | slept hw => exact hw.depth_eq
  | looped hw => exact (Engine.depth_onThread _ _).trans hw.depth_eq
  | called | waited => rfl
  | exiting => exact Engine.depth_pushThread _ _ _ _

/-- Going on with a run never makes the runs deeper. -/
theorem depth_walk_le (cur level : Option LineId) (mode : Mode) (stack : Stack .run) :
    (walk setup engine cur level mode stack).engine.depth ≤ engine.depth := by
  unfold walk
  split
  · exact Nat.sub_le _ _
  · rename_i id
    have hnote := Nat.le_of_eq (engine.worked_noteLine id).depth_eq
    dsimp only
    split
    · split
      · exact Nat.sub_le _ _
      · exact Nat.le_refl _
    · split <;> exact hnote

/-- What follows a line never makes the runs deeper. -/
theorem depth_afterLine_le (answer : Except RuntimeError (Flow × Option LineId)) (level : Option LineId) (mode : Mode)
    (stack : Stack .run) : (afterLine setup engine answer level mode stack).engine.depth ≤ engine.depth := by
  have hleave : ∀ answer, (leave engine answer stack).engine.depth ≤ engine.depth := fun _ => Nat.sub_le _ _
  unfold afterLine
  split
  · exact hleave _
  · split
    · exact hleave _
    · split
      · split
        · exact hleave _
        · exact Nat.le_refl _
      · split
        · exact Nat.le_refl _
        · exact hleave _
      · split <;> exact hleave _
      · exact hleave _

/-- What follows a run leaves the depth of the runs as it is. -/
theorem depth_afterRun (answer : Except RuntimeError Flow) (stack : Stack .run) :
    (afterRun setup engine answer stack).engine.depth = engine.depth := by
  have hpop := engine.depth_popThread setup
  cases stack with
  | body after rest =>
    simp only [afterRun, afterBody]
    split <;> rfl
  | loop id body rest =>
    simp only [afterRun, afterRound]
    split
    · exact engine.depth_onThread _
    · rfl
    · rfl
    · exact engine.depth_onThread _
    · exact engine.depth_onThread _
  | thread mode waiting rest =>
    simp only [afterRun, afterThread]
    split
    · rfl
    all_goals exact hpop waiting

/-- What follows a look at the queue leaves the depth of the runs as it is. -/
theorem depth_afterPoll (ran : Nat) (stack : Stack .queue) :
    (afterPoll setup engine ran stack).engine.depth = engine.depth := by
  cases stack with
  | hostQueue | tick => rfl
  | hostIdle deadline =>
    simp only [afterPoll]
    split <;> rfl
  | sleep id deadline waiting rest =>
    simp only [afterPoll, afterSlice]
    split <;> rfl
  | command id cmd waiting rest =>
    simp only [afterPoll]
    split <;> rfl

/-- Runs of lines are nested no deeper than the settings allow. -/
theorem depth_step_le {machine : Machine} (h : machine.engine.depth ≤ setup.config.maxDepth) :
    (machine.step setup).engine.depth ≤ setup.config.maxDepth := by
  obtain ⟨engine, control⟩ := machine
  have h : engine.depth ≤ setup.config.maxDepth := h
  cases control with
  | enter start mode stack =>
    simp only [Machine.step]
    split
    · exact h
    · rename_i hroom
      exact Nat.not_le.mp hroom
  | walk cur level mode stack => exact Nat.le_trans (depth_walk_le cur level mode stack) h
  | reach id level mode stack =>
    simp only [Machine.step]
    split
    · exact Nat.le_trans (Nat.sub_le _ _) h
    · exact h
  | step id stack => exact Nat.le_trans (Nat.le_of_eq (depth_outcome outcome_runLine)) h
  | call id cmd stack =>
    have hengine : (Machine.step setup ⟨engine, .call id cmd stack⟩).engine =
      (engine.call setup (setup.script.line id) (setup.script.commands.get cmd)).1 := engine_callCommand cmd
    rw [hengine, (engine.worked_call setup _ _).depth_eq]
    exact h
  | round id body stack =>
    have hadvance : engine.advanceLoop.1.depth = engine.depth := by
      unfold Engine.advanceLoop
      split
      · rfl
      · split
        · rfl
        · exact engine.depth_onThread _
    simp only [Machine.step]
    cases hround : engine.advanceLoop with
    | mk engine' answer =>
      rw [hround] at hadvance
      have hadvanced : engine'.depth ≤ setup.config.maxDepth := Nat.le_trans (Nat.le_of_eq hadvance) h
      have hpopped : engine'.popLoop.depth ≤ setup.config.maxDepth :=
        Nat.le_trans (Nat.le_of_eq (engine'.depth_onThread _)) hadvanced
      cases answer with
      | error problem => exact hpopped
      | ok goesOn =>
        cases goesOn with
        | false => exact hpopped
        | true => exact hadvanced
  | sleep id deadline stack => exact h
  | poll ran stack =>
    simp only [Machine.step]
    split
    · exact h
    · split
      · exact h
      · split
        · exact Nat.le_trans (Nat.le_of_eq (Engine.depth_pushThread _ _ _ _)) h
        · exact h
        · exact h
  | idle deadline =>
    simp only [Machine.step]
    split <;> exact h
  | ran answer stack => exact Nat.le_trans (Nat.le_of_eq (depth_afterRun answer stack)) h
  | stepped answer stack =>
    cases stack with
    | line mark level mode rest => exact Nat.le_trans (depth_afterLine_le answer level mode rest) h
  | polled ran stack => exact Nat.le_trans (Nat.le_of_eq (depth_afterPoll ran stack)) h
  | ended stack => cases stack <;> exact h
  | done ran => exact h

/-- What a host asks for starts at the depth there was. -/
theorem depth_start (call : HostCall) : (call.start setup engine).engine.depth = engine.depth := by
  cases call with
  | autoExecute =>
    simp only [HostCall.start, HostCall.autoExecuteOn]
    split
    · exact Engine.depth_pushThread _ _ _ _
    · rfl
  | dispatch trigger =>
    simp only [HostCall.start, HostCall.dispatchOn]
    split
    · exact Engine.depth_pushThread _ _ _ _
    · rfl
    · rfl
  | send | runPending | fireTimers | idle => rfl
  | exitApp =>
    simp only [HostCall.start, HostCall.exitAppOn]
    split
    · rfl
    · split
      · exact Engine.depth_pushThread _ _ _ _
      · rfl

/-- The depth of the runs stays within the settings, whatever is reached. -/
theorem Reachable.depth_le {before : Engine} {machine : Machine} (h : Reachable setup before machine)
    (hbefore : before.depth ≤ setup.config.maxDepth) : machine.engine.depth ≤ setup.config.maxDepth := by
  induction h with
  | start => exact hbefore
  | step _ hnext ih =>
    obtain ⟨now, ⟨world, triggers, rfl⟩, rfl⟩ := hnext
    exact depth_step_le ih
  | call _ call ih => exact Nat.le_trans (Nat.le_of_eq (depth_start call)) ih
  | taken _ ih => exact ih

/-! ## Where the triggers of threads come from -/

/-- A thread is started for a trigger of the queue, or was before. -/
theorem mem_startsAfter {machine : Machine} {trigger : Trigger} {label : LabelId} {asked : Engine} {idle : Bool}
    (h : .trigger trigger label asked idle ∈ machine.startsAfter setup starts) :
    .trigger trigger label asked idle ∈ starts ∨ trigger ∈ machine.engine.queue := by
  obtain ⟨engine, control⟩ := machine
  have hexit (hmem : Start.trigger trigger label asked idle ∈
      if startsExit setup ⟨engine, control⟩ then Start.exit :: starts else starts) :
      Start.trigger trigger label asked idle ∈ starts := by
    split at hmem
    · exact (List.mem_cons.mp hmem).resolve_left nofun
    · exact hmem
  cases control with
  | poll ran stack =>
    simp only [startsAfter] at h
    split at h
    · rename_i front decided hasked
      rcases List.mem_cons.mp h with heq | h
      · cases heq
        refine .inr ?_
        simp only [asked?] at hasked
        split at hasked
        · cases hasked
        · obtain ⟨front, hfront, heq⟩ := Option.map_eq_some_iff.mp hasked
          obtain ⟨rfl, -⟩ := Prod.mk.inj heq
          exact List.mem_of_head? hfront
      · exact .inl h
    · exact .inl h
  | ran answer stack =>
    cases stack with
    | thread mode waiting rest =>
      simp only [startsAfter] at h
      split at h
      · exact .inl h
      · exact .inl (List.mem_of_mem_tail h)
    | body | loop => exact .inl (hexit h)
  | _ => exact .inl (hexit h)

/-- The threads on the stack were started for triggers that were sent or handed over. -/
theorem Logged.trigger_mem {before : Engine} {machine : Machine} {log : Log} (h : Logged setup before machine log)
    (hnone : before.queue = []) {trigger : Trigger} {label : LabelId} {asked : Engine} {idle : Bool}
    (hstart : .trigger trigger label asked idle ∈ log.starts) : trigger ∈ log.sent ++ log.offered := by
  induction h with
  | start => cases hstart
  | @step machine log h world triggers ih =>
    obtain ⟨removed, hsent⟩ := h.queue_suffix hnone
    rw [List.mem_append]
    rcases mem_startsAfter hstart with hstart | hqueue
    · rcases List.mem_append.mp (ih hstart) with h | h
      · exact .inl (List.mem_append_left _ (List.mem_append_left _ h))
      · exact .inr h
    · left
      rcases List.mem_append.mp hqueue with h | h
      · exact List.mem_append_left _ (List.mem_append_left _ (hsent ▸ List.mem_append_right _ h))
      · exact List.mem_append_left _ (List.mem_append_right _ h)
  | @call now ran log _ call ih =>
    rw [List.mem_append]
    rcases List.mem_append.mp hstart with hnew | hstart
    · right
      refine List.mem_append_right _ ?_
      cases call with
      | dispatch trigger =>
        simp only [HostCall.starts] at hnew
        split at hnew
        · cases List.mem_singleton.mp hnew
          exact List.mem_singleton_self _
        · cases hnew
      | autoExecute | exitApp =>
        simp only [HostCall.starts] at hnew
        split at hnew
        · cases List.mem_singleton.mp hnew
        · cases hnew
      | send | runPending | fireTimers | idle => cases hnew
    · rcases List.mem_append.mp (ih hstart) with h | h
      · exact .inl (List.mem_append_left _ h)
      · exact .inr (List.mem_append_left _ h)
  | taken _ ih => exact ih hstart

end Machine

namespace Program

open Machine

/-- The stack of threads is bounded, at every moment of a run. There are no more threads than the settings allow, or the program
alone, with the exit routine on top; no label has more threads than any of its triggers allows, with the exit routine on top;
the exit routine is on the stack once at most, and the engine takes it to be running exactly while it is there, up to the step
that notes its end; and runs of lines are nested no deeper than the settings allow. -/
theorem thread_stack_bounded (program : Program) (config : Config) (perform : Performer) (world : World) :
    let setup := (Engine.start program config perform world).1
    let engine := (Engine.start program config perform world).2
    ∀ machine log, Logged setup engine machine log →
      log.starts.length = machine.engine.threads.length ∧
      machine.engine.threads.length ≤ max config.maxThreads 1 + 1 ∧
      (∀ M, (∀ trigger ∈ log.sent ++ log.offered, trigger.maxThreads ≤ M) →
        ∀ label, machine.engine.runningOf label ≤ if machine.engine.exitRunning then M + 1 else M) ∧
      log.starts.countP Start.isExit ≤ 1 ∧
      machine.engine.exitRunning = (log.starts.any Start.isExit || machine.control.endsExit) ∧
      (machine.control.endsExit = true → ∀ world triggers, let next := (machine.later world triggers).step setup
        next.engine.exitRunning = false ∧ next.engine.threads = machine.engine.threads) ∧
      machine.engine.depth ≤ config.maxDepth := by
  intro setup engine machine log h
  have hstacked := h.stacked ⟨rfl, rfl, rfl, rfl⟩
  obtain ⟨hadmitted, hrunning⟩ := hstacked.admitted_and_running
  refine ⟨hadmitted.length_eq, ?_, ?_, hadmitted.countP_isExit_le, hrunning, ?_, h.reachable.depth_le (Nat.zero_le _)⟩
  · have hlength := hadmitted.length_le
    have hone := Bool.toNat_le (log.starts.any Start.isExit)
    exact Nat.le_trans hlength (Nat.add_le_add_left hone _)
  · intro M hmax label
    have hlabel := hadmitted.countP_label_le (fun _ _ _ _ hstart => hmax _ (h.trigger_mem rfl hstart)) label
    refine Nat.le_trans hlabel ?_
    rw [hrunning]
    cases log.starts.any Start.isExit with
    | true => exact Nat.le_refl _
    | false =>
      split
      · exact Nat.le_succ _
      · exact Nat.le_refl _
  · intro hends world triggers
    obtain ⟨engine', control⟩ := machine
    cases control with
    | ended stack =>
      cases stack with
      | hostExit | exitRoutine => exact ⟨rfl, rfl⟩
      | host | queue => cases hends
    | _ => cases hends

/-- A program that is ended by a routine which is its exit routine too. -/
def endedByRoutine : List Item :=
  let line (keyword : String) (args : List String) (lineNo : Nat) : Item :=
    .statement { keyword, args := args.map .plain, lineNo } []
  [line "OnExit" ["routine"] 1, line "Fire" ["routine"] 2, line "Wait" [] 3, line "Return" [] 4, .label "routine" 5,
    line "ExitApp" [] 5, line "Return" [] 6]

/-- After some steps of `endedByRoutine`, the exit routine is on top of the same routine and the program. -/
theorem endedByRoutine_stacks :
    (match load Standard.commands endedByRoutine with
    | .ok program =>
      let (setup, engine) := Engine.start program { maxThreads := 2 } Standard.perform default
      let begun := (HostCall.autoExecute.start setup engine, ({} : Log).afterCall setup engine .autoExecute)
      let (machine, log) := (advance setup)^[18] begun
      (log.sent ++ log.offered).all (·.maxThreads ≤ 1) && machine.engine.exitRunning &&
        !machine.control.endsExit && machine.engine.threads.length == 3 && machine.engine.runningOf 0 == 2
    | .error _ => false) = true := by
  decide +kernel

/-- All bounds are met at once: the routine runs as itself and as the exit routine, on top of the program. -/
theorem thread_stack_bounded_by_exit :
    ∃ program, load Standard.commands endedByRoutine = .ok program ∧
      let setup := (Engine.start program { maxThreads := 2 } Standard.perform default).1
      let engine := (Engine.start program { maxThreads := 2 } Standard.perform default).2
      ∃ machine log, Logged setup engine machine log ∧ (∀ trigger ∈ log.sent ++ log.offered, trigger.maxThreads ≤ 1) ∧
        machine.engine.threads.length = max 2 1 + 1 ∧ machine.engine.runningOf 0 = 1 + 1 ∧
        (∀ label, machine.engine.runningOf label ≤ 1 + 1) ∧ log.starts.any Start.isExit = true := by
  have hstacks := endedByRoutine_stacks
  cases hload : load Standard.commands endedByRoutine with
  | error e => rw [hload] at hstacks; cases hstacks
  | ok program =>
    simp only [hload, Bool.and_eq_true, beq_iff_eq, List.all_eq_true, decide_eq_true_eq, Bool.not_eq_true'] at hstacks
    obtain ⟨⟨⟨⟨hmax, hrunning⟩, hends⟩, hlength⟩, hlabel⟩ := hstacks
    refine ⟨program, rfl, ?_⟩
    intro setup engine
    have hbegun : Logged setup engine _ _ := .call .start .autoExecute
    have hlogged := hbegun.iterate 18
    obtain ⟨-, -, hlabels, -, hexit, -⟩ :=
      thread_stack_bounded program { maxThreads := 2 } Standard.perform default _ _ hlogged
    refine ⟨_, _, hlogged, hmax, hlength, hlabel, ?_, ?_⟩
    · intro label
      have hbound := hlabels 1 hmax label
      rwa [if_pos hrunning] at hbound
    · exact (Bool.or_eq_true_iff.mp (hexit.symm.trans hrunning)).resolve_right (Bool.eq_false_iff.mp hends)

/-- A thread is never above one of a higher priority than that of its trigger, whatever priorities threads have given
themselves since. At every moment of a run, if a thread was started for a trigger and is above another one, then the trigger
was let in when the threads below it were those that are there now; the thread below has at most the trigger's priority; and if
it was not idle on purpose when the trigger was let in, its time without interruption was over. -/
theorem lower_priority_waits (program : Program) (config : Config) (perform : Performer) (world : World) :
    let setup := (Engine.start program config perform world).1
    let engine := (Engine.start program config perform world).2
    ∀ machine log, Logged setup engine machine log →
      ∀ (i : Nat) (trigger : Trigger) (label : LabelId) (asked : Engine) (idle : Bool) (upper lower : Thread),
        log.starts[i]? = some (.trigger trigger label asked idle) → machine.engine.threads[i]? = some upper →
        machine.engine.threads[i + 1]? = some lower →
        Thread.Same (asked.newThread setup (some label) trigger) upper ∧ asked.decide setup trigger = .run label ∧
        asked.threads = machine.engine.threads.drop (i + 1) ∧ lower.priority ≤ trigger.priority ∧
        (idle = false → lower.isFresh asked.world.now = false) := by
  intro setup engine machine log h i trigger label asked idle upper lower hstart hupper hlower
  have hadmitted := (h.stacked ⟨rfl, rfl, rfl, rfl⟩).admitted_and_running.1.drop i
  obtain ⟨hi, rfl⟩ := List.getElem?_eq_some_iff.mp hupper
  obtain ⟨hnext, rfl⟩ := List.getElem?_eq_some_iff.mp hlower
  obtain ⟨hlog, hstart⟩ := List.getElem?_eq_some_iff.mp hstart
  rw [List.drop_eq_getElem_cons hi, List.drop_eq_getElem_cons hnext, List.drop_eq_getElem_cons hlog, hstart] at hadmitted
  have hbelow := hadmitted.below_of_trigger
  cases hadmitted with
  | trigger hdecide hthreads _ hthread _ =>
    exact ⟨hthread, hdecide, hthreads.trans (List.drop_eq_getElem_cons hnext).symm, hbelow⟩

/-- A program that raises its priority and is interrupted by a routine which lowers its own. -/
def raisedPriority : List Item :=
  let line (keyword : String) (args : List String) (lineNo : Nat) : Item :=
    .statement { keyword, args := args.map .plain, lineNo } []
  [line "Thread" ["Priority", "5"] 1, line "Fire" ["routine", "7"] 2, line "Fire" ["routine", "4"] 3, line "Echo" ["x"] 4,
    line "Return" [] 5, .label "routine" 6, line "Thread" ["Priority", "-3"] 6, line "Return" [] 7]

/-- After some steps of `raisedPriority`, its routine has interrupted it and lowered its own priority. -/
theorem raisedPriority_interrupted :
    (match load Standard.commands raisedPriority with
    | .ok program =>
      let (setup, engine) :=
        Engine.start program { batchLines := 1, uninterruptedLines := 3 } Standard.perform default
      let begun := (HostCall.autoExecute.start setup engine, ({} : Log).afterCall setup engine .autoExecute)
      let (machine, log) := (advance setup)^[22] begun
      match log.starts, machine.engine.threads with
      | .trigger trigger _ _ false :: _, upper :: lower :: _ =>
        trigger.priority == 7 && upper.priority == -3 && lower.priority == 5
      | _, _ => false
    | .error _ => false) = true := by
  decide +kernel

/-- The routine of priority 7 is above the program of priority 5, though its own priority is lower by now. -/
theorem lower_priority_waits_raised :
    ∃ program, load Standard.commands raisedPriority = .ok program ∧
      let config : Config := { batchLines := 1, uninterruptedLines := 3 }
      let setup := (Engine.start program config Standard.perform default).1
      let engine := (Engine.start program config Standard.perform default).2
      ∃ (machine : Machine) (log : Log) (trigger : Trigger) (label : LabelId) (asked : Engine) (upper lower : Thread),
        Logged setup engine machine log ∧
        log.starts[0]? = some (.trigger trigger label asked false) ∧ machine.engine.threads[0]? = some upper ∧
        machine.engine.threads[1]? = some lower ∧ trigger.priority = 7 ∧ upper.priority = -3 ∧ lower.priority = 5 ∧
        lower.priority ≤ trigger.priority ∧ lower.isFresh asked.world.now = false := by
  have hinterrupted := raisedPriority_interrupted
  cases hload : load Standard.commands raisedPriority with
  | error e => rw [hload] at hinterrupted; cases hinterrupted
  | ok program =>
    simp only [hload] at hinterrupted
    refine ⟨program, rfl, ?_⟩
    intro config setup engine
    have hbegun : Logged setup engine _ _ := .call .start .autoExecute
    have hlogged := hbegun.iterate 22
    split at hinterrupted
    · rename_i trigger label asked _ upper lower _ hstarts hthreads
      simp only [Bool.and_eq_true, beq_iff_eq] at hinterrupted
      obtain ⟨⟨htrigger, hupper⟩, hlower⟩ := hinterrupted
      have hstart := congrArg (·[0]?) hstarts
      have htop := congrArg (·[0]?) hthreads
      have hnext := congrArg (·[1]?) hthreads
      obtain ⟨-, -, -, hpriority, hfresh⟩ :=
        lower_priority_waits program config Standard.perform default _ _ hlogged 0 trigger label asked false upper lower
          hstart htop hnext
      exact ⟨_, _, trigger, label, asked, upper, lower, hlogged, hstart, htop, hnext, htrigger, hupper, hlower, hpriority,
        hfresh rfl⟩
    · cases hinterrupted

end Program

end LineScript
