import LineScript.Command.Standard
import LineScript.Proofs.Engine.Logged
import LineScript.Proofs.Engine.Unwinding

/-!
# First in, first out

The queue holds the triggers sent so far without those that were taken off its front, and a trigger is taken off only by a look
at the queue that lets it in or drops it (`Machine.Served`). This holds however deep looks at the queue are nested, and whoever
sends.
-/

namespace LineScript

namespace Engine

/-- A deed of a command adds a trigger to the queue, or none. -/
theorem queue_act (engine : Engine) (deed : Deed) : (engine.act deed).queue = engine.queue ++ deed.trigger?.toList := by
  cases deed with
  | print | store | wait => simp [act, Deed.trigger?]
  | send trigger => simp [act, send, Deed.trigger?]
  | append path text =>
    simp only [act, Deed.trigger?, Option.toList_none, List.append_nil]
    split <;> rfl
  | declare name =>
    simp only [act, Deed.trigger?, Option.toList_none, List.append_nil]
    split <;> rfl

/-- The deeds of a command add their triggers to the queue, in order. -/
theorem queue_deeds (engine : Engine) (deeds : List Deed) :
    (deeds.foldl act engine).queue = engine.queue ++ deeds.filterMap Deed.trigger? := by
  induction deeds generalizing engine with
  | nil => simp
  | cons deed rest ih =>
    rw [List.foldl_cons, ih, queue_act, List.append_assoc]
    cases h : deed.trigger? with
    | none => simp [h]
    | some trigger => simp [h]

/-- A command queues the triggers it sends. -/
theorem queue_call (setup : Setup) (engine : Engine) (line : Line) (spec : CommandSpec) :
    (engine.call setup line spec).1.queue =
      engine.queue ++ (engine.callsOf setup line spec).flatMap fun call => (setup.perform call).triggers := by
  have hexpand := (engine.inward_expand line).queue_eq
  rw [call_eq]
  simp only [withArgs, callsOf]
  cases hargs : engine.expand line with
  | mk engine' answer =>
    rw [hargs] at hexpand
    cases answer with
    | error e => simpa using hexpand
    | ok args =>
      have hthread := fun (after : Engine) (status : Status) => (after.inward_lastResult status).queue_eq
      simp only [obey, List.flatMap_singleton, Reply.triggers]
      split <;> rw [hthread, queue_deeds, hexpand]

/-- Ending a thread leaves no more threads than there were. -/
theorem length_popThread (setup : Setup) (engine : Engine) (waiting : Bool) :
    (engine.popThread setup waiting).threads.length ≤ engine.threads.length := by
  unfold popThread
  split
  · exact Nat.le_refl _
  · rename_i hthreads
    simp [hthreads]

/-- Ending a thread leaves the queue. -/
theorem queue_popThread (setup : Setup) (engine : Engine) (waiting : Bool) :
    (engine.popThread setup waiting).queue = engine.queue := by
  unfold popThread
  split <;> rfl

/-- Starting a thread leaves the queue. -/
theorem queue_pushThread (setup : Setup) (engine : Engine) (label : Option LabelId) (trigger : Trigger) :
    (engine.pushThread setup label trigger).queue = engine.queue := by
  unfold pushThread
  cases trigger.isHotkey <;> rfl

end Engine

namespace Machine

/-- What a step does to the queue and to the number of threads. -/
inductive Served (setup : Setup) (now next : Machine) : Prop
  /-- The front trigger is let in: it is taken off, and one thread is started for it. -/
  | ran {trigger : Trigger} {label : LabelId} (hasked : now.asked? setup = some (trigger, .run label))
    (hqueue : now.engine.queue = trigger :: next.engine.queue)
    (hthreads : next.engine.threads = now.engine.newThread setup (some label) trigger :: now.engine.threads)
  /-- The front trigger is dropped: it is taken off, and no thread is started. -/
  | refused {trigger : Trigger} (hasked : now.asked? setup = some (trigger, .refuse))
    (hqueue : now.engine.queue = trigger :: next.engine.queue) (hthreads : next.engine.threads = now.engine.threads)
  /-- The front trigger has to wait, and so have those behind it. -/
  | deferred {trigger : Trigger} (hasked : now.asked? setup = some (trigger, .defer))
    (hqueue : next.engine.queue = now.engine.queue) (hthreads : next.engine.threads = now.engine.threads)
  /-- No trigger is decided on: none is taken off, what is sent comes last, and only the exit routine may start. -/
  | other (hasked : now.asked? setup = none) (hqueue : next.engine.queue = now.engine.queue ++ now.sends setup)
    (hthreads : next.engine.threads.length ≤ now.engine.threads.length ∨ now.startsExit setup = true)

variable {setup : Setup} {engine : Engine}

/-- A step that sends nothing and spares the queue. -/
theorem Served.quiet {now next : Machine} (hasked : now.asked? setup = none) (hsends : now.sends setup = [])
    (hqueue : next.engine.queue = now.engine.queue) (hthreads : next.engine.threads.length ≤ now.engine.threads.length) :
    Served setup now next :=
  .other hasked (by rw [hsends, List.append_nil, hqueue]) (.inl hthreads)

/-- A look at a trigger in front does what is decided. -/
theorem step_poll {trigger : Trigger} {rest : List Trigger} (hended : engine.terminated = false)
    (hqueue : engine.queue = trigger :: rest) (ran : Nat) (stack : Stack .queue) :
    step setup ⟨engine, .poll ran stack⟩ =
      match engine.decide setup trigger with
      | .run label => launchLabel setup { engine with queue := rest } label trigger (.queue ran stack)
      | .refuse => ⟨{ engine with queue := rest }, .poll ran stack⟩
      | .defer => ⟨engine, .polled ran stack⟩ := by
  cases hdecide : engine.decide setup trigger <;>
    simp only [step, hended, hqueue, hdecide, Bool.false_eq_true, if_false]

/-- A look at the queue serves, drops or defers the trigger in front, or leaves it. -/
theorem served_poll (ran : Nat) (stack : Stack .queue) :
    Served setup ⟨engine, .poll ran stack⟩ (step setup ⟨engine, .poll ran stack⟩) := by
  cases hended : engine.terminated with
  | true =>
    simp only [step, hended, if_true]
    exact .quiet (by simp [asked?, hended]) rfl rfl (Nat.le_refl _)
  | false =>
    cases hqueue : engine.queue with
    | nil =>
      simp only [step, hended, hqueue, Bool.false_eq_true, if_false]
      exact .quiet (by simp [asked?, hqueue]) rfl rfl (Nat.le_refl _)
    | cons trigger rest =>
      have hasked : asked? setup ⟨engine, .poll ran stack⟩ = some (trigger, engine.decide setup trigger) := by
        simp [asked?, hended, hqueue]
      rw [step_poll hended hqueue]
      cases hdecide : engine.decide setup trigger with
      | run label =>
        rw [hdecide] at hasked
        have hpush := Engine.queue_pushThread setup { engine with queue := rest } (some label) trigger
        exact .ran hasked (hqueue.trans (congrArg (trigger :: ·) hpush.symm)) (Engine.threads_pushThread setup _ _ _)
      | defer =>
        rw [hdecide] at hasked
        exact .deferred hasked rfl rfl
      | refuse =>
        rw [hdecide] at hasked
        exact .refused hasked hqueue rfl

/-- Going on with a run leaves the queue. -/
theorem served_walk (cur level : Option LineId) (mode : Mode) (stack : Stack .run) :
    Served setup ⟨engine, .walk cur level mode stack⟩ (step setup ⟨engine, .walk cur level mode stack⟩) := by
  simp only [step, walk]
  split
  · exact .quiet rfl rfl rfl (Nat.le_refl _)
  · rename_i id
    split
    · rename_i hend
      have hsends : sends setup ⟨engine, .walk (some id) level mode stack⟩ = [] := by
        simp [sends, looks, calls, beq_iff_eq.mp hend]
      split <;> exact .quiet rfl hsends rfl (Nat.le_refl _)
    · rename_i hend
      have hnote := engine.inward_noteLine id
      have hlength := Nat.le_of_eq hnote.threads.length_eq
      have hlooks : looks setup ⟨engine, .walk (some id) level mode stack⟩ = (engine.noteLine id).isBatchOver setup := by
        simp only [looks, bne, hend, Bool.not_false, Bool.true_and]
      split
      · rename_i hover
        refine .other rfl ?_ (.inl hlength)
        have htimers : (engine.noteLine id).timers = engine.timers := by
          unfold Engine.noteLine Engine.onThread
          split <;> rfl
        have hsends : sends setup ⟨engine, .walk (some id) level mode stack⟩ =
            (engine.noteLine id).timerTriggers setup (engine.noteLine id).world.now := by
          simp only [sends, hlooks, hover, if_true, calls, List.flatMap_nil, List.append_nil, Engine.timerTriggers, htimers,
            hnote.world_eq]
        rw [hsends, ← hnote.queue_eq]
        rfl
      · rename_i hover
        have hsends : sends setup ⟨engine, .walk (some id) level mode stack⟩ = [] := by
          simp [sends, hlooks, hover, calls]
        exact .quiet rfl hsends hnote.queue_eq hlength

/-- A line adds to the queue at most. -/
theorem served_runLine (id : LineId) (stack : Stack .line) :
    Served setup ⟨engine, .step id stack⟩ (runLine setup engine id stack) := by
  by_cases hexit : (setup.script.line id).action = .exitApp
  · have hsends : sends setup ⟨engine, .step id stack⟩ = [] := by simp [sends, looks, calls, hexit]
    simp only [runLine, hexit, exitApp]
    split
    · rename_i label hlabel hrunning
      refine .other rfl ?_ (.inr (by simp [startsExit, hexit, hlabel, hrunning]))
      rw [hsends, List.append_nil, launchExit, launchLabel, launch, Engine.queue_pushThread]
    · exact .quiet rfl hsends rfl (Nat.le_refl _)
  · by_cases hwaits : ∃ cmd, (setup.script.line id).action = .command cmd ∧ (setup.script.commands.get cmd).waits = true
    · obtain ⟨cmd, haction, hwaits⟩ := hwaits
      have hsends : sends setup ⟨engine, .step id stack⟩ = engine.timerTriggers setup engine.world.now := by
        simp [sends, looks, calls, haction, hwaits]
      simp only [runLine, haction, hwaits, if_true]
      exact .other rfl (by rw [hsends]; rfl) (.inl (Nat.le_refl _))
    · have hquiet : ∀ cmd, (setup.script.line id).action = .command cmd → (setup.script.commands.get cmd).waits = false :=
        fun cmd haction => Bool.eq_false_iff.mpr fun h => hwaits ⟨cmd, haction, h⟩
      have hinward : engine.Inward (runLine setup engine id stack).engine := inward_runLine hexit hquiet
      have hsends : sends setup ⟨engine, .step id stack⟩ = [] := by
        cases haction : (setup.script.line id).action with
        | command cmd => simp [sends, looks, calls, haction, hquiet cmd haction]
        | _ => simp [sends, looks, calls, haction]
      exact .quiet rfl hsends hinward.queue_eq (Nat.le_of_eq hinward.threads.length_eq)

/-- What follows a run leaves the queue. -/
theorem served_afterRun (answer : Except RuntimeError Flow) (stack : Stack .run) :
    Served setup ⟨engine, .ran answer stack⟩ (afterRun setup engine answer stack) := by
  have hpopLoop := engine.inward_popLoop
  have hpop := engine.length_popThread setup
  have hqueue := engine.queue_popThread setup
  cases stack with
  | body after rest =>
    simp only [afterRun, afterBody]
    split <;> exact .quiet rfl rfl rfl (Nat.le_refl _)
  | loop id body rest =>
    simp only [afterRun, afterRound]
    split
    · exact .quiet rfl rfl hpopLoop.queue_eq (Nat.le_of_eq hpopLoop.threads.length_eq)
    · exact .quiet rfl rfl rfl (Nat.le_refl _)
    · exact .quiet rfl rfl rfl (Nat.le_refl _)
    · exact .quiet rfl rfl hpopLoop.queue_eq (Nat.le_of_eq hpopLoop.threads.length_eq)
    · exact .quiet rfl rfl hpopLoop.queue_eq (Nat.le_of_eq hpopLoop.threads.length_eq)
  | thread mode waiting rest =>
    simp only [afterRun, afterThread]
    split
    · exact .quiet rfl rfl rfl (Nat.le_refl _)
    all_goals exact .quiet rfl rfl (hqueue waiting) (hpop waiting)

/-- What follows a look at the queue leaves it. -/
theorem served_afterPoll (ran : Nat) (stack : Stack .queue) :
    Served setup ⟨engine, .polled ran stack⟩ (afterPoll setup engine ran stack) := by
  cases stack with
  | hostQueue | tick => exact .quiet rfl rfl rfl (Nat.le_refl _)
  | hostIdle deadline =>
    simp only [afterPoll]
    split <;> exact .quiet rfl rfl rfl (Nat.le_refl _)
  | sleep id deadline waiting rest =>
    simp only [afterPoll, afterSlice]
    split <;> exact .quiet rfl rfl rfl (Nat.le_refl _)
  | command id cmd waiting rest =>
    simp only [afterPoll]
    split <;> exact .quiet rfl rfl rfl (Nat.le_refl _)

/-- Every step serves the queue in one of the four ways. -/
theorem served_step (machine : Machine) : Served setup machine (machine.step setup) := by
  obtain ⟨engine, control⟩ := machine
  cases control with
  | enter start mode stack =>
    simp only [step]
    split <;> exact .quiet rfl rfl rfl (Nat.le_refl _)
  | walk cur level mode stack => exact served_walk cur level mode stack
  | reach id level mode stack =>
    simp only [step]
    split <;> exact .quiet rfl rfl rfl (Nat.le_refl _)
  | step id stack => exact served_runLine id stack
  | call id cmd stack =>
    have hengine : (step setup ⟨engine, .call id cmd stack⟩).engine =
      (engine.call setup (setup.script.line id) (setup.script.commands.get cmd)).1 := engine_callCommand cmd
    refine .other rfl ?_ (.inl ?_)
    · rw [hengine, Engine.queue_call]
      rfl
    · rw [hengine]
      exact Nat.le_of_eq (engine.spares_call setup _ _).threads.length_eq
  | round id body stack =>
    have hadvance := engine.inward_advanceLoop
    simp only [step]
    cases hround : engine.advanceLoop with
    | mk engine' answer =>
      rw [hround] at hadvance
      have hpop := hadvance.trans engine'.inward_popLoop
      cases answer with
      | error problem => exact .quiet rfl rfl hpop.queue_eq (Nat.le_of_eq hpop.threads.length_eq)
      | ok goesOn =>
        cases goesOn with
        | false => exact .quiet rfl rfl hpop.queue_eq (Nat.le_of_eq hpop.threads.length_eq)
        | true => exact .quiet rfl rfl hadvance.queue_eq (Nat.le_of_eq hadvance.threads.length_eq)
  | sleep id deadline stack =>
    refine .other rfl ?_ (.inl (Nat.le_refl _))
    simp only [sends, looks, if_true, calls, List.flatMap_nil, List.append_nil]
    rfl
  | poll ran stack => exact served_poll ran stack
  | idle deadline =>
    simp only [step]
    split
    · rename_i hended
      exact .quiet rfl (by simp [sends, looks, calls, hended]) rfl (Nat.le_refl _)
    · rename_i hended
      refine .other rfl ?_ (.inl (Nat.le_refl _))
      simp only [sends, looks, hended, Bool.not_false, if_true, calls, List.flatMap_nil, List.append_nil]
      rfl
  | ran answer stack => exact served_afterRun answer stack
  | stepped answer stack =>
    cases stack with
    | line mark level mode rest =>
      simp only [step, afterLine]
      split
      · exact .quiet rfl rfl rfl (Nat.le_refl _)
      · split
        · exact .quiet rfl rfl rfl (Nat.le_refl _)
        · split
          · split <;> exact .quiet rfl rfl rfl (Nat.le_refl _)
          · split <;> exact .quiet rfl rfl rfl (Nat.le_refl _)
          · split <;> exact .quiet rfl rfl rfl (Nat.le_refl _)
          · exact .quiet rfl rfl rfl (Nat.le_refl _)
  | polled ran stack => exact served_afterPoll ran stack
  | ended stack => cases stack <;> exact .quiet rfl rfl rfl (Nat.le_refl _)
  | done ran => exact .quiet rfl rfl rfl (Nat.le_refl _)

/-- A trigger that arrives while another one is decided on only comes last: it changes neither the decision nor what is taken
off. -/
theorem step_later_of_asked {machine : Machine} (h : (machine.asked? setup).isSome = true) (late : List Trigger) :
    (machine.later machine.engine.world late).step setup =
      (machine.step setup).later (machine.step setup).engine.world late := by
  obtain ⟨engine, control⟩ := machine
  cases control with
  | poll ran stack =>
    simp only [asked?] at h
    split at h
    · cases h
    · rename_i hended
      have hended : engine.terminated = false := Bool.eq_false_iff.mpr hended
      cases hqueue : engine.queue with
      | nil =>
        rw [hqueue] at h
        cases h
      | cons trigger rest =>
        have hlate : (later ⟨engine, .poll ran stack⟩ engine.world late).engine.queue = trigger :: (rest ++ late) := by
          rw [later, hqueue, List.cons_append]
        have hdecide : (later ⟨engine, .poll ran stack⟩ engine.world late).engine.decide setup trigger =
          engine.decide setup trigger := rfl
        have hstep := @step_poll setup (later ⟨engine, .poll ran stack⟩ engine.world late).engine _ _ hended hlate ran stack
        rw [hdecide] at hstep
        refine hstep.trans ?_
        rw [step_poll hended hqueue]
        cases engine.decide setup trigger with
        | run label =>
          simp only [launchLabel, launch, Engine.pushThread]
          cases trigger.isHotkey <;> rfl
        | defer | refuse => rfl
  | _ => cases h

/-! ## The queue in a run -/

/-- A call of the host takes nothing off the queue. -/
theorem queue_start (call : HostCall) :
    (call.start setup engine).engine.queue = engine.queue ++ call.sends setup engine := by
  cases call with
  | autoExecute =>
    simp only [HostCall.start, HostCall.autoExecuteOn, HostCall.sends, List.append_nil]
    split
    · exact engine.queue_pushThread setup _ _
    · rfl
  | dispatch trigger =>
    simp only [HostCall.start, HostCall.dispatchOn, HostCall.sends]
    cases engine.decide setup trigger with
    | run label => simp [launchLabel, launch, Engine.queue_pushThread]
    | defer => simp [Engine.send]
    | refuse => simp
  | send | runPending | fireTimers => rfl
  | idle => simp [HostCall.start, HostCall.sends]
  | exitApp =>
    simp only [HostCall.start, HostCall.exitAppOn, HostCall.sends, List.append_nil]
    split
    · rfl
    · split
      · exact Engine.queue_pushThread setup _ _ _
      · rfl

/-- In a run the queue holds what was sent without what was taken off its front. -/
theorem Logged.queue_suffix {machine : Machine} {log : Log} (h : Logged setup engine machine log) (hnone : engine.queue = []) :
    machine.engine.queue <:+ log.sent := by
  induction h with
  | start => exact hnone ▸ List.nil_suffix
  | @step machine log _ world triggers ih =>
    obtain ⟨removed, hremoved⟩ := ih
    have hnow : removed ++ (machine.later world triggers).engine.queue = log.sent ++ triggers := by
      rw [← hremoved, List.append_assoc]
      rfl
    have hsent : (log.afterStep setup triggers (machine.later world triggers)).sent =
        removed ++ (machine.later world triggers).engine.queue ++ (machine.later world triggers).sends setup := by
      rw [hnow]
      rfl
    rw [hsent]
    generalize machine.later world triggers = now at hnow ⊢
    have hpolls {trigger : Trigger} {decision : Decision} (hasked : now.asked? setup = some (trigger, decision)) :
        now.sends setup = [] := by
      obtain ⟨engine, control⟩ := now
      cases control with
      | poll ran stack => rfl
      | _ => cases hasked
    cases @served_step setup now with
    | @ran trigger _ hasked hqueue _ | @refused trigger hasked hqueue _ =>
      refine ⟨removed ++ [trigger], ?_⟩
      rw [hpolls hasked, hqueue, List.append_nil, List.append_assoc]
      rfl
    | deferred hasked hqueue _ => exact ⟨removed, by rw [hpolls hasked, hqueue, List.append_nil]⟩
    | other _ hqueue _ => exact ⟨removed, by rw [hqueue, List.append_assoc]⟩
  | call _ call ih =>
    obtain ⟨removed, hremoved⟩ := ih
    refine ⟨removed, ?_⟩
    rw [queue_start, ← List.append_assoc, hremoved]
    rfl
  | taken _ ih => exact ih

end Machine

namespace Program

open Machine

/-- The queue is first in, first out, and loses nothing. At every moment of a run it holds the triggers sent so far without some
first ones. Each step, some time later, serves it in one of four ways: the trigger at the front, just decided on, is taken off
and one thread is started for it; or it is dropped, and none is; or it has to wait, and nothing is taken off; or no trigger is
decided on, nothing is taken off, and what is sent comes last. Triggers that arrive while one is decided on change nothing of
this, and calls of the host take nothing off. -/
theorem queue_first_in_first_out (program : Program) (config : Config) (perform : Performer) (world : World) :
    let setup := (Engine.start program config perform world).1
    let engine := (Engine.start program config perform world).2
    ∀ machine log, Logged setup engine machine log →
      machine.engine.queue <:+ log.sent ∧
      (∀ world triggers, let now := machine.later world triggers
        Served setup now (now.step setup) ∧
        ∀ late, (now.asked? setup).isSome = true →
          (now.later now.engine.world late).step setup = (now.step setup).later (now.step setup).engine.world late) ∧
      ∀ (ran : Nat) (call : HostCall), machine.control = .done ran →
        (call.start setup machine.engine).engine.queue = machine.engine.queue ++ call.sends setup machine.engine := by
  intro setup engine machine log h
  refine ⟨h.queue_suffix rfl, ?_, fun _ call _ => queue_start call⟩
  intro world triggers now
  exact ⟨served_step now, fun late hasked => step_later_of_asked hasked late⟩

/-- A program whose threads wait, send and are sent again while others wait. -/
def nestedLooks : List Item :=
  let line (keyword : String) (args : List String) (lineNo : Nat) : Item :=
    .statement { keyword, args := args.map .plain, lineNo } []
  [line "Fire" ["first"] 1, line "Fire" ["second"] 2, line "Wait" [] 3, line "Return" [] 4, .label "first" 5,
    line "Fire" ["third"] 5, line "Fire" ["first"] 6, line "Wait" [] 7, line "Return" [] 8, .label "second" 9,
    line "Return" [] 9, .label "third" 10, line "Return" [] 10]

/-- After some steps of `nestedLooks`, a look at the queue is asked for inside another one. -/
theorem nestedLooks_asks :
    (match load Standard.commands nestedLooks with
    | .ok program =>
      let (setup, engine) := Engine.start program {} Standard.perform default
      let begun := (HostCall.autoExecute.start setup engine, ({} : Log).afterCall setup engine .autoExecute)
      let (machine, log) := (advance setup)^[29] begun
      log.sent.map (·.label) == ["first", "second", "third", "first"] &&
        machine.engine.queue.map (·.label) == ["second", "third", "first"] &&
        (machine.asked? setup).map (·.2) == some (.run 1)
    | .error _ => false) = true := by
  decide +kernel

/-- While the first thread waits, the second trigger is let in, and the two behind it stay. -/
theorem queue_first_in_first_out_nested :
    ∃ program, load Standard.commands nestedLooks = .ok program ∧
      let setup := (Engine.start program {} Standard.perform default).1
      let engine := (Engine.start program {} Standard.perform default).2
      ∃ machine log, Logged setup engine machine log ∧
        log.sent.map (·.label) = ["first", "second", "third", "first"] ∧
        machine.engine.queue.map (·.label) = ["second", "third", "first"] ∧ machine.engine.queue <:+ log.sent ∧
        (machine.step setup).engine.queue.map (·.label) = ["third", "first"] ∧
        (machine.step setup).engine.threads.length = machine.engine.threads.length + 1 := by
  have hasks := nestedLooks_asks
  cases hload : load Standard.commands nestedLooks with
  | error e => rw [hload] at hasks; cases hasks
  | ok program =>
    simp only [hload, Bool.and_eq_true, beq_iff_eq] at hasks
    obtain ⟨⟨hsent, hqueue⟩, hasked⟩ := hasks
    refine ⟨program, rfl, ?_⟩
    intro setup engine
    have hbegun : Logged setup engine _ _ := .call .start .autoExecute
    have hlogged := hbegun.iterate 29
    obtain ⟨hsuffix, hserved, -⟩ := queue_first_in_first_out program {} Standard.perform default _ _ hlogged
    refine ⟨_, _, hlogged, hsent, hqueue, hsuffix, ?_⟩
    obtain ⟨hserved, -⟩ := hserved _ []
    rw [later_self] at hserved
    obtain ⟨⟨trigger, decision⟩, hwhich, rfl : decision = .run 1⟩ := Option.map_eq_some_iff.mp hasked
    cases hserved with
    | ran _ htaken hthreads =>
      refine ⟨?_, by rw [hthreads, List.length_cons]⟩
      rw [htaken, List.map_cons] at hqueue
      exact (List.cons.inj hqueue).2
    | refused h | deferred h | other h => cases hwhich.symm.trans h

end Program

end LineScript
