import LineScript.Proofs.Engine.Alone

/-!
# Work apart from the program

A routine that interrupts the program may assign variables of its own, print and set the error level. As long as nothing asks for
the end of the program (`Machine.GoesOn`), what it leaves behind is apart from the program: every slot but those it assigns, the
files and the registry are as they were (`Engine.Apart`), and what the stack of the engine held is given back when it ends. So a
machine that followed the program before an interruption follows it afterwards (`Machine.Follows.resume`).
-/

namespace LineScript

/-- What a command may do without the program seeing it: it appends to no file, and stores into nothing but the error level. -/
def Deed.IsHarmless (errorLevel : VarId) : Deed → Prop
  | .append .. => False
  | .store var _ => var = errorLevel
  | .print _ | .declare _ | .send _ | .wait _ => True

instance (errorLevel : VarId) : (deed : Deed) → Decidable (deed.IsHarmless errorLevel)
  | .append .. => isFalse id
  | .store var _ => inferInstanceAs (Decidable (var = errorLevel))
  | .print _ | .declare _ | .send _ | .wait _ => isTrue trivial

namespace Engine

/-- What a step spares that does not end the program: the files and the registry, and that the program goes on. -/
structure Steady (engine engine' : Engine) : Prop where
  files_eq : engine'.world.files = engine.world.files
  registry_eq : engine'.world.registry = engine.world.registry
  terminated_eq : engine'.terminated = engine.terminated
  exitRunning_eq : engine'.exitRunning = engine.exitRunning

theorem Steady.refl (engine : Engine) : engine.Steady engine :=
  ⟨rfl, rfl, rfl, rfl⟩

theorem Steady.trans {a b c : Engine} (hab : a.Steady b) (hbc : b.Steady c) : a.Steady c :=
  ⟨hbc.files_eq.trans hab.files_eq, hbc.registry_eq.trans hab.registry_eq, hbc.terminated_eq.trans hab.terminated_eq,
    hbc.exitRunning_eq.trans hab.exitRunning_eq⟩

/-- A change inside the engine spares files, registry and the program's going on. -/
theorem Inward.steady {engine engine' : Engine} (h : engine.Inward engine') : engine.Steady engine' :=
  ⟨congrArg World.files h.world_eq, congrArg World.registry h.world_eq, h.terminated_eq, h.exitRunning_eq⟩

variable (setup : Setup) (engine : Engine)

/-- Deeds without appending spare the files. -/
theorem steady_deeds {deeds : List Deed} (h : ∀ path text, .append path text ∉ deeds) :
    engine.Steady (deeds.foldl act engine) := by
  induction deeds generalizing engine with
  | nil => exact .refl _
  | cons deed rest ih =>
    have hfirst : engine.Steady (engine.act deed) := by
      cases deed with
      | append path text => exact absurd List.mem_cons_self (h path text)
      | print | store | send | wait => exact ⟨rfl, rfl, rfl, rfl⟩
      | declare name =>
        simp only [act]
        split <;> exact ⟨rfl, rfl, rfl, rfl⟩
    exact hfirst.trans (ih _ fun path text hmem => h path text (List.mem_cons_of_mem _ hmem))

/-- Calling a command that does not append spares the files. -/
theorem steady_call (line : Line) (spec : CommandSpec)
    (h : ∀ call ∈ engine.callsOf setup line spec, ∀ path text, .append path text ∉ (setup.perform call).deeds) :
    engine.Steady (engine.call setup line spec).1 := by
  rw [call_eq]
  have hexpand := (engine.inward_expand line).steady
  unfold withArgs
  unfold callsOf at h
  cases hargs : engine.expand line with
  | mk after answer =>
    rw [hargs] at hexpand h
    cases answer with
    | error e => exact hexpand
    | ok args =>
      have hdeeds := hexpand.trans (after.steady_deeds (h _ (List.mem_singleton_self _)))
      simp only [obey]
      split <;> exact hdeeds.trans (inward_lastResult _ _).steady

/-- Starting a thread spares files and registry, and the program goes on. -/
theorem steady_pushThread (label : Option LabelId) (trigger : Trigger) :
    engine.Steady (engine.pushThread setup label trigger) := by
  unfold pushThread
  cases trigger.isHotkey <;> exact ⟨rfl, rfl, rfl, rfl⟩

theorem steady_popThread (waiting : Bool) : engine.Steady (engine.popThread setup waiting) := by
  unfold popThread
  split <;> exact ⟨rfl, rfl, rfl, rfl⟩

end Engine

/-- An answer asks for the end of the program. -/
def Control.asksForEnd : Control → Bool
  | .ran (.ok .exitApp) _ => true
  | .stepped (.ok (.exitApp, _)) _ => true
  | _ => false

namespace Machine

variable {setup : Setup} {engine : Engine}

/-- A line that does not end the program spares files and registry. -/
theorem steady_runLine {id : LineId} {stack : Stack .line} (hexit : (setup.script.line id).action ≠ .exitApp) :
    engine.Steady (runLine setup engine id stack).engine := by
  by_cases hwaits : ∃ cmd, (setup.script.line id).action = .command cmd ∧ (setup.script.commands.get cmd).waits = true
  · obtain ⟨cmd, haction, hwaits⟩ := hwaits
    simp only [runLine, haction, hwaits, if_true]
    exact ⟨rfl, rfl, rfl, rfl⟩
  · have hquiet : ∀ cmd, (setup.script.line id).action = .command cmd → (setup.script.commands.get cmd).waits = false :=
      fun cmd haction => Bool.eq_false_iff.mpr fun h => hwaits ⟨cmd, haction, h⟩
    exact (inward_runLine hexit hquiet).steady

/-- Going on with a run spares files and registry. -/
theorem steady_walk (cur level : Option LineId) (mode : Mode) (stack : Stack .run) :
    engine.Steady (walk setup engine cur level mode stack).engine := by
  unfold walk
  split
  · exact ⟨rfl, rfl, rfl, rfl⟩
  · rename_i id
    have hnote := (engine.inward_noteLine id).steady
    dsimp only
    split
    · split <;> exact ⟨rfl, rfl, rfl, rfl⟩
    · split
      · exact ⟨hnote.files_eq, hnote.registry_eq, hnote.terminated_eq, hnote.exitRunning_eq⟩
      · exact hnote

theorem steady_afterLine (answer : Except RuntimeError (Flow × Option LineId)) (level : Option LineId) (mode : Mode)
    (stack : Stack .run) : engine.Steady (afterLine setup engine answer level mode stack).engine := by
  unfold afterLine
  split
  · exact ⟨rfl, rfl, rfl, rfl⟩
  · split
    · exact ⟨rfl, rfl, rfl, rfl⟩
    · split
      · split <;> exact ⟨rfl, rfl, rfl, rfl⟩
      · split <;> exact ⟨rfl, rfl, rfl, rfl⟩
      · split <;> exact ⟨rfl, rfl, rfl, rfl⟩
      · exact ⟨rfl, rfl, rfl, rfl⟩

/-- After a run that does not end the program, files and registry are spared. -/
theorem steady_afterRun {answer : Except RuntimeError Flow} (h : answer ≠ .ok .exitApp) (stack : Stack .run) :
    engine.Steady (afterRun setup engine answer stack).engine := by
  cases stack with
  | body after rest =>
    simp only [afterRun, afterBody]
    split <;> exact ⟨rfl, rfl, rfl, rfl⟩
  | loop id body rest =>
    have hpop := engine.inward_popLoop.steady
    simp only [afterRun, afterRound]
    split
    · exact hpop
    · exact .refl _
    · exact .refl _
    · exact hpop
    · exact hpop
  | thread mode waiting rest =>
    have hpop := engine.steady_popThread setup waiting
    simp only [afterRun, afterThread]
    split
    · exact .refl _
    · exact absurd rfl h
    · exact hpop
    · exact ⟨hpop.files_eq, hpop.registry_eq, hpop.terminated_eq, hpop.exitRunning_eq⟩

/-- After a look at the queue, files and registry are spared. -/
theorem steady_afterPoll (ran : Nat) (stack : Stack .queue) : engine.Steady (afterPoll setup engine ran stack).engine := by
  cases stack with
  | hostQueue | tick => exact .refl _
  | hostIdle deadline =>
    simp only [afterPoll]
    split <;> exact ⟨rfl, rfl, rfl, rfl⟩
  | sleep id deadline waiting rest =>
    simp only [afterPoll, afterSlice]
    split <;> exact ⟨rfl, rfl, rfl, rfl⟩
  | command id cmd waiting rest =>
    simp only [afterPoll]
    split <;> exact ⟨rfl, rfl, rfl, rfl⟩

/-- A step changes no file and does not end the program, if no line and no answer asks for that and no command appends. -/
theorem steady_step {machine : Machine} (hasks : machine.control.asksForEnd = false) (hends : machine.control.endsExit = false)
    (hexit : ∀ id stack, machine.control = .step id stack → (setup.script.line id).action ≠ .exitApp)
    (hcalls : ∀ call ∈ machine.calls setup, ∀ path text, .append path text ∉ (setup.perform call).deeds) :
    machine.engine.Steady (machine.step setup).engine := by
  obtain ⟨engine, control⟩ := machine
  cases control with
  | enter start mode stack =>
    simp only [Machine.step]
    split <;> exact ⟨rfl, rfl, rfl, rfl⟩
  | walk cur level mode stack => exact steady_walk cur level mode stack
  | reach id level mode stack =>
    simp only [Machine.step]
    split <;> exact ⟨rfl, rfl, rfl, rfl⟩
  | step id stack => exact steady_runLine (hexit id stack rfl)
  | call id cmd stack =>
    have hengine : (Machine.step setup ⟨engine, .call id cmd stack⟩).engine =
      (engine.call setup (setup.script.line id) (setup.script.commands.get cmd)).1 := engine_callCommand cmd
    rw [hengine]
    exact engine.steady_call setup _ _ hcalls
  | round id body stack =>
    have hadvance := engine.inward_advanceLoop.steady
    simp only [Machine.step]
    cases hround : engine.advanceLoop with
    | mk engine' answer =>
      rw [hround] at hadvance
      have hpop := hadvance.trans engine'.inward_popLoop.steady
      cases answer with
      | error problem => exact hpop
      | ok goesOn =>
        cases goesOn with
        | false => exact hpop
        | true => exact hadvance
  | sleep id deadline stack => exact ⟨rfl, rfl, rfl, rfl⟩
  | poll ran stack =>
    simp only [Machine.step]
    split
    · exact .refl _
    · split
      · exact .refl _
      · rename_i rest _
        split
        · have hqueue : engine.Steady { engine with queue := rest } := ⟨rfl, rfl, rfl, rfl⟩
          exact hqueue.trans (Engine.steady_pushThread setup _ _ _)
        · exact ⟨rfl, rfl, rfl, rfl⟩
        · exact .refl _
  | idle deadline =>
    simp only [Machine.step]
    split <;> exact ⟨rfl, rfl, rfl, rfl⟩
  | ran answer stack =>
    refine steady_afterRun ?_ stack
    rintro rfl
    cases hasks
  | stepped answer stack =>
    cases stack with
    | line mark level mode rest =>
      have hrelease : engine.Steady { engine with scratch := engine.scratch.release mark } := ⟨rfl, rfl, rfl, rfl⟩
      exact hrelease.trans (steady_afterLine answer level mode rest)
  | polled ran stack => exact steady_afterPoll ran stack
  | ended stack =>
    cases stack with
    | host | queue => exact .refl _
    | hostExit | exitRoutine => cases hends
  | done ran => exact .refl _

/-- An answer that asks for the end of the program comes from a line that does, or from an end that has come. -/
theorem asksForEnd_step {machine : Machine} (hgoesOn : machine.engine.terminated = false)
    (hasks : machine.control.asksForEnd = false) (hends : machine.control.endsExit = false)
    (hexit : ∀ id stack, machine.control = .step id stack → (setup.script.line id).action ≠ .exitApp) :
    (machine.step setup).control.asksForEnd = false := by
  obtain ⟨engine, control⟩ := machine
  replace hgoesOn : engine.terminated = false := hgoesOn
  cases control with
  | enter start mode stack =>
    simp only [Machine.step]
    split <;> rfl
  | walk cur level mode stack =>
    simp only [Machine.step, walk]
    split
    · rfl
    · split
      · split <;> rfl
      · split <;> rfl
  | reach id level mode stack =>
    simp only [Machine.step]
    rw [if_neg (Bool.eq_false_iff.mp hgoesOn)]
    rfl
  | step id stack =>
    generalize hnext : Machine.step setup ⟨engine, .step id stack⟩ = next
    have hout : Outcome setup engine id stack next := hnext ▸ outcome_runLine
    cases hout with
    | failed | wentOn | opened | looped | slept | called | waited => rfl
    | exiting h => exact absurd h (hexit id stack rfl)
    | diverted _ h =>
      cases h with
      | exitApp h => exact absurd h (hexit id stack rfl)
      | breakLoop | continueLoop | goto | ret | exit => rfl
  | call id cmd stack =>
    have hbranch (engine' : Engine) (truth : Bool) : (branch setup engine' id truth stack).control.asksForEnd = false := by
      unfold branch
      dsimp only
      split <;> rfl
    simp only [Machine.step, callCommand]
    split
    · rfl
    · split
      · exact hbranch _ true
      · split
        · exact hbranch _ false
        · rfl
  | round id body stack =>
    simp only [Machine.step]
    split <;> rfl
  | sleep id deadline stack => rfl
  | poll ran stack =>
    simp only [Machine.step]
    split
    · rfl
    · split
      · rfl
      · split <;> rfl
  | idle deadline =>
    simp only [Machine.step]
    split <;> rfl
  | ran answer stack =>
    have hanswer : answer ≠ .ok .exitApp := by
      rintro rfl
      cases hasks
    cases stack with
    | body after rest =>
      simp only [Machine.step, afterRun, afterBody]
      split
      · rfl
      · rfl
      · rename_i flow _
        cases flow with
        | exitApp => exact absurd rfl hanswer
        | _ => rfl
    | loop id body rest =>
      simp only [Machine.step, afterRun, afterRound]
      split
      · rfl
      · rfl
      · rfl
      · rfl
      · rename_i flow _ _ _
        cases flow with
        | exitApp => exact absurd rfl hanswer
        | _ => rfl
    | thread mode waiting rest =>
      simp only [Machine.step, afterRun, afterThread]
      split <;> rfl
  | stepped answer stack =>
    cases stack with
    | line mark level mode rest =>
      simp only [Machine.step, afterLine]
      split
      · rfl
      · rename_i flow next
        rw [if_neg (Bool.eq_false_iff.mp hgoesOn)]
        split
        · split <;> rfl
        · split <;> rfl
        · split <;> rfl
        · cases flow with
          | exitApp => cases hasks
          | _ => rfl
  | polled ran stack =>
    cases stack with
    | hostQueue | tick => rfl
    | hostIdle deadline =>
      simp only [Machine.step, afterPoll]
      split <;> rfl
    | sleep id deadline waiting rest =>
      simp only [Machine.step, afterPoll, afterSlice]
      split <;> rfl
    | command id cmd waiting rest =>
      simp only [Machine.step, afterPoll]
      rw [if_neg (Bool.eq_false_iff.mp hgoesOn)]
      rfl
  | ended stack =>
    cases stack with
    | host | queue => rfl
    | hostExit | exitRoutine => cases hends
  | done ran => rfl

/-- The program goes on: it has not ended, its exit routine does not run, and no answer asks for its end. -/
structure GoesOn (machine : Machine) : Prop where
  terminated_eq : machine.engine.terminated = false
  exitRunning_eq : machine.engine.exitRunning = false
  asks_eq : machine.control.asksForEnd = false

/-- While the program goes on, no thread ends the exit routine. -/
theorem GoesOn.endsExit_eq {machine : Machine} {starts : List Start} (h : GoesOn machine)
    (hstacked : Stacked setup machine starts) : machine.control.endsExit = false := by
  have hrunning := hstacked.admitted_and_running.2
  rw [h.exitRunning_eq] at hrunning
  exact (Bool.or_eq_false_iff.mp hrunning.symm).2

/-- The program goes on until a line asks for its end. -/
theorem GoesOn.step {machine : Machine} {starts : List Start} (h : GoesOn machine) (hstacked : Stacked setup machine starts)
    (hexit : ∀ id stack, machine.control = .step id stack → (setup.script.line id).action ≠ .exitApp) :
    GoesOn (machine.step setup) := by
  have hends := h.endsExit_eq hstacked
  have hasks := asksForEnd_step h.terminated_eq h.asks_eq hends hexit
  obtain ⟨engine, control⟩ := machine
  cases control with
  | call id cmd stack =>
    have hspares := engine.spares_call setup (setup.script.line id) (setup.script.commands.get cmd)
    rw [← @engine_callCommand setup engine id stack cmd] at hspares
    exact ⟨hspares.terminated_eq.trans h.terminated_eq, hspares.exitRunning_eq.trans h.exitRunning_eq, hasks⟩
  | _ =>
    have hsteady := steady_step h.asks_eq hends hexit nofun
    exact ⟨hsteady.terminated_eq.trans h.terminated_eq, hsteady.exitRunning_eq.trans h.exitRunning_eq, hasks⟩

end Machine

/-- What work apart from the program may change: slots in `W`, and nothing of the files and the registry. -/
structure Engine.Apart (W : VarId → Prop) (engine engine' : Engine) : Prop where
  touches : engine.Touches W engine'
  vars : engine.vars.Extends engine'.vars
  files_eq : engine'.world.files = engine.world.files
  registry_eq : engine'.world.registry = engine.world.registry

/-- What is apart from the program stays so, one change after the other. -/
theorem Engine.Apart.trans {W : VarId → Prop} {a b c : Engine} (hab : a.Apart W b) (hbc : b.Apart W c) : a.Apart W c :=
  ⟨hab.touches.trans hbc.touches, hab.vars.trans hbc.vars, hbc.files_eq.trans hab.files_eq,
    hbc.registry_eq.trans hab.registry_eq⟩

/-- As long as a stack is to be unwound to a part that waits for a thread, there is a thread more than there will be then. -/
theorem Unwinds.lt_length_threads {base : Stack .thread} {goal : Held → Prop} {a : Awaited} {stack : Stack a} {held : Held}
    {N : Nat} (h : Unwinds base goal stack held) (hgoal : ∀ held, goal held → N ≤ held.threads.length) :
    N + (if a = .thread then 0 else 1) ≤ held.threads.length := by
  induction h with
  | base h => exact hgoal _ h
  | thread hthreads _ ih =>
    rw [hthreads]
    exact Nat.succ_le_succ ih
  | line _ _ ih | body _ ih | tick _ ih | sleep _ ih | command _ ih => exact ih
  | @loop _ _ _ held _ ih =>
    have hlength : held.popLoop.threads.length = held.threads.length := by
      unfold Held.popLoop
      split
      · rfl
      · rename_i hthreads
        rw [hthreads]
        rfl
    exact hlength ▸ ih
  | queue _ ih | exitRoutine _ ih => exact Nat.le_trans (Nat.le_succ N) ih

namespace Machine

variable {setup : Setup} {V W : VarId → Prop} {n : Nat}

/-- While a part of the stack waits for a thread, the lines that run are not those of the threads below. -/
theorem Owes.lt_length_threads {base : Stack .thread} {goal : Held → Prop} {machine : Machine} {N : Nat}
    (h : Owes setup base goal machine) (hgoal : ∀ held, goal held → N ≤ held.threads.length) {id : LineId}
    (hline : machine.control.line? = some id) : N < machine.engine.threads.length := by
  obtain ⟨engine, control⟩ := machine
  cases control with
  | step | call =>
    have h : Unwinds base goal _ (engine.held setup) := h
    exact h.lt_length_threads hgoal
  | _ => cases hline

/-- A step that stores only into slots in `W`, appends to no file and does not end the program is apart from it. -/
theorem apart_step (hrefers : ∀ id, ∀ arg ∈ (setup.script.line id).args, arg.Refers n) {machine : Machine}
    (hstores : StoresIn setup W machine) (hsteady : machine.engine.Steady (machine.step setup).engine) :
    machine.engine.Apart W (machine.step setup).engine := by
  have htouches := touches_step hrefers hstores
  rcases @carries_step setup machine with hcarries | ⟨_, _, _, _, _, hcarries⟩
  · exact ⟨htouches, hcarries.vars, hsteady.files_eq, hsteady.registry_eq⟩
  · exact ⟨htouches, hcarries.vars, hsteady.files_eq, hsteady.registry_eq⟩

/-- After an interruption the program goes on as if it had not been: what the routine did was apart from it, and what the engine
held is given back. -/
theorem Follows.resume {alone : Machine} {before after : Engine} {ran : Nat} {stack : Stack .queue}
    (h : Follows setup V alone ⟨before, .poll ran stack⟩) (hapart : before.Apart W after)
    (hheld : after.held setup = before.held setup) (hgoesOn : after.terminated = before.terminated)
    (hown : ∀ v, V v → W v → v = setup.errorLevel) : Follows setup V alone ⟨after, .poll (ran + 1) stack⟩ := by
  have hslot : ∀ v slot, V v → before.vars.slots[v]? = some slot → after.vars.slots[v]? = some slot := by
    intro v slot hv hslot
    by_cases hW : W v
    · obtain rfl := hown v hv hW
      obtain ⟨value, hafter⟩ := hapart.vars _ slot hslot
      have hvalue : after.vars.get setup.errorLevel = before.vars.get setup.errorLevel := congrArg Held.errorLevel hheld
      simp only [Variables.get, hslot, hafter, Option.map_some, Option.getD_some] at hvalue
      rw [hafter, hvalue]
    · exact hapart.touches.vars v slot hW hslot
  have hthreads : after.threads = before.threads := congrArg Held.threads hheld
  have hseen : alone.engine.Seen V after := by
    refine { h.seen with
      slots := fun v hv => ?_
      threads := ?_
      files_eq := hapart.files_eq.trans h.seen.files_eq
      registry_eq := hapart.registry_eq.trans h.seen.registry_eq
      pieces_eq := (congrArg Held.pieces hheld).trans h.seen.pieces_eq
      limit_eq := hapart.touches.limit_eq.trans h.seen.limit_eq
      room := ⟨h.seen.room.1, hapart.touches.room h.seen.room.2⟩
      depth_eq := (congrArg Held.depth hheld).trans h.seen.depth_eq
      terminated_eq := hgoesOn.trans h.seen.terminated_eq }
    · obtain ⟨slot, halone, hbefore, hsteady⟩ := h.seen.slots v hv
      exact ⟨slot, halone, hslot v slot hv hbefore, hsteady⟩
    · rw [hthreads]
      exact h.seen.threads
  have hmain : stack.IsMain := h.main
  have hcontrol := h.control_eq
  cases stack with
  | tick | sleep | command => exact ⟨hseen, hcontrol, hmain⟩
  | hostQueue | hostIdle => exact hmain.elim

end Machine

end LineScript
