import LineScript.Command.Standard
import LineScript.Proofs.Engine.Coverage
import LineScript.Proofs.Engine.Restored

/-!
# Jumps inside loops

A `Goto` to a line that stands directly in a block stays inside every loop around the block: the loop goes on with the round it
is in. A target that is itself the body of a loop or a condition, without braces, is on no run's level, so a jump to it starts
the thread anew there and leaves all loops.
-/

namespace LineScript

/-- The lines of the loops that the running thread is in, innermost first. -/
def Stack.loopLines : {a : Awaited} → Stack a → List LineId
  | _, .line _ _ _ rest => loopLines rest
  | _, .body _ rest => loopLines rest
  | _, .loop id _ rest => id :: loopLines rest
  | _, _ => []

/-- The loops that the running thread is in, each with the round it is in, innermost first. -/
def Thread.looping {a : Awaited} (threads : List Thread) (stack : Stack a) : List (LineId × LoopContext) :=
  stack.loopLines.zip ((threads.head?.map fun thread => thread.loops).getD [])

/-- Leaving a loop takes it off, and leaves those around it. -/
theorem Engine.suffix_popLoop {engine : Engine} {id body loop : LineId} {rest : Stack .line} {context : LoopContext}
    {outer : List (LineId × LoopContext)} (hne : id ≠ loop)
    (h : (loop, context) :: outer <:+ Thread.looping engine.threads (.loop id body rest)) :
    (loop, context) :: outer <:+ Thread.looping engine.popLoop.threads rest := by
  cases hthreads : engine.threads with
  | nil => simp [Thread.looping, Stack.loopLines, hthreads] at h
  | cons thread below =>
    cases hloops : thread.loops with
    | nil => simp [Thread.looping, Stack.loopLines, hthreads, hloops] at h
    | cons first loops =>
      simp only [Thread.looping, Stack.loopLines, hthreads, hloops, List.head?_cons, Option.map_some, Option.getD_some,
        List.zip_cons_cons] at h
      simp only [Thread.looping, popLoop, onThread, hthreads, hloops, List.head?_cons, Option.map_some, Option.getD_some,
        List.tail_cons]
      rcases List.suffix_cons_iff.mp h with h | h
      · exact absurd (congrArg Prod.fst (List.cons.inj h).1).symm hne
      · exact h

theorem Engine.length_popLoop (engine : Engine) : engine.popLoop.threads.length = engine.threads.length := by
  unfold popLoop onThread
  split
  · rfl
  · rename_i hthreads
    rw [hthreads, List.length_cons, List.length_cons]

/-- What changes on top of the threads below leaves the loops that the running thread is in. -/
theorem Thread.OnTop.looping_eq {a : Awaited} {threads threads' : List Thread} (h : OnTop Kept threads threads')
    (stack : Stack a) : looping threads' stack = looping threads stack := by
  cases h with
  | nil => rfl
  | cons h => simp [looping, h.loops_eq]

theorem Held.length_popLoop (held : Held) : held.popLoop.threads.length = held.threads.length := by
  unfold popLoop
  split
  · rfl
  · rename_i hthreads
    rw [hthreads, List.length_cons, List.length_cons]

/-- While a look at the queue lasts, lines are run by threads on top of those that were there. -/
theorem Unwinds.length_le {base : Stack .queue} {before : Held} {a : Awaited} {stack : Stack a} {held : Held}
    (h : Unwinds base (· = before) stack held) :
    before.threads.length + (match a with | .run | .line => 1 | .queue | .thread => 0) ≤ held.threads.length := by
  induction h with
  | base h => exact Nat.le_of_eq (congrArg (fun held => held.threads.length) h.symm)
  | thread hthreads _ ih => exact hthreads ▸ Nat.succ_le_succ ih
  | line _ _ ih | body _ ih => exact ih
  | loop _ ih => exact Nat.le_trans ih (Nat.le_of_eq (Held.length_popLoop _))
  | tick _ ih | sleep _ ih | command _ ih | exitRoutine _ ih => exact Nat.le_of_succ_le ih
  | queue _ ih => exact ih

namespace Machine

/-- Whether a line is about to run. -/
def IsStep (machine : Machine) : Prop :=
  ∃ id stack, machine.control = .step id stack

section

variable {setup : Setup} {engine : Engine}

/-- After a line no other one runs at once. -/
theorem not_isStep_outcome {id : LineId} {stack : Stack .line} {machine : Machine}
    (h : Outcome setup engine id stack machine) : ¬ machine.IsStep := by
  rintro ⟨_, _, hstep⟩
  cases h <;> cases hstep

/-- After the call of a command no line runs at once. -/
theorem not_isStep_callCommand (id : LineId) (cmd : CommandId) (stack : Stack .line) :
    ¬ (callCommand setup engine id cmd stack).IsStep := by
  have hbranch (engine' : Engine) (truth : Bool) : ¬ (branch setup engine' id truth stack).IsStep := by
    rintro ⟨_, _, hstep⟩
    simp only [branch] at hstep
    split at hstep <;> cases hstep
  simp only [callCommand]
  split
  · rintro ⟨_, _, hstep⟩
    cases hstep
  · split
    · exact hbranch _ _
    · split
      · exact hbranch _ _
      · rintro ⟨_, _, hstep⟩
        cases hstep

theorem not_isStep_afterLine (answer : Except RuntimeError (Flow × Option LineId)) (level : Option LineId) (mode : Mode)
    (stack : Stack .run) : ¬ (afterLine setup engine answer level mode stack).IsStep := by
  rintro ⟨_, _, hstep⟩
  unfold afterLine at hstep
  split at hstep
  · cases hstep
  · split at hstep
    · cases hstep
    · split at hstep
      · split at hstep <;> cases hstep
      · split at hstep <;> cases hstep
      · split at hstep <;> cases hstep
      · cases hstep

theorem not_isStep_afterRun (answer : Except RuntimeError Flow) (stack : Stack .run) :
    ¬ (afterRun setup engine answer stack).IsStep := by
  rintro ⟨_, _, hstep⟩
  cases stack with
  | body after rest =>
    simp only [afterRun, afterBody] at hstep
    split at hstep <;> cases hstep
  | loop id body rest =>
    simp only [afterRun, afterRound] at hstep
    split at hstep <;> cases hstep
  | thread mode waiting rest =>
    simp only [afterRun, afterThread] at hstep
    split at hstep <;> cases hstep

/-- After what follows a look at the queue no line runs at once. -/
theorem not_isStep_afterPoll (ran : Nat) (stack : Stack .queue) : ¬ (afterPoll setup engine ran stack).IsStep := by
  rintro ⟨_, _, hstep⟩
  cases stack with
  | hostQueue | tick => cases hstep
  | hostIdle | command =>
    simp only [afterPoll] at hstep
    split at hstep <;> cases hstep
  | sleep =>
    simp only [afterPoll, afterSlice] at hstep
    split at hstep <;> cases hstep

/-- A line runs only when the program has not ended. -/
theorem not_terminated_of_isStep {machine : Machine} (h : (machine.step setup).IsStep) :
    machine.engine.terminated = false := by
  obtain ⟨engine, control⟩ := machine
  cases control with
  | reach id level mode stack =>
    obtain ⟨_, _, hstep⟩ := h
    simp only [Machine.step] at hstep
    split at hstep
    · cases hstep
    · rename_i hgoing
      exact Bool.eq_false_iff.mpr hgoing
  | step id stack => exact absurd h (not_isStep_outcome outcome_runLine)
  | call id cmd stack => exact absurd h (not_isStep_callCommand id cmd stack)
  | ran answer stack => exact absurd h (not_isStep_afterRun answer stack)
  | polled ran stack => exact absurd h (not_isStep_afterPoll ran stack)
  | stepped answer stack =>
    cases stack with
    | line mark level mode rest => exact absurd h (not_isStep_afterLine answer level mode rest)
  | enter start mode stack =>
    obtain ⟨_, _, hstep⟩ := h
    simp only [Machine.step] at hstep
    split at hstep <;> cases hstep
  | walk cur level mode stack =>
    obtain ⟨_, _, hstep⟩ := h
    simp only [Machine.step, walk] at hstep
    split at hstep
    · cases hstep
    · split at hstep
      · split at hstep <;> cases hstep
      · split at hstep <;> cases hstep
  | round id body stack =>
    obtain ⟨_, _, hstep⟩ := h
    simp only [Machine.step] at hstep
    split at hstep <;> cases hstep
  | poll ran stack =>
    obtain ⟨_, _, hstep⟩ := h
    simp only [Machine.step] at hstep
    split at hstep
    · cases hstep
    · split at hstep
      · cases hstep
      · split at hstep <;> cases hstep
  | idle deadline =>
    obtain ⟨_, _, hstep⟩ := h
    simp only [Machine.step] at hstep
    split at hstep <;> cases hstep
  | ended stack =>
    obtain ⟨_, _, hstep⟩ := h
    cases stack <;> cases hstep
  | sleep | done =>
    obtain ⟨_, _, hstep⟩ := h
    cases hstep

end

/-- A jump to a line of the block at `b` is on its way: it is handed up, taken, or held up by other threads before the target. The
loops `kept` are still there, and the thread that jumped is the one at `count`. Once the program has ended, no line runs. -/
inductive Landing (setup : Setup) (target b : LineId) (kept : List (LineId × LoopContext)) (count : Nat) : Machine → Prop
  | leaping {engine : Engine} {stack : Stack .line} (hcatch : stack.Catches b)
    (hkept : kept <:+ Thread.looping engine.threads stack) (hcount : engine.threads.length = count) :
    Landing setup target b kept count ⟨engine, .stepped (.ok (.goto target, none)) stack⟩
  | passing {engine : Engine} {stack : Stack .run} (hcatch : stack.Catches b)
    (hkept : kept <:+ Thread.looping engine.threads stack) (hcount : engine.threads.length = count) :
    Landing setup target b kept count ⟨engine, .ran (.ok (.goto target)) stack⟩
  | walking {engine : Engine} {level : Option LineId} {mode : Mode} {stack : Stack .run}
    (hkept : kept <:+ Thread.looping engine.threads stack) (hcount : engine.threads.length = count) :
    Landing setup target b kept count ⟨engine, .walk (some target) level mode stack⟩
  | interrupted {machine : Machine} {level : Option LineId} {mode : Mode} {stack : Stack .run} {before : Held}
    (howes : Owes setup (.tick target level mode stack) (· = before) machine)
    (hkept : kept <:+ Thread.looping before.threads stack) (hcount : before.threads.length = count) :
    Landing setup target b kept count machine
  | reaching {engine : Engine} {level : Option LineId} {mode : Mode} {stack : Stack .run}
    (hkept : kept <:+ Thread.looping engine.threads stack) (hcount : engine.threads.length = count) :
    Landing setup target b kept count ⟨engine, .reach target level mode stack⟩
  | ended {machine : Machine} (hended : machine.engine.terminated = true) (hno : ¬ machine.IsStep) :
    Landing setup target b kept count machine

/-- The target of a jump is about to run, in the thread that jumped and with the loops kept. -/
def Lands (target : LineId) (kept : List (LineId × LoopContext)) (count : Nat) (machine : Machine) : Prop :=
  ∃ stack, machine.control = .step target stack ∧ kept <:+ Thread.looping machine.engine.threads stack ∧
    machine.engine.threads.length = count

namespace Landing

variable {setup : Setup} {target b : LineId} {kept : List (LineId × LoopContext)} {count : Nat} {machine : Machine}

/-- What happens outside does not hold up a jump. -/
theorem elapses {engine : Engine} (h : Landing setup target b kept count machine)
    (helapses : machine.engine.Elapses engine) : Landing setup target b kept count ⟨engine, machine.control⟩ := by
  obtain ⟨world, triggers, rfl⟩ := helapses
  cases h with
  | leaping hcatch hkept hcount => exact .leaping hcatch hkept hcount
  | passing hcatch hkept hcount => exact .passing hcatch hkept hcount
  | walking hkept hcount => exact .walking hkept hcount
  | interrupted howes hkept hcount => exact .interrupted howes hkept hcount
  | reaching hkept hcount => exact .reaching hkept hcount
  | ended hended hno => exact .ended hended hno

/-- While a jump is on its way, the thread that jumped runs no line. -/
theorem length_ne (h : Landing setup target b kept count machine) (hstep : machine.IsStep) :
    machine.engine.threads.length ≠ count := by
  obtain ⟨id, stack, hcontrol⟩ := hstep
  cases h with
  | leaping | passing | walking | reaching => cases hcontrol
  | interrupted howes _ hcount =>
    rw [Owes, hcontrol] at howes
    have hlt := howes.length_le
    intro heq
    rw [← hcount] at heq
    exact absurd hlt (Nat.not_le_of_lt (Nat.lt_succ_of_le (Nat.le_of_eq heq)))
  | ended _ hno => exact absurd ⟨id, stack, hcontrol⟩ hno

variable (hown : machine.engine.vars.IsOwn setup.errorLevel) (hend : (setup.script.line target).action ≠ .blockEnd)
  (hparent : (setup.script.line target).parent = some b) {loop : LineId} {context : LoopContext}
  {outer : List (LineId × LoopContext)} (hloop : loop < b)

include hown hend hparent hloop in
/-- A jump on its way stays so, or its target runs with the loops kept. -/
theorem step (h : Landing setup target b ((loop, context) :: outer) count machine) :
    Landing setup target b ((loop, context) :: outer) count (machine.step setup) ∨
      Lands target ((loop, context) :: outer) count (machine.step setup) := by
  cases h with
  | @leaping engine stack hcatch hkept hcount =>
    left
    cases stack with
    | line mark level mode rest =>
      simp only [Machine.step, afterLine]
      split
      · rename_i hended
        exact .ended hended (by rintro ⟨_, _, hstep⟩; cases hstep)
      · split
        · exact .walking hkept hcount
        · rename_i hpassed
          rcases hcatch with ⟨rfl, hmode⟩ | hcatch
          · simp [hparent, hmode] at hpassed
          · exact .passing hcatch hkept hcount
  | @passing engine stack hcatch hkept hcount =>
    left
    cases stack with
    | body after rest => exact .leaping hcatch hkept hcount
    | loop id body rest =>
      -- the loop left here starts after the block, so it is not the one to be kept
      have hne : id ≠ loop := fun heq => hcatch.1 (heq ▸ hloop)
      exact .leaping hcatch.2 (Engine.suffix_popLoop hne hkept) (engine.length_popLoop.trans hcount)
    | thread mode waiting rest => exact absurd (List.eq_nil_of_suffix_nil hkept) (List.cons_ne_nil _ _)
  | @walking engine level mode stack hkept hcount =>
    left
    have hw := engine.worked_noteLine target
    have hkept' := hw.threads.looping_eq stack ▸ hkept
    have hcount' := hw.threads.length_eq.trans hcount
    have hline : ((setup.script.line target).action == .blockEnd) = false := beq_eq_false_iff_ne.mpr hend
    simp only [Machine.step, walk, hline, Bool.false_eq_true, if_false]
    split
    · exact .interrupted (Unwinds.base rfl) hkept' hcount'
    · exact .reaching hkept' hcount'
  | @interrupted _ level mode stack before howes hkept hcount =>
    left
    by_cases hanswered : machine.control.answered? = some ⟨.queue, .tick target level mode stack⟩
    · obtain ⟨engine, control⟩ := machine
      cases control with
      | polled ran looked =>
        cases Option.some.inj hanswered
        have hback : Unwinds (.tick target level mode stack) (· = before) (.tick target level mode stack)
          (engine.held setup) := howes
        have hheld : engine.held setup = before := hback.goal_of_eq rfl
        rw [← hheld] at hkept hcount
        exact .reaching hkept hcount
      | _ => cases hanswered
    · have hgoal {held held' : Held} (h : held = before) (h' : Held.Alike .queue held held') : held' = before :=
        Eq.trans h' h
      exact .interrupted (howes.step hgoal hown hanswered) hkept hcount
  | @reaching engine level mode stack hkept hcount =>
    simp only [Machine.step]
    split
    · rename_i hended
      exact .inl (.ended hended (by rintro ⟨_, _, hstep⟩; cases hstep))
    · exact .inr ⟨_, rfl, hkept, hcount⟩
  | ended hended hno =>
    left
    refine .ended (Next.terminated ⟨_, .refl _, rfl⟩ hended) fun hstep => ?_
    exact absurd (not_terminated_of_isStep hstep) (by simp [hended])

include hown hend hparent hloop in
/-- A jump that is on its way goes on, or lands with the loop still there. -/
theorem next {machine' : Machine} (h : Landing setup target b ((loop, context) :: outer) count machine)
    (hnext : Next setup machine machine') :
    Landing setup target b ((loop, context) :: outer) count machine' ∨ Lands target ((loop, context) :: outer) count machine' := by
  obtain ⟨now, helapses, rfl⟩ := hnext
  exact (h.elapses helapses).step (helapses.carries.vars.isOwn hown) hend hparent hloop

end Landing

/-- A jump that is taken is on its way, if the stack has a run that takes it. -/
theorem landing_of_jump {setup : Setup} {machine machine' : Machine} {g target b : LineId} {stack : Stack .line}
    {kept : List (LineId × LoopContext)} (hnext : Next setup machine machine') (hstep : machine.control = .step g stack)
    (hjumped : machine'.control = .stepped (.ok (.goto target, none)) stack)
    (hcatch : (setup.script.line g).action = .goto → setup.script.Jumps g target → stack.Catches b)
    (hkept : kept <:+ Thread.looping machine.engine.threads stack) :
    Landing setup target b kept machine.engine.threads.length machine' := by
  obtain ⟨now, helapses, rfl⟩ := hnext
  rw [hstep] at hjumped ⊢
  have hthreads : now.threads = machine.engine.threads := by
    obtain ⟨world, triggers, rfl⟩ := helapses
    rfl
  have hout := @outcome_runLine setup now g stack
  change (runLine setup now g stack).control = _ at hjumped
  change Landing setup target b kept _ (runLine setup now g stack)
  generalize runLine setup now g stack = after at hout hjumped ⊢
  cases hout with
  | diverted hw hd =>
    cases hjumped
    cases hd with
    | goto haction hjump =>
      refine .leaping (hcatch haction hjump) ?_ (hthreads ▸ hw.threads.length_eq)
      rw [hw.threads.looping_eq, hthreads]
      exact hkept
  | failed | wentOn | opened | looped | slept | called | waited | exiting => cases hjumped

/-- In a run, the line `g` jumps to `target`, and after `n` steps its thread comes to run a line again: the target. -/
structure Jumped (run : Nat → Machine) (g target : LineId) (stack stack' : Stack .line) (n : Nat) : Prop where
  pos : 0 < n
  stepped : (run 0).control = .step g stack
  jumped : (run 1).control = .stepped (.ok (.goto target, none)) stack
  landed : (run n).control = .step target stack'
  thread_eq : (run n).engine.threads.length = (run 0).engine.threads.length
  first : ∀ k, 0 < k → k < n → (run k).IsStep → (run k).engine.threads.length ≠ (run 0).engine.threads.length

/-- The line that is about to run, with the number of threads, the loops of the stack and the number of those of the thread. -/
def atLine? (machine : Machine) : Option (LineId × Nat × List LineId × Nat) :=
  match machine.control with
  | .step id stack =>
    some (id, machine.engine.threads.length, stack.loopLines,
      ((machine.engine.threads.head?.map fun thread => thread.loops).getD []).length)
  | _ => none

/-- Where a line has just jumped to. -/
def jumpedTo? (machine : Machine) : Option LineId :=
  match machine.control with
  | .stepped (.ok (.goto target, none)) _ => some target
  | _ => none

/-- A machine that is at a line is seen there, with its threads and loops. -/
theorem atLine?_eq_some {machine : Machine} {id : LineId} {count loops : Nat} {lines : List LineId}
    (h : machine.atLine? = some (id, count, lines, loops)) :
    ∃ stack, machine.control = .step id stack ∧ machine.engine.threads.length = count ∧ stack.loopLines = lines ∧
      ((machine.engine.threads.head?.map fun thread => thread.loops).getD []).length = loops := by
  unfold atLine? at h
  split at h
  · rename_i hcontrol
    cases h
    exact ⟨_, hcontrol, rfl, rfl, rfl⟩
  · cases h

/-- A machine that jumps is seen to. -/
theorem jumpedTo?_eq_some {machine : Machine} {target : LineId} (h : machine.jumpedTo? = some target) :
    ∃ stack, machine.control = .stepped (.ok (.goto target, none)) stack := by
  unfold jumpedTo? at h
  split at h
  · rename_i hcontrol
    cases h
    exact ⟨_, hcontrol⟩
  · cases h

/-- Whether line `g` of a machine jumps to `target`, which runs after `n` steps, with the loops `before` around the one line and
`after` around the other. -/
def jumpsTo (setup : Setup) (machine : Machine) (n : Nat) (g target : LineId) (before after : List LineId) : Bool :=
  let run (k : Nat) := (step setup)^[k] machine
  0 < n && (run 0).atLine? == some (g, 1, before, before.length) && (run 1).jumpedTo? == some target &&
    (run n).atLine? == some (target, 1, after, after.length) && (List.range n).all fun k => k == 0 || (run k).atLine?.isNone

/-- A jump that is found by running a machine is one. -/
theorem jumped_of_jumpsTo {setup : Setup} {machine : Machine} {n : Nat} {g target : LineId} {before after : List LineId}
    (h : jumpsTo setup machine n g target before after = true) :
    ∃ stack stack', Jumped (fun k => (step setup)^[k] machine) g target stack stack' n ∧ stack.loopLines = before ∧
      stack'.loopLines = after ∧
      ((machine.engine.threads.head?.map fun thread => thread.loops).getD []).length = before.length := by
  simp only [jumpsTo, Bool.and_eq_true, decide_eq_true_eq, beq_iff_eq, List.all_eq_true, List.mem_range, Bool.or_eq_true,
    Option.isNone_iff_eq_none] at h
  obtain ⟨⟨⟨⟨hpos, h0⟩, h1⟩, hn⟩, hfirst⟩ := h
  obtain ⟨stack, hstep, hcount, hbefore, hloops⟩ := atLine?_eq_some h0
  obtain ⟨stack', hland, hcount', hafter, -⟩ := atLine?_eq_some hn
  obtain ⟨passed, hjumped⟩ := jumpedTo?_eq_some h1
  obtain rfl : passed = stack := by
    have hout := @outcome_runLine setup machine.engine g stack
    have hline : step setup machine = runLine setup machine.engine g stack := by
      rw [step, show machine.control = .step g stack from hstep]
    rw [Function.iterate_one, hline] at hjumped
    generalize runLine setup machine.engine g stack = after at hout hjumped
    cases hout <;> cases hjumped
    rfl
  refine ⟨passed, stack', ⟨hpos, hstep, hjumped, hland, hcount'.trans hcount.symm, ?_⟩, hbefore, hafter, hloops⟩
  rintro k hk hkn ⟨id, stack'', hcontrol⟩
  rcases hfirst k hkn with rfl | hnone
  · exact absurd hk (Nat.lt_irrefl 0)
  · rw [atLine?, hcontrol] at hnone
    cases hnone

/-- Running a machine some steps comes to what can be reached. -/
theorem reachable_iterate {setup : Setup} {engine : Engine} {machine : Machine} (h : Reachable setup engine machine)
    (k : Nat) : Reachable setup engine ((step setup)^[k] machine) := by
  induction k with
  | zero => exact h
  | succ k ih => exact ih.step (isRun_iterate setup machine k)

end Machine

namespace Program

open Machine

/-- In a loaded program jumps that are taken are valid. -/
theorem isJumpValid_of_jumps {commands : CommandSet} {items : List Item} {program : Program}
    (hload : load commands items = .ok program) {id target : LineId}
    (haction : (program.script.line id).action = .goto ∨ (program.script.line id).action = .gosub)
    (hjump : program.script.Jumps id target) : program.script.isJumpValid id target = true := by
  rcases hjump with ⟨label, hnote, rfl⟩ | hvalid
  · exact isJumpValid_of_load hload haction hnote
  · exact hvalid

/-- A jump to a line that stands directly in a block leaves no loop that starts before the block: when the target runs, the loop
is still there, in the same round, and so are the loops around it. -/
theorem goto_keeps_loop {commands : CommandSet} {items : List Item} {program : Program}
    (hload : load commands items = .ok program) (config : Config) (perform : Performer) (world : World) :
    let setup := (Engine.start program config perform world).1
    let engine := (Engine.start program config perform world).2
    ∀ (run : Nat → Machine) (g target b loop : LineId) (context : LoopContext) (outer : List (LineId × LoopContext))
      (stack stack' : Stack .line) (n : Nat),
      Reachable setup engine (run 0) → IsRun setup run → Jumped run g target stack stack' n →
      (setup.script.line target).parent = some b → (setup.script.line b).action = .blockBegin → loop < b →
      (loop, context) :: outer <:+ Thread.looping (run 0).engine.threads stack →
      (loop, context) :: outer <:+ Thread.looping (run n).engine.threads stack' := by
  intro setup engine run g target b loop context outer stack stack' n hreach hrun hjump hparent hblock hloop hkept
  obtain ⟨last, layout, hlaid⟩ := laidOut_of_load hload
  have hlaid : setup.script.LaidOut last layout := hlaid
  have hown := hreach.isOwn (Engine.start_errorLevel hload config perform world)
  have hvalid {id target : LineId} (haction) (hjump : setup.script.Jumps id target) :
      setup.script.isJumpValid id target = true := isJumpValid_of_jumps hload haction hjump
  have hreaches : ∀ k, Reachable setup engine (run k) := by
    intro k
    induction k with
    | zero => exact hreach
    | succ k ih => exact ih.step (hrun k)
  have hsound (k : Nat) : Sound setup (run k) := (hreaches k).sound hlaid hvalid
  have hend : (setup.script.line target).action ≠ .blockEnd := by
    have h := hsound n
    rw [Sound, hjump.landed] at h
    exact h.2.1
  have htarget : setup.script.InBlock b target :=
    hlaid.inBlock_iff.mpr (hparent ▸ .inl ⟨rfl, (shape_eq_opening_iff _ _).mpr hblock⟩)
  have hcovers : stack.Covers setup.script g := by
    have h := hsound 0
    rw [Sound, hjump.stepped] at h
    exact h.2.2
  have hone : Landing setup target b ((loop, context) :: outer) (run 0).engine.threads.length (run 1) :=
    landing_of_jump (hrun 0) hjump.stepped hjump.jumped
      (fun haction hjumps => hcovers b (hlaid.inBlock_of_isJumpValid (hvalid (.inl haction) hjumps) htarget)) hkept
  have hnext (k : Nat) (h : Landing setup target b ((loop, context) :: outer) (run 0).engine.threads.length (run k)) :=
    h.next (isOwn_run hrun hown k) hend hparent hloop (hrun k)
  -- until the target runs, the jump is on its way
  have hway : ∀ k, k + 1 < n →
      Landing setup target b ((loop, context) :: outer) (run 0).engine.threads.length (run (k + 1)) := by
    intro k
    induction k with
    | zero => exact fun _ => hone
    | succ k ih =>
      intro hk
      rcases hnext (k + 1) (ih (by omega)) with h | ⟨stack'', hcontrol, -, hcount⟩
      · exact h
      · exact absurd hcount (hjump.first (k + 2) (by omega) hk ⟨target, stack'', hcontrol⟩)
  obtain ⟨k, rfl⟩ : ∃ k, n = k + 2 := by
    have h0 := hjump.pos
    have h1 : n ≠ 1 := by
      rintro rfl
      cases hjump.jumped.symm.trans hjump.landed
    exact ⟨n - 2, by omega⟩
  rcases hnext (k + 1) (hway k (by omega)) with h | ⟨stack'', hcontrol, hkept', -⟩
  · exact absurd hjump.thread_eq (h.length_ne ⟨target, stack', hjump.landed⟩)
  · obtain ⟨-, rfl⟩ := Control.step.inj (hcontrol.symm.trans hjump.landed)
    exact hkept'

/-- A loop over a condition with a jump back to it, in braces if `braced` says so. -/
def jumpingBack (braced : Bool) : List Item :=
  let line (keyword : String) (args : List String) : Item :=
    .statement { keyword, args := args.map .plain, lineNo := 1 } []
  let condition := [.label "again" 1, line "IfLess" ["n", "1"], line "\x7b" [], line "+=" ["n", "1"],
    line "Goto" ["again"], line "\x7d" [], line "else" [], line "Echo" ["%A_Index%"]]
  line "Loop" ["3"] :: if braced then line "\x7b" [] :: condition ++ [line "\x7d" []] else condition

/-- The program of `jumpingBack` with braces jumps back in its first round, and is still in it when the target runs. -/
theorem jumpingBack_jumps :
    (match load Standard.commands (jumpingBack true) with
    | .ok program =>
      let (setup, engine) := Engine.start program {} Standard.perform default
      jumpsTo setup ((step setup)^[24] (HostCall.autoExecute.start setup engine)) 8 5 2 [0] [0] &&
        (setup.script.line 2).parent == some 1 && (setup.script.line 1).action == .blockBegin
    | .error _ => false) = true := by
  decide +kernel

/-- In braces, the loop is still in its first round when the target of the jump runs. -/
theorem goto_keeps_loop_in_braces :
    ∃ program, load Standard.commands (jumpingBack true) = .ok program ∧
      let setup := (Engine.start program {} Standard.perform default).1
      let engine := (Engine.start program {} Standard.perform default).2
      let run := fun k => (step setup)^[k] ((step setup)^[24] (HostCall.autoExecute.start setup engine))
      ∃ stack stack' context, Jumped run 5 2 stack stack' 8 ∧
        Thread.looping (run 0).engine.threads stack = [(0, context)] ∧
        [(0, context)] <:+ Thread.looping (run 8).engine.threads stack' := by
  have hjumps := jumpingBack_jumps
  cases hload : load Standard.commands (jumpingBack true) with
  | error e => rw [hload] at hjumps; cases hjumps
  | ok program =>
    simp only [hload, Bool.and_eq_true, beq_iff_eq] at hjumps
    obtain ⟨⟨hjumps, hparent⟩, hblock⟩ := hjumps
    refine ⟨program, rfl, ?_⟩
    intro setup engine run
    obtain ⟨stack, stack', hjumped, hbefore, -, hloops⟩ := jumped_of_jumpsTo hjumps
    obtain ⟨context, hcontext⟩ := List.length_eq_one_iff.mp hloops
    have hlooping : Thread.looping (run 0).engine.threads stack = [(0, context)] := by
      rw [Thread.looping, hbefore]
      exact congrArg ([0].zip ·) hcontext
    refine ⟨stack, stack', context, hjumped, hlooping, ?_⟩
    exact goto_keeps_loop hload {} Standard.perform default run 5 2 1 0 context [] stack stack' 8
      (reachable_iterate (.call .start .autoExecute) 24) (isRun_iterate setup _) hjumped hparent hblock Nat.zero_lt_one
      (hlooping ▸ List.suffix_refl _)

/-- The program of `jumpingBack` without braces jumps back in its first round, and is in no loop when the target runs. -/
theorem jumpingBack_leaves :
    (match load Standard.commands (jumpingBack false) with
    | .ok program =>
      let (setup, engine) := Engine.start program {} Standard.perform default
      jumpsTo setup ((step setup)^[20] (HostCall.autoExecute.start setup engine)) 12 4 1 [0] [] &&
        setup.script.isJumpValid 4 1 && (setup.script.line 0).action == .loop && (setup.script.line 0).related == some 8
    | .error _ => false) = true := by
  decide +kernel

/-- Without braces, the jump is valid and goes from one line of the body to another, but it leaves the loop. -/
theorem goto_leaves_loop :
    ∃ program, load Standard.commands (jumpingBack false) = .ok program ∧
      let setup := (Engine.start program {} Standard.perform default).1
      let engine := (Engine.start program {} Standard.perform default).2
      let run := fun k => (step setup)^[k] ((step setup)^[20] (HostCall.autoExecute.start setup engine))
      ∃ stack stack' context, Jumped run 4 1 stack stack' 12 ∧ setup.script.isJumpValid 4 1 = true ∧
        (setup.script.line 0).action = .loop ∧ (setup.script.line 0).related = some 8 ∧
        Thread.looping (run 0).engine.threads stack = [(0, context)] ∧
        ¬ [(0, context)] <:+ Thread.looping (run 12).engine.threads stack' := by
  have hjumps := jumpingBack_leaves
  cases hload : load Standard.commands (jumpingBack false) with
  | error e => rw [hload] at hjumps; cases hjumps
  | ok program =>
    simp only [hload, Bool.and_eq_true, beq_iff_eq] at hjumps
    obtain ⟨⟨⟨hjumps, hvalid⟩, hloop⟩, hrelated⟩ := hjumps
    refine ⟨program, rfl, ?_⟩
    intro setup engine run
    obtain ⟨stack, stack', hjumped, hbefore, hafter, hloops⟩ := jumped_of_jumpsTo hjumps
    obtain ⟨context, hcontext⟩ := List.length_eq_one_iff.mp hloops
    refine ⟨stack, stack', context, hjumped, hvalid, hloop, hrelated, ?_, ?_⟩
    · rw [Thread.looping, hbefore]
      exact congrArg ([0].zip ·) hcontext
    · rw [Thread.looping, hafter, List.zip_nil_left]
      exact fun h => by cases List.eq_nil_of_suffix_nil h

end Program

end LineScript
