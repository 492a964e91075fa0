import LineScript.Command.Standard
import LineScript.Proofs.Engine.Reachable
import LineScript.Proofs.Engine.Unwinding

/-!
# Stacks are restored

Running code leaves the stacks of the engine as it found them, whatever happens on the way: loops, routines, blocks and
interrupting threads give back what they take also when they are left by a jump, the end of the program or an error. This holds
for runs of lines and for whole threads; and a host that is heard again finds nothing open and nothing held.
-/

namespace LineScript

namespace Machine

/-- A run of a machine: each machine comes after the one before it. -/
def IsRun (setup : Setup) (run : Nat → Machine) : Prop :=
  ∀ k, Next setup (run k) (run (k + 1))

/-- In a run, a stack first gets what it waits for after `n` steps. -/
structure Returns {a : Awaited} (run : Nat → Machine) (stack : Stack a) (n : Nat) : Prop where
  answered : (run n).control.answered? = some ⟨a, stack⟩
  first : ∀ k < n, (run k).control.answered? ≠ some ⟨a, stack⟩

/-- Steps taken one after the other, with nothing happening outside, are a run. -/
theorem isRun_iterate (setup : Setup) (machine : Machine) : IsRun setup fun k => (step setup)^[k] machine :=
  fun k => ⟨_, .refl _, Function.iterate_succ_apply' (step setup) k machine⟩

/-- A machine that ends within some steps has ended after a number of them. -/
theorem exists_done_of_run {setup : Setup} {fuel : Nat} {machine : Machine} {answer : Nat × Engine}
    (h : run setup fuel machine = some answer) : ∃ n, ((step setup)^[n] machine).control = .done answer.1 := by
  fun_induction run setup fuel machine with
  | case1 => cases h
  | case2 machine fuel ran hcontrol =>
    cases h
    exact ⟨0, hcontrol⟩
  | case3 machine fuel hcontrol ih =>
    obtain ⟨n, hn⟩ := ih h
    exact ⟨n + 1, hn⟩

/-- A run of lines that starts owes what it finds, up to work of its own thread. -/
theorem owes_enter (setup : Setup) {machine : Machine} {start : LineId} {mode : Mode} {stack : Stack .run}
    (h : machine.control = .enter start mode stack) :
    Owes setup stack (Held.Alike .run (machine.engine.held setup)) machine := by
  rw [Owes, h]
  exact .base (.refl _ _)

section

variable {setup : Setup} {run : Nat → Machine} {b : Awaited} {base : Stack b} {goal : Held → Prop} {n : Nat}
  (hrun : IsRun setup run) (hown : (run 0).engine.vars.IsOwn setup.errorLevel)
  (hgoal : ∀ {held held'}, goal held → Held.Alike b held held' → goal held') (howes : Owes setup base goal (run 0))

include hrun hown in
/-- At every moment of a run, the error level is a variable of the program. -/
theorem isOwn_run (k : Nat) : (run k).engine.vars.IsOwn setup.errorLevel := by
  induction k with
  | zero => exact hown
  | succ k ih => exact (hrun k).extends.isOwn ih

include hrun hown hgoal howes

/-- What is owed to a part of the stack stays so along a run, as long as that part waits. -/
theorem owes_run {k : Nat} (hwait : ∀ j < k, (run j).control.answered? ≠ some ⟨b, base⟩) :
    Owes setup base goal (run k) := by
  induction k with
  | zero => exact howes
  | succ k ih =>
    obtain ⟨now, helapses, hstep⟩ := hrun k
    have hnow : Owes setup base goal ⟨now, (run k).control⟩ := by
      have h := ih fun j hj => hwait j (Nat.lt_succ_of_lt hj)
      obtain ⟨world, triggers, rfl⟩ := helapses
      exact h
    rw [hstep]
    exact hnow.step hgoal (helapses.carries.vars.isOwn (isOwn_run hrun hown k)) (hwait k (Nat.lt_succ_self k))

/-- What a part of the stack is owed is what the engine holds when that part gets what it waits for. -/
theorem goal_of_returns (hret : Returns run base n) : goal ((run n).engine.held setup) := by
  have howed := owes_run hrun hown hgoal howes hret.first
  have hanswered := hret.answered
  unfold Owes at howed
  cases hcontrol : (run n).control with
  | ran | stepped | polled | ended =>
    rw [hcontrol] at howed hanswered
    exact howed.goal_of_eq (Option.some.inj hanswered)
  | enter | walk | reach | step | call | round | sleep | poll | idle | done =>
    rw [hcontrol] at hanswered
    cases hanswered

/-- A run that ends has given every part of the stack what it waited for. -/
theorem exists_returns {ran : Nat} (hdone : (run n).control = .done ran) : ∃ k < n, Returns run base k := by
  by_contra hnone
  have hwait : ∀ k, k ≤ n → ∀ j < k, (run j).control.answered? ≠ some ⟨b, base⟩ := by
    intro k
    induction k with
    | zero => exact fun _ j hj => absurd hj (Nat.not_lt_zero j)
    | succ k ih =>
      intro hk j hj
      rcases Nat.lt_succ_iff_lt_or_eq.mp hj with hj | rfl
      · exact ih (Nat.le_of_succ_le hk) j hj
      · exact fun hanswered => hnone ⟨j, hk, hanswered, ih (Nat.le_of_succ_le hk)⟩
  have howed := owes_run hrun hown hgoal howes (hwait n (Nat.le_refl n))
  rw [Owes, hdone] at howed
  exact howed

end

end Machine

/-! ## At rest -/

/-- The host stands on this part of a stack. -/
def Stack.IsHost : {a : Awaited} → Stack a → Prop
  | _, .host | _, .hostQueue | _, .hostExit | _, .hostIdle _ => True
  | _, _ => False

/-- No run of lines is open, and no text is held. -/
def Held.IsFree (held : Held) : Prop :=
  held.depth = 0 ∧ held.pieces = []

/-- If a stack that waits for a thread gets what it waits for, a thread has ended. -/
theorem Control.eq_ended {control : Control} {stack : Stack .thread} (h : control.answered? = some ⟨.thread, stack⟩) :
    control = .ended stack := by
  cases control with
  | ended => cases h; rfl
  | _ => cases h

/-- If a stack that waits for a look at the queue gets what it waits for, the look is done. -/
theorem Control.eq_polled {control : Control} {stack : Stack .queue} (h : control.answered? = some ⟨.queue, stack⟩) :
    ∃ ran, control = .polled ran stack := by
  cases control with
  | polled ran => cases h; exact ⟨ran, rfl⟩
  | _ => cases h

namespace Machine

/-- Everything is given back by the time the host is heard again. -/
def Frees (setup : Setup) (machine : Machine) : Prop :=
  match machine.control with
  | .done _ | .idle _ => (machine.engine.held setup).IsFree
  | _ => ∃ (b : Awaited) (base : Stack b), base.IsHost ∧ Owes setup base Held.IsFree machine

section

variable {setup : Setup} {engine : Engine}

/-- A thread that the host launches gives everything back. -/
theorem frees_launch {start : LineId} {label : Option LabelId} {trigger : Trigger} {stack : Stack .thread}
    (hhost : stack.IsHost) (h : (engine.held setup).IsFree) :
    Frees setup (launch setup engine start label trigger stack) :=
  ⟨.thread, stack, hhost, owes_launch (.base h)⟩

/-- What owes the host a free engine gives everything back. -/
theorem frees_of_owes {b : Awaited} {base : Stack b} {machine : Machine} (hhost : base.IsHost)
    (h : Owes setup base Held.IsFree machine) : Frees setup machine := by
  obtain ⟨engine, control⟩ := machine
  cases control with
  | done | idle => exact h.elim
  | _ => exact ⟨b, base, hhost, h⟩

/-- After a step, everything is still given back by the time the host is heard. -/
theorem Frees.step {machine : Machine} (hown : machine.engine.vars.IsOwn setup.errorLevel) (h : Frees setup machine) :
    Frees setup (machine.step setup) := by
  have howed (h : ∃ (b : Awaited) (base : Stack b), base.IsHost ∧ Owes setup base Held.IsFree machine) :
      Frees setup (machine.step setup) := by
    obtain ⟨b, base, hhost, howes⟩ := h
    by_cases hanswered : machine.control.answered? = some ⟨b, base⟩
    · obtain ⟨engine, control⟩ := machine
      cases base with
      | host | hostExit =>
        obtain rfl := Control.eq_ended hanswered
        exact howes.goal_of_eq rfl
      | hostQueue =>
        obtain ⟨ran, rfl⟩ := Control.eq_polled hanswered
        exact howes.goal_of_eq rfl
      | hostIdle deadline =>
        obtain ⟨ran, rfl⟩ := Control.eq_polled hanswered
        have hfree : (engine.held setup).IsFree := howes.goal_of_eq rfl
        simp only [Machine.step, afterPoll]
        split <;> exact hfree
      | _ => exact hhost.elim
    · refine frees_of_owes hhost (howes.step ?_ hown hanswered)
      intro held held' hfree halike
      cases base with
      | host | hostQueue | hostExit | hostIdle => exact halike ▸ hfree
      | _ => exact hhost.elim
  obtain ⟨engine, control⟩ := machine
  cases control with
  | done ran => exact h
  | idle deadline =>
    simp only [Machine.step]
    split
    · exact h
    · exact ⟨.queue, .hostIdle deadline, trivial, .base h⟩
  | _ => exact howed h

/-- What a host asks for gives everything back. -/
theorem frees_start (h : (engine.held setup).IsFree) (call : HostCall) : Frees setup (call.start setup engine) := by
  cases call with
  | autoExecute =>
    simp only [HostCall.start, HostCall.autoExecuteOn]
    split
    · exact frees_launch trivial h
    · exact h
  | dispatch trigger =>
    simp only [HostCall.start, HostCall.dispatchOn]
    split
    · exact frees_launch trivial h
    · exact h
    · exact h
  | send | fireTimers | idle => exact h
  | runPending => exact ⟨.queue, .hostQueue, trivial, .base h⟩
  | exitApp =>
    simp only [HostCall.start, HostCall.exitAppOn]
    split
    · exact h
    · split
      · exact frees_launch trivial h
      · exact h

/-- Whatever the calls of a host lead to, everything is given back by the time it is heard again. -/
theorem Reachable.frees {machine : Machine} (hown : engine.vars.IsOwn setup.errorLevel) (hfree : (engine.held setup).IsFree)
    (h : Reachable setup engine machine) : Frees setup machine := by
  induction h with
  | start => exact hfree
  | step hbefore hnext ih =>
    obtain ⟨now, helapses, rfl⟩ := hnext
    have hown := helapses.carries.vars.isOwn (hbefore.isOwn hown)
    obtain ⟨world, triggers, rfl⟩ := helapses
    exact Frees.step hown ih
  | call _ call ih => exact frees_start ih call
  | taken _ ih => exact ih

end

end Machine

/-! ## After each run -/

/-- An engine whose stacks are as another one's: what a run of lines leaves. -/
structure Engine.SameStacks (before after : Engine) : Prop where
  depth_eq : after.depth = before.depth
  threads_eq : after.threads.length = before.threads.length
  loops_eq : (after.threads.head?.map fun thread => thread.loops.length) =
    before.threads.head?.map fun thread => thread.loops.length
  waiting_eq : after.waiting = before.waiting
  contents_eq : after.scratch.contents = before.scratch.contents
  below_eq : after.threads.tail = before.threads.tail

/-- Where alike things are held, the stacks are the same. -/
theorem Engine.sameStacks_of_alike {setup : Setup} {before after : Engine}
    (h : Held.Alike .run (before.held setup) (after.held setup)) : before.SameStacks after := by
  obtain ⟨⟨hdepth, hwaiting, hthreads⟩, hpieces⟩ := h
  have hthreads : Thread.OnTop Thread.Shaped before.threads after.threads := hthreads
  have hpieces : after.scratch.pieces = before.scratch.pieces := hpieces
  refine ⟨hdepth, hthreads.length_eq, ?_, hwaiting, by rw [Scratch.contents, hpieces, Scratch.contents], hthreads.tail_eq⟩
  generalize before.threads = threads at hthreads
  generalize after.threads = threads' at hthreads
  cases hthreads with
  | nil => rfl
  | cons h => exact congrArg some h.length_eq

namespace Program

open Machine

/-- Every run of lines and every thread of a loaded program leaves the stacks of the engine as it found them. For each run of
lines that ends, with a flow or an error: nesting, number of threads, number of loops of the running thread, idleness and
written text are as before, and so is every thread below the running one. For each thread that ends: so are all threads and the
error level; and the thread itself adds at most one error, as the last thing it does. -/
theorem running_restores {commands : CommandSet} {items : List Item} {program : Program}
    (hload : load commands items = .ok program) (config : Config) (perform : Performer) (world : World) :
    let setup := (Engine.start program config perform world).1
    let engine := (Engine.start program config perform world).2
    (∀ (run : Nat → Machine) (start : LineId) (mode : Mode) (stack : Stack .run) (n : Nat),
      Reachable setup engine (run 0) → IsRun setup run → (run 0).control = .enter start mode stack →
      Returns run stack n → (run 0).engine.SameStacks (run n).engine) ∧
    ∀ (run : Nat → Machine) (before : Engine) (start : LineId) (label : Option LabelId) (trigger : Trigger)
      (stack : Stack .thread) (n : Nat),
      Reachable setup engine (run 0) → IsRun setup run → run 0 = launch setup before start label trigger stack →
      Returns run stack n →
      before.SameStacks (run n).engine ∧ (run n).engine.threads = before.threads ∧
      (run n).engine.vars.get setup.errorLevel = before.vars.get setup.errorLevel ∧
      ∀ k < n, (run (k + 1)).engine.errors = (run k).engine.errors ∨
        ∃ error mode waiting rest, (run k).control = .ran (.error error) (.thread mode waiting rest) ∧
          (run (k + 1)).engine.errors = (run k).engine.errors ++ [error] ∧ (rest = stack → k + 1 = n) := by
  intro setup engine
  have hown : engine.vars.IsOwn setup.errorLevel := Engine.start_errorLevel hload config perform world
  constructor
  · intro run start mode stack n hreach hrun hcontrol hret
    exact Engine.sameStacks_of_alike
      (goal_of_returns hrun (hreach.isOwn hown) Held.Alike.trans (owes_enter setup hcontrol) hret)
  · intro run before start label trigger stack n hreach hrun hstart hret
    have howes : Owes setup stack (Held.Alike .thread (before.held setup)) (run 0) := by
      rw [hstart]
      exact owes_launch (.base rfl)
    have hheld : (run n).engine.held setup = before.held setup :=
      goal_of_returns hrun (hreach.isOwn hown) Held.Alike.trans howes hret
    have halike : Held.Alike .run (before.held setup) ((run n).engine.held setup) := hheld ▸ Held.Alike.refl _ _
    refine ⟨Engine.sameStacks_of_alike halike, congrArg Held.threads hheld, congrArg Held.errorLevel hheld, ?_⟩
    intro k hk
    rcases (hrun k).carries with h | ⟨error, mode', waiting, rest, hcontrol, h⟩
    · exact .inl h.errors_eq
    · refine .inr ⟨error, mode', waiting, rest, hcontrol, h.errors_eq, ?_⟩
      -- The thread ends with its error, so the step after it would be a second end.
      rintro rfl
      have hended : (run (k + 1)).control = .ended rest := by
        obtain ⟨now, -, hstep⟩ := hrun k
        rw [hstep, hcontrol]
        rfl
      have hlast : ¬ k + 1 < n := fun hlt => hret.first (k + 1) hlt (by rw [hended]; rfl)
      omega

/-- A program that is interrupted by a thread in each of the two rounds of its loop; the second thread fails. -/
def interrupted : List Item :=
  let line (keyword : String) (args : List String) (lineNo : Nat) : Item :=
    .statement { keyword, args := args.map .plain, lineNo } []
  [line "Loop" ["2"] 1, line "\x7b" [] 2, line "Fire" ["routine"] 3, line "Wait" [] 4, line "\x7d" [] 5, line "Return" [] 6,
    .label "routine" 7, line "+=" ["n", "1"] 7, line "Loop" ["%n%"] 8, line "FileAppend" ["%n%", "%n%"] 9,
    line "IfGreater" ["n", "1"] 10, line "Gosub" ["missing%n%"] 11, line "Return" [] 12]

/-- The program of `interrupted` starts at its first line and ends with one error. -/
theorem interrupted_ends :
    (match load Standard.commands interrupted with
    | .ok program =>
      let (setup, engine) := Engine.start program {} Standard.perform default
      program.script.firstLine? == some 0 &&
        ((HostCall.autoExecute.run setup 500 engine).map fun (_, engine) => engine.errors.length) == some 1
    | .error _ => false) = true := by
  decide +kernel

/-- The program of `interrupted` finds its stacks again after its loop, though a thread came in each round and one of them failed.
-/
theorem running_restores_interrupted :
    ∃ program, load Standard.commands interrupted = .ok program ∧
      let setup := (Engine.start program {} Standard.perform default).1
      let engine := (Engine.start program {} Standard.perform default).2
      let run := fun k => (step setup)^[k] (HostCall.autoExecute.start setup engine)
      (∃ n, Returns run (.thread .toEnd false .host) n ∧ (run 0).engine.SameStacks (run n).engine) ∧
      ∃ n, Returns run .host n ∧ engine.SameStacks (run n).engine ∧ (run n).engine.threads = [] := by
  have hends := interrupted_ends
  cases hload : load Standard.commands interrupted with
  | error e => rw [hload] at hends; cases hends
  | ok program =>
    simp only [hload, Bool.and_eq_true, beq_iff_eq, Option.map_eq_some_iff] at hends
    obtain ⟨hfirst, answer, hanswer, -⟩ := hends
    refine ⟨program, rfl, ?_⟩
    intro setup engine run
    obtain ⟨m, hdone⟩ : ∃ m, (run m).control = .done answer.1 := exists_done_of_run hanswer
    have hstart : run 0 = launch setup engine 0 none { kind := .internal, label := "" } .host := by
      simp only [run, Function.iterate_zero, id_eq, HostCall.start, HostCall.autoExecuteOn]
      rw [show setup.script.firstLine? = some 0 from hfirst]
    have hreach : Reachable setup engine (run 0) := .call .start .autoExecute
    have hrun : IsRun setup run := isRun_iterate setup _
    have hown := hreach.isOwn (Engine.start_errorLevel hload {} Standard.perform default)
    have henter : (run 0).control = .enter 0 .toEnd (.thread .toEnd false .host) := by rw [hstart]; rfl
    obtain ⟨hlines, hthreads⟩ := running_restores hload {} Standard.perform default
    obtain ⟨k, -, hk⟩ := exists_returns hrun hown Held.Alike.trans (owes_enter setup henter) hdone
    obtain ⟨n, -, hn⟩ := exists_returns hrun hown Held.Alike.trans
      (hstart ▸ owes_launch (.base rfl) : Owes setup .host (Held.Alike .thread (engine.held setup)) (run 0)) hdone
    obtain ⟨hsame, hstack, -⟩ := hthreads run engine 0 none _ .host n hreach hrun hstart hn
    exact ⟨⟨k, hk, hlines run 0 .toEnd _ k hreach hrun henter hk⟩, n, hn, hsame, hstack⟩

end Program

end LineScript
