import LineScript.Proofs.Engine.Logged
import LineScript.Proofs.Engine.Queue

/-!
# The stack of threads

Threads are stacked by the program itself, by triggers that are let in and by the exit routine, from many places of a run. Each
thread on the stack has its start in the log and its frame on the machine's stack; while a thread is interrupted nothing about
it changes, so what was decided when the one above it was let in still holds of it (`Admitted`). Every run keeps this
(`Machine.Logged.stacked`).
-/

namespace LineScript

/-- The exit routine was started. -/
def Start.isExit : Start → Bool
  | .exit => true
  | _ => false

/-- What a stack waits for is the end of the exit routine. -/
def Stack.endsExit : {a : Awaited} → Stack a → Bool
  | _, .hostExit | _, .exitRoutine _ => true
  | _, _ => false

/-- A run of lines is not idle on purpose. -/
theorem Stack.isIdle_run (stack : Stack .run) : stack.isIdle = false := by
  cases stack <;> rfl

theorem Stack.isIdle_line (stack : Stack .line) : stack.isIdle = false := by
  cases stack
  rfl

/-- A run of lines does not wait for the exit routine. -/
theorem Stack.endsExit_run (stack : Stack .run) : stack.endsExit = false := by
  cases stack <;> rfl

theorem Stack.endsExit_line (stack : Stack .line) : stack.endsExit = false := by
  cases stack
  rfl

theorem Stack.endsExit_queue (stack : Stack .queue) : stack.endsExit = false := by
  cases stack <;> rfl

/-- A trigger is let in only if its label and the settings leave room for a thread, and the running thread lets it interrupt. -/
theorem Engine.of_decide_eq_run {setup : Setup} {engine : Engine} {trigger : Trigger} {label : LabelId}
    (h : engine.decide setup trigger = .run label) :
    engine.runningOf label < trigger.maxThreads ∧ engine.threads.length < setup.config.maxThreads ∧
      engine.mayInterrupt trigger = true := by
  simp only [decide] at h
  split at h
  · cases h
  · split at h
    · cases h
    · split at h
      · cases h
      · rename_i hlabel
        split at h
        · cases h
        · split at h
          · cases h
          · rename_i hlength
            split at h
            · rename_i hmay
              cases h
              exact ⟨Nat.not_le.mp hlabel, Nat.not_le.mp hlength, hmay⟩
            · cases h

/-- How the threads on a stack came there, the running one first. What a trigger found when it was let in is what is below its
thread now. -/
inductive Admitted (setup : Setup) : List Thread → List Start → Prop
  | nil : Admitted setup [] []
  | program {thread : Thread} (hlabel : thread.label = none) : Admitted setup [thread] [.program]
  | exit {thread : Thread} {threads : List Thread} {starts : List Start} (hfirst : starts.any Start.isExit = false)
    (h : Admitted setup threads starts) : Admitted setup (thread :: threads) (.exit :: starts)
  | trigger {thread : Thread} {threads : List Thread} {starts : List Start} {trigger : Trigger} {label : LabelId}
    {asked : Engine} {idle : Bool} (hdecide : asked.decide setup trigger = .run label) (hthreads : asked.threads = threads)
    (hidle : asked.waiting = idle) (hthread : Thread.Same (asked.newThread setup (some label) trigger) thread)
    (h : Admitted setup threads starts) :
    Admitted setup (thread :: threads) (.trigger trigger label asked idle :: starts)

namespace Admitted

variable {setup : Setup} {threads threads' : List Thread} {starts : List Start}

/-- Only the running thread changes, and it stays the same thread. -/
theorem onTop (h : Admitted setup threads starts) (hsame : Thread.OnTop Thread.Same threads threads') :
    Admitted setup threads' starts := by
  cases h with
  | nil =>
    cases hsame
    exact .nil
  | program hlabel =>
    cases hsame with
    | cons hsame => exact .program (hsame.label_eq.trans hlabel)
  | exit hfirst h =>
    cases hsame
    exact .exit hfirst h
  | trigger hdecide hthreads hidle hthread h =>
    cases hsame with
    | cons hsame => exact .trigger hdecide hthreads hidle (hthread.trans hsame) h

/-- Without the running thread, the threads below came to the stack as before. -/
theorem tail (h : Admitted setup threads starts) : Admitted setup threads.tail starts.tail := by
  cases h with
  | nil | program => exact .nil
  | exit _ h | trigger _ _ _ _ h => exact h

/-- Without some threads at the top, those below came to the stack as before. -/
theorem drop (h : Admitted setup threads starts) (n : Nat) : Admitted setup (threads.drop n) (starts.drop n) := by
  induction n with
  | zero => exact h
  | succ n ih => simpa only [List.tail_drop] using ih.tail

/-- There is one start for each thread. -/
theorem length_eq (h : Admitted setup threads starts) : starts.length = threads.length := by
  induction h with
  | nil | program => rfl
  | exit _ _ ih | trigger _ _ _ _ _ ih => exact congrArg (· + 1) ih

/-- The exit routine is on the stack at most once. -/
theorem countP_isExit_le (h : Admitted setup threads starts) : starts.countP Start.isExit ≤ 1 := by
  induction h with
  | nil | program => decide
  | exit hfirst _ _ =>
    have hnone := List.countP_eq_zero.mpr fun start hstart => List.any_eq_false.mp hfirst start hstart
    simp [List.countP_cons, hnone, Start.isExit]
  | trigger _ _ _ _ _ ih => simpa [List.countP_cons, Start.isExit] using ih

/-- There are no more threads than the settings allow, but for the program itself and the exit routine. -/
theorem length_le (h : Admitted setup threads starts) :
    threads.length ≤ max setup.config.maxThreads 1 + (starts.any Start.isExit).toNat := by
  induction h with
  | nil => exact Nat.zero_le _
  | program => exact Nat.le_trans (Nat.le_max_right _ 1) (Nat.le_add_right _ _)
  | exit hfirst _ ih =>
    rw [hfirst] at ih
    simpa [Start.isExit] using ih
  | trigger hdecide hthreads _ _ _ _ =>
    have hlength := (Engine.of_decide_eq_run hdecide).2.1
    rw [hthreads] at hlength
    simp only [List.length_cons]
    omega

/-- There are no more threads of a label than its triggers allow, but for the exit routine. -/
theorem countP_label_le {M : Nat} (h : Admitted setup threads starts)
    (hmax : ∀ trigger label asked idle, Start.trigger trigger label asked idle ∈ starts → trigger.maxThreads ≤ M)
    (label : LabelId) :
    (threads.filter fun thread => thread.label == some label).length ≤ M + (starts.any Start.isExit).toNat := by
  induction h with
  | nil => exact Nat.zero_le _
  | program hlabel => simp [hlabel]
  | @exit thread threads starts hfirst _ ih =>
    have hbelow := ih fun trigger label asked idle h => hmax trigger label asked idle (List.mem_cons_of_mem _ h)
    rw [hfirst] at hbelow
    have hone := List.length_filter_le (fun thread => thread.label == some label) [thread]
    rw [← List.singleton_append, List.filter_append, List.length_append]
    simp only [List.length_singleton] at hone
    simp only [List.any_cons, Start.isExit, Bool.true_or, Bool.toNat_true, Bool.toNat_false] at hbelow ⊢
    omega
  | @trigger thread threads starts trigger own asked idle hdecide hthreads _ hthread _ ih =>
    have hbelow := ih fun trigger label asked idle h => hmax trigger label asked idle (List.mem_cons_of_mem _ h)
    have hrunning := (Engine.of_decide_eq_run hdecide).1
    have htrigger := hmax trigger own asked idle List.mem_cons_self
    rw [Engine.runningOf, hthreads] at hrunning
    have hown : thread.label = some own := hthread.label_eq
    have hstarts : (Start.trigger trigger own asked idle :: starts).any Start.isExit = starts.any Start.isExit := rfl
    rw [hstarts]
    by_cases heq : own = label
    · subst heq
      simp only [List.filter_cons, hown, beq_self_eq_true, if_true, List.length_cons]
      omega
    · have hne : (thread.label == some label) = false := by simpa [hown] using heq
      simpa only [List.filter_cons, hne, Bool.false_eq_true, if_false] using hbelow

/-- What was decided of the thread below a trigger's one still holds of it. -/
theorem below_of_trigger {upper lower : Thread} {rest : List Thread} {trigger : Trigger} {label : LabelId} {asked : Engine}
    {idle : Bool} (h : Admitted setup (upper :: lower :: rest) (.trigger trigger label asked idle :: starts)) :
    lower.priority ≤ trigger.priority ∧ (idle = false → lower.isFresh asked.world.now = false) := by
  cases h with
  | trigger hdecide hthreads hidle _ _ =>
    have hmay := (Engine.of_decide_eq_run hdecide).2.2
    simp only [Engine.mayInterrupt, hthreads, List.head?_cons, hidle, Bool.and_eq_true, Bool.or_eq_true,
      Bool.not_eq_true', decide_eq_false_iff_not] at hmay
    obtain ⟨hfresh, hpriority⟩ := hmay
    refine ⟨Int32.not_lt.mp hpriority, fun hbusy => ?_⟩
    rw [hbusy] at hfresh
    exact hfresh.resolve_left Bool.false_ne_true

end Admitted

/-- The frames of a stack that threads stand on, with what these were started by. A frame remembers whether the thread below was
idle, and one that ends the exit routine stands on no other such frame. -/
inductive Stack.Stands : {a : Awaited} → Stack a → List Start → Prop
  | host : Stands .host []
  | hostQueue : Stands .hostQueue []
  | hostExit : Stands .hostExit []
  | hostIdle {deadline : Nat} : Stands (.hostIdle deadline) []
  | thread {mode : Mode} {rest : Stack .thread} {start : Start} {starts : List Start}
    (hexit : start.isExit = rest.endsExit) (h : Stands rest starts) :
    Stands (.thread mode rest.isIdle rest) (start :: starts)
  | line {mark : Nat} {level : Option LineId} {mode : Mode} {rest : Stack .run} {starts : List Start}
    (h : Stands rest starts) : Stands (.line mark level mode rest) starts
  | body {after : Option LineId} {rest : Stack .line} {starts : List Start} (h : Stands rest starts) :
    Stands (.body after rest) starts
  | loop {id body : LineId} {rest : Stack .line} {starts : List Start} (h : Stands rest starts) :
    Stands (.loop id body rest) starts
  | tick {id : LineId} {level : Option LineId} {mode : Mode} {rest : Stack .run} {starts : List Start}
    (h : Stands rest starts) : Stands (.tick id level mode rest) starts
  | sleep {id : LineId} {deadline : Nat} {rest : Stack .line} {starts : List Start} (h : Stands rest starts) :
    Stands (.sleep id deadline false rest) starts
  | command {id : LineId} {cmd : CommandId} {rest : Stack .line} {starts : List Start} (h : Stands rest starts) :
    Stands (.command id cmd false rest) starts
  | queue {ran : Nat} {rest : Stack .queue} {starts : List Start} (h : Stands rest starts) : Stands (.queue ran rest) starts
  | exitRoutine {rest : Stack .line} {starts : List Start} (hfirst : starts.any Start.isExit = false)
    (h : Stands rest starts) : Stands (.exitRoutine rest) starts

/-- An engine whose threads stand on a stack. -/
structure Engine.Stacked (setup : Setup) (engine : Engine) (starts : List Start) {a : Awaited} (stack : Stack a) : Prop where
  admitted : Admitted setup engine.threads starts
  stands : stack.Stands starts
  waiting_eq : engine.waiting = stack.isIdle
  exitRunning_eq : engine.exitRunning = (starts.any Start.isExit || stack.endsExit)

/-- What a machine does next is done on a stack, unless the host is to be heard. -/
def Control.stack? : Control → Option ((a : Awaited) × Stack a)
  | .enter _ _ stack | .walk _ _ _ stack | .reach _ _ _ stack | .ran _ stack => some ⟨.run, stack⟩
  | .step _ stack | .call _ _ stack | .round _ _ stack | .sleep _ _ stack | .stepped _ stack => some ⟨.line, stack⟩
  | .poll _ stack | .polled _ stack => some ⟨.queue, stack⟩
  | .ended stack => some ⟨.thread, stack⟩
  | .idle _ | .done _ => none

/-- The exit routine has just been taken off the stack. -/
def Control.endsExit : Control → Bool
  | .ended stack => stack.endsExit
  | _ => false

namespace Machine

/-- A machine whose threads stand on its stack. When the host is to be heard, no thread is left. -/
def Stacked (setup : Setup) (machine : Machine) (starts : List Start) : Prop :=
  match machine.control.stack? with
  | some ⟨_, stack⟩ => machine.engine.Stacked setup starts stack
  | none => starts = [] ∧ machine.engine.threads = [] ∧ machine.engine.waiting = false ∧ machine.engine.exitRunning = false

end Machine

namespace Engine.Stacked

variable {setup : Setup} {engine engine' : Engine} {starts : List Start}

/-- Work of the running thread leaves the threads standing. -/
theorem spares {a : Awaited} {stack : Stack a} (h : engine.Stacked setup starts stack) (hspares : engine.Spares engine')
    (hwaiting : engine'.waiting = engine.waiting) : engine'.Stacked setup starts stack where
  admitted := h.admitted.onTop hspares.threads
  stands := h.stands
  waiting_eq := hwaiting.trans h.waiting_eq
  exitRunning_eq := hspares.exitRunning_eq.trans h.exitRunning_eq

/-- Between the lines of a thread the frames may change. -/
theorem reframe {a b : Awaited} {stack : Stack a} {stack' : Stack b} (h : engine.Stacked setup starts stack)
    (hstands : stack'.Stands starts) (hidle : stack'.isIdle = stack.isIdle) (hexit : stack'.endsExit = stack.endsExit) :
    engine.Stacked setup starts stack' where
  admitted := h.admitted
  stands := hstands
  waiting_eq := h.waiting_eq.trans hidle.symm
  exitRunning_eq := by rw [h.exitRunning_eq, hexit]

/-- While a line waits, the engine is not idle on purpose. -/
theorem waiting_line {stack : Stack .line} (h : engine.Stacked setup starts stack) : engine.waiting = false :=
  h.waiting_eq.trans stack.isIdle_line

/-- While a line waits, the exit routine runs if one of the threads was started for it. -/
theorem exitRunning_line {stack : Stack .line} (h : engine.Stacked setup starts stack) :
    engine.exitRunning = starts.any Start.isExit := by
  rw [h.exitRunning_eq, stack.endsExit_line, Bool.or_false]

end Engine.Stacked

namespace Machine

variable {setup : Setup} {engine engine' : Engine} {starts : List Start}

/-- A new thread stands on the frame that waits for it. -/
theorem stacked_launch {line : LineId} {label : Option LabelId} {trigger : Trigger} {stack : Stack .thread} {start : Start}
    (h : engine.Stacked setup starts stack) (hexit : start.isExit = stack.endsExit)
    (hadmitted : Admitted setup (engine.newThread setup label trigger :: engine.threads) (start :: starts)) :
    Stacked setup (launch setup engine line label trigger stack) (start :: starts) := by
  refine ⟨?_, ?_, ?_, ?_⟩
  · rw [launch, Engine.threads_pushThread]
    exact hadmitted
  · show Stack.Stands (.thread _ engine.waiting stack) (start :: starts)
    rw [h.waiting_eq]
    exact .thread hexit h.stands
  · unfold launch Engine.pushThread
    cases trigger.isHotkey <;> rfl
  · have hflag : (launch setup engine line label trigger stack).engine.exitRunning = engine.exitRunning := by
      unfold launch Engine.pushThread
      cases trigger.isHotkey <;> rfl
    rw [hflag, h.exitRunning_eq, List.any_cons, hexit, Bool.or_comm]
    exact (Bool.or_false _).symm

/-- The exit routine stands on the frame that waits for its end. -/
theorem stacked_launchExit {label : LabelId} {stack : Stack .thread} (hthreads : Admitted setup engine.threads starts)
    (hstands : stack.Stands starts) (hidle : engine.waiting = stack.isIdle) (hfirst : starts.any Start.isExit = false)
    (hexit : stack.endsExit = true) : Stacked setup (launchExit setup engine label stack) (.exit :: starts) := by
  refine stacked_launch ⟨hthreads, hstands, hidle, ?_⟩ hexit.symm (.exit hfirst hthreads)
  rw [hexit, Bool.or_true]

/-- Selecting a branch leaves the threads standing. -/
theorem stacked_branch {id : LineId} {truth : Bool} {stack : Stack .line} (h : engine.Stacked setup starts stack) :
    Stacked setup (branch setup engine id truth stack) starts := by
  unfold branch
  dsimp only
  split
  · exact h.reframe (.body h.stands) stack.isIdle_line.symm stack.endsExit_line.symm
  · exact h

/-- Leaving a part of the stack leaves the threads standing. -/
theorem stacked_leave {answer : Except RuntimeError Flow} {stack : Stack .run} (h : engine.Stacked setup starts stack) :
    Stacked setup (leave engine answer stack) starts :=
  Engine.Stacked.spares h { Engine.Spares.refl engine with } rfl

/-- Going on with a run leaves the threads standing. -/
theorem stacked_walk {cur level : Option LineId} {mode : Mode} {stack : Stack .run} (h : engine.Stacked setup starts stack) :
    Stacked setup (walk setup engine cur level mode stack) starts := by
  unfold walk
  split
  · exact stacked_leave h
  · rename_i id
    have hnote := h.spares (engine.inward_noteLine id).toSpares (engine.worked_noteLine id).waiting_eq
    dsimp only
    split
    · split
      · exact stacked_leave h
      · exact h
    · split
      · have hlook : Engine.Stacked setup _ starts (.tick id level mode stack) :=
          hnote.reframe (.tick h.stands) stack.isIdle_run.symm stack.endsExit_run.symm
        exact hlook.spares { Engine.Spares.refl _ with } rfl
      · exact hnote

/-- The line that ends the program starts the exit routine, unless that runs. -/
theorem stacked_exitApp {id : LineId} {stack : Stack .line} (h : engine.Stacked setup starts stack)
    (hexit : (setup.script.line id).action = .exitApp) :
    Stacked setup (exitApp setup engine stack) (startsAfter setup ⟨engine, .step id stack⟩ starts) := by
  have hstarts : startsAfter setup ⟨engine, .step id stack⟩ starts =
      if engine.onExit.isSome && !engine.exitRunning then .exit :: starts else starts := by
    simp only [startsAfter, startsExit, hexit, beq_self_eq_true, Bool.true_and]
  rw [hstarts]
  have hended : Stacked setup (divert { engine with terminated := true } .exitApp stack) starts :=
    ⟨h.admitted, h.stands, h.waiting_eq, h.exitRunning_eq⟩
  cases honExit : engine.onExit with
  | none =>
    have hdivert : exitApp setup engine stack = divert { engine with terminated := true } .exitApp stack := by
      simp only [exitApp, honExit]
    rw [hdivert]
    exact hended
  | some label =>
    cases hrunning : engine.exitRunning with
    | true =>
      have hdivert : exitApp setup engine stack = divert { engine with terminated := true } .exitApp stack := by
        simp only [exitApp, honExit, hrunning]
      rw [hdivert]
      exact hended
    | false =>
      have hlaunch : exitApp setup engine stack = launchExit setup engine label (.exitRoutine stack) := by
        simp only [exitApp, honExit, hrunning]
      have hfirst : starts.any Start.isExit = false := h.exitRunning_line.symm.trans hrunning
      rw [hlaunch]
      exact stacked_launchExit h.admitted (.exitRoutine hfirst h.stands) h.waiting_line hfirst rfl

/-- A line leaves the threads standing, with the exit routine on top if it started that. -/
theorem stacked_runLine {id : LineId} {stack : Stack .line} (h : engine.Stacked setup starts stack) :
    Stacked setup (runLine setup engine id stack) (startsAfter setup ⟨engine, .step id stack⟩ starts) := by
  by_cases hexit : (setup.script.line id).action = .exitApp
  · have hline : runLine setup engine id stack = exitApp setup engine stack := by simp only [runLine, hexit]
    rw [hline]
    exact stacked_exitApp h hexit
  · have hstarts : startsAfter setup ⟨engine, .step id stack⟩ starts = starts := by
      simp [startsAfter, startsExit, hexit]
    rw [hstarts]
    have hspares : engine.Spares (runLine setup engine id stack).engine := spares_runLine hexit
    have houtcome : Outcome setup engine id stack (runLine setup engine id stack) := outcome_runLine
    generalize runLine setup engine id stack = machine at hspares houtcome
    cases houtcome with
    | failed hw | wentOn hw | diverted hw | slept hw => exact h.spares hspares hw.waiting_eq
    | opened hw =>
      exact (h.spares hspares hw.waiting_eq).reframe (.body h.stands) stack.isIdle_line.symm stack.endsExit_line.symm
    | looped hw => exact h.spares hspares ((Engine.waiting_onThread _ _).trans hw.waiting_eq)
    | called => exact h
    | waited =>
      rw [h.waiting_line]
      exact ⟨h.admitted, .command h.stands, rfl, h.exitRunning_line.trans (Bool.or_false _).symm⟩
    | exiting haction => exact absurd haction hexit

/-- Calling a command leaves the threads standing. -/
theorem stacked_callCommand {id : LineId} {cmd : CommandId} {stack : Stack .line} (h : engine.Stacked setup starts stack) :
    Stacked setup (callCommand setup engine id cmd stack) starts := by
  have hcalled := h.spares (engine.spares_call setup (setup.script.line id) (setup.script.commands.get cmd))
    (engine.worked_call setup (setup.script.line id) (setup.script.commands.get cmd)).waiting_eq
  simp only [callCommand]
  cases hcall : engine.call setup (setup.script.line id) (setup.script.commands.get cmd) with
  | mk engine' answer =>
    rw [hcall] at hcalled
    cases answer with
    | error problem => exact hcalled
    | ok status =>
      dsimp only
      split
      · exact stacked_branch hcalled
      · split
        · exact stacked_branch hcalled
        · exact hcalled

/-- What follows a line leaves the threads standing. -/
theorem stacked_afterLine {answer : Except RuntimeError (Flow × Option LineId)} {level : Option LineId} {mode : Mode}
    {stack : Stack .run} (h : engine.Stacked setup starts stack) :
    Stacked setup (afterLine setup engine answer level mode stack) starts := by
  have hleave : ∀ answer, Stacked setup (leave engine answer stack) starts := fun _ => stacked_leave h
  unfold afterLine
  split
  · exact hleave _
  · split
    · exact hleave _
    · split
      · split
        · exact hleave _
        · exact h
      · split
        · exact h
        · exact hleave _
      · split <;> exact hleave _
      · exact hleave _

/-- A thread that ends is taken off the stack with its start, and the one below is as idle as it was. -/
theorem stacked_popThread {mode : Mode} {waiting : Bool} {stack : Stack .thread}
    (h : engine.Stacked setup starts (.thread mode waiting stack)) :
    (engine.popThread setup waiting).Stacked setup starts.tail stack := by
  obtain ⟨hadmitted, hstands, -, hexitRunning⟩ := h
  have hthreads : (engine.popThread setup waiting).threads = engine.threads.tail := by
    unfold Engine.popThread
    split <;> simp [*]
  have hflags : (engine.popThread setup waiting).waiting = waiting ∧
      (engine.popThread setup waiting).exitRunning = engine.exitRunning := by
    unfold Engine.popThread
    split <;> exact ⟨rfl, rfl⟩
  cases hstands with
  | @thread _ _ start below hexit hstands =>
    refine ⟨hthreads ▸ hadmitted.tail, hstands, hflags.1, ?_⟩
    rw [hflags.2, hexitRunning, List.any_cons, hexit, List.tail_cons, Bool.or_comm]
    exact (Bool.false_or _).trans (Bool.or_comm _ _)

/-- What follows a run leaves the threads standing, without the one that ended. -/
theorem stacked_afterRun {answer : Except RuntimeError Flow} {stack : Stack .run} (h : engine.Stacked setup starts stack) :
    Stacked setup (afterRun setup engine answer stack) (startsAfter setup ⟨engine, .ran answer stack⟩ starts) := by
  have hpopLoop := h.spares engine.inward_popLoop.toSpares (engine.waiting_onThread _)
  cases stack with
  | body after rest =>
    have hstands : rest.Stands starts := by
      cases h.stands with
      | body h => exact h
    have hrest := h.reframe hstands rest.isIdle_line rest.endsExit_line
    simp only [afterRun, afterBody]
    split <;> exact hrest
  | loop id body rest =>
    have hstands : rest.Stands starts := by
      cases h.stands with
      | loop h => exact h
    have hrest := h.reframe hstands rest.isIdle_line rest.endsExit_line
    have hpopped := hpopLoop.reframe hstands rest.isIdle_line rest.endsExit_line
    simp only [afterRun, afterRound]
    split
    · exact hpopped
    · exact hrest
    · exact hrest
    · exact hpopped
    · exact hpopped
  | thread mode waiting rest =>
    have hpopped := stacked_popThread h
    simp only [afterRun, afterThread, startsAfter]
    split
    · exact h
    · exact ⟨hpopped.admitted, hpopped.stands, hpopped.waiting_eq, hpopped.exitRunning_eq⟩
    · rename_i flow hgoto _
      cases flow with
      | goto target => exact absurd rfl (hgoto target)
      | _ => exact hpopped
    · exact ⟨hpopped.admitted, hpopped.stands, hpopped.waiting_eq, hpopped.exitRunning_eq⟩

/-- When the host is to be heard no thread is left. -/
theorem stacked_heard {a : Awaited} {stack : Stack a} {control : Control} (h : engine.Stacked setup [] stack)
    (hidle : stack.isIdle = false) (hexit : stack.endsExit = false) (hcontrol : control.stack? = none) :
    Stacked setup ⟨engine, control⟩ [] := by
  have hthreads : engine.threads = [] := List.eq_nil_of_length_eq_zero h.admitted.length_eq.symm
  rw [Stacked, hcontrol]
  exact ⟨rfl, hthreads, h.waiting_eq.trans hidle, h.exitRunning_eq.trans hexit⟩

/-- What follows a look at the queue leaves the threads standing. -/
theorem stacked_afterPoll {ran : Nat} {stack : Stack .queue} (h : engine.Stacked setup starts stack) :
    Stacked setup (afterPoll setup engine ran stack) starts := by
  cases hstands : h.stands with
  | hostQueue => exact stacked_heard h rfl rfl rfl
  | hostIdle =>
    simp only [afterPoll]
    split
    · exact stacked_heard h rfl rfl rfl
    · exact stacked_heard ⟨h.admitted, h.stands, h.waiting_eq, h.exitRunning_eq⟩ rfl rfl rfl
  | @tick _ _ _ rest _ hrest => exact h.reframe hrest rest.isIdle_run rest.endsExit_run
  | @sleep _ _ rest _ hrest =>
    have hback : Engine.Stacked setup { engine with waiting := false } starts rest :=
      ⟨h.admitted, hrest, rest.isIdle_line.symm, by rw [rest.endsExit_line]; exact h.exitRunning_eq⟩
    simp only [afterPoll, afterSlice]
    split
    · exact hback
    · exact hback.spares { Engine.Spares.refl _ with } rfl
  | @command _ _ rest _ hrest =>
    have hback : Engine.Stacked setup { engine with waiting := false } starts rest :=
      ⟨h.admitted, hrest, rest.isIdle_line.symm, by rw [rest.endsExit_line]; exact h.exitRunning_eq⟩
    simp only [afterPoll]
    split <;> exact hback

/-- What follows the end of a thread leaves the others standing. -/
theorem stacked_afterEnd {stack : Stack .thread} (h : engine.Stacked setup starts stack) :
    Stacked setup (afterEnd engine stack) starts := by
  cases hstands : h.stands with
  | host => exact stacked_heard h rfl rfl rfl
  | hostExit =>
    have hthreads : engine.threads = [] := List.eq_nil_of_length_eq_zero h.admitted.length_eq.symm
    exact ⟨rfl, hthreads, h.waiting_eq, rfl⟩
  | @queue _ rest _ hrest => exact h.reframe hrest rfl rest.endsExit_queue
  | @exitRoutine rest _ hfirst hrest =>
    refine ⟨h.admitted, hrest, h.waiting_eq.trans rest.isIdle_line.symm, ?_⟩
    rw [hfirst, rest.endsExit_line]
    rfl

/-- A look at the queue starts a thread for the trigger in front if it is let in. -/
theorem stacked_poll {ran : Nat} {stack : Stack .queue} (h : engine.Stacked setup starts stack) :
    Stacked setup (step setup ⟨engine, .poll ran stack⟩) (startsAfter setup ⟨engine, .poll ran stack⟩ starts) := by
  cases hended : engine.terminated with
  | true =>
    have hstarts : startsAfter setup ⟨engine, .poll ran stack⟩ starts = starts := by simp [startsAfter, asked?, hended]
    simp only [hstarts, step, hended, if_true]
    exact h
  | false =>
    cases hqueue : engine.queue with
    | nil =>
      have hstarts : startsAfter setup ⟨engine, .poll ran stack⟩ starts = starts := by simp [startsAfter, asked?, hqueue]
      simp only [hstarts, step, hended, hqueue, Bool.false_eq_true, if_false]
      exact h
    | cons trigger rest =>
      have hasked : asked? setup ⟨engine, .poll ran stack⟩ = some (trigger, engine.decide setup trigger) := by
        simp [asked?, hended, hqueue]
      simp only [startsAfter, hasked, step_poll hended hqueue]
      cases hdecide : engine.decide setup trigger with
      | run label =>
        have hwaits : Engine.Stacked setup { engine with queue := rest } starts (.queue ran stack) :=
          ⟨h.admitted, .queue h.stands, h.waiting_eq, by rw [h.exitRunning_eq, stack.endsExit_queue]; rfl⟩
        exact stacked_launch hwaits rfl (.trigger hdecide rfl h.waiting_eq (.refl _) h.admitted)
      | defer => exact h
      | refuse => exact h.spares { Engine.Spares.refl engine with } rfl

/-- What happens outside leaves the threads standing. -/
theorem Stacked.later {machine : Machine} (h : Stacked setup machine starts) (world : World) (triggers : List Trigger) :
    Stacked setup (machine.later world triggers) starts := by
  obtain ⟨engine, control⟩ := machine
  unfold Stacked at h ⊢
  dsimp only [Machine.later] at h ⊢
  split at h
  · exact h.spares { Engine.Spares.refl engine with } rfl
  · exact h

/-- Each step keeps the threads standing on the stack. -/
theorem Stacked.step {machine : Machine} (h : Stacked setup machine starts) :
    Stacked setup (machine.step setup) (machine.startsAfter setup starts) := by
  obtain ⟨engine, control⟩ := machine
  cases control with
  | enter start mode stack =>
    simp only [Machine.step]
    split
    · exact h
    · exact Engine.Stacked.spares h { Engine.Spares.refl engine with } rfl
  | walk cur level mode stack => exact stacked_walk h
  | reach id level mode stack =>
    simp only [Machine.step]
    split
    · exact stacked_leave h
    · exact Engine.Stacked.reframe h (.line (Engine.Stacked.stands h)) stack.isIdle_run.symm stack.endsExit_run.symm
  | step id stack => exact stacked_runLine h
  | call id cmd stack => exact stacked_callCommand h
  | round id body stack =>
    have hspares := engine.inward_advanceLoop.toSpares
    have hwaiting : engine.advanceLoop.1.waiting = engine.waiting := by
      unfold Engine.advanceLoop
      split
      · rfl
      · split
        · rfl
        · exact engine.waiting_onThread _
    have hadvanced := Engine.Stacked.spares h hspares hwaiting
    simp only [Machine.step]
    cases hround : engine.advanceLoop with
    | mk engine' answer =>
      rw [hround] at hadvanced
      have hpopped := hadvanced.spares engine'.inward_popLoop.toSpares (engine'.waiting_onThread _)
      cases answer with
      | error problem => exact hpopped
      | ok goesOn =>
        cases goesOn with
        | false => exact hpopped
        | true => exact hadvanced.reframe (.loop hadvanced.stands) stack.isIdle_line.symm stack.endsExit_line.symm
  | sleep id deadline stack =>
    have h : engine.Stacked setup starts stack := h
    simp only [Machine.step, h.waiting_line]
    exact ⟨h.admitted, .sleep h.stands, rfl, h.exitRunning_line.trans (Bool.or_false _).symm⟩
  | poll ran stack => exact stacked_poll h
  | idle deadline =>
    obtain ⟨rfl, hthreads, hwaiting, hexitRunning⟩ := h
    simp only [Machine.step]
    split
    · exact ⟨rfl, hthreads, hwaiting, hexitRunning⟩
    · exact ⟨hthreads ▸ .nil, .hostIdle, hwaiting, hexitRunning⟩
  | ran answer stack => exact stacked_afterRun h
  | stepped answer stack =>
    cases stack with
    | line mark level mode rest =>
      have hstands : rest.Stands starts := by
        cases Engine.Stacked.stands h with
        | line h => exact h
      have hrest := Engine.Stacked.reframe h hstands rest.isIdle_run rest.endsExit_run
      exact stacked_afterLine (hrest.spares { Engine.Spares.refl engine with } rfl)
  | polled ran stack => exact stacked_afterPoll h
  | ended stack => exact stacked_afterEnd h
  | done ran => exact h

/-- A call of the host starts a thread on an empty stack. -/
theorem Stacked.call {ran : Nat} (h : Stacked setup ⟨engine, .done ran⟩ starts) (call : HostCall) :
    Stacked setup (call.start setup engine) (call.starts setup engine ++ starts) := by
  obtain ⟨rfl, hthreads, hwaiting, hexitRunning⟩ := h
  have hexitRunning : engine.exitRunning = false := hexitRunning
  have hnone : Admitted setup engine.threads [] := hthreads ▸ .nil
  have hhost : engine.Stacked setup [] .host := ⟨hnone, .host, hwaiting, hexitRunning⟩
  rw [List.append_nil]
  cases call with
  | autoExecute =>
    simp only [HostCall.start, HostCall.autoExecuteOn, HostCall.starts]
    cases setup.script.firstLine? with
    | none => exact ⟨rfl, hthreads, hwaiting, hexitRunning⟩
    | some first => exact stacked_launch hhost rfl (hthreads ▸ .program rfl)
  | dispatch trigger =>
    simp only [HostCall.start, HostCall.dispatchOn, HostCall.starts]
    cases hdecide : engine.decide setup trigger with
    | run label => exact stacked_launch hhost rfl (.trigger hdecide rfl hwaiting (.refl _) hnone)
    | defer | refuse => exact ⟨rfl, hthreads, hwaiting, hexitRunning⟩
  | send | fireTimers | idle => exact ⟨rfl, hthreads, hwaiting, hexitRunning⟩
  | runPending => exact ⟨hnone, .hostQueue, hwaiting, hexitRunning⟩
  | exitApp =>
    simp only [HostCall.start, HostCall.exitAppOn, HostCall.starts, hexitRunning]
    cases engine.terminated with
    | true => exact ⟨rfl, hthreads, hwaiting, hexitRunning⟩
    | false =>
      cases engine.onExit with
      | none => exact ⟨rfl, hthreads, hwaiting, rfl⟩
      | some label => exact stacked_launchExit hnone .hostExit hwaiting rfl rfl

/-- In a run the threads stand on the stack. -/
theorem Logged.stacked {before : Engine} {machine : Machine} {log : Log} (h : Logged setup before machine log)
    (hbefore : Stacked setup ⟨before, .done 0⟩ []) : Stacked setup machine log.starts := by
  induction h with
  | start => exact hbefore
  | @step machine log _ world triggers ih =>
    exact (ih.later world triggers).step
  | call _ call ih => exact ih.call call
  | taken _ ih => exact ih

/-- How the threads came to the stack, and when the exit routine runs. -/
theorem Stacked.admitted_and_running {machine : Machine} (h : Stacked setup machine starts) :
    Admitted setup machine.engine.threads starts ∧
      machine.engine.exitRunning = (starts.any Start.isExit || machine.control.endsExit) := by
  obtain ⟨engine, control⟩ := machine
  cases control with
  | idle | done =>
    obtain ⟨rfl, hthreads, -, hexitRunning⟩ := h
    exact ⟨hthreads ▸ .nil, hexitRunning⟩
  | ended stack => exact ⟨h.admitted, h.exitRunning_eq⟩
  | enter _ _ stack | walk _ _ _ stack | reach _ _ _ stack | ran _ stack =>
    exact ⟨h.admitted, by rw [Engine.Stacked.exitRunning_eq h, stack.endsExit_run]; rfl⟩
  | step _ stack | call _ _ stack | round _ _ stack | sleep _ _ stack | stepped _ stack =>
    exact ⟨h.admitted, by rw [Engine.Stacked.exitRunning_eq h, stack.endsExit_line]; rfl⟩
  | poll _ stack | polled _ stack =>
    exact ⟨h.admitted, by rw [Engine.Stacked.exitRunning_eq h, stack.endsExit_queue]; rfl⟩

end Machine

end LineScript
