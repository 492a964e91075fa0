import LineScript.Proofs.Engine.Outcome
import Mathlib.Logic.Function.Iterate

/-!
# Unwinding the stack

Every frame of a machine's stack stands for something that has been taken and is given back when the frame goes: a level of
nesting, text in the scratch buffer, a loop, a thread, the flag of an idle thread. `Unwinds` follows a stack down to one of its
parts and says what the engine holds when that part is reached; each step of a machine keeps it (`Machine.Owes.step`).
-/

namespace LineScript

/-- What running code has to leave as it found it. -/
structure Held where
  /-- How deep runs of lines are nested. -/
  depth : Nat
  /-- Whether the running thread is idle on purpose. -/
  waiting : Bool
  /-- What the scratch buffer holds, last written first. -/
  pieces : List String
  /-- The threads, the running one first. -/
  threads : List Thread
  /-- What the error level is. -/
  errorLevel : Value

/-- What an engine holds of that. -/
def Engine.held (setup : Setup) (engine : Engine) : Held :=
  ⟨engine.depth, engine.waiting, engine.scratch.pieces, engine.threads, engine.vars.get setup.errorLevel⟩

/-- A thread in as many loops as before, with what it saved. -/
structure Thread.Shaped (thread thread' : Thread) : Prop where
  mark_eq : thread'.mark = thread.mark
  saved_eq : thread'.savedErrorLevel = thread.savedErrorLevel
  length_eq : thread'.loops.length = thread.loops.length

theorem Thread.Shaped.refl (thread : Thread) : Shaped thread thread :=
  ⟨rfl, rfl, rfl⟩

theorem Thread.Shaped.trans {a b c : Thread} (hab : Shaped a b) (hbc : Shaped b c) : Shaped a c :=
  ⟨hbc.mark_eq.trans hab.mark_eq, hbc.saved_eq.trans hab.saved_eq, hbc.length_eq.trans hab.length_eq⟩

/-- A thread that is kept keeps its shape. -/
theorem Thread.Kept.shaped {thread thread' : Thread} (h : Kept thread thread') : Shaped thread thread' :=
  ⟨h.mark_eq, h.saved_eq, congrArg List.length h.loops_eq⟩

namespace Held

/-- What is held after a run of lines. -/
def leave (held : Held) : Held :=
  { held with depth := held.depth - 1 }

/-- What is held once the text since a mark is given back. -/
def release (held : Held) (mark : Nat) : Held :=
  { held with pieces := held.pieces.drop (held.pieces.length - mark) }

/-- What is held after a loop. -/
def popLoop (held : Held) : Held :=
  match held.threads with
  | [] => held
  | thread :: rest => { held with threads := { thread with loops := thread.loops.tail } :: rest }

/-- What is held after a thread that is on top of others. -/
def popThread (held : Held) (waiting : Bool) (thread : Thread) (rest : List Thread) : Held :=
  { held.release thread.mark with waiting, threads := rest, errorLevel := thread.savedErrorLevel }

/-- What is held when work of the running thread alone was done, error level and written text aside. -/
structure Same (held held' : Held) : Prop where
  depth_eq : held'.depth = held.depth
  waiting_eq : held'.waiting = held.waiting
  threads : Thread.OnTop Thread.Shaped held.threads held'.threads

theorem Same.refl (held : Held) : Same held held :=
  ⟨rfl, rfl, .refl Thread.Shaped.refl _⟩

/-- What may differ when a stack gets what it waits for: after a run of lines the written text is as before, after a line there
may be more of it, and after a look at the queue or a thread nothing differs. -/
def Alike : Awaited → Held → Held → Prop
  | .run, held, held' => Same held held' ∧ held'.pieces = held.pieces
  | .line, held, held' => Same held held' ∧ held.pieces <:+ held'.pieces
  | .queue, held, held' | .thread, held, held' => held' = held

theorem Alike.refl (a : Awaited) (held : Held) : Alike a held held := by
  cases a with
  | run => exact ⟨.refl held, rfl⟩
  | line => exact ⟨.refl held, List.suffix_refl _⟩
  | queue | thread => exact rfl

theorem Alike.trans {a : Awaited} {x y z : Held} (hxy : Alike a x y) (hyz : Alike a y z) : Alike a x z := by
  have same {x y z : Held} (hxy : Same x y) (hyz : Same y z) : Same x z :=
    ⟨hyz.depth_eq.trans hxy.depth_eq, hyz.waiting_eq.trans hxy.waiting_eq,
      hxy.threads.trans Thread.Shaped.trans hyz.threads⟩
  cases a with
  | run => exact ⟨same hxy.1 hyz.1, hyz.2.trans hxy.2⟩
  | line => exact ⟨same hxy.1 hyz.1, hxy.2.trans hyz.2⟩
  | queue | thread => exact Eq.trans hyz hxy

theorem same_leave {held held' : Held} (h : Same held held') : Same held.leave held'.leave :=
  ⟨congrArg (· - 1) h.depth_eq, h.waiting_eq, h.threads⟩

/-- Leaving a loop keeps what is held the same. -/
theorem same_popLoop {held held' : Held} (h : Same held held') : Same held.popLoop held'.popLoop := by
  obtain ⟨depth, waiting, pieces, threads, level⟩ := held
  obtain ⟨depth', waiting', pieces', threads', level'⟩ := held'
  obtain ⟨hdepth, hwaiting, hthreads⟩ := h
  cases hthreads with
  | nil => exact ⟨hdepth, hwaiting, .nil⟩
  | cons h =>
    have hlength := congrArg (· - 1) h.length_eq
    exact ⟨hdepth, hwaiting, .cons ⟨h.mark_eq, h.saved_eq, by simpa using hlength⟩⟩

/-- Leaving a loop gives no text back. -/
theorem pieces_popLoop (held : Held) : held.popLoop.pieces = held.pieces := by
  unfold popLoop
  split <;> rfl

/-- Giving text back to a mark takes off whatever was written after it. -/
theorem pieces_release {held held' : Held} {mark : Nat} (hmark : mark ≤ held.pieces.length)
    (h : held.pieces <:+ held'.pieces) : (held'.release mark).pieces = (held.release mark).pieces := by
  obtain ⟨added, h⟩ := h
  have hlength : (added ++ held.pieces).length - mark = added.length + (held.pieces.length - mark) := by
    simp only [List.length_append]
    omega
  simp only [release, ← h, hlength, List.drop_append, Nat.add_sub_cancel_left]
  rw [List.drop_eq_nil_of_le (by omega), List.nil_append]

end Held

/-- What the engine will hold when the part `base` of a stack gets what it waits for, if every frame above it gives back what it
has taken. -/
inductive Unwinds {b : Awaited} (base : Stack b) (goal : Held → Prop) : {a : Awaited} → Stack a → Held → Prop
  | base {held : Held} (h : goal held) : Unwinds base goal base held
  /-- The end of a thread. -/
  | thread {mode : Mode} {waiting : Bool} {rest : Stack .thread} {held : Held} {top : Thread} {below : List Thread}
    (hthreads : held.threads = top :: below) (h : Unwinds base goal rest (held.popThread waiting top below)) :
    Unwinds base goal (.thread mode waiting rest) held
  /-- The end of a line, and then of its run. -/
  | line {mark : Nat} {level : Option LineId} {mode : Mode} {rest : Stack .run} {held : Held}
    (hmark : mark ≤ held.pieces.length) (h : Unwinds base goal rest (held.release mark).leave) :
    Unwinds base goal (.line mark level mode rest) held
  | body {after : Option LineId} {rest : Stack .line} {held : Held} (h : Unwinds base goal rest held) :
    Unwinds base goal (.body after rest) held
  /-- The end of a loop. -/
  | loop {id body : LineId} {rest : Stack .line} {held : Held} (h : Unwinds base goal rest held.popLoop) :
    Unwinds base goal (.loop id body rest) held
  /-- The end of the run that looks at the queue. -/
  | tick {id : LineId} {level : Option LineId} {mode : Mode} {rest : Stack .run} {held : Held}
    (h : Unwinds base goal rest held.leave) : Unwinds base goal (.tick id level mode rest) held
  /-- The thread is no longer idle. -/
  | sleep {id : LineId} {deadline : Nat} {waiting : Bool} {rest : Stack .line} {held : Held}
    (h : Unwinds base goal rest { held with waiting }) : Unwinds base goal (.sleep id deadline waiting rest) held
  | command {id : LineId} {cmd : CommandId} {waiting : Bool} {rest : Stack .line} {held : Held}
    (h : Unwinds base goal rest { held with waiting }) : Unwinds base goal (.command id cmd waiting rest) held
  | queue {ran : Nat} {rest : Stack .queue} {held : Held} (h : Unwinds base goal rest held) :
    Unwinds base goal (.queue ran rest) held
  | exitRoutine {rest : Stack .line} {held : Held} (h : Unwinds base goal rest held) :
    Unwinds base goal (.exitRoutine rest) held

namespace Unwinds

variable {a b : Awaited} {base : Stack b} {stack : Stack a} {goal : Held → Prop} {held held' : Held}

/-- Frames give back what they took whatever the lines above them did. -/
theorem congr (hgoal : ∀ {held held'}, goal held → Held.Alike b held held' → goal held')
    (h : Unwinds base goal stack held) (hsame : Held.Alike a held held') : Unwinds base goal stack held' := by
  induction h generalizing held' with
  | base h => exact .base (hgoal h hsame)
  | @thread mode waiting rest held top below hthreads h ih =>
    obtain ⟨⟨hdepth, -, htop⟩, hpieces⟩ := hsame
    rw [hthreads] at htop
    generalize hthreads' : held'.threads = threads' at htop
    cases htop with
    | cons htop =>
      refine .thread hthreads' (ih ?_)
      simp only [Held.Alike, Held.popThread, Held.release, hdepth, hpieces, htop.mark_eq, htop.saved_eq]
  | line hmark h ih =>
    obtain ⟨hsame, hpieces⟩ := hsame
    refine .line (Nat.le_trans hmark hpieces.length_le) (ih ⟨Held.same_leave ⟨?_, ?_, ?_⟩, ?_⟩)
    · exact hsame.depth_eq
    · exact hsame.waiting_eq
    · exact hsame.threads
    · exact Held.pieces_release hmark hpieces
  | body h ih => exact .body (ih ⟨hsame.1, hsame.2 ▸ List.suffix_refl _⟩)
  | loop h ih =>
    refine .loop (ih ⟨Held.same_popLoop hsame.1, ?_⟩)
    simp only [Held.pieces_popLoop, hsame.2, List.suffix_refl]
  | tick h => exact hsame ▸ .tick h
  | sleep h => exact hsame ▸ .sleep h
  | command h => exact hsame ▸ .command h
  | queue h => exact hsame ▸ .queue h
  | exitRoutine h => exact hsame ▸ .exitRoutine h

/-- A stack is at least as large as the part it is unwound to. -/
theorem size_le (h : Unwinds base goal stack held) : sizeOf base ≤ sizeOf stack := by
  induction h with
  | base => exact Nat.le_refl _
  | thread _ _ ih | line _ _ ih | body _ ih | loop _ ih | tick _ ih | sleep _ ih | command _ ih | queue _ ih
  | exitRoutine _ ih =>
    simp only [Stack.thread.sizeOf_spec, Stack.line.sizeOf_spec, Stack.body.sizeOf_spec, Stack.loop.sizeOf_spec,
      Stack.tick.sizeOf_spec, Stack.sleep.sizeOf_spec, Stack.command.sizeOf_spec, Stack.queue.sizeOf_spec,
      Stack.exitRoutine.sizeOf_spec]
    omega

/-- A part of a stack that gets what it waits for is not inside itself, so nothing is left to be unwound. -/
theorem goal_of_eq (h : Unwinds base goal stack held) (heq : (⟨a, stack⟩ : (a : Awaited) × Stack a) = ⟨b, base⟩) :
    goal held := by
  cases h with
  | base h => exact h
  | thread _ h | line _ h | body h | loop h | tick h | sleep h | command h | queue h | exitRoutine h =>
    cases heq
    have := h.size_le
    simp only [Stack.thread.sizeOf_spec, Stack.line.sizeOf_spec, Stack.body.sizeOf_spec, Stack.loop.sizeOf_spec,
      Stack.tick.sizeOf_spec, Stack.sleep.sizeOf_spec, Stack.command.sizeOf_spec, Stack.queue.sizeOf_spec,
      Stack.exitRoutine.sizeOf_spec] at this
    omega

end Unwinds

/-- The part of the stack that a machine hands an answer to. -/
def Control.answered? : Control → Option ((a : Awaited) × Stack a)
  | .ran _ stack => some ⟨.run, stack⟩
  | .stepped _ stack => some ⟨.line, stack⟩
  | .polled _ stack => some ⟨.queue, stack⟩
  | .ended stack => some ⟨.thread, stack⟩
  | _ => none

/-- What a machine still has to give back before the part `base` of its stack gets what it waits for. -/
def Control.Owes {b : Awaited} (base : Stack b) (goal : Held → Prop) (held : Held) : Control → Prop
  | .enter _ _ stack | .ran _ stack => Unwinds base goal stack held
  | .walk _ _ _ stack | .reach _ _ _ stack => Unwinds base goal stack held.leave
  | .step _ stack | .call _ _ stack | .sleep _ _ stack | .stepped _ stack => Unwinds base goal stack held
  | .round _ _ stack => Unwinds base goal stack held.popLoop
  | .poll _ stack | .polled _ stack => Unwinds base goal stack held
  | .ended stack => Unwinds base goal stack held
  | .idle _ | .done _ => False

namespace Engine

/-- Work of the running thread holds what was held. -/
theorem Worked.alike {engine engine' : Engine} (h : engine.Worked engine') (setup : Setup) :
    Held.Alike .line (engine.held setup) (engine'.held setup) :=
  ⟨⟨h.depth_eq, h.waiting_eq, h.threads.mono Thread.Kept.shaped⟩, h.pieces⟩

/-- Leaving a loop that was just entered gives back what was held. -/
theorem held_pushLoop (setup : Setup) (engine : Engine) (loop : LoopContext) :
    ((engine.pushLoop loop).held setup).popLoop = engine.held setup := by
  unfold pushLoop onThread
  cases hthreads : engine.threads with
  | nil => simp [held, Held.popLoop, hthreads]
  | cons thread rest => simp [held, Held.popLoop, hthreads]

/-- What is held after a loop was left is what was held without the loop. -/
theorem held_popLoop (setup : Setup) (engine : Engine) : engine.popLoop.held setup = (engine.held setup).popLoop := by
  unfold popLoop onThread
  cases hthreads : engine.threads with
  | nil => simp [held, Held.popLoop, hthreads]
  | cons thread rest => simp [held, Held.popLoop, hthreads]

/-- The next round of a loop changes nothing but the loop. -/
theorem held_advanceLoop (setup : Setup) (engine : Engine) :
    (engine.advanceLoop.1.held setup).popLoop = (engine.held setup).popLoop := by
  unfold advanceLoop
  split
  · rfl
  · split
    · rfl
    · unfold onThread
      cases hthreads : engine.threads with
      | nil => simp [held, Held.popLoop, hthreads]
      | cons thread rest => simp [held, Held.popLoop, hthreads]

/-- Ending the thread that was just started gives back everything. -/
theorem held_pushThread (setup : Setup) (engine : Engine) (label : Option LabelId) (trigger : Trigger) :
    ((engine.pushThread setup label trigger).held setup).popThread engine.waiting (engine.newThread setup label trigger)
      engine.threads = engine.held setup := by
  unfold pushThread
  cases htrigger : trigger.isHotkey <;>
    simp [held, Held.popThread, Held.release, newThread, Scratch.mark]

/-- A new thread is on top of the others. -/
theorem threads_pushThread (setup : Setup) (engine : Engine) (label : Option LabelId) (trigger : Trigger) :
    (engine.pushThread setup label trigger).threads = engine.newThread setup label trigger :: engine.threads := by
  unfold pushThread
  cases htrigger : trigger.isHotkey <;> rfl

/-- A thread that ends restores the error level it saved. -/
theorem held_popThread {setup : Setup} {engine : Engine} {top : Thread} {below : List Thread} (waiting : Bool)
    (hown : engine.vars.IsOwn setup.errorLevel) (hthreads : engine.threads = top :: below) :
    (engine.popThread setup waiting).held setup = (engine.held setup).popThread waiting top below := by
  simp [popThread, hthreads, held, Held.popThread, Held.release, Scratch.release, Variables.get_put hown]

end Engine

namespace Machine

/-- What a machine still has to give back before the part `base` of its stack gets what it waits for. -/
def Owes {b : Awaited} (setup : Setup) (base : Stack b) (goal : Held → Prop) (machine : Machine) : Prop :=
  machine.control.Owes base goal (machine.engine.held setup)

section

variable {setup : Setup} {b : Awaited} {base : Stack b} {goal : Held → Prop} {engine : Engine}

/-- A launched thread owes what the stack below is owed. -/
theorem owes_launch {start : LineId} {label : Option LabelId} {trigger : Trigger} {stack : Stack .thread}
    (h : Unwinds base goal stack (engine.held setup)) :
    Owes setup base goal (launch setup engine start label trigger stack) := by
  rw [← Engine.held_pushThread setup engine label trigger] at h
  exact .thread (engine.threads_pushThread setup label trigger) h

variable (hgoal : ∀ {held held'}, goal held → Held.Alike b held held' → goal held')
include hgoal

/-- Whatever a line comes to, its run can still be unwound. -/
theorem owes_outcome {id : LineId} {stack : Stack .line} {machine : Machine}
    (h : Unwinds base goal stack (engine.held setup)) (hout : Outcome setup engine id stack machine) :
    Owes setup base goal machine := by
  cases hout with
  | failed hw | wentOn hw | diverted hw | slept hw => exact h.congr hgoal (hw.alike setup)
  | opened hw => exact .body (h.congr hgoal (hw.alike setup))
  | looped hw =>
    refine (?_ : Unwinds base goal stack _)
    rw [Engine.held_pushLoop]
    exact h.congr hgoal (hw.alike setup)
  | called => exact h
  | waited => exact Unwinds.command h
  | exiting => exact owes_launch (.exitRoutine h)

/-- The call of a command owes what the stack below is owed. -/
theorem owes_callCommand {id : LineId} {cmd : CommandId} {stack : Stack .line}
    (h : Unwinds base goal stack (engine.held setup)) :
    Owes setup base goal (callCommand setup engine id cmd stack) := by
  have hw := engine.worked_call setup (setup.script.line id) (setup.script.commands.get cmd)
  simp only [callCommand]
  cases hcall : engine.call setup (setup.script.line id) (setup.script.commands.get cmd) with
  | mk engine' answer =>
    rw [hcall] at hw
    have h : Unwinds base goal stack (engine'.held setup) := h.congr hgoal (hw.alike setup)
    have hbranch (truth : Bool) : Owes setup base goal (branch setup engine' id truth stack) := by
      unfold branch
      dsimp only
      split
      · exact Unwinds.body h
      · exact h
    cases answer with
    | error problem => exact h
    | ok status =>
      dsimp only
      split
      · exact hbranch true
      · split
        · exact hbranch false
        · exact h

/-- A run that goes on owes what the stack below is owed. -/
theorem owes_walk {cur level : Option LineId} {mode : Mode} {stack : Stack .run}
    (h : Unwinds base goal stack (engine.held setup).leave) :
    Owes setup base goal (walk setup engine cur level mode stack) := by
  cases cur with
  | none => exact h
  | some id =>
    simp only [walk]
    split
    · split <;> exact h
    · have hw := engine.worked_noteLine id
      have hpieces : (engine.noteLine id).scratch = engine.scratch := by
        unfold Engine.noteLine Engine.onThread
        cases engine.threads <;> rfl
      have hnoted : Unwinds base goal stack ((engine.noteLine id).held setup).leave :=
        h.congr hgoal ⟨Held.same_leave (hw.alike setup).1, congrArg Scratch.pieces hpieces⟩
      split
      · exact Unwinds.tick hnoted
      · exact hnoted

omit hgoal in
/-- What follows a line owes what the stack below is owed. -/
theorem owes_afterLine {answer : Except RuntimeError (Flow × Option LineId)} {level : Option LineId} {mode : Mode}
    {stack : Stack .run} (h : Unwinds base goal stack (engine.held setup).leave) :
    Owes setup base goal (afterLine setup engine answer level mode stack) := by
  unfold afterLine
  split
  · exact h
  · split
    · exact h
    · split
      · split <;> exact h
      · split <;> exact h
      · split <;> exact h
      · exact h

omit hgoal in
/-- A run of lines that ends inside another part of the stack hands on what is still to be given back. -/
theorem owes_afterRun {answer : Except RuntimeError Flow} {stack : Stack .run}
    (hown : engine.vars.IsOwn setup.errorLevel) (h : Unwinds base goal stack (engine.held setup))
    (hne : (⟨.run, stack⟩ : (a : Awaited) × Stack a) ≠ ⟨b, base⟩) :
    Owes setup base goal (afterRun setup engine answer stack) := by
  cases stack with
  | body after rest =>
    cases h with
    | base => exact absurd rfl hne
    | body h =>
      simp only [afterRun, afterBody]
      split <;> exact h
  | loop id body rest =>
    cases h with
    | base => exact absurd rfl hne
    | loop h =>
      have hpop : Unwinds base goal rest (engine.popLoop.held setup) := by rwa [Engine.held_popLoop]
      simp only [afterRun, afterRound]
      split
      · exact hpop
      · exact h
      · exact h
      · exact hpop
      · exact hpop
  | thread mode waiting rest =>
    simp only [afterRun, afterThread]
    split
    · exact h
    all_goals
      cases h with
      | base => exact absurd rfl hne
      | thread hthreads h =>
        rw [← Engine.held_popThread waiting hown hthreads] at h
        exact h

omit hgoal in
/-- What follows a look at the queue owes what the stack below is owed. -/
theorem owes_afterPoll {ran : Nat} {stack : Stack .queue} (h : Unwinds base goal stack (engine.held setup))
    (hne : (⟨.queue, stack⟩ : (a : Awaited) × Stack a) ≠ ⟨b, base⟩) :
    Owes setup base goal (afterPoll setup engine ran stack) := by
  cases h with
  | base => exact absurd rfl hne
  | tick h => exact h
  | sleep h =>
    simp only [afterPoll, afterSlice]
    split <;> exact h
  | command h =>
    simp only [afterPoll]
    split <;> exact h

omit hgoal in
/-- What follows the end of a thread owes what the stack below is owed. -/
theorem owes_afterEnd {stack : Stack .thread} (h : Unwinds base goal stack (engine.held setup))
    (hne : (⟨.thread, stack⟩ : (a : Awaited) × Stack a) ≠ ⟨b, base⟩) :
    Owes setup base goal (afterEnd engine stack) := by
  cases h with
  | base => exact absurd rfl hne
  | queue h => exact h
  | exitRoutine h => exact h

/-- Each step keeps what is owed to a part of the stack, until that part gets what it waits for. -/
theorem Owes.step {machine : Machine} (hown : machine.engine.vars.IsOwn setup.errorLevel)
    (h : Owes setup base goal machine) (hne : machine.control.answered? ≠ some ⟨b, base⟩) :
    Owes setup base goal (machine.step setup) := by
  obtain ⟨engine, control⟩ := machine
  cases control with
  | enter start mode stack =>
    simp only [Machine.step]
    split
    · exact h
    · exact h
  | walk cur level mode stack => exact owes_walk hgoal h
  | reach id level mode stack =>
    simp only [Machine.step]
    split
    · exact h
    · refine Unwinds.line (Nat.le_refl _) ?_
      have hrelease : (engine.held setup).release engine.scratch.mark = engine.held setup := by
        simp [Held.release, Engine.held, Scratch.mark]
      rw [hrelease]
      exact h
  | step id stack => exact owes_outcome hgoal h outcome_runLine
  | call id cmd stack => exact owes_callCommand hgoal h
  | round id body stack =>
    simp only [Machine.step]
    have hadvance := engine.held_advanceLoop setup
    cases hround : engine.advanceLoop with
    | mk engine' answer =>
      rw [hround] at hadvance
      have h : Unwinds base goal stack (engine'.held setup).popLoop := hadvance ▸ h
      have hpop : Unwinds base goal stack (engine'.popLoop.held setup) := by rwa [Engine.held_popLoop]
      cases answer with
      | error problem => exact hpop
      | ok goesOn =>
        cases goesOn with
        | false => exact hpop
        | true => exact Unwinds.loop h
  | sleep id deadline stack => exact Unwinds.sleep h
  | poll ran stack =>
    simp only [Machine.step]
    split
    · exact h
    · split
      · exact h
      · split
        · exact owes_launch (.queue h)
        · exact h
        · exact h
  | idle deadline => exact h.elim
  | ran answer stack => exact owes_afterRun hown h fun heq => hne (congrArg some heq)
  | stepped answer stack =>
    cases stack with
    | line mark level mode rest =>
      cases h with
      | base => exact absurd rfl hne
      | line hmark h => exact owes_afterLine h
  | polled ran stack => exact owes_afterPoll h fun heq => hne (congrArg some heq)
  | ended stack => exact owes_afterEnd h fun heq => hne (congrArg some heq)
  | done ran => exact h.elim

end

end Machine

end LineScript
