import LineScript.Proofs.Engine.Seen
import LineScript.Proofs.Engine.Stacked

/-!
# A program alone

The program itself runs as the lowest thread. A look at the queue and a sleep do not show in what it does: for its own lines they
are over at once (`Control.awake`). So there is one course the program takes if nobody ever interrupts it (`Machine.stepAlone`),
and an engine that looks alike to the program follows it step by step (`Machine.Follows`), but for the rests it makes on the way.
-/

namespace LineScript

/-- A stack of the program itself: lines, bodies and loops of the thread that the host started, with no other thread above. -/
def Stack.IsMain : {a : Awaited} → Stack a → Prop
  | _, .thread _ _ rest => rest = .host
  | _, .line _ _ _ rest => rest.IsMain
  | _, .body _ rest => rest.IsMain
  | _, .loop _ _ rest => rest.IsMain
  | _, .tick _ _ _ rest => rest.IsMain
  | _, .sleep _ _ _ rest => rest.IsMain
  | _, .command _ _ _ rest => rest.IsMain
  | _, _ => False

namespace Control

/-- What is done next is work of the program itself. -/
def OnMain (control : Control) : Prop :=
  match control.stack? with
  | some ⟨_, stack⟩ => stack.IsMain
  | none => False

/-- What a thread goes on with after a look at the queue or a sleep. -/
def awake (setup : Setup) : Control → Control
  | .poll _ (.tick id level mode stack) | .polled _ (.tick id level mode stack) => .reach id level mode stack
  | .poll _ (.command id cmd _ stack) | .polled _ (.command id cmd _ stack) => .call id cmd stack
  | .poll _ (.sleep id _ _ stack) | .polled _ (.sleep id _ _ stack) | .sleep id _ stack =>
    .stepped (.ok (.normal, (setup.script.line id).next)) stack
  | control => control

/-- Whether a thread sleeps or looks at the queue. -/
def rests : Control → Bool
  | .poll .. | .polled .. | .sleep .. => true
  | _ => false

/-- The line that is run, or whose command is called. -/
def line? : Control → Option LineId
  | .step id _ | .call id _ _ => some id
  | _ => none

/-- A control that does not rest is awake. -/
theorem awake_of_rests {setup : Setup} {control : Control} (h : control.rests = false) : control.awake setup = control := by
  cases control with
  | poll | polled | sleep => cases h
  | _ => rfl

end Control

/-- Something a thread does that shows: a line it runs, or a command it calls, with the expanded arguments. -/
inductive Doing where
  | line (id : LineId)
  | command (spec : CommandSpec) (args : ExpandedArgs)

namespace Machine

/-- What the next step of a machine does. -/
def doings (setup : Setup) (machine : Machine) : List Doing :=
  match machine.control with
  | .step id _ => [.line id]
  | _ => (machine.calls setup).map fun call => .command call.spec call.args

/-- Takes one step of a program that nobody interrupts. Rests are left out, and the program is over when it asks for its end. -/
def stepAlone (setup : Setup) (machine : Machine) : Machine :=
  match machine.control with
  | .step id _ =>
    if (setup.script.line id).action = .exitApp then ⟨machine.engine, .ended .host⟩
    else ⟨(machine.step setup).engine, (machine.step setup).control.awake setup⟩
  | _ => ⟨(machine.step setup).engine, (machine.step setup).control.awake setup⟩

/-- Two machines side by side: their engines look alike to the program, and what they do next is the same, rests aside. -/
structure Together (setup : Setup) (V : VarId → Prop) (machine machine' : Machine) : Prop where
  seen : machine.engine.Seen V machine'.engine
  awake_eq : machine.control.awake setup = machine'.control.awake setup
  main : machine'.control.OnMain

variable {setup : Setup} {V : VarId → Prop} {engine engine' : Engine} {n : Nat}

/-- Machines with engines that look alike and the same control are together. -/
theorem together_control {control : Control} (h : engine.Seen V engine') (hmain : control.OnMain) :
    Together setup V ⟨engine, control⟩ ⟨engine', control⟩ :=
  ⟨h, rfl, hmain⟩

/-! ## Lines -/

section

variable {id : LineId} {stack : Stack .line} (hmain : stack.IsMain)
include hmain

/-- Results that agree are settled to machines that are together. -/
theorem together_settle {result result' : Engine × Except Problem Unit} (h : Engine.Agree V result result')
    (next : Option LineId) : Together setup V (settle setup id next stack result) (settle setup id next stack result') := by
  obtain ⟨after, after', answer, rfl, rfl, hseen⟩ := h.exists_eq
  cases answer <;> exact together_control hseen hmain

/-- A condition that answers alike selects the same branch. -/
theorem together_branch (h : engine.Seen V engine') (truth : Bool) :
    Together setup V (branch setup engine id truth stack) (branch setup engine' id truth stack) := by
  unfold branch
  dsimp only
  split <;> exact together_control h hmain

variable (h : engine.Seen V engine') (hplain : (setup.script.line id).Plain V)
  (hrefers : ∀ arg ∈ (setup.script.line id).args, arg.Refers n)
include h hplain hrefers

/-- A line that does not end the program comes to the same. -/
theorem together_runLine (hexit : (setup.script.line id).action ≠ .exitApp) :
    Together setup V (runLine setup engine id stack) (runLine setup engine' id stack) := by
  simp only [runLine]
  cases haction : (setup.script.line id).action with
  | blockBegin =>
    dsimp only
    split <;> exact together_control h hmain
  | blockEnd | otherwise | breakLoop | continueLoop | ret | exit => exact together_control h hmain
  | exitApp => exact absurd haction hexit
  | cond cond =>
    obtain ⟨after, after', answer, hcond, hcond', hseen⟩ := (h.condition hplain hrefers cond).exists_eq
    simp only [hcond, hcond']
    cases answer with
    | error problem => exact together_control hseen hmain
    | ok truth => exact together_branch hmain hseen truth
  | loop =>
    obtain ⟨after, after', answer, hloop, hloop', hseen⟩ := (h.startLoop hplain hrefers).exists_eq
    simp only [hloop, hloop']
    cases answer with
    | error problem => exact together_control hseen hmain
    | ok loop =>
      dsimp only
      split
      · exact together_control (hseen.pushLoop loop) hmain
      · exact together_control hseen hmain
  | goto | gosub =>
    obtain ⟨after, after', answer, hjump, hjump', hseen⟩ := (h.jumpTarget setup hplain hrefers).exists_eq
    simp only [hjump, hjump']
    cases answer <;> exact together_control hseen hmain
  | sleep =>
    obtain ⟨after, after', answer, hsleep, hsleep', hseen⟩ := (h.sleepTime hplain hrefers).exists_eq
    simp only [hsleep, hsleep']
    cases answer with
    | error problem => exact together_control hseen hmain
    | ok ms => exact ⟨hseen, rfl, hmain⟩
  | assign op => exact together_settle hmain (h.assign setup hplain hrefers op) _
  | setTimer => exact together_settle hmain (h.setTimer setup hplain hrefers) _
  | onExit => exact together_settle hmain (h.setOnExit setup hplain hrefers) _
  | suspend => exact together_settle hmain (h.suspend hplain hrefers) _
  | thread => exact together_settle hmain (h.threadSetting hplain hrefers) _
  | command cmd =>
    dsimp only
    split
    · exact ⟨{ h with }, rfl, hmain⟩
    · exact together_control h hmain

/-- A command that depends on its arguments alone is called alike and answers alike. -/
theorem together_callCommand {cmd : CommandId} (hperform : setup.DependsOnArgs (setup.script.commands.get cmd)) :
    Together setup V (callCommand setup engine id cmd stack) (callCommand setup engine' id cmd stack) := by
  obtain ⟨after, after', answer, hcall, hcall', hseen⟩ := (h.call setup hplain hrefers hperform).1.exists_eq
  simp only [callCommand, hcall, hcall']
  cases answer with
  | error problem => exact together_control hseen hmain
  | ok status =>
    dsimp only
    split
    · exact together_branch hmain hseen true
    · split
      · exact together_branch hmain hseen false
      · exact together_control hseen hmain

end

/-! ## Runs of lines -/

section

variable {stack : Stack .run} (hmain : stack.IsMain) (h : engine.Seen V engine')
include hmain h

/-- What leaves a part of the stack leaves it alike. -/
theorem together_leave (answer : Except RuntimeError Flow) :
    Together setup V (leave engine answer stack) (leave engine' answer stack) :=
  together_control { h with depth_eq := congrArg (· - 1) h.depth_eq } hmain

/-- Whether it is time to look at the queue does not show. -/
theorem together_walk (cur level : Option LineId) (mode : Mode) :
    Together setup V (walk setup engine cur level mode stack) (walk setup engine' cur level mode stack) := by
  unfold walk
  split
  · exact together_leave hmain h _
  · rename_i id
    have hnote := h.noteLine id
    dsimp only
    split
    · split
      · exact together_leave hmain h _
      · exact together_control h hmain
    · split <;> split <;> exact ⟨{ hnote with }, rfl, hmain⟩

/-- After a line a run goes on alike. -/
theorem together_afterLine (answer : Except RuntimeError (Flow × Option LineId)) (level : Option LineId) (mode : Mode) :
    Together setup V (afterLine setup engine answer level mode stack) (afterLine setup engine' answer level mode stack) := by
  unfold afterLine
  rw [h.terminated_eq]
  split
  · exact together_leave hmain h _
  · split
    · exact together_leave hmain h _
    · split
      · split
        · exact together_leave hmain h _
        · exact together_control h hmain
      · split
        · exact together_control h hmain
        · exact together_leave hmain h _
      · split <;> exact together_leave hmain h _
      · exact together_leave hmain h _

/-- After a run of lines the program goes on alike, or it has come to its end. -/
theorem together_afterRun (answer : Except RuntimeError Flow) :
    Together setup V (afterRun setup engine answer stack) (afterRun setup engine' answer stack) ∨
      (afterRun setup engine answer stack).control = .ended .host ∧
        (afterRun setup engine' answer stack).control = .ended .host := by
  cases stack with
  | body after rest =>
    simp only [afterRun, afterBody]
    split <;> exact .inl (together_control h hmain)
  | loop id body rest =>
    simp only [afterRun, afterRound]
    split
    · exact .inl (together_control h.popLoop hmain)
    · exact .inl (together_control h hmain)
    · exact .inl (together_control h hmain)
    · exact .inl (together_control h.popLoop hmain)
    · exact .inl (together_control h.popLoop hmain)
  | thread mode waiting rest =>
    obtain rfl : rest = .host := hmain
    simp only [afterRun, afterThread]
    split
    · exact .inl (together_control h rfl)
    all_goals exact .inr ⟨rfl, rfl⟩

end

/-! ## Steps -/

/-- What is asked of the line that the program is at: it names its variables, all of them in `V`, and its command depends on
nothing but the arguments. -/
structure IsPlain (setup : Setup) (V : VarId → Prop) (control : Control) : Prop where
  line : ∀ id, control.line? = some id → (setup.script.line id).Plain V
  perform : ∀ id cmd stack, control = .call id cmd stack → setup.DependsOnArgs (setup.script.commands.get cmd)

/-- Two machines that do the same next, and do not rest, are side by side after it, or both have come to the end. -/
theorem together_step {control : Control} (hrefers : ∀ id, ∀ arg ∈ (setup.script.line id).args, arg.Refers n)
    (h : engine.Seen V engine') (hmain : control.OnMain) (hawake : control.rests = false) (hplain : IsPlain setup V control)
    (hexit : ∀ id stack, control = .step id stack → (setup.script.line id).action ≠ .exitApp) :
    Together setup V (step setup ⟨engine, control⟩) (step setup ⟨engine', control⟩) ∨
      (step setup ⟨engine, control⟩).control = .ended .host ∧ (step setup ⟨engine', control⟩).control = .ended .host := by
  cases control with
  | enter start mode stack =>
    left
    simp only [step, h.depth_eq]
    split
    · exact together_control h hmain
    · exact together_control { h with depth_eq := rfl } hmain
  | walk cur level mode stack => exact .inl (together_walk hmain h cur level mode)
  | reach id level mode stack =>
    left
    have hmark : engine'.scratch.mark = engine.scratch.mark := congrArg List.length h.pieces_eq
    simp only [step, h.terminated_eq, hmark]
    split
    · exact together_leave hmain h _
    · exact together_control h hmain
  | step id stack => exact .inl (together_runLine hmain h (hplain.line id rfl) (hrefers id) (hexit id stack rfl))
  | call id cmd stack =>
    exact .inl (together_callCommand hmain h (hplain.line id rfl) (hrefers id) (hplain.perform id cmd stack rfl))
  | round id body stack =>
    left
    obtain ⟨after, after', answer, hround, hround', hseen⟩ := h.advanceLoop.exists_eq
    simp only [step, hround, hround']
    cases answer with
    | error problem => exact together_control hseen.popLoop hmain
    | ok goesOn =>
      cases goesOn with
      | false => exact together_control hseen.popLoop hmain
      | true => exact together_control hseen hmain
  | ran answer stack => exact together_afterRun hmain h answer
  | stepped answer stack =>
    cases stack with
    | line mark level mode rest =>
      left
      refine together_afterLine hmain ?_ answer level mode
      have hpieces : (engine'.scratch.release mark).pieces = (engine.scratch.release mark).pieces := by
        simp only [Scratch.release, h.pieces_eq]
      exact { h with pieces_eq := hpieces }
  | sleep | poll | polled => cases hawake
  | ended stack => cases stack <;> exact hmain.elim
  | idle | done => exact hmain.elim

/-- A machine follows the course of the program alone: its engine looks alike to the program, and it goes on with what comes next
there, perhaps after a rest. -/
structure Follows (setup : Setup) (V : VarId → Prop) (alone machine : Machine) : Prop where
  seen : alone.engine.Seen V machine.engine
  control_eq : alone.control = machine.control.awake setup
  main : machine.control.OnMain

namespace Follows

variable {alone machine : Machine}

/-- Time that passes and triggers that arrive do not show. -/
theorem later (h : Follows setup V alone machine) (now : Nat) (triggers : List Trigger) :
    Follows setup V alone (machine.later { machine.engine.world with now := now } triggers) :=
  ⟨{ h.seen with }, h.control_eq, h.main⟩

/-- A machine that rests stays where it is in the course of the program, unless a trigger is let in. -/
theorem step_of_rests (h : Follows setup V alone machine) (hrests : machine.control.rests = true)
    (hgoesOn : machine.engine.terminated = false) :
    Follows setup V alone (machine.step setup) ∨
      ∃ ran stack label trigger rest, machine.control = .poll ran stack ∧
        machine.step setup = launchLabel setup { machine.engine with queue := rest } label trigger (.queue ran stack) := by
  obtain ⟨engine, control⟩ := machine
  obtain ⟨hseen, hcontrol, hmain⟩ := h
  replace hgoesOn : engine.terminated = false := hgoesOn
  cases control with
  | sleep id deadline stack => exact .inl ⟨{ hseen with }, hcontrol, hmain⟩
  | poll ran stack =>
    have hpolled : Follows setup V alone ⟨engine, .polled ran stack⟩ := by
      cases stack with
      | hostQueue | hostIdle => exact hmain.elim
      | tick | sleep | command => exact ⟨hseen, hcontrol, hmain⟩
    cases hqueue : engine.queue with
    | nil =>
      simp only [step, hgoesOn, hqueue, Bool.false_eq_true, if_false]
      exact .inl hpolled
    | cons trigger rest =>
      rw [step_poll hgoesOn hqueue]
      cases engine.decide setup trigger with
      | run label => exact .inr ⟨ran, stack, label, trigger, rest, rfl, rfl⟩
      | defer => exact .inl hpolled
      | refuse => exact .inl ⟨{ hseen with }, hcontrol, hmain⟩
  | polled ran stack =>
    left
    cases stack with
    | tick id level mode rest => exact ⟨hseen, hcontrol, hmain⟩
    | sleep id deadline waiting rest =>
      simp only [step, afterPoll, afterSlice]
      split <;> exact ⟨{ hseen with }, hcontrol, hmain⟩
    | command id cmd waiting rest =>
      simp only [step, afterPoll]
      rw [if_neg (Bool.eq_false_iff.mp hgoesOn)]
      exact ⟨{ hseen with }, hcontrol, hmain⟩
    | hostQueue | hostIdle => exact hmain.elim
  | _ => cases hrests

/-- A machine that does not rest is where the program is alone. -/
theorem control_eq_of_awake (h : Follows setup V alone machine) (hawake : machine.control.rests = false) :
    alone.control = machine.control :=
  h.control_eq.trans (Control.awake_of_rests hawake)

/-- A machine that does not rest takes a step of the program's course, or comes to the end of it. -/
theorem step_of_awake (h : Follows setup V alone machine)
    (hrefers : ∀ id, ∀ arg ∈ (setup.script.line id).args, arg.Refers n) (hawake : machine.control.rests = false)
    (hplain : IsPlain setup V machine.control)
    (hexit : ∀ id stack, machine.control = .step id stack → (setup.script.line id).action ≠ .exitApp) :
    Follows setup V (alone.stepAlone setup) (machine.step setup) ∨
      (alone.stepAlone setup).control = .ended .host ∧ (machine.step setup).control = .ended .host := by
  have hcontrol := h.control_eq_of_awake hawake
  obtain ⟨engine, control⟩ := alone
  obtain ⟨engine', control'⟩ := machine
  obtain rfl : control = control' := hcontrol
  have hstep : stepAlone setup ⟨engine, control⟩ =
      ⟨(step setup ⟨engine, control⟩).engine, (step setup ⟨engine, control⟩).control.awake setup⟩ := by
    unfold stepAlone
    split
    · rename_i id stack hid
      rw [if_neg (hexit id stack hid)]
    · rfl
  rw [hstep]
  rcases together_step hrefers h.seen h.main hawake hplain hexit with ⟨hseen, hsame, hmain⟩ | ⟨hended, hended'⟩
  · exact .inl ⟨hseen, hsame, hmain⟩
  · refine .inr ⟨?_, hended'⟩
    rw [hended]
    rfl

/-- What a machine that follows the course does is what is done there. -/
theorem doings_eq (h : Follows setup V alone machine)
    (hrefers : ∀ id, ∀ arg ∈ (setup.script.line id).args, arg.Refers n) (hawake : machine.control.rests = false)
    (hplain : IsPlain setup V machine.control) : machine.doings setup = alone.doings setup := by
  have hcontrol := h.control_eq_of_awake hawake
  obtain ⟨engine, control⟩ := alone
  obtain ⟨engine', control'⟩ := machine
  obtain rfl : control = control' := hcontrol
  cases control with
  | call id cmd stack =>
    have hcalls := (h.seen.call setup (hplain.line id rfl) (hrefers id) (hplain.perform id cmd stack rfl)).2
    have hdoings := congrArg (List.map fun call : CommandSpec × ExpandedArgs => Doing.command call.1 call.2) hcalls
    simp only [List.map_map] at hdoings
    exact hdoings
  | _ => rfl

end Follows

end Machine

end LineScript
