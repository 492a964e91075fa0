import LineScript.Proofs.Structured.Evaluation

/-!
# What evaluations do not look at

The work of a line neither looks at the depth of runs nor at whether the program has ended, and it looks at nothing of a line
that links add (`Script.Links`). So the work is the same in a direct evaluation and in a run of the linked program.
-/

namespace LineScript

namespace Engine

/-- The engine of a program that has not ended, so many runs of lines deep. -/
def running (engine : Engine) (depth : Nat) : Engine :=
  { engine with depth, terminated := false }

/-- Work that is the same at every depth and leaves the depth alone. -/
def Blind {α : Type} (work : Engine → Engine × Except Problem α) : Prop :=
  ∀ engine depth, work (engine.running depth) = ((work engine).1.running depth, (work engine).2)

/-- What blind work comes to at a depth, given what it comes to. -/
theorem Blind.eq {α : Type} {work : Engine → Engine × Except Problem α} (h : Blind work) {engine after : Engine}
    {answer : Except Problem α} (hwork : work engine = (after, answer)) (depth : Nat) :
    work (engine.running depth) = (after.running depth, answer) := by
  rw [h, hwork]

/-- Changing the running thread is the same at every depth. -/
theorem onThread_running (engine : Engine) (depth : Nat) (change : Thread → Thread) :
    (engine.running depth).onThread change = (engine.onThread change).running depth := by
  unfold onThread running
  dsimp only
  split <;> rfl

/-- Noting a line is the same at every depth. -/
theorem noteLine_running (engine : Engine) (depth : Nat) (id : LineId) :
    (engine.running depth).noteLine id = (engine.noteLine id).running depth := by
  simp only [noteLine, onThread_running]
  rfl

theorem vars_noteLine (engine : Engine) (id : LineId) : (engine.noteLine id).vars = engine.vars := by
  unfold noteLine onThread
  cases engine.threads <;> rfl

theorem world_noteLine (engine : Engine) (id : LineId) : (engine.noteLine id).world = engine.world := by
  unfold noteLine onThread
  cases engine.threads <;> rfl

theorem pushLoop_running (engine : Engine) (depth : Nat) (loop : LoopContext) :
    (engine.running depth).pushLoop loop = (engine.pushLoop loop).running depth :=
  onThread_running engine depth _

theorem popLoop_running (engine : Engine) (depth : Nat) : (engine.running depth).popLoop = engine.popLoop.running depth :=
  onThread_running engine depth _

/-- A deed of a command is the same at every depth. -/
theorem act_running (engine : Engine) (depth : Nat) (deed : Deed) :
    (engine.running depth).act deed = (engine.act deed).running depth := by
  cases deed with
  | print | store | send | wait => rfl
  | append path text =>
    simp only [act, running]
    split <;> rfl
  | declare name =>
    simp only [act, running]
    split <;> rfl

/-- All deeds of a command are the same at every depth. -/
theorem deeds_running (depth : Nat) (deeds : List Deed) (engine : Engine) :
    deeds.foldl act (engine.running depth) = (deeds.foldl act engine).running depth := by
  induction deeds generalizing engine with
  | nil => rfl
  | cons deed rest ih => rw [List.foldl_cons, act_running, ih, List.foldl_cons]

/-- Expanding the arguments of a line is blind. -/
theorem blind_expand (line : Line) : Blind (·.expand line) := by
  intro engine depth
  have hview : (engine.running depth).view = engine.view := rfl
  simp only [expand, hview]
  simp only [running]
  split <;> rfl

/-- Work with the arguments of a line is blind if what is done with them is. -/
theorem blind_withArgs {α : Type} (line : Line) {use : Engine → ExpandedArgs → Engine × Except Problem α}
    (h : ∀ args, Blind (use · args)) : Blind (·.withArgs line use) := by
  intro engine depth
  simp only [withArgs, blind_expand line engine depth]
  cases hargs : engine.expand line with
  | mk after answer =>
    cases answer with
    | error e => rfl
    | ok args => exact h args after depth

theorem blind_condition (line : Line) (cond : Condition) : Blind (·.condition line cond) :=
  blind_withArgs line fun _ _ _ => rfl

theorem blind_startLoop (line : Line) : Blind (·.startLoop line) :=
  blind_withArgs line fun _ _ _ => rfl

/-- An assignment is blind. -/
theorem blind_assign (setup : Setup) (line : Line) (op : AssignOp) : Blind (·.assign setup line op) := by
  refine blind_withArgs line fun args engine depth => ?_
  have hassigned : ∀ var, (engine.running depth).assigned setup op var args = engine.assigned setup op var args :=
    fun _ => rfl
  simp only [hassigned]
  simp only [running]
  split
  · rfl
  · split
    · rfl
    · split <;> rfl

theorem blind_advanceLoop : Blind advanceLoop := by
  intro engine depth
  simp only [advanceLoop, onThread_running]
  simp only [running]
  split
  · rfl
  · split <;> rfl

/-- Obeying a command's answer is blind. -/
theorem blind_obey (spec : CommandSpec) (reply : Reply) : Blind (·.obey spec reply) := by
  intro engine depth
  simp only [obey, deeds_running, onThread_running]
  split <;> rfl

/-- Calling a command is blind. -/
theorem blind_call (setup : Setup) (line : Line) (spec : CommandSpec) : Blind (·.call setup line spec) := by
  simp only [call_eq]
  exact blind_withArgs line fun args engine depth => blind_obey spec _ engine depth

/-- A line makes the same calls at every depth. -/
theorem callsOf_running (setup : Setup) (engine : Engine) (depth : Nat) (line : Line) (spec : CommandSpec) :
    (engine.running depth).callsOf setup line spec = engine.callsOf setup line spec := by
  simp only [callsOf, blind_expand line engine depth]
  cases engine.expand line with
  | mk after answer => cases answer <;> rfl

end Engine

/-- The same setup for another program. -/
def Setup.on (setup : Setup) (script : Script) : Setup :=
  { setup with script }

theorem Setup.on_script (setup : Setup) (script : Script) : (setup.on script).script = script :=
  rfl

/-- A program has the lines of another one up to a line, with links of its own. -/
structure Script.Links (raw script : Script) (last : Nat) : Prop where
  commands_eq : script.commands = raw.commands
  files_eq : script.files = raw.files
  line_eq : ∀ i < last, ∃ prev next related parent, script.line i = { raw.line i with prev, next, related, parent }

namespace Script.Links

variable {raw : Script} {setup : Setup} {last i : Nat} (h : Links raw setup.script last) (hi : i < last) (engine : Engine)
include h hi

/-- What does not look at the links of a line is the same of both lines. -/
theorem congr {α : Type} (f : Line → α)
    (hf : ∀ line prev next related parent, f { line with prev, next, related, parent } = f line) :
    f (setup.script.line i) = f (raw.line i) := by
  obtain ⟨prev, next, related, parent, hline⟩ := h.line_eq i hi
  rw [hline, hf]

/-- Linking a line leaves its action. -/
theorem action_eq : (setup.script.line i).action = (raw.line i).action :=
  h.congr hi (·.action) fun _ _ _ _ _ => rfl

/-- A problem at a line is the same with and without links. -/
theorem problemAt_eq (problem : Problem) : setup.problemAt i problem = (setup.on raw).problemAt i problem := by
  have hplace := h.congr hi (fun line => (line.file, line.lineNo)) fun _ _ _ _ _ => rfl
  obtain ⟨hfile, hlineNo⟩ := Prod.mk.inj hplace
  simp only [Setup.problemAt, Setup.on, Script.place, hfile, hlineNo, h.files_eq]

/-- A condition answers the same with and without links. -/
theorem condition_eq (cond : Condition) :
    engine.condition (setup.script.line i) cond = engine.condition (raw.line i) cond :=
  h.congr hi (engine.condition · cond) fun _ _ _ _ _ => rfl

theorem startLoop_eq : engine.startLoop (setup.script.line i) = engine.startLoop (raw.line i) :=
  h.congr hi engine.startLoop fun _ _ _ _ _ => rfl

theorem assign_eq (op : AssignOp) :
    engine.assign setup (setup.script.line i) op = engine.assign (setup.on raw) (raw.line i) op :=
  h.congr hi (engine.assign setup · op) fun _ _ _ _ _ => rfl

/-- A command is called the same with and without links. -/
theorem call_eq (spec : CommandSpec) :
    engine.call setup (setup.script.line i) spec = engine.call (setup.on raw) (raw.line i) spec :=
  h.congr hi (engine.call setup · spec) fun _ _ _ _ _ => rfl

/-- A line makes the same calls with and without links. -/
theorem callsOf_eq (spec : CommandSpec) :
    engine.callsOf setup (setup.script.line i) spec = engine.callsOf (setup.on raw) (raw.line i) spec :=
  h.congr hi (engine.callsOf setup · spec) fun _ _ _ _ _ => rfl

end Script.Links

end LineScript
