import LineScript.Engine.Machine
import LineScript.Proofs.Engine.Worked

/-!
# Direct evaluation

What a program without jumps means, read off its statements: `Layout.evaluate` follows the nesting of statements and knows
nothing of links, modes, stacks or the depth of runs. An evaluation carries the engine along, notes the calls of commands in
order, and stops at the first problem. Only loops may go on for ever, so the most rounds of a loop are given.
-/

namespace LineScript

/-- How a statement ends: normally, or by leaving what is around it. -/
inductive Ending where
  | normal
  | ret
  | breakLoop
  | continueLoop
  deriving DecidableEq

/-- What an evaluation comes to. -/
structure Evaluation (α : Type) where
  /-- What the program holds then. -/
  engine : Engine
  /-- The calls of commands on the way, first call first. -/
  calls : List Call
  /-- The answer, or the problem that stopped it. -/
  answer : Except RuntimeError α

/-- A direct evaluation, which need not come to anything. -/
def Evaluator (α : Type) : Type :=
  Engine → Option (Evaluation α)

namespace Evaluator

/-- Evaluations one after the other. A problem in the first one ends them. -/
instance : Monad Evaluator where
  pure a := fun engine => some ⟨engine, [], .ok a⟩
  bind x f := fun engine =>
    match x engine with
    | none => none
    | some ⟨engine, calls, .error e⟩ => some ⟨engine, calls, .error e⟩
    | some ⟨engine, calls, .ok a⟩ => (f a engine).map fun r => { r with calls := calls ++ r.calls }

variable {α β : Type}

/-- The evaluation that comes to nothing. -/
def stuck : Evaluator α :=
  fun _ => none

/-- Does the work of a line. -/
def work (setup : Setup) (id : LineId) (run : Engine → Engine × Except Problem α) : Evaluator α := fun engine =>
  let (engine, answer) := run engine
  some ⟨engine, [], answer.mapError (setup.problemAt id)⟩

/-- A statement that begins at a line. The line is noted first, and what it wrote to the scratch buffer is given back. -/
def statement (id : LineId) (x : Evaluator α) : Evaluator α := fun engine =>
  let engine := engine.noteLine id
  (x engine).map fun r => { r with engine := { r.engine with scratch := r.engine.scratch.release engine.scratch.mark } }

/-- Works inside a loop, and leaves it in any case. -/
def inside (loop : LoopContext) (x : Evaluator α) : Evaluator α := fun engine =>
  (x (engine.pushLoop loop)).map fun r => { r with engine := r.engine.popLoop }

end Evaluator

namespace Engine

/-- The call of a command with the arguments of its line. -/
def callOf (setup : Setup) (engine : Engine) (spec : CommandSpec) (args : ExpandedArgs) : Call :=
  let thread := engine.threads.head?
  { spec, args, lastResult := thread.bind (·.lastResult), loops := (thread.map (·.loops)).getD []
    vars := engine.vars, errorLevel := setup.errorLevel, files := engine.world.files }

/-- The calls a line makes of its command: one, unless its arguments cannot be expanded. -/
def callsOf (setup : Setup) (engine : Engine) (line : Line) (spec : CommandSpec) : List Call :=
  match engine.expand line with
  | (_, .error _) => []
  | (engine, .ok args) => [engine.callOf setup spec args]

/-- What is done with a command's answer. -/
def obey (engine : Engine) (spec : CommandSpec) (reply : Reply) : Engine × Except Problem Status :=
  let engine := (reply.deeds.foldl act engine).onThread fun thread => { thread with lastResult := some reply.status }
  match reply.status with
  | .fail message => (engine, .error (.commandFailed spec.name message))
  | status => (engine, .ok status)

/-- A line calls its command as `callsOf` says, and the engine obeys the answer. -/
theorem call_eq (setup : Setup) (engine : Engine) (line : Line) (spec : CommandSpec) :
    engine.call setup line spec =
      engine.withArgs line fun engine args => engine.obey spec (setup.perform (engine.callOf setup spec args)) :=
  rfl

end Engine

namespace Layout

/-- Calls the command of a line. -/
def callLine (setup : Setup) (id : LineId) (spec : CommandSpec) : Evaluator Status := fun engine =>
  let line := setup.script.line id
  let (after, answer) := engine.call setup line spec
  some ⟨after, engine.callsOf setup line spec, answer.mapError (setup.problemAt id)⟩

/-- A statement of one line: an assignment, a command, or a line that leaves what is around it. -/
def evaluateLine (setup : Setup) (id : LineId) : Evaluator Ending :=
  let line := setup.script.line id
  match line.action with
  | .assign op => do
    Evaluator.work setup id (·.assign setup line op)
    return .normal
  | .command cmd =>
    let spec := setup.script.commands.get cmd
    if spec.conditional || spec.waits then .stuck
    else do
      let _ ← callLine setup id spec
      return .normal
  | .ret => return .ret
  | .breakLoop => return .breakLoop
  | .continueLoop => return .continueLoop
  | _ => .stuck

/-- The answer of a conditional line. A command answers with yes or no. -/
def evaluateTest (setup : Setup) (id : LineId) : Evaluator Bool :=
  let line := setup.script.line id
  match line.action with
  | .cond cond => Evaluator.work setup id (·.condition line cond)
  | .command cmd =>
    let spec := setup.script.commands.get cmd
    if !spec.conditional || spec.waits then .stuck
    else do
      match ← callLine setup id spec with
      | .yes => return true
      | .no => return false
      | _ => .stuck
  | _ => .stuck

/-- The rounds of a loop, of which at most `rounds` are tried. -/
def evaluateRounds (setup : Setup) (id : LineId) (body : Evaluator Ending) : (rounds : Nat) → Evaluator Ending
  | 0 => .stuck
  | rounds + 1 => do
    if ← Evaluator.work setup id Engine.advanceLoop then
      match ← body with
      | .normal | .continueLoop => evaluateRounds setup id body rounds
      | .breakLoop => return .normal
      | .ret => return .ret
    else return .normal

/-- What a part of a program means. -/
def evaluate (setup : Setup) (rounds : Nat) : Layout → Evaluator Ending
  | nil => return .normal
  | seq first rest => do
    match ← first.evaluate setup rounds with
    | .normal => rest.evaluate setup rounds
    | ending => return ending
  | plain id => .statement id (evaluateLine setup id)
  | block first _ body => .statement first (body.evaluate setup rounds)
  | branch id body => .statement id do
    if ← evaluateTest setup id then body.evaluate setup rounds
    else return .normal
  | branchElse id body _ other => .statement id do
    if ← evaluateTest setup id then body.evaluate setup rounds
    else other.evaluate setup rounds
  | loop id body => .statement id do
    let loop ← Evaluator.work setup id (·.startLoop (setup.script.line id))
    .inside loop (evaluateRounds setup id (body.evaluate setup rounds) rounds)

/-- How deep the runs of lines of a part are nested. -/
def need : Layout → Nat
  | nil => 0
  | seq first rest => max first.need rest.need
  | plain _ => 0
  | block _ _ body => body.need + 1
  | branch _ body => body.need + 1
  | branchElse _ body _ other => max body.need other.need + 1
  | loop _ body => body.need + 1

end Layout

namespace Evaluator

variable {α β : Type}

/-- Two evaluations one after the other end with the problem of the first one, or with what the second one comes to. -/
theorem bind_eq_some {x : Evaluator α} {f : α → Evaluator β} {engine : Engine} {r : Evaluation β}
    (h : (x >>= f) engine = some r) :
    (∃ e, x engine = some ⟨r.engine, r.calls, .error e⟩ ∧ r.answer = .error e) ∨
      ∃ a middle calls r', x engine = some ⟨middle, calls, .ok a⟩ ∧ f a middle = some r' ∧
        r = { r' with calls := calls ++ r'.calls } := by
  simp only [bind] at h
  split at h
  · cases h
  · rename_i middle calls e hx
    obtain rfl := Option.some.inj h
    exact .inl ⟨e, hx, rfl⟩
  · rename_i middle calls a hx
    obtain ⟨r', hr, rfl⟩ := Option.map_eq_some_iff.mp h
    exact .inr ⟨a, middle, calls, r', hx, hr, rfl⟩

/-- Whatever an evaluation comes to, the engine has changed in a certain way. -/
def Keeps (change : Engine → Engine → Prop) (x : Evaluator α) : Prop :=
  ∀ engine r, x engine = some r → change engine r.engine

section

variable {change : Engine → Engine → Prop}

theorem keeps_pure (hrefl : ∀ engine, change engine engine) (a : α) : Keeps change (pure a : Evaluator α) := by
  rintro engine r h
  cases h
  exact hrefl engine

theorem keeps_stuck : Keeps change (stuck : Evaluator α) :=
  fun _ _ h => by cases h

/-- The work of a line keeps what its run does. -/
theorem keeps_work {setup : Setup} {id : LineId} {run : Engine → Engine × Except Problem α}
    (h : ∀ engine, change engine (run engine).1) : Keeps change (work setup id run) := by
  rintro engine r hr
  cases hr
  exact h engine

/-- Two evaluations one after the other keep what both keep. -/
theorem keeps_bind (htrans : ∀ {a b c}, change a b → change b c → change a c) {x : Evaluator α} {f : α → Evaluator β}
    (hx : Keeps change x) (hf : ∀ a, Keeps change (f a)) : Keeps change (x >>= f) := by
  rintro engine r h
  obtain ⟨e, he, -⟩ | ⟨a, middle, calls, r', ha, hr, rfl⟩ := bind_eq_some h
  · exact hx _ _ he
  · exact htrans (hx _ _ ha) (hf a middle r' hr)

end

end Evaluator

/-! ## What an evaluation leaves alone -/

namespace Engine

/-- The running thread is the same one, with the same error level saved, and no errors were added. -/
structure Stays (engine engine' : Engine) : Prop where
  errors_eq : engine'.errors = engine.errors
  threads : Thread.OnTop (fun thread thread' => thread'.savedErrorLevel = thread.savedErrorLevel) engine.threads
    engine'.threads

/-- Work on a line stays in the running thread. -/
theorem Worked.stays {engine engine' : Engine} (h : Worked engine engine') : Stays engine engine' :=
  ⟨h.errors_eq, h.threads.mono fun h => h.saved_eq⟩

namespace Stays

theorem refl (engine : Engine) : Stays engine engine :=
  (Worked.refl engine).stays

theorem trans {a b c : Engine} (hab : Stays a b) (hbc : Stays b c) : Stays a c :=
  ⟨hbc.errors_eq.trans hab.errors_eq, hab.threads.trans (fun h h' => h'.trans h) hbc.threads⟩

end Stays

/-- A change to the running thread stays in it if the saved error level is kept. -/
theorem stays_onThread (engine : Engine) {change : Thread → Thread}
    (h : ∀ thread, (change thread).savedErrorLevel = thread.savedErrorLevel) : Stays engine (engine.onThread change) := by
  unfold onThread
  split
  · exact .refl _
  · rename_i thread rest hthreads
    exact ⟨rfl, hthreads ▸ .cons (h thread)⟩

/-- Going on with a loop stays in the running thread. -/
theorem stays_advanceLoop (engine : Engine) : Stays engine engine.advanceLoop.1 := by
  unfold advanceLoop
  split
  · exact .refl _
  · split
    · exact .refl _
    · exact stays_onThread engine fun _ => rfl

end Engine

namespace Evaluator

open Engine

variable {α : Type} {x : Evaluator α}

/-- A statement stays in the running thread if its work does. -/
theorem stays_statement (id : LineId) (hx : Keeps Stays x) : Keeps Stays (statement id x) := by
  rintro engine r h
  obtain ⟨r', hr, rfl⟩ := Option.map_eq_some_iff.mp h
  have hstays := (worked_noteLine engine id).stays.trans (hx _ _ hr)
  exact ⟨hstays.errors_eq, hstays.threads⟩

/-- What is done inside a loop stays in the running thread if it does outside. -/
theorem stays_inside (loop : LoopContext) (hx : Keeps Stays x) : Keeps Stays (inside loop x) := by
  rintro engine r h
  obtain ⟨r', hr, rfl⟩ := Option.map_eq_some_iff.mp h
  have hpush : Stays engine (engine.pushLoop loop) := stays_onThread engine fun _ => rfl
  exact (hpush.trans (hx _ _ hr)).trans (stays_onThread r'.engine fun _ => rfl)

end Evaluator

namespace Layout

open Engine Evaluator

variable (setup : Setup) (id : LineId)

/-- A command that is a statement of its own neither waits nor selects the line after it. -/
theorem evaluateLine_command {cmd : CommandId} (haction : (setup.script.line id).action = .command cmd) {engine : Engine}
    {r : Evaluation Ending} (h : evaluateLine setup id engine = some r) :
    (setup.script.commands.get cmd).conditional = false ∧ (setup.script.commands.get cmd).waits = false ∧
      (do let _ ← callLine setup id (setup.script.commands.get cmd); return .normal : Evaluator Ending) engine = some r := by
  simp only [evaluateLine, haction] at h
  by_cases hspec : ((setup.script.commands.get cmd).conditional || (setup.script.commands.get cmd).waits) = true
  · rw [if_pos hspec] at h
    cases h
  · rw [if_neg hspec] at h
    rw [Bool.not_eq_true, Bool.or_eq_false_iff] at hspec
    exact ⟨hspec.1, hspec.2, h⟩

/-- A command that answers a condition does not wait. -/
theorem evaluateTest_command {cmd : CommandId} (haction : (setup.script.line id).action = .command cmd) {engine : Engine}
    {r : Evaluation Bool} (h : evaluateTest setup id engine = some r) :
    (setup.script.commands.get cmd).conditional = true ∧ (setup.script.commands.get cmd).waits = false ∧
      (do
        match ← callLine setup id (setup.script.commands.get cmd) with
        | .yes => return true
        | .no => return false
        | _ => .stuck : Evaluator Bool) engine = some r := by
  simp only [evaluateTest, haction] at h
  by_cases hspec : (!(setup.script.commands.get cmd).conditional || (setup.script.commands.get cmd).waits) = true
  · rw [if_pos hspec] at h
    cases h
  · rw [if_neg hspec] at h
    rw [Bool.not_eq_true, Bool.or_eq_false_iff, Bool.not_eq_false'] at hspec
    exact ⟨hspec.1, hspec.2, h⟩

theorem stays_callLine (spec : CommandSpec) : Keeps Stays (callLine setup id spec) := by
  rintro engine r h
  cases h
  exact (worked_call setup engine _ spec).stays

theorem stays_evaluateLine : Keeps Stays (evaluateLine setup id) := by
  unfold evaluateLine
  dsimp only
  split
  · exact keeps_bind .trans (keeps_work fun engine => (worked_assign setup engine _ _).stays) fun _ => keeps_pure .refl _
  · split
    · exact keeps_stuck
    · exact keeps_bind .trans (stays_callLine setup id _) fun _ => keeps_pure .refl _
  · exact keeps_pure .refl _
  · exact keeps_pure .refl _
  · exact keeps_pure .refl _
  · exact keeps_stuck

theorem stays_evaluateTest : Keeps Stays (evaluateTest setup id) := by
  unfold evaluateTest
  dsimp only
  split
  · exact keeps_work fun engine => (worked_condition engine _ _).stays
  · split
    · exact keeps_stuck
    · refine keeps_bind .trans (stays_callLine setup id _) fun status => ?_
      cases status with
      | yes | no => exact keeps_pure .refl _
      | ok | fail => exact keeps_stuck
  · exact keeps_stuck

/-- The rounds of a loop stay in the running thread if its body does. -/
theorem stays_evaluateRounds {body : Evaluator Ending} (hbody : Keeps Stays body) (rounds : Nat) :
    Keeps Stays (evaluateRounds setup id body rounds) := by
  induction rounds with
  | zero => exact keeps_stuck
  | succ rounds ih =>
    refine keeps_bind .trans (keeps_work stays_advanceLoop) fun goesOn => ?_
    cases goesOn with
    | false => exact keeps_pure .refl _
    | true =>
      refine keeps_bind .trans hbody fun ending => ?_
      cases ending with
      | normal | continueLoop => exact ih
      | breakLoop | ret => exact keeps_pure .refl _

/-- An evaluation stays in the running thread. -/
theorem stays_evaluate (rounds : Nat) (layout : Layout) : Keeps Stays (layout.evaluate setup rounds) := by
  induction layout with
  | nil => exact keeps_pure .refl _
  | seq first rest ih1 ih2 =>
    refine keeps_bind .trans ih1 fun ending => ?_
    cases ending with
    | normal => exact ih2
    | ret | breakLoop | continueLoop => exact keeps_pure .refl _
  | plain id => exact stays_statement id (stays_evaluateLine setup id)
  | block first last body ih => exact stays_statement first ih
  | branch id body ih =>
    refine stays_statement id (keeps_bind .trans (stays_evaluateTest setup id) fun truth => ?_)
    cases truth with
    | true => exact ih
    | false => exact keeps_pure .refl _
  | branchElse id body other otherBody ih1 ih2 =>
    refine stays_statement id (keeps_bind .trans (stays_evaluateTest setup id) fun truth => ?_)
    cases truth with
    | true => exact ih1
    | false => exact ih2
  | loop id body ih =>
    refine stays_statement id (keeps_bind .trans (keeps_work fun engine => (worked_startLoop engine _).stays) fun loop => ?_)
    exact stays_inside loop (stays_evaluateRounds setup id ih rounds)

end Layout

end LineScript
