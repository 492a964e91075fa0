import LineScript.Command.Standard
import LineScript.Engine.Host
import LineScript.Proofs.Structured.Loading
import LineScript.Proofs.Structured.Simulation

/-!
# Structured programs keep their meaning

A tree of statements, written out line by line, loaded and run from its first line, does what the direct evaluation of the tree
does: it ends when the evaluation ends, with the same variables, the same calls of commands and the same problem, if there is one.
-/

namespace LineScript

/-- The problem that stopped an evaluation, if there was one. -/
def Evaluation.error? {α : Type} (r : Evaluation α) : Option RuntimeError :=
  match r.answer with
  | .error e => some e
  | .ok _ => none

namespace Tree

/-- What a tree means: the evaluation of its statements, the first of which is line 0. -/
def evaluate (setup : Setup) (rounds : Nat) (tree : Tree .many) : Evaluator Ending :=
  (tree.layout 0).evaluate setup rounds

/-- How deep the runs of lines of a tree are nested, its own run included. -/
def need (tree : Tree .many) : Nat :=
  (tree.layout 0).need + 1

end Tree

namespace Engine

/-- The trigger of the thread that runs a program from its first line. -/
def mainTrigger : Trigger :=
  { kind := .internal, label := "" }

/-- A thread that has stayed the same gives back the error level it has saved. -/
theorem popThread_of_stays {setup : Setup} {engine after : Engine}
    (h : Stays (engine.pushThread setup none mainTrigger) after) (waiting : Bool) :
    (after.popThread setup waiting).vars = after.vars.put setup.errorLevel (engine.vars.get setup.errorLevel) ∧
      (after.popThread setup waiting).errors = engine.errors ∧ (after.popThread setup waiting).world = after.world := by
  obtain ⟨herrors, hthreads⟩ := h
  have hpush : (engine.pushThread setup none mainTrigger).threads =
      engine.newThread setup none mainTrigger :: engine.threads := rfl
  rw [hpush] at hthreads
  generalize hafter : after.threads = threads at hthreads
  cases hthreads with
  | cons hsaved =>
    refine ⟨?_, ?_, ?_⟩
    · simp only [popThread, hafter, hsaved]
      rfl
    · simp only [popThread, hafter]
      exact herrors
    · simp only [popThread, hafter]

end Engine

namespace Machine

/-- The engine when the thread of a host call has ended, with the problem that ended it, if there was one. -/
def closed (setup : Setup) (engine : Engine) (waiting : Bool) (error? : Option RuntimeError) : Engine :=
  { engine.popThread setup waiting with errors := (engine.popThread setup waiting).errors ++ error?.toList }

/-- A thread of the host that is stopped by a problem ends. -/
theorem runs_closed_error (setup : Setup) (engine : Engine) (mode : Mode) (waiting : Bool) (e : RuntimeError) :
    Runs setup ⟨engine, .ran (.error e) (.thread mode waiting .host)⟩ [] ⟨closed setup engine waiting (some e), .done 1⟩ :=
  .quiet rfl rfl (.quiet rfl rfl (.refl _))

/-- A thread of the host whose run of lines is done ends. -/
theorem runs_closed_ok (setup : Setup) (engine : Engine) (mode : Mode) (waiting : Bool) {flow : Flow}
    (hflow : flow = .exit ∨ ∃ ending : Ending, flow = ending.flow) :
    Runs setup ⟨engine, .ran (.ok flow) (.thread mode waiting .host)⟩ [] ⟨closed setup engine waiting none, .done 1⟩ := by
  have hclosed : closed setup engine waiting none = engine.popThread setup waiting := by
    simp only [closed, Option.toList_none, List.append_nil]
  have hend : afterThread setup engine (.ok flow) mode waiting .host = ⟨engine.popThread setup waiting, .ended .host⟩ := by
    rcases hflow with rfl | ⟨ending, rfl⟩
    · rfl
    · cases ending <;> rfl
  rw [hclosed]
  exact .quiet rfl hend (.quiet rfl rfl (.refl _))

variable {setup : Setup} {raw : Script} {last : Nat}

/-- A program whose statements are done comes to its `Exit` or ends before, and so does its thread. -/
theorem runs_closed (hquiet : setup.Quiet raw last) (hexit : (setup.script.line last).action = .exit) (r : Evaluation Ending)
    (level : Option LineId) (waiting : Bool) :
    ∃ engine, Runs setup (afterLine setup (r.engine.running 1) (lineAnswer r.answer last) level .toEnd
        (.thread .toEnd waiting .host)) [] ⟨closed setup engine waiting r.error?, .done 1⟩ ∧
      r.engine.Stays engine ∧ engine.vars = r.engine.vars ∧ engine.world = r.engine.world := by
  obtain ⟨after, calls, answer⟩ := r
  have hstays : after.Stays (after.running 0) := ⟨rfl, (Engine.Stays.refl after).threads⟩
  cases answer with
  | error e => exact ⟨after.running 0, runs_closed_error setup _ .toEnd waiting e, hstays, rfl, rfl⟩
  | ok ending =>
    cases ending with
    | ret => exact ⟨after.running 0, runs_closed_ok setup _ .toEnd waiting (.inr ⟨.normal, rfl⟩), hstays, rfl, rfl⟩
    | breakLoop => exact ⟨after.running 0, runs_closed_ok setup _ .toEnd waiting (.inr ⟨.breakLoop, rfl⟩), hstays, rfl, rfl⟩
    | continueLoop =>
      exact ⟨after.running 0, runs_closed_ok setup _ .toEnd waiting (.inr ⟨.continueLoop, rfl⟩), hstays, rfl, rfl⟩
    | normal =>
      -- the line that ends the program is noted and run like any other
      have hreach := runs_reach hquiet after (by rw [hexit]; simp) level .toEnd (.thread .toEnd waiting .host) 1
      generalize hnoted : after.noteLine last = noted at hreach
      have hwork : after.Stays noted := hnoted ▸ (Engine.worked_noteLine after last).stays
      have hvars : noted.vars = after.vars := by rw [← hnoted, Engine.vars_noteLine]
      have hworld : noted.world = after.world := by rw [← hnoted, Engine.world_noteLine]
      generalize hmark : noted.scratch.mark = mark at hreach
      have hstep : step setup ⟨noted.running 1, .step last (.line mark level .toEnd (.thread .toEnd waiting .host))⟩ =
          divert (noted.running 1) .exit (.line mark level .toEnd (.thread .toEnd waiting .host)) := by
        simp only [step, runLine, hexit]
      have hrun := (hreach.andThen rfl hstep).andThen rfl rfl
      refine ⟨{ noted.running 0 with scratch := noted.scratch.release mark },
        hrun.trans (runs_closed_ok setup _ .toEnd waiting (.inl rfl)), ⟨hwork.errors_eq, hwork.threads⟩, hvars, hworld⟩

/-- A program that realizes a layout runs from its first line as the layout is evaluated. -/
theorem runs_autoExecute {layout : Layout} (hreal : setup.script.Realizes raw layout last) (hquiet : setup.Quiet raw last)
    (hneed : layout.need < setup.config.maxDepth) {engine : Engine} (hdepth : engine.depth = 0)
    (hterminated : engine.terminated = false) {rounds : Nat} {r : Evaluation Ending}
    (h : layout.evaluate (setup.on raw) rounds (engine.pushThread setup none Engine.mainTrigger) = some r) :
    ∃ after, Runs setup (HostCall.autoExecute.start setup engine) r.calls
        ⟨closed setup after engine.waiting r.error?, .done 1⟩ ∧
      r.engine.Stays after ∧ after.vars = r.engine.vars ∧ after.world = r.engine.world := by
  have hstart : HostCall.autoExecute.start setup engine =
      ⟨(engine.pushThread setup none Engine.mainTrigger).running 0, .enter 0 .toEnd (.thread .toEnd engine.waiting .host)⟩ := by
    have hfirst : setup.script.firstLine? = some 0 := by
      simp [Script.firstLine?, ← Array.size_eq_zero_iff, hreal.size_eq]
    have hrunning : engine.running 0 = engine := by
      unfold Engine.running
      rw [← hdepth, ← hterminated]
    have hpush : engine.pushThread setup none Engine.mainTrigger =
        (engine.pushThread setup none Engine.mainTrigger).running 0 := by
      calc engine.pushThread setup none Engine.mainTrigger
        _ = (engine.running 0).pushThread setup none Engine.mainTrigger := by rw [hrunning]
        _ = (engine.pushThread setup none Engine.mainTrigger).running 0 := rfl
    simp only [HostCall.start, HostCall.autoExecuteOn, hfirst]
    rw [← hpush]
    rfl
  have hpart := partMeans_evaluate hquiet hreal.laid hreal.linked (Nat.le_refl last) 1 .toEnd (by omega) (fun _ h => by cases h) rounds
  have hrun := hpart _ r h (setup.script.line 0).parent (.thread .toEnd engine.waiting .host)
  obtain ⟨after, hend, hafter⟩ := runs_closed hquiet hreal.exit_eq r (setup.script.line 0).parent engine.waiting
  refine ⟨after, ?_, hafter⟩
  rw [hstart, ← List.append_nil r.calls]
  exact .quiet rfl (step_enter (by omega) _ .toEnd _) (hrun.trans hend)

end Machine

namespace Program

/-- A well-formed tree whose statements can be built is loaded when it is written out. Where waiting triggers are not looked at
between lines and runs may be nested as deep as the tree needs, an engine that is neither at work nor done runs the program from
its first line to an end whenever the evaluation of the tree ends: with the same calls of commands, the same variables but for
the error level, which is restored, the same world, and the same problem, if there is one. -/
theorem autoExecute_follows_tree (commands : CommandSet) (tree : Tree .many) (built : Builder)
    (htree : tree.wellFormed commands false = true)
    (hbuilt : tree.items.foldlM Builder.addItem (Builder.start commands) = .ok built) :
    ∃ program, load commands tree.items = .ok program ∧
      ∀ (setup : Setup) (engine : Engine), setup.script = program.script → setup.config.batchLines = 0 →
        setup.config.batchMs = 0 → tree.need ≤ setup.config.maxDepth → engine.depth = 0 → engine.terminated = false →
        ∀ rounds r,
          tree.evaluate (setup.on built.script) rounds (engine.pushThread setup none Engine.mainTrigger) = some r →
          ∃ n after, HostCall.autoExecute.run setup n engine = some (1, after) ∧
            (HostCall.autoExecute.start setup engine).callsWithin setup n = r.calls ∧
            after.vars = r.engine.vars.put setup.errorLevel (engine.vars.get setup.errorLevel) ∧
            after.world = r.engine.world ∧ after.errors = engine.errors ++ r.error?.toList := by
  obtain ⟨program, hload, hreal⟩ := load_tree htree hbuilt
  refine ⟨program, hload, ?_⟩
  intro setup engine hscript hlines hms hneed hdepth hterminated rounds r heval
  rw [← hscript] at hreal
  have hquiet : setup.Quiet built.script built.lines.size := ⟨hreal.links, hreal.next_eq, hlines, hms⟩
  obtain ⟨after, hrun, hstays, hvars, hworld⟩ := Machine.runs_autoExecute hreal hquiet hneed hdepth hterminated heval
  obtain ⟨n, hn, hcalls⟩ := hrun.run_eq rfl
  have hopened := Layout.stays_evaluate (setup.on built.script) rounds (tree.layout 0) _ r heval
  obtain ⟨hput, herrors, hsame⟩ := Engine.popThread_of_stays (hopened.trans hstays) engine.waiting
  refine ⟨n, _, hn, hcalls, ?_, ?_, ?_⟩
  · rw [← hvars]
    exact hput
  · rw [← hworld]
    exact hsame
  · rw [← herrors]
    rfl

/-- A loop over a block with a condition that goes on, one with an else that leaves, and a command that fails after it. -/
def visiting : Tree .many :=
  let given (keyword : String) (args : List String) (lineNo : Nat) : Statement :=
    { keyword, args := args.map .plain, lineNo }
  let body : Tree .many :=
    .seq (.line (given "+=" ["n", "1"] 3)) <|
    .seq (.branch (given "if" ["n", "=", "2"] 4) (.line (given "Continue" [] 5))) <|
    .seq (.branchElse (given "IfNotExist" ["%n%.txt"] 6) (.line (given "Echo" ["no %n%"] 7)) 8
      (.line (given "Break" [] 9))) .nil
  .seq (.loop (given "Loop" ["3"] 1) (.block 2 10 body)) <|
  .seq (.line (given "FileAppend" ["%n%"] 11)) <|
  .seq (.line (given "Echo" ["never"] 12)) .nil

/-- The program of `visiting` builds and loads, and its evaluation makes five calls, the last of which fails. -/
theorem visiting_evaluates :
    (match visiting.items.foldlM Builder.addItem (Builder.start Standard.commands),
      load Standard.commands visiting.items with
    | .ok built, .ok program =>
      let (setup, engine) := Engine.start program { batchMs := 0 } Standard.perform default
      (visiting.evaluate (setup.on built.script) 4 (engine.pushThread setup none Engine.mainTrigger)).any fun r =>
        r.calls.map (fun call => (call.spec.name, call.args.texts)) ==
          [("IfNotExist", ["1.txt"]), ("Echo", ["no 1"]), ("IfNotExist", ["3.txt"]), ("Echo", ["no 3"]),
            ("FileAppend", ["3"])] && r.error?.map (·.line) == some 10
    | _, _ => false) = true := by
  decide +kernel

/-- Three rounds are run, one of them cut short, and then a command fails. -/
theorem autoExecute_follows_visiting :
    visiting.wellFormed Standard.commands false = true ∧
    ∃ program, load Standard.commands visiting.items = .ok program ∧
      let setup := (Engine.start program { batchMs := 0 } Standard.perform default).1
      let engine := (Engine.start program { batchMs := 0 } Standard.perform default).2
      visiting.need ≤ setup.config.maxDepth ∧
      ∃ n after, HostCall.autoExecute.run setup n engine = some (1, after) ∧
        ((HostCall.autoExecute.start setup engine).callsWithin setup n).map (fun call => (call.spec.name, call.args.texts)) =
          [("IfNotExist", ["1.txt"]), ("Echo", ["no 1"]), ("IfNotExist", ["3.txt"]), ("Echo", ["no 3"]),
            ("FileAppend", ["3"])] ∧ after.errors.map (·.line) = [10] := by
  have htree : visiting.wellFormed Standard.commands false = true := by decide +kernel
  have hneed : visiting.need ≤ 1024 := by decide +kernel
  have heval := visiting_evaluates
  split at heval
  · rename_i built program hbuilt hload
    obtain ⟨program', hload', hruns⟩ := autoExecute_follows_tree Standard.commands visiting built htree hbuilt
    obtain rfl : program' = program := Except.ok.inj (hload'.symm.trans hload)
    obtain ⟨r, hr, hwhat⟩ := (Option.any_eq_true _ _).mp heval
    rw [Bool.and_eq_true, beq_iff_eq, beq_iff_eq] at hwhat
    refine ⟨htree, program', hload, ?_⟩
    intro setup engine
    obtain ⟨n, after, hrun, hcalls, -, -, herrors⟩ := hruns setup engine rfl rfl rfl hneed rfl rfl 4 r hr
    obtain ⟨e, he, hline⟩ := Option.map_eq_some_iff.mp hwhat.2
    refine ⟨hneed, n, after, hrun, ?_, ?_⟩
    · rw [hcalls]
      exact hwhat.1
    · have hnone : engine.errors = [] := rfl
      rw [herrors, he, hnone]
      simp [hline]
  · cases heval

end Program

end LineScript
