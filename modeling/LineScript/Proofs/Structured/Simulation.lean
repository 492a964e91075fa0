import LineScript.Proofs.Load.Arranged
import LineScript.Proofs.Structured.Blind

/-!
# Runs and evaluations

A run of a program without jumps does what the direct evaluation of its layout does. Each kind of statement is taken by itself:
what running its line means (`Machine.LineMeans`) follows from what running its bodies means (`Machine.BodyMeans`), and
`Machine.partMeans_evaluate` puts the statements of a layout together.
-/

namespace LineScript

/-- The flow that an ending makes. -/
def Ending.flow : Ending → Flow
  | normal => .normal
  | ret => .ret
  | breakLoop => .breakLoop
  | continueLoop => .continueLoop

namespace Machine

/-- The calls of commands in the next step of a machine. -/
def calls (setup : Setup) (machine : Machine) : List Call :=
  match machine.control with
  | .call id cmd _ => machine.engine.callsOf setup (setup.script.line id) (setup.script.commands.get cmd)
  | _ => []

/-- The calls of commands in the next `n` steps of a machine. -/
def callsWithin (setup : Setup) : (n : Nat) → Machine → List Call
  | 0, _ => []
  | n + 1, machine => machine.calls setup ++ callsWithin setup n (machine.step setup)

/-- A machine becomes another one by steps, with certain calls of commands on the way. -/
inductive Runs (setup : Setup) : Machine → List Call → Machine → Prop where
  | refl (machine : Machine) : Runs setup machine [] machine
  | step {machine machine' : Machine} {calls : List Call} :
      Runs setup (machine.step setup) calls machine' → Runs setup machine (machine.calls setup ++ calls) machine'

namespace Runs

variable {setup : Setup} {a b c : Machine} {first rest : List Call}

/-- A run that goes on where another one ends makes the calls of both. -/
theorem trans (hab : Runs setup a first b) (hbc : Runs setup b rest c) : Runs setup a (first ++ rest) c := by
  induction hab with
  | refl => exact hbc
  | step _ ih =>
    rw [List.append_assoc]
    exact .step (ih hbc)

/-- A step without calls. -/
theorem quiet (hcalls : a.calls setup = []) (hstep : a.step setup = b) (h : Runs setup b rest c) : Runs setup a rest c := by
  have hrun : Runs setup a (a.calls setup ++ rest) c := .step (hstep ▸ h)
  rwa [hcalls] at hrun

/-- Steps with calls, and then one without. -/
theorem andThen (hab : Runs setup a first b) (hcalls : b.calls setup = []) (hstep : b.step setup = c) :
    Runs setup a first c := by
  have hrun := hab.trans (quiet hcalls hstep (.refl c))
  rwa [List.append_nil] at hrun

/-- A machine that ends by steps is run to its end. -/
theorem run_eq {ran : Nat} (h : Runs setup a first b) (hdone : b.control = .done ran) :
    ∃ n, run setup n a = some (ran, b.engine) ∧ a.callsWithin setup n = first := by
  induction h with
  | refl machine =>
    refine ⟨1, ?_, ?_⟩
    · simp only [run, hdone]
    · simp only [callsWithin, calls, hdone, List.append_nil]
  | @step machine machine' rest hrest ih =>
    obtain ⟨n, hrun, hcalls⟩ := ih hdone
    by_cases hended : ∃ ran', machine.control = .done ran'
    · obtain ⟨ran', hended⟩ := hended
      have hstays : machine.step setup = machine := by
        obtain ⟨engine, control⟩ := machine
        obtain rfl : control = .done ran' := hended
        rfl
      have hquiet : machine.calls setup = [] := by simp only [calls, hended]
      rw [hstays] at hrun hcalls
      exact ⟨n, hrun, by rw [hquiet]; exact hcalls⟩
    · refine ⟨n + 1, ?_, ?_⟩
      · unfold run
        split
        · exact absurd ⟨_, ‹_›⟩ hended
        · exact hrun
      · rw [callsWithin, hcalls]

end Runs

/-- The answer of a line whose statement comes to an ending, with the line after the statement. -/
def lineAnswer (answer : Except RuntimeError Ending) (next : LineId) : Except RuntimeError (Flow × Option LineId) :=
  match answer with
  | .error e => .error e
  | .ok .normal => .ok (.normal, some next)
  | .ok ending => .ok (ending.flow, none)

/-- Running line `i`, whose statement ends before line `m`, goes as an evaluation does. -/
def LineMeans (setup : Setup) (depth i m : Nat) (x : Evaluator Ending) : Prop :=
  ∀ engine r, x engine = some r → ∀ stack,
    Runs setup ⟨engine.running depth, .step i stack⟩ r.calls
      ⟨r.engine.running depth, .stepped (lineAnswer r.answer m) stack⟩

/-- Going on at line `i`, with a part that ends before line `m`, goes as an evaluation does. -/
def PartMeans (setup : Setup) (depth i m : Nat) (mode : Mode) (x : Evaluator Ending) : Prop :=
  ∀ engine r, x engine = some r → ∀ level stack,
    Runs setup ⟨engine.running depth, .walk (some i) level mode stack⟩ r.calls
      (afterLine setup (r.engine.running depth) (lineAnswer r.answer m) level mode stack)

/-- A run of lines from line `i` on goes as an evaluation does. -/
def BodyMeans (setup : Setup) (depth i : Nat) (mode : Mode) (x : Evaluator Ending) : Prop :=
  ∀ engine r, x engine = some r → ∀ stack,
    Runs setup ⟨engine.running depth, .enter i mode stack⟩ r.calls
      ⟨r.engine.running depth, .ran (r.answer.map Ending.flow) stack⟩

end Machine

/-- A setup whose program has the lines of another one up to its last line, each followed by the next, and where waiting
triggers are not looked at between lines. -/
structure Setup.Quiet (setup : Setup) (raw : Script) (last : Nat) : Prop where
  links : raw.Links setup.script last
  next_eq : ∀ i < last, (setup.script.line i).next = some (i + 1)
  batchLines_eq : setup.config.batchLines = 0
  batchMs_eq : setup.config.batchMs = 0

namespace Machine

variable {setup : Setup} {raw : Script} {last : Nat} (hquiet : setup.Quiet raw last) {depth i m : Nat} {x : Evaluator Ending}

include hquiet in
/-- A run comes to a line and notes it. -/
theorem runs_reach (engine : Engine) (haction : (setup.script.line i).action ≠ .blockEnd) (level : Option LineId)
    (mode : Mode) (stack : Stack .run) (depth : Nat) :
    Runs setup ⟨engine.running depth, .walk (some i) level mode stack⟩ []
      ⟨(engine.noteLine i).running depth, .step i (.line (engine.noteLine i).scratch.mark level mode stack)⟩ := by
  have hbatch : ∀ engine : Engine, engine.isBatchOver setup = false := fun engine => by
    simp [Engine.isBatchOver, hquiet.batchLines_eq, hquiet.batchMs_eq]
  have hwalk : step setup ⟨engine.running depth, .walk (some i) level mode stack⟩ =
      ⟨(engine.noteLine i).running depth, .reach i level mode stack⟩ := by
    simp [step, walk, haction, hbatch, Engine.noteLine_running]
  exact .quiet rfl hwalk (.quiet rfl rfl (.refl _))

include hquiet in
/-- A part of one statement means what its line does. -/
theorem partMeans_statement (haction : (setup.script.line i).action ≠ .blockEnd) (hx : LineMeans setup depth i m x)
    (mode : Mode) : PartMeans setup depth i m mode (.statement i x) := by
  intro engine r h level stack
  obtain ⟨r', hr, rfl⟩ := Option.map_eq_some_iff.mp h
  exact ((runs_reach hquiet engine haction level mode stack depth).trans (hx _ _ hr _)).andThen rfl rfl

/-- A run of lines starts at its first line, one run deeper. -/
theorem step_enter (hdepth : depth < setup.config.maxDepth) (engine : Engine) (mode : Mode) (stack : Stack .run) :
    step setup ⟨engine.running depth, .enter i mode stack⟩ =
      ⟨engine.running (depth + 1), .walk (some i) (setup.script.line i).parent mode stack⟩ :=
  if_neg (Nat.not_le.mpr hdepth)

/-- The body of a line is a run of one statement. -/
theorem bodyMeans_statement (hdepth : depth < setup.config.maxDepth)
    (hx : PartMeans setup (depth + 1) i m .oneStatement x) : BodyMeans setup depth i .oneStatement x := by
  intro engine r h stack
  refine .quiet rfl (step_enter hdepth engine .oneStatement stack) ?_
  have hrun := hx engine r h (setup.script.line i).parent stack
  obtain ⟨after, calls, answer⟩ := r
  cases answer with
  | error e => exact hrun
  | ok ending => cases ending <;> exact hrun

/-- The body of a block is a run up to its closing brace. -/
theorem bodyMeans_block (hdepth : depth < setup.config.maxDepth) (hx : PartMeans setup (depth + 1) i m .untilBlockEnd x)
    (hclose : (setup.script.line m).action = .blockEnd) : BodyMeans setup depth i .untilBlockEnd x := by
  intro engine r h stack
  refine .quiet rfl (step_enter hdepth engine .untilBlockEnd stack) ?_
  have hrun := hx engine r h (setup.script.line i).parent stack
  obtain ⟨after, calls, answer⟩ := r
  cases answer with
  | error e => exact hrun
  | ok ending =>
    cases ending with
    | ret | breakLoop | continueLoop => exact hrun
    | normal =>
      -- the run has come to the closing brace, where it ends
      have hend : step setup ⟨after.running (depth + 1), .walk (some m) (setup.script.line i).parent .untilBlockEnd stack⟩ =
          ⟨after.running depth, .ran (.ok .normal) stack⟩ := by
        simp only [step, walk, hclose, beq_self_eq_true, if_true]
        rfl
      exact hrun.andThen rfl hend

/-- A line that runs a body ends as the body does. -/
theorem runs_body {mode : Mode} (hx : BodyMeans setup depth i mode x) {engine : Engine} {r : Evaluation Ending}
    (h : x engine = some r) (stack : Stack .line) :
    Runs setup ⟨engine.running depth, .enter i mode (.body (some m) stack)⟩ r.calls
      ⟨r.engine.running depth, .stepped (lineAnswer r.answer m) stack⟩ := by
  refine (hx engine r h (.body (some m) stack)).andThen rfl ?_
  obtain ⟨after, calls, answer⟩ := r
  cases answer with
  | error e => rfl
  | ok ending => cases ending <;> rfl

/-! ## Lines without bodies -/

section

variable (hi : i < last)
include hquiet hi

/-- A machine that has the answer of a line's command. -/
def afterCall (setup : Setup) (engine : Engine) (i : LineId) (spec : CommandSpec) (stack : Stack .line) :
    Except RuntimeError Status → Machine
  | .error e => ⟨engine, .stepped (.error e) stack⟩
  | .ok status =>
    if spec.conditional && status == .yes then branch setup engine i true stack
    else if spec.conditional && status == .no then branch setup engine i false stack
    else goOn engine (setup.script.line i).next stack

/-- A line calls its command and has the answer. -/
theorem runs_call {cmd : CommandId} (haction : (raw.line i).action = .command cmd)
    (hwaits : (raw.commands.get cmd).waits = false) {engine : Engine} {r : Evaluation Status}
    (h : Layout.callLine (setup.on raw) i (raw.commands.get cmd) engine = some r) (stack : Stack .line) (depth : Nat) :
    Runs setup ⟨engine.running depth, .step i stack⟩ r.calls
      (afterCall setup (r.engine.running depth) i (raw.commands.get cmd) stack r.answer) := by
  have hcommands := hquiet.links.commands_eq
  have hcall : step setup ⟨engine.running depth, .step i stack⟩ = ⟨engine.running depth, .call i cmd stack⟩ := by
    simp only [step, runLine, hquiet.links.action_eq hi, haction, hcommands, hwaits, Bool.false_eq_true, if_false]
  have hcalls : calls setup ⟨engine.running depth, .call i cmd stack⟩ =
      engine.callsOf (setup.on raw) (raw.line i) (raw.commands.get cmd) := by
    simp only [calls, hcommands, Engine.callsOf_running, hquiet.links.callsOf_eq hi]
  have hrun : Runs setup ⟨engine.running depth, .call i cmd stack⟩
      (calls setup ⟨engine.running depth, .call i cmd stack⟩ ++ []) (callCommand setup (engine.running depth) i cmd stack) :=
    .step (.refl _)
  rw [hcalls, List.append_nil] at hrun
  refine .quiet rfl hcall ?_
  cases hwork : engine.call (setup.on raw) (raw.line i) (raw.commands.get cmd) with
  | mk after answer =>
    have hblind : (engine.running depth).call (setup.on raw) (raw.line i) (raw.commands.get cmd) =
        (after.running depth, answer) := (Engine.blind_call _ _ _).eq hwork depth
    simp only [callCommand, hcommands, hquiet.links.call_eq hi, hblind] at hrun
    simp only [Layout.callLine, Setup.on_script, hwork] at h
    obtain rfl := Option.some.inj h
    cases answer with
    | error problem =>
      simp only [fail, hquiet.links.problemAt_eq hi] at hrun
      exact hrun
    | ok status => exact hrun

/-- A line without a body means what its action does. -/
theorem lineMeans_line : LineMeans setup depth i (i + 1) (Layout.evaluateLine (setup.on raw) i) := by
  intro engine r h stack
  have hnext := hquiet.next_eq i hi
  have haction := hquiet.links.action_eq hi
  cases hraw : (raw.line i).action with
  | assign op =>
    cases hassign : engine.assign (setup.on raw) (raw.line i) op with
    | mk after answer =>
      have hblind : (engine.running depth).assign (setup.on raw) (raw.line i) op = (after.running depth, answer) :=
        (Engine.blind_assign _ _ _).eq hassign depth
      have hstep : step setup ⟨engine.running depth, .step i stack⟩ =
          settle setup i (some (i + 1)) stack (after.running depth, answer) := by
        simp only [step, runLine, haction, hraw, hnext, hquiet.links.assign_eq hi, hblind]
      refine .quiet rfl hstep ?_
      simp only [Layout.evaluateLine, Setup.on_script, hraw, bind, Evaluator.work, hassign] at h
      cases answer with
      | error problem =>
        obtain rfl := Option.some.inj h
        simp only [settle, fail, hquiet.links.problemAt_eq hi]
        exact .refl _
      | ok =>
        obtain rfl := Option.some.inj h
        exact .refl _
  | command cmd =>
    obtain ⟨hconditional, hwaits, h⟩ := Layout.evaluateLine_command (setup.on raw) i hraw h
    obtain ⟨e, hcall, he⟩ | ⟨status, middle, calls, r', hcall, hr, rfl⟩ := Evaluator.bind_eq_some h
    · rw [he]
      exact runs_call hquiet hi hraw hwaits hcall stack depth
    · have hrun := runs_call hquiet hi hraw hwaits hcall stack depth
      simp only [afterCall, show (raw.commands.get cmd).conditional = false from hconditional, Bool.false_and,
        Bool.false_eq_true, if_false, hnext] at hrun
      obtain rfl := Option.some.inj hr
      simp only [List.append_nil]
      exact hrun
  | ret | breakLoop | continueLoop =>
    have hstep : step setup ⟨engine.running depth, .step i stack⟩ = runLine setup (engine.running depth) i stack := rfl
    simp only [runLine, haction, hraw] at hstep
    simp only [Layout.evaluateLine, Setup.on_script, hraw] at h
    obtain rfl := Option.some.inj h
    exact .quiet rfl hstep (.refl _)
  | _ =>
    simp only [Layout.evaluateLine, Setup.on_script, hraw] at h
    cases h

/-! ## Conditions -/

/-- A machine that has the answer of a conditional line. -/
def afterTest (setup : Setup) (engine : Engine) (i : LineId) (stack : Stack .line) : Except RuntimeError Bool → Machine
  | .error e => ⟨engine, .stepped (.error e) stack⟩
  | .ok truth => branch setup engine i truth stack

/-- A conditional line gets its answer. -/
theorem runs_test {engine : Engine} {r : Evaluation Bool} (h : Layout.evaluateTest (setup.on raw) i engine = some r)
    (stack : Stack .line) (depth : Nat) :
    Runs setup ⟨engine.running depth, .step i stack⟩ r.calls (afterTest setup (r.engine.running depth) i stack r.answer) := by
  have hnext := hquiet.next_eq i hi
  have haction := hquiet.links.action_eq hi
  cases hraw : (raw.line i).action with
  | cond cond =>
    cases htest : engine.condition (raw.line i) cond with
    | mk after answer =>
      have hblind : (engine.running depth).condition (raw.line i) cond = (after.running depth, answer) :=
        (Engine.blind_condition _ _).eq htest depth
      have hstep : step setup ⟨engine.running depth, .step i stack⟩ = runLine setup (engine.running depth) i stack := rfl
      simp only [runLine, haction, hraw, hquiet.links.condition_eq hi, hblind] at hstep
      simp only [Layout.evaluateTest, Setup.on_script, hraw, Evaluator.work, htest] at h
      obtain rfl := Option.some.inj h
      refine .quiet rfl hstep ?_
      cases answer with
      | error problem =>
        simp only [fail, hquiet.links.problemAt_eq hi]
        exact .refl _
      | ok truth => exact .refl _
  | command cmd =>
    obtain ⟨hconditional, hwaits, h⟩ := Layout.evaluateTest_command (setup.on raw) i hraw h
    obtain ⟨e, hcall, he⟩ | ⟨status, middle, calls, r', hcall, hr, rfl⟩ := Evaluator.bind_eq_some h
    · rw [he]
      exact runs_call hquiet hi hraw hwaits hcall stack depth
    · have hrun := runs_call hquiet hi hraw hwaits hcall stack depth
      simp only [afterCall, show (raw.commands.get cmd).conditional = true from hconditional] at hrun
      cases status with
      | yes | no =>
        obtain rfl := Option.some.inj hr
        simp only [List.append_nil]
        exact hrun
      | ok | fail => cases hr
  | _ =>
    simp only [Layout.evaluateTest, Setup.on_script, hraw] at h
    cases h

/-- A conditional line means what its answer selects. -/
theorem lineMeans_test {choose : Bool → Evaluator Ending}
    (hchoose : ∀ truth engine r, choose truth engine = some r → ∀ stack,
      Runs setup (branch setup (engine.running depth) i truth stack) r.calls
        ⟨r.engine.running depth, .stepped (lineAnswer r.answer m) stack⟩) :
    LineMeans setup depth i m (Layout.evaluateTest (setup.on raw) i >>= choose) := by
  intro engine r h stack
  obtain ⟨e, htest, he⟩ | ⟨truth, middle, calls, r', htest, hr, rfl⟩ := Evaluator.bind_eq_some h
  · rw [he]
    exact runs_test hquiet hi htest stack depth
  · exact (runs_test hquiet hi htest stack depth).trans (hchoose truth middle r' hr stack)

/-- A condition without an else selects its body or nothing. -/
theorem lineMeans_branch (helse : setup.script.elseOf? i = none) (hrelated : (setup.script.line i).related = some m)
    (hx : BodyMeans setup depth (i + 1) .oneStatement x) :
    LineMeans setup depth i m (do if ← Layout.evaluateTest (setup.on raw) i then x else return .normal) := by
  refine lineMeans_test hquiet hi fun truth engine r h stack => ?_
  cases truth with
  | true =>
    simp only [branch, helse, hquiet.next_eq i hi, hrelated]
    exact runs_body hx h stack
  | false =>
    simp only [branch, helse, hrelated]
    obtain rfl := Option.some.inj h
    exact .refl _

/-- A condition with an else selects one of two bodies. -/
theorem lineMeans_branchElse {j : Nat} {y : Evaluator Ending} (hj : j < last)
    (helse : setup.script.elseOf? i = some j) (hrelated : (setup.script.line j).related = some m)
    (hx : BodyMeans setup depth (i + 1) .oneStatement x) (hy : BodyMeans setup depth (j + 1) .oneStatement y) :
    LineMeans setup depth i m (do if ← Layout.evaluateTest (setup.on raw) i then x else y) := by
  refine lineMeans_test hquiet hi fun truth engine r h stack => ?_
  cases truth with
  | true =>
    simp only [branch, helse, hquiet.next_eq i hi, hrelated]
    exact runs_body hx h stack
  | false =>
    simp only [branch, helse, hquiet.next_eq j hj, hrelated]
    exact runs_body hy h stack

/-! ## Blocks and loops -/

/-- A block means what its body does. -/
theorem lineMeans_block {j : Nat} (hj : j < last) (haction : (setup.script.line i).action = .blockBegin)
    (hrelated : (setup.script.line i).related = some j) (hx : BodyMeans setup depth (i + 1) .untilBlockEnd x) :
    LineMeans setup depth i (j + 1) x := by
  intro engine r h stack
  have hstep : step setup ⟨engine.running depth, .step i stack⟩ = runLine setup (engine.running depth) i stack := rfl
  simp only [runLine, haction, hrelated, Option.bind_some, hquiet.next_eq i hi, hquiet.next_eq j hj] at hstep
  exact .quiet rfl hstep (runs_body hx h stack)

/-- The rounds of a loop go as they are evaluated. -/
theorem runs_rounds (hrelated : (setup.script.line i).related = some m) (hx : BodyMeans setup depth (i + 1) .oneStatement x)
    (rounds : Nat) : ∀ engine r, Layout.evaluateRounds (setup.on raw) i x rounds engine = some r → ∀ stack,
      Runs setup ⟨engine.running depth, .round i (i + 1) stack⟩ r.calls
        ⟨r.engine.popLoop.running depth, .stepped (lineAnswer r.answer m) stack⟩ := by
  induction rounds with
  | zero => exact fun _ _ h => by cases h
  | succ rounds ih =>
    intro engine r h stack
    cases hadvance : engine.advanceLoop with
    | mk after answer =>
      have hblind := Engine.blind_advanceLoop.eq hadvance depth
      simp only [Layout.evaluateRounds, bind, Evaluator.work, hadvance] at h
      cases answer with
      | error problem =>
        have hstep : step setup ⟨engine.running depth, .round i (i + 1) stack⟩ =
            fail setup (after.popLoop.running depth) i problem stack := by
          simp only [step, hblind, Engine.popLoop_running]
        refine .quiet rfl hstep ?_
        obtain rfl := Option.some.inj h
        simp only [fail, hquiet.links.problemAt_eq hi]
        exact .refl _
      | ok goesOn =>
        cases goesOn with
        | false =>
          have hstep : step setup ⟨engine.running depth, .round i (i + 1) stack⟩ =
              goOn (after.popLoop.running depth) (some m) stack := by
            simp only [step, hblind, Engine.popLoop_running, hrelated]
          refine .quiet rfl hstep ?_
          obtain rfl := Option.some.inj h
          exact .refl _
        | true =>
          have hstep : step setup ⟨engine.running depth, .round i (i + 1) stack⟩ =
              ⟨after.running depth, .enter (i + 1) .oneStatement (.loop i (i + 1) stack)⟩ := by
            simp only [step, hblind]
          refine .quiet rfl hstep ?_
          obtain ⟨r₁, hr, rfl⟩ := Option.map_eq_some_iff.mp h
          have hafter : ∀ engine answer, step setup ⟨engine, .ran answer (.loop i (i + 1) stack)⟩ =
              afterRound setup engine answer i (i + 1) stack := fun _ _ => rfl
          obtain ⟨e, hbody, he⟩ | ⟨ending, middle, calls, r₂, hbody, hrest, rfl⟩ := Evaluator.bind_eq_some (x := x) hr
          · have hrun := (hx _ _ hbody (.loop i (i + 1) stack)).andThen rfl (hafter _ _)
            simp only [Except.map, afterRound, Engine.popLoop_running] at hrun
            rw [he]
            exact hrun
          · have hrun := (hx _ _ hbody (.loop i (i + 1) stack)).andThen rfl (hafter _ _)
            cases ending with
            | normal | continueLoop => exact hrun.trans (ih middle r₂ hrest stack)
            | breakLoop | ret =>
              simp only [Except.map, Ending.flow, afterRound, Engine.popLoop_running, hrelated] at hrun
              obtain rfl := Option.some.inj hrest
              simp only [List.append_nil]
              exact hrun

/-- A loop means its rounds, inside the loop. -/
theorem lineMeans_loop (haction : (setup.script.line i).action = .loop) (hrelated : (setup.script.line i).related = some m)
    (hx : BodyMeans setup depth (i + 1) .oneStatement x) (rounds : Nat) :
    LineMeans setup depth i m (do
      let loop ← Evaluator.work (setup.on raw) i (·.startLoop (raw.line i))
      .inside loop (Layout.evaluateRounds (setup.on raw) i x rounds)) := by
  intro engine r h stack
  cases hstart : engine.startLoop (raw.line i) with
  | mk after answer =>
    have hblind : (engine.running depth).startLoop (raw.line i) = (after.running depth, answer) :=
      (Engine.blind_startLoop _).eq hstart depth
    have hstep : step setup ⟨engine.running depth, .step i stack⟩ = runLine setup (engine.running depth) i stack := rfl
    simp only [bind, Evaluator.work, hstart] at h
    cases answer with
    | error problem =>
      simp only [runLine, haction, hquiet.links.startLoop_eq hi, hblind, fail, hquiet.links.problemAt_eq hi] at hstep
      obtain rfl := Option.some.inj h
      exact .quiet rfl hstep (.refl _)
    | ok loop =>
      simp only [runLine, haction, hquiet.links.startLoop_eq hi, hblind, hquiet.next_eq i hi, Engine.pushLoop_running] at hstep
      obtain ⟨r₁, hinside, rfl⟩ := Option.map_eq_some_iff.mp h
      obtain ⟨r₂, hrounds, rfl⟩ := Option.map_eq_some_iff.mp hinside
      exact .quiet rfl hstep (runs_rounds hquiet hi hrelated hx rounds _ _ hrounds stack)

end

/-! ## Layouts -/

/-- After a line that ends normally, a run of several statements goes on with the next one. -/
theorem afterLine_normal {mode : Mode} (hmode : mode ≠ .oneStatement) (engine : Engine) (next : LineId)
    (level : Option LineId) (stack : Stack .run) :
    afterLine setup (engine.running depth) (lineAnswer (.ok .normal) next) level mode stack =
      ⟨engine.running depth, .walk (some next) level mode stack⟩ := by
  have hgo : (mode == .oneStatement) = false := beq_false_of_ne hmode
  simp only [afterLine, lineAnswer, hgo]
  rfl

/-- Two parts one after the other mean the second after the first. -/
theorem partMeans_seq {j : Nat} {mode : Mode} (hmode : mode ≠ .oneStatement) {y : Evaluator Ending}
    (hx : PartMeans setup depth i j mode x) (hy : PartMeans setup depth j m mode y) :
    PartMeans setup depth i m mode (do
      match ← x with
      | .normal => y
      | ending => return ending) := by
  intro engine r h level stack
  obtain ⟨e, hfirst, he⟩ | ⟨ending, middle, calls, r', hfirst, hrest, rfl⟩ := Evaluator.bind_eq_some h
  · rw [he]
    exact hx _ _ hfirst level stack
  · have hrun := hx _ _ hfirst level stack
    cases ending with
    | normal =>
      rw [afterLine_normal hmode] at hrun
      exact hrun.trans (hy _ _ hrest level stack)
    | ret | breakLoop | continueLoop =>
      obtain rfl := Option.some.inj hrest
      simp only [List.append_nil]
      exact hrun

include hquiet in
/-- A part of a program means what its layout does. -/
theorem partMeans_evaluate {p : Layout.Part} {inLoop : Bool} {layout : Layout}
    (h : Layout.Laid setup.script.shapeAt last p inLoop layout i m) : ∀ {inside parent : Option Nat},
    layout.LinkedBy setup.script.linkAt inside parent m → m ≤ last → ∀ depth mode,
    depth + layout.need ≤ setup.config.maxDepth → (p = .many → mode ≠ .oneStatement) → ∀ rounds,
    PartMeans setup depth i m mode (layout.evaluate (setup.on raw) rounds) := by
  have hends : ∀ {i s}, setup.script.shapeAt i = s → s ≠ .closing → (setup.script.line i).action ≠ .blockEnd :=
    fun hs hne haction => hne (hs ▸ (Program.shape_eq_closing_iff _ _).mpr haction)
  induction h with
  | plain hs =>
    intro inside parent hl hm depth mode hdepth hmode rounds
    exact partMeans_statement hquiet (hends hs (by simp)) (lineMeans_line hquiet hm) mode
  | inLoop hs =>
    intro inside parent hl hm depth mode hdepth hmode rounds
    exact partMeans_statement hquiet (hends hs (by simp)) (lineMeans_line hquiet hm) mode
  | @block _ body i j ho hb hc ih =>
    intro inside parent hl hm depth mode hdepth hmode rounds
    obtain ⟨hlink, hlbody, -⟩ := hl
    have hij := hb.spans.le.1
    simp only [Layout.need] at hdepth
    have hbody := ih hlbody (by omega) (depth + 1) .untilBlockEnd (by omega) (fun _ h => by cases h) rounds
    refine partMeans_statement hquiet (hends ho (by simp)) ?_ mode
    exact lineMeans_block hquiet (by omega) (by omega) ((Program.shape_eq_opening_iff _ _).mp ho) (congrArg Link.related hlink)
      (bodyMeans_block (by omega) hbody ((Program.shape_eq_closing_iff _ _).mp hc))
  | @branch _ body i m hs hne hb he ih =>
    intro inside parent hl hm depth mode hdepth hmode rounds
    obtain ⟨hlink, hlbody⟩ := hl
    have him := hb.spans.le.2 rfl
    simp only [Layout.need] at hdepth
    have hrelated : (setup.script.line i).related = some m := congrArg Link.related hlink
    have helse : setup.script.elseOf? i = none := by
      have hother : (setup.script.line m).action ≠ .otherwise := fun h => he ((Program.shape_eq_otherwise_iff _ _).mpr h)
      simp [Script.elseOf?, hrelated, hother]
    have hbody := ih hlbody hm (depth + 1) .oneStatement (by omega) (fun h => by cases h) rounds
    refine partMeans_statement hquiet (hends hs (by simp)) ?_ mode
    exact lineMeans_branch hquiet (by omega) helse hrelated (bodyMeans_statement (by omega) hbody)
  | @branchElse _ body other i j m hs hne h1 he hne' h2 ih1 ih2 =>
    intro inside parent hl hm depth mode hdepth hmode rounds
    obtain ⟨hlink, hlbody, hlink', hlother⟩ := hl
    have hij := h1.spans.le.2 rfl
    have hjm := h2.spans.le.2 rfl
    simp only [Layout.need] at hdepth
    have helse : setup.script.elseOf? i = some j := by
      have hrelated : (setup.script.line i).related = some j := congrArg Link.related hlink
      simp [Script.elseOf?, hrelated, (Program.shape_eq_otherwise_iff _ _).mp he]
    have hbody := ih1 hlbody (by omega) (depth + 1) .oneStatement (by omega) (fun h => by cases h) rounds
    have hother := ih2 hlother hm (depth + 1) .oneStatement (by omega) (fun h => by cases h) rounds
    refine partMeans_statement hquiet (hends hs (by simp)) ?_ mode
    exact lineMeans_branchElse hquiet (by omega) (by omega) helse (congrArg Link.related hlink')
      (bodyMeans_statement (by omega) hbody) (bodyMeans_statement (by omega) hother)
  | @loop _ body i m hs hne hb ih =>
    intro inside parent hl hm depth mode hdepth hmode rounds
    obtain ⟨hlink, hlbody⟩ := hl
    have him := hb.spans.le.2 rfl
    simp only [Layout.need] at hdepth
    have hbody := ih hlbody hm (depth + 1) .oneStatement (by omega) (fun h => by cases h) rounds
    refine partMeans_statement hquiet (hends hs (by simp)) ?_ mode
    exact lineMeans_loop hquiet (by omega) ((Program.shape_eq_loop_iff _ _).mp hs) (congrArg Link.related hlink)
      (bodyMeans_statement (by omega) hbody) rounds
  | nil =>
    intro inside parent hl hm depth mode hdepth hmode rounds engine r h level stack
    obtain rfl := Option.some.inj h
    rw [afterLine_normal (hmode rfl)]
    exact .refl _
  | seq h1 h2 ih1 ih2 =>
    intro inside parent hl hm depth mode hdepth hmode rounds
    obtain ⟨hl1, hl2⟩ := hl
    rw [h2.getD_first?] at hl1
    have hle := h2.spans.le.1
    simp only [Layout.need] at hdepth
    exact partMeans_seq (hmode rfl) (ih1 hl1 (by omega) depth mode (by omega) (fun h => by cases h) rounds)
      (ih2 hl2 hm depth mode (by omega) hmode rounds)

end Machine

end LineScript
