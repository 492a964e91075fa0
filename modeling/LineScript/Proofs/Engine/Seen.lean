import LineScript.Proofs.Engine.Touched

/-!
# What a line sees

A line that names its variables sees of an engine only what these hold, the loops of its thread, the files and the registry, and
how much text is held (`Engine.Seen`). Two engines that look alike to it give it the same arguments, and every statement answers
alike on both and leaves them alike: what else an engine holds does not show.
-/

namespace LineScript

namespace Expr

/-- The value of an expression depends on what its references stand for and on no other variable. -/
theorem evaluate_congr {text : String} {derefs : List Deref} {lookup lookup' : Lookup}
    (h : ∀ deref ∈ derefs, lookup deref.target = lookup' deref.target) :
    evaluate text derefs lookup = evaluate text derefs lookup' := by
  have hall (fuel : Nat) :
      (∀ quiet least tokens, binary ⟨derefs, lookup⟩ fuel quiet least tokens = binary ⟨derefs, lookup'⟩ fuel quiet least tokens) ∧
      (∀ quiet least left tokens,
        operators ⟨derefs, lookup⟩ fuel quiet least left tokens = operators ⟨derefs, lookup'⟩ fuel quiet least left tokens) ∧
      (∀ quiet tokens, unary ⟨derefs, lookup⟩ fuel quiet tokens = unary ⟨derefs, lookup'⟩ fuel quiet tokens) ∧
      (∀ quiet tokens, power ⟨derefs, lookup⟩ fuel quiet tokens = power ⟨derefs, lookup'⟩ fuel quiet tokens) ∧
      (∀ quiet tokens, primary ⟨derefs, lookup⟩ fuel quiet tokens = primary ⟨derefs, lookup'⟩ fuel quiet tokens) ∧
      (∀ quiet done tokens,
        arguments ⟨derefs, lookup⟩ fuel quiet done tokens = arguments ⟨derefs, lookup'⟩ fuel quiet done tokens) := by
    induction fuel with
    | zero =>
      refine ⟨fun _ _ _ => ?_, fun _ _ _ _ => ?_, fun _ _ => ?_, fun _ _ => ?_, fun _ _ => ?_, fun _ _ _ => ?_⟩
      · simp only [binary]
      · simp only [operators]
      · simp only [unary]
      · simp only [power]
      · simp only [primary]
      · simp only [arguments]
    | succ fuel ih =>
      obtain ⟨hbinary, hoperators, hunary, hpower, hprimary, harguments⟩ := ih
      refine ⟨fun _ _ tokens => ?_, fun _ _ _ _ => ?_, fun _ tokens => ?_, fun _ _ => ?_, fun _ tokens => ?_,
        fun _ _ _ => ?_⟩
      · cases tokens <;> simp only [binary, hbinary, hunary, hoperators]
      · simp only [operators, hbinary, hoperators]
      · cases tokens <;> simp only [unary, hunary, hpower]
      · simp only [power, hprimary, hunary]
      · cases tokens with
        | nil => simp only [primary]
        | cons t rest =>
          simp only [primary, hbinary, harguments]
          cases hfound : derefs.find? (·.start == t.start) with
          | none => rfl
          | some deref => simp only [h deref (List.mem_of_find?_eq_some hfound)]
      · simp only [arguments, hbinary, harguments]
  unfold evaluate
  cases Token.scan text with
  | error e => rfl
  | ok tokens => simp only [evaluateTokens, (hall _).1]

end Expr

/-- An argument that names its variables, all of them in `V`. -/
def Arg.Plain (V : VarId → Prop) (arg : Arg) : Prop :=
  ∀ deref ∈ arg.derefs, ∃ id, deref.target = .static id ∧ V id

/-- A line that names its variables, all of them in `V`. -/
def Line.Plain (V : VarId → Prop) (line : Line) : Prop :=
  ∀ arg ∈ line.args, arg.Plain V

/-- An engine variable that depends on nothing but the thread it is read by. -/
def Builtin.IsSteady (b : Builtin) : Prop :=
  b ≠ .priorHotkey ∧ b ≠ .tickCount

/-- Threads that look alike to their own lines. -/
structure Thread.Like (thread thread' : Thread) : Prop where
  label_eq : thread'.label = thread.label
  labelName_eq : thread'.labelName = thread.labelName
  name_eq : thread'.name = thread.name
  loops_eq : thread'.loops = thread.loops

/-- Two engines that look alike to the lines of a thread that runs alone and names only variables in `V`. -/
structure Engine.Seen (V : VarId → Prop) (engine engine' : Engine) : Prop where
  slots : ∀ v, V v → ∃ slot, engine.vars.slots[v]? = some slot ∧ engine'.vars.slots[v]? = some slot ∧
    ∀ b, slot.builtin = some b → b.IsSteady
  threads : ∃ thread thread', engine.threads = [thread] ∧ engine'.threads = [thread'] ∧ thread.Like thread'
  files_eq : engine'.world.files = engine.world.files
  registry_eq : engine'.world.registry = engine.world.registry
  pieces_eq : engine'.scratch.pieces = engine.scratch.pieces
  limit_eq : engine'.scratch.limit = engine.scratch.limit
  room : engine.scratch.Room ∧ engine'.scratch.Room
  depth_eq : engine'.depth = engine.depth
  terminated_eq : engine'.terminated = engine.terminated

/-- Threads that look alike show the same of themselves. -/
theorem Thread.Like.view_eq {thread thread' : Thread} (h : thread.Like thread') : thread'.view = thread.view := by
  funext b
  cases b <;> simp only [view, field?, line?, file?, key?, innermost, h.labelName_eq, h.name_eq, h.loops_eq]

namespace Engine.Seen

variable {V : VarId → Prop} {engine engine' : Engine}

/-- Engines that look alike show the same of the running thread. -/
theorem view_eq (h : engine.Seen V engine') {b : Builtin} (hb : b.IsSteady) : engine'.view b = engine.view b := by
  obtain ⟨thread, thread', hthreads, hthreads', hlike⟩ := h.threads
  have hview := congrFun hlike.view_eq b
  obtain ⟨hprior, htick⟩ := hb
  cases b with
  | priorHotkey => exact absurd rfl hprior
  | tickCount => exact absurd rfl htick
  | space | tab => rfl
  | _ => simpa only [Engine.view, hthreads, hthreads', List.head?_cons] using hview

/-- Engines that look alike hold the same in the variables that are seen. -/
theorem get_eq (h : engine.Seen V engine') {v : VarId} (hv : V v) : engine'.vars.get v = engine.vars.get v := by
  obtain ⟨slot, hslot, hslot', -⟩ := h.slots v hv
  rw [Variables.get, Variables.get, hslot, hslot']

/-- Engines that look alike read the same from the variables that are seen. -/
theorem read_eq (h : engine.Seen V engine') {v : VarId} (hv : V v) :
    Expansion.read engine'.view engine'.vars v = Expansion.read engine.view engine.vars v := by
  obtain ⟨slot, hslot, hslot', hsteady⟩ := h.slots v hv
  simp only [Expansion.read, Variables.builtin?, hslot, hslot', Option.bind_some]
  cases hbuiltin : slot.builtin with
  | none => exact h.get_eq hv
  | some b => exact h.view_eq (hsteady b hbuiltin)

/-! ## Arguments -/

/-- A reference to a variable that is seen stands for the same in engines that look alike. -/
theorem operand_eq (h : engine.Seen V engine') {target : Target} (htarget : ∃ id, target = .static id ∧ V id) :
    Expansion.operand engine'.view engine'.vars target = Expansion.operand engine.view engine.vars target := by
  obtain ⟨id, rfl, hid⟩ := htarget
  exact congrArg Except.ok (h.read_eq hid)

/-- References to variables that are seen stand for the same in engines that look alike. -/
theorem operands_eq (h : engine.Seen V engine') {derefs : List Deref}
    (hderefs : ∀ deref ∈ derefs, ∃ id, deref.target = .static id ∧ V id) :
    Expansion.operands engine'.view engine'.vars derefs = Expansion.operands engine.view engine.vars derefs := by
  induction derefs with
  | nil => rfl
  | cons deref rest ih =>
    rw [Expansion.operands, Expansion.operands, h.operand_eq (hderefs deref List.mem_cons_self),
      ih fun deref hderef => hderefs deref (List.mem_cons_of_mem _ hderef)]

/-- An argument that names its variables is looked up alike, and makes no variable. -/
theorem plan_eq (h : engine.Seen V engine') {arg : Arg} (harg : arg.Plain V) :
    ∃ answer : Except Problem Expansion.Planned,
      Expansion.plan engine.view engine.vars arg = answer.map (engine.vars, ·) ∧
      Expansion.plan engine'.view engine'.vars arg = answer.map (engine'.vars, ·) ∧
      ∀ var, answer = .ok (.output (some var)) → V var := by
  have hvar : ∀ target, arg.var? = some target → ∃ id, target = .static id ∧ V id := by
    intro target htarget
    unfold Arg.var? at htarget
    split at htarget
    · cases htarget
    all_goals
      obtain ⟨deref, hderef, rfl⟩ := Option.map_eq_some_iff.mp htarget
      exact harg deref (List.mem_of_head? hderef)
  unfold Expansion.plan
  split
  · cases hfound : arg.var? with
    | none => exact ⟨.ok (.output none), rfl, rfl, nofun⟩
    | some target =>
      obtain ⟨id, rfl, hid⟩ := hvar target hfound
      refine ⟨.ok (.output (some id)), rfl, rfl, ?_⟩
      intro var heq
      cases heq
      exact hid
  · cases hfound : arg.var? with
    | none => exact ⟨.ok (.text []), rfl, rfl, nofun⟩
    | some target =>
      obtain ⟨id, rfl, hid⟩ := hvar target hfound
      refine ⟨.ok (.input id (Expansion.read engine.view engine.vars id)), rfl, ?_, nofun⟩
      simp only [Expansion.slot, h.read_eq hid]
      rfl
  · split
    · refine ⟨(Expr.evaluate arg.text arg.derefs (Expansion.operand engine.view engine.vars)).map .expr, ?_, ?_, ?_⟩
      · cases Expr.evaluate arg.text arg.derefs (Expansion.operand engine.view engine.vars) <;> rfl
      · rw [Expr.evaluate_congr fun deref hderef => h.operand_eq (harg deref hderef)]
        cases Expr.evaluate arg.text arg.derefs (Expansion.operand engine.view engine.vars) <;> rfl
      · cases Expr.evaluate arg.text arg.derefs (Expansion.operand engine.view engine.vars) <;> exact nofun
    · refine ⟨(Expansion.operands engine.view engine.vars arg.derefs).map .text, ?_, ?_, ?_⟩
      · cases Expansion.operands engine.view engine.vars arg.derefs <;> rfl
      · rw [h.operands_eq harg]
        cases Expansion.operands engine.view engine.vars arg.derefs <;> rfl
      · cases Expansion.operands engine.view engine.vars arg.derefs <;> exact nofun

/-- Arguments that name variables that are seen are planned alike, and make no variables. -/
theorem planAll_eq (h : engine.Seen V engine') {args : List Arg} (hargs : ∀ arg ∈ args, arg.Plain V) :
    ∃ answer, Expansion.planAll engine.view engine.vars args = (engine.vars, answer) ∧
      Expansion.planAll engine'.view engine'.vars args = (engine'.vars, answer) ∧
      ∀ planned, answer = .ok planned → ∀ p ∈ planned, ∀ var, p.2 = .output (some var) → V var := by
  induction args with
  | nil => exact ⟨.ok [], rfl, rfl, fun planned heq => by cases heq; exact nofun⟩
  | cons arg rest ih =>
    obtain ⟨first, hfirst, hfirst', hvar⟩ := h.plan_eq (hargs arg List.mem_cons_self)
    obtain ⟨others, hothers, hothers', hvars⟩ := ih fun arg harg => hargs arg (List.mem_cons_of_mem _ harg)
    cases first with
    | error e =>
      refine ⟨.error e, ?_, ?_, nofun⟩
      · simp only [Expansion.planAll, hfirst, Except.map]
      · simp only [Expansion.planAll, hfirst', Except.map]
    | ok p =>
      cases others with
      | error e =>
        refine ⟨.error e, ?_, ?_, nofun⟩
        · simp only [Expansion.planAll, hfirst, Except.map, hothers]
        · simp only [Expansion.planAll, hfirst', Except.map, hothers']
      | ok ps =>
        refine ⟨.ok ((arg, p) :: ps), ?_, ?_, ?_⟩
        · simp only [Expansion.planAll, hfirst, Except.map, hothers]
        · simp only [Expansion.planAll, hfirst', Except.map, hothers']
        · intro planned heq q hq var houtput
          cases heq
          rcases List.mem_cons.mp hq with rfl | hq
          · exact hvar var (congrArg Except.ok houtput)
          · exact hvars ps rfl q hq var houtput

end Engine.Seen

/-- Whether room is made depends on what is held, not on how far a buffer has grown. -/
theorem Scratch.reserve_congr {s s' : Scratch} (hroom : s.Room) (hroom' : s'.Room) (hpieces : s'.pieces = s.pieces)
    (hlimit : s'.limit = s.limit) (additional : Nat) :
    (∃ e, s.reserve additional = .error e ∧ s'.reserve additional = .error e) ∨
      ∃ t t', s.reserve additional = .ok t ∧ s'.reserve additional = .ok t' ∧ t'.pieces = t.pieces ∧ t'.limit = t.limit := by
  have hsize : s'.size = s.size := by rw [size, size, hpieces]
  rw [reserve_eq hroom, reserve_eq hroom', hsize, hlimit]
  split
  · exact .inl ⟨_, rfl, rfl⟩
  · exact .inr ⟨_, _, rfl, rfl, hpieces, rfl⟩

/-- What is held depends on what was held before and what is written. -/
theorem Expansion.pieces_hold_congr {s s' : Scratch} (h : s'.pieces = s.pieces) (args : ExpandedArgs) :
    (hold s' args).pieces = (hold s args).pieces := by
  unfold hold
  induction args generalizing s s' with
  | nil => exact h
  | cons arg rest ih =>
    rw [List.foldl_cons, List.foldl_cons]
    cases arg with
    | output var => exact ih h
    | text | expr | input => exact ih (congrArg (_ :: ·) h)

/-- Putting in a value changes a slot unless it is an engine variable's. -/
theorem Variables.slot_put {vars : Variables} {id : VarId} {slot : Slot} (h : vars.slots[id]? = some slot) (value : Value) :
    (vars.put id value).slots[id]? = some (if slot.builtin.isSome then slot else { slot with value := value }) := by
  obtain ⟨hlt, -⟩ := Array.getElem?_eq_some_iff.mp h
  simp only [put, set, h]
  cases slot.builtin with
  | none => simp [hlt]
  | some b => simpa using h

/-- Whether a `Suspend` is understood does not depend on what is suspended. -/
theorem Engine.suspendMode_congr (suspended suspended' : Bool) (arg : String) :
    (∃ e, suspendMode suspended arg = .error e ∧ suspendMode suspended' arg = .error e) ∨
      ∃ mode mode', suspendMode suspended arg = .ok mode ∧ suspendMode suspended' arg = .ok mode' := by
  simp only [suspendMode]
  split
  · exact .inr ⟨_, _, rfl, rfl⟩
  · split
    · exact .inr ⟨_, _, rfl, rfl⟩
    · split
      · exact .inr ⟨_, _, rfl, rfl⟩
      · split
        · exact .inr ⟨_, _, rfl, rfl⟩
        · exact .inl ⟨_, rfl, rfl⟩

/-- A command whose answer depends on its arguments alone. -/
def Setup.DependsOnArgs (setup : Setup) (spec : CommandSpec) : Prop :=
  ∀ call call' : Call, call.spec = spec → call'.spec = spec → call.args = call'.args → call.errorLevel = call'.errorLevel →
    setup.perform call = setup.perform call'

/-- Two results of a statement that are alike: the same answer, and engines that look alike. -/
def Engine.Agree {α : Type} (V : VarId → Prop) (result result' : Engine × Except Problem α) : Prop :=
  result.1.Seen V result'.1 ∧ result'.2 = result.2

/-- Results that agree have one answer, and engines that look alike. -/
theorem Engine.Agree.exists_eq {α : Type} {V : VarId → Prop} {result result' : Engine × Except Problem α}
    (h : Agree V result result') :
    ∃ after after' answer, result = (after, answer) ∧ result' = (after', answer) ∧ after.Seen V after' :=
  ⟨result.1, result'.1, result.2, rfl, by rw [← h.2], h.1⟩

namespace Engine.Seen

variable {V : VarId → Prop} {engine engine' : Engine} {line : Line} {n : Nat} {α : Type}

/-- A line that names its variables gets the same arguments, and what it stores into is what it names. -/
theorem expand (h : engine.Seen V engine') (hplain : line.Plain V) (hline : ∀ arg ∈ line.args, arg.Refers n) :
    Agree V (engine.expand line) (engine'.expand line) ∧
      ∀ args, (engine.expand line).2 = .ok args → ∀ i var, args.output? i = some var → V var := by
  have hroom := (engine.touches_expand hline (W := fun _ => True)).room h.room.1
  have hroom' := (engine'.touches_expand hline (W := fun _ => True)).room h.room.2
  obtain ⟨answer, hplan, hplan', hvars⟩ := h.planAll_eq hplain
  unfold Engine.expand Expansion.expand at hroom hroom' ⊢
  rw [hplan] at hroom ⊢
  rw [hplan'] at hroom' ⊢
  cases answer with
  | error e => exact ⟨⟨{ h with }, rfl⟩, nofun⟩
  | ok planned =>
    have houtput : ∀ i var, ExpandedArgs.output? (planned.map Expansion.write) i = some var → V var := by
      intro i var hvar
      unfold ExpandedArgs.output? at hvar
      split at hvar
      · rename_i found hfound
        subst hvar
        rw [List.getElem?_map] at hfound
        obtain ⟨p, hp, hwrite⟩ := Option.map_eq_some_iff.mp hfound
        refine hvars planned rfl p (List.mem_of_getElem? hp) var ?_
        obtain ⟨arg, p⟩ := p
        cases p with
        | output found => exact congrArg _ (Expanded.output.inj hwrite)
        | text | expr | input => cases hwrite
      · cases hvar
    rcases Scratch.reserve_congr h.room.1 h.room.2 h.pieces_eq h.limit_eq (Expansion.totalSize planned) with
      ⟨e, he, he'⟩ | ⟨scratch, scratch', hs, hs', hpieces, hlimit⟩
    · simp only [he, he']
      exact ⟨⟨{ h with }, rfl⟩, nofun⟩
    · simp only [hs] at hroom ⊢
      simp only [hs'] at hroom' ⊢
      refine ⟨⟨{ h with room := ⟨hroom, hroom'⟩, pieces_eq := ?_, limit_eq := ?_ }, rfl⟩, ?_⟩
      · exact Expansion.pieces_hold_congr hpieces _
      · rw [Expansion.limit_hold, Expansion.limit_hold, hlimit]
      · intro args heq
        cases heq
        exact houtput

/-- A statement answers alike if it does with its arguments expanded. -/
theorem withArgs (h : engine.Seen V engine') (hplain : line.Plain V) (hline : ∀ arg ∈ line.args, arg.Refers n)
    {use use' : Engine → ExpandedArgs → Engine × Except Problem α}
    (huse : ∀ engine engine' args, engine.Seen V engine' → (∀ i var, args.output? i = some var → V var) →
      Agree V (use engine args) (use' engine' args)) :
    Agree V (engine.withArgs line use) (engine'.withArgs line use') := by
  obtain ⟨hagree, houtput⟩ := h.expand hplain hline
  obtain ⟨after, after', answer, hargs, hargs', hseen⟩ := hagree.exists_eq
  unfold Engine.withArgs
  rw [hargs] at houtput
  rw [hargs, hargs']
  cases answer with
  | error e => exact ⟨hseen, rfl⟩
  | ok args => exact huse after after' args hseen (houtput args rfl)

/-- A change of the running thread that leaves it looking alike does not show. -/
theorem onThread (h : engine.Seen V engine') {change change' : Thread → Thread}
    (hchange : ∀ thread thread', thread.Like thread' → (change thread).Like (change' thread')) :
    (engine.onThread change).Seen V (engine'.onThread change') := by
  obtain ⟨thread, thread', hthreads, hthreads', hlike⟩ := h.threads
  unfold Engine.onThread
  rw [hthreads, hthreads']
  exact { h with threads := ⟨_, _, rfl, rfl, hchange _ _ hlike⟩ }

/-- Noting a line shows alike. -/
theorem noteLine (h : engine.Seen V engine') (id : LineId) : (engine.noteLine id).Seen V (engine'.noteLine id) := by
  have hnote : (engine.onThread fun thread => { thread with linesRun := thread.linesRun + 1 }).Seen V
      (engine'.onThread fun thread => { thread with linesRun := thread.linesRun + 1 }) :=
    h.onThread fun _ _ hlike => ⟨hlike.label_eq, hlike.labelName_eq, hlike.name_eq, hlike.loops_eq⟩
  exact { hnote with }

/-- Noting the last result shows alike. -/
theorem lastResult (h : engine.Seen V engine') (status : Status) :
    (engine.onThread fun thread => { thread with lastResult := some status }).Seen V
      (engine'.onThread fun thread => { thread with lastResult := some status }) :=
  h.onThread fun _ _ hlike => ⟨hlike.label_eq, hlike.labelName_eq, hlike.name_eq, hlike.loops_eq⟩

/-- Entering a loop shows alike. -/
theorem pushLoop (h : engine.Seen V engine') (loop : LoopContext) : (engine.pushLoop loop).Seen V (engine'.pushLoop loop) :=
  h.onThread fun _ _ hlike => ⟨hlike.label_eq, hlike.labelName_eq, hlike.name_eq, congrArg (loop :: ·) hlike.loops_eq⟩

/-- Leaving a loop shows alike. -/
theorem popLoop (h : engine.Seen V engine') : engine.popLoop.Seen V engine'.popLoop :=
  h.onThread fun _ _ hlike => ⟨hlike.label_eq, hlike.labelName_eq, hlike.name_eq, congrArg List.tail hlike.loops_eq⟩

/-- Going on with a loop shows alike. -/
theorem advanceLoop (h : engine.Seen V engine') : Agree V engine.advanceLoop engine'.advanceLoop := by
  obtain ⟨thread, thread', hthreads, hthreads', hlike⟩ := h.threads
  unfold Engine.advanceLoop
  rw [hthreads, hthreads', List.head?_cons, List.head?_cons, Option.bind_some, Option.bind_some, hlike.loops_eq,
    h.files_eq, h.registry_eq]
  split
  · exact ⟨h, rfl⟩
  · split
    · exact ⟨h, rfl⟩
    · refine ⟨h.onThread fun _ _ hlike => ?_, rfl⟩
      exact ⟨hlike.label_eq, hlike.labelName_eq, hlike.name_eq, congrArg (_ :: List.tail ·) hlike.loops_eq⟩

/-- Storing a value where that is allowed shows alike, and so does a refusal. -/
theorem set (h : engine.Seen V engine') {var : VarId} (hvar : V var) (value : Value) :
    (∃ e, engine.vars.set var value = .error e ∧ engine'.vars.set var value = .error e) ∨
      (engine.vars.set var value = .ok (engine.vars.put var value) ∧
        engine'.vars.set var value = .ok (engine'.vars.put var value)) := by
  obtain ⟨slot, hslot, hslot', -⟩ := h.slots var hvar
  simp only [Variables.put, Variables.set, hslot, hslot']
  cases slot.builtin with
  | none => exact .inr ⟨rfl, rfl⟩
  | some b => exact .inl ⟨_, rfl, rfl⟩

/-- Storing a value shows alike. -/
theorem put (h : engine.Seen V engine') (var : VarId) (value : Value) :
    Engine.Seen V { engine with vars := engine.vars.put var value } { engine' with vars := engine'.vars.put var value } := by
  refine { h with slots := fun v hv => ?_ }
  obtain ⟨slot, hslot, hslot', hsteady⟩ := h.slots v hv
  by_cases heq : v = var
  · subst heq
    refine ⟨_, Variables.slot_put hslot value, Variables.slot_put hslot' value, ?_⟩
    split
    · exact hsteady
    · exact hsteady
  · exact ⟨slot, by rw [Variables.slot_put_of_ne heq, hslot], by rw [Variables.slot_put_of_ne heq, hslot'], hsteady⟩

/-! ## Statements -/

section

variable (setup : Setup) (h : engine.Seen V engine') (hplain : line.Plain V) (hline : ∀ arg ∈ line.args, arg.Refers n)
include h hplain hline

theorem condition (cond : Condition) : Agree V (engine.condition line cond) (engine'.condition line cond) :=
  h.withArgs hplain hline fun _ _ _ h _ => ⟨h, rfl⟩

theorem sleepTime : Agree V (engine.sleepTime line) (engine'.sleepTime line) :=
  h.withArgs hplain hline fun _ _ _ h _ => ⟨h, rfl⟩

theorem startLoop : Agree V (engine.startLoop line) (engine'.startLoop line) :=
  h.withArgs hplain hline fun _ _ _ h _ => ⟨h, by rw [h.files_eq]⟩

theorem labelArg : Agree V (engine.labelArg setup line) (engine'.labelArg setup line) := by
  unfold Engine.labelArg
  split
  · exact ⟨h, rfl⟩
  · refine h.withArgs hplain hline fun engine engine' args h _ => ?_
    dsimp only
    split
    · exact ⟨h, rfl⟩
    · split <;> exact ⟨h, rfl⟩

omit hplain hline in
theorem jumpTarget {id : LineId} (hplain : (setup.script.line id).Plain V)
    (hline : ∀ arg ∈ (setup.script.line id).args, arg.Refers n) :
    Agree V (engine.jumpTarget setup id) (engine'.jumpTarget setup id) := by
  obtain ⟨after, after', answer, hfound, hfound', hseen⟩ := (h.labelArg setup hplain hline).exists_eq
  simp only [Engine.jumpTarget]
  rw [hfound, hfound']
  cases answer with
  | error problem => exact ⟨hseen, rfl⟩
  | ok label? =>
    cases label? with
    | none => exact ⟨hseen, rfl⟩
    | some label =>
      dsimp only
      split
      · exact ⟨hseen, rfl⟩
      · split <;> exact ⟨hseen, rfl⟩

/-- An assignment shows alike. -/
theorem assign (op : AssignOp) : Agree V (engine.assign setup line op) (engine'.assign setup line op) := by
  refine h.withArgs hplain hline fun engine engine' args h hargs => ?_
  cases hvar : args.output? 0 with
  | none => exact ⟨h, rfl⟩
  | some var =>
    have hassigned : engine'.assigned setup op var args = engine.assigned setup op var args := by
      simp only [Engine.assigned, h.get_eq (hargs 0 var hvar)]
    simp only [hassigned]
    cases engine.assigned setup op var args with
    | error e => exact ⟨h, rfl⟩
    | ok value =>
      rcases h.set (hargs 0 var hvar) value with ⟨e, he, he'⟩ | ⟨hset, hset'⟩
      · simp only [he, he']
        exact ⟨h, rfl⟩
      · simp only [hset, hset']
        exact ⟨h.put var value, rfl⟩

theorem setTimer : Agree V (engine.setTimer setup line) (engine'.setTimer setup line) := by
  obtain ⟨after, after', answer, hfound, hfound', hseen⟩ := (h.labelArg setup hplain hline).exists_eq
  unfold Engine.setTimer
  rw [hfound, hfound']
  cases answer with
  | error problem => exact ⟨hseen, rfl⟩
  | ok named =>
    have hown : after'.threads.head?.bind (·.label) = after.threads.head?.bind (·.label) := by
      obtain ⟨thread, thread', hthreads, hthreads', hlike⟩ := hseen.threads
      rw [hthreads, hthreads']
      exact hlike.label_eq
    simp only [hown]
    cases named.or (after.threads.head?.bind (·.label)) with
    | none => exact ⟨hseen, rfl⟩
    | some label =>
      refine hseen.withArgs hplain hline fun engine engine' args h _ => ?_
      cases Engine.timerSetting (args.text 1) with
      | error e => exact ⟨h, rfl⟩
      | ok setting => exact ⟨{ h with }, rfl⟩

theorem setOnExit : Agree V (engine.setOnExit setup line) (engine'.setOnExit setup line) := by
  obtain ⟨after, after', answer, hfound, hfound', hseen⟩ := (h.labelArg setup hplain hline).exists_eq
  unfold Engine.setOnExit
  rw [hfound, hfound']
  cases answer with
  | error problem => exact ⟨hseen, rfl⟩
  | ok label => exact ⟨{ hseen with }, rfl⟩

theorem suspend : Agree V (engine.suspend line) (engine'.suspend line) := by
  refine h.withArgs hplain hline fun engine engine' args h _ => ?_
  rcases suspendMode_congr engine.suspended engine'.suspended (args.text 0) with ⟨e, he, he'⟩ | ⟨mode, mode', hm, hm'⟩
  · simp only [he, he']
    exact ⟨h, rfl⟩
  · simp only [hm, hm']
    exact ⟨{ h with }, rfl⟩

theorem threadSetting : Agree V (engine.threadSetting line) (engine'.threadSetting line) := by
  refine h.withArgs hplain hline fun engine engine' args h _ => ?_
  dsimp only
  split
  · exact ⟨h.onThread fun _ _ hlike => ⟨hlike.label_eq, hlike.labelName_eq, hlike.name_eq, hlike.loops_eq⟩, rfl⟩
  · split
    · exact ⟨{ h with }, rfl⟩
    · exact ⟨h, rfl⟩

omit hplain hline in
/-- A deed of a command shows alike. -/
theorem act (deed : Deed) : (engine.act deed).Seen V (engine'.act deed) := by
  cases deed with
  | print | send | wait => exact { h with }
  | store var value => exact h.put var value
  | append path text =>
    simp only [Engine.act, h.files_eq]
    split
    · exact { h with files_eq := rfl }
    · exact h
  | declare name =>
    have hdeclare (engine : Engine) : ∃ vars, engine.act (.declare name) = { engine with vars } ∧
        engine.vars.Keeps (fun _ => False) vars := by
      simp only [Engine.act]
      split
      · rename_i hresolve
        exact ⟨_, rfl, Variables.keeps_resolve hresolve⟩
      · exact ⟨engine.vars, rfl, .refl _⟩
    obtain ⟨vars, hact, hkeeps⟩ := hdeclare engine
    obtain ⟨vars', hact', hkeeps'⟩ := hdeclare engine'
    rw [hact, hact']
    refine { h with slots := fun v hv => ?_ }
    obtain ⟨slot, hslot, hslot', hsteady⟩ := h.slots v hv
    exact ⟨slot, hkeeps v slot id hslot, hkeeps' v slot id hslot', hsteady⟩

omit hplain hline in
/-- The deeds of a command show alike. -/
theorem deeds (deeds : List Deed) : (deeds.foldl Engine.act engine).Seen V (deeds.foldl Engine.act engine') := by
  induction deeds generalizing engine engine' with
  | nil => exact h
  | cons deed rest ih => exact ih (h.act deed)

/-- A command that depends on its arguments alone is called with the same ones and answers alike. -/
theorem call {spec : CommandSpec} (hperform : setup.DependsOnArgs spec) :
    Agree V (engine.call setup line spec) (engine'.call setup line spec) ∧
      (engine'.callsOf setup line spec).map (fun call => (call.spec, call.args)) =
        (engine.callsOf setup line spec).map fun call => (call.spec, call.args) := by
  constructor
  · rw [Engine.call_eq, Engine.call_eq]
    refine h.withArgs hplain hline fun engine engine' args h _ => ?_
    rw [hperform (engine'.callOf setup spec args) (engine.callOf setup spec args) rfl rfl rfl rfl]
    have hdone := (h.deeds (setup.perform (engine.callOf setup spec args)).deeds).lastResult
      (setup.perform (engine.callOf setup spec args)).status
    unfold Engine.obey
    dsimp only
    split <;> exact ⟨hdone, rfl⟩
  · obtain ⟨after, after', answer, hargs, hargs', -⟩ := (h.expand hplain hline).1.exists_eq
    unfold Engine.callsOf
    rw [hargs, hargs']
    cases answer <;> rfl

end

end Engine.Seen

end LineScript
