import LineScript.Proofs.Engine.Restored
import LineScript.Proofs.Engine.Touched

/-!
# Statements that fail

A statement of the engine reads its arguments first and changes the engine last, when nothing can go wrong any more. So one that
fails leaves everything as it was, but for the slots of names that its arguments put together for the first time and for what it
wrote to the scratch buffer (`Engine.SameButNames`, `Program.failing_statement_changes_nothing`). A `Sleep` fails before it falls
asleep: once it sleeps it only ever ends normally (`Machine.Dozes.step`).
-/

namespace LineScript

namespace Variables

/-- Another table has the same slots and after them only empty ones. -/
structure Pads (vars vars' : Variables) : Prop where
  keeps : vars.Keeps (fun _ => False) vars'
  empty : ∀ (i : VarId) (slot : Slot), vars.slots[i]? = none → vars'.slots[i]? = some slot → slot.value = .empty

theorem Pads.refl (vars : Variables) : vars.Pads vars := by
  refine ⟨.refl vars, ?_⟩
  intro i slot hnone hslot
  cases hnone.symm.trans hslot

theorem Pads.trans {a b c : Variables} (hab : a.Pads b) (hbc : b.Pads c) : a.Pads c := by
  refine ⟨hab.keeps.trans hbc.keeps, ?_⟩
  intro i slot hnone hslot
  cases hmiddle : b.slots[i]? with
  | none => exact hbc.empty i slot hmiddle hslot
  | some middle =>
    obtain rfl : middle = slot := Option.some.inj ((hbc.keeps i middle id hmiddle).symm.trans hslot)
    exact hab.empty i middle hnone hmiddle

/-- Resolving a name adds an empty slot at most. -/
theorem pads_resolve {vars vars' : Variables} (h : vars.Resolves vars') : vars.Pads vars' := by
  obtain ⟨name, id, h⟩ := h
  refine ⟨keeps_resolve h, ?_⟩
  intro i slot hnone hslot
  unfold resolve at h
  split at h
  · cases h
    cases hnone.symm.trans hslot
  · obtain ⟨_, -, h⟩ := bind_eq_ok_iff.mp h
    obtain rfl : (vars.intern name).1 = vars' := congrArg Prod.fst (Except.ok.inj h)
    simp only [intern] at hslot
    split at hslot
    · cases hnone.symm.trans hslot
    · -- beyond the old slots there is only the new one
      rw [Array.getElem?_push] at hslot
      split at hslot
      · cases hslot
        rfl
      · cases hnone.symm.trans hslot

/-- Resolving names adds empty slots at most. -/
theorem pads_of_resolves {vars vars' : Variables} (h : Relation.ReflTransGen Resolves vars vars') : vars.Pads vars' := by
  induction h with
  | refl => exact .refl vars
  | tail _ hresolve ih => exact ih.trans (pads_resolve hresolve)

/-- A padded table extends the one it was made from. -/
theorem Pads.extends {vars vars' : Variables} (h : vars.Pads vars') : vars.Extends vars' :=
  fun i slot hslot => ⟨slot.value, h.keeps i slot id hslot⟩

end Variables

/-- Planning arguments adds empty slots at most. -/
theorem Expansion.pads_planAll (view : View) (vars : Variables) (args : List Arg) :
    vars.Pads (planAll view vars args).1 :=
  Variables.pads_of_resolves (resolves_planAll view vars args)

namespace Engine

/-- An engine as another one, but for names: there may be new slots, all empty, and more text in the scratch buffer. -/
structure SameButNames (before after : Engine) : Prop where
  vars : before.vars.Pads after.vars
  pieces : before.scratch.pieces <:+ after.scratch.pieces
  rest_eq : after = { before with vars := after.vars, scratch := after.scratch }

theorem SameButNames.refl (engine : Engine) : engine.SameButNames engine :=
  ⟨.refl _, List.suffix_refl _, rfl⟩

theorem SameButNames.trans {a b c : Engine} (hab : a.SameButNames b) (hbc : b.SameButNames c) : a.SameButNames c := by
  refine ⟨hab.vars.trans hbc.vars, hab.pieces.trans hbc.pieces, ?_⟩
  have hrest := hbc.rest_eq
  rw [hab.rest_eq] at hrest
  exact hrest

/-- A statement leaves everything else as it was if it fails. -/
def FailsCleanly {α : Type} (before : Engine) (result : Engine × Except Problem α) : Prop :=
  ∀ problem, result.2 = .error problem → before.SameButNames result.1

theorem failsCleanly_ok {α : Type} (before after : Engine) (a : α) : before.FailsCleanly (after, .ok a) := by
  intro problem h
  cases h

theorem failsCleanly_self {α : Type} (before : Engine) (answer : Except Problem α) : before.FailsCleanly (before, answer) := by
  intro problem _
  exact .refl before

/-- What fails cleanly after a change of names only fails cleanly. -/
theorem FailsCleanly.after {α : Type} {before middle : Engine} {result : Engine × Except Problem α}
    (hsame : before.SameButNames middle) (h : middle.FailsCleanly result) : before.FailsCleanly result := by
  intro problem herror
  exact hsame.trans (h problem herror)

variable (setup : Setup) (engine : Engine) (line : Line)

/-- Expanding arguments leaves everything else as it was, whether it fails or not. -/
theorem sameButNames_expand : engine.SameButNames (engine.expand line).1 := by
  have hpads := Expansion.pads_planAll engine.view engine.vars line.args
  have hpieces := (engine.worked_expand line).pieces
  refine ⟨?_, hpieces, ?_⟩
  all_goals
    unfold expand Expansion.expand
    cases hplan : Expansion.planAll engine.view engine.vars line.args with
    | mk vars planned =>
      rw [hplan] at hpads
      cases planned with
      | error e => first | exact hpads | rfl
      | ok planned =>
        dsimp only
        cases engine.scratch.reserve (Expansion.totalSize planned) with
        | error e => first | exact hpads | rfl
        | ok scratch => first | exact hpads | rfl

/-- A statement fails cleanly if what it does with its arguments does. -/
theorem failsCleanly_withArgs {α : Type} {use : Engine → ExpandedArgs → Engine × Except Problem α}
    (h : ∀ engine args, FailsCleanly engine (use engine args)) : engine.FailsCleanly (engine.withArgs line use) := by
  have hexpand := engine.sameButNames_expand line
  unfold withArgs
  cases hargs : engine.expand line with
  | mk after args =>
    rw [hargs] at hexpand
    cases args with
    | error e => exact fun _ _ => hexpand
    | ok args => exact (h after args).after hexpand

/-- Naming a label leaves everything else as it was, whether it fails or not. -/
theorem sameButNames_labelArg : engine.SameButNames (engine.labelArg setup line).1 := by
  have hexpand := engine.sameButNames_expand line
  unfold labelArg
  split
  · exact .refl engine
  · unfold withArgs
    cases hargs : engine.expand line with
    | mk after args =>
      rw [hargs] at hexpand
      cases args with
      | error e => exact hexpand
      | ok args =>
        dsimp only
        split
        · exact hexpand
        · split <;> exact hexpand

/-- Finding the target of a jump fails cleanly. -/
theorem failsCleanly_jumpTarget (id : LineId) : engine.FailsCleanly (engine.jumpTarget setup id) := by
  have hlabel := engine.sameButNames_labelArg setup (setup.script.line id)
  simp only [jumpTarget]
  cases hfound : engine.labelArg setup (setup.script.line id) with
  | mk after answer =>
    rw [hfound] at hlabel
    refine .after hlabel ?_
    cases answer with
    | error problem => exact failsCleanly_self after _
    | ok named =>
      cases named with
      | none => exact failsCleanly_self after _
      | some label =>
        dsimp only
        split
        · exact failsCleanly_self after _
        · split <;> exact failsCleanly_self after _

/-- An assignment fails cleanly. -/
theorem failsCleanly_assign (op : AssignOp) : engine.FailsCleanly (engine.assign setup line op) := by
  refine engine.failsCleanly_withArgs line fun after args => ?_
  split
  · exact failsCleanly_self after _
  · split
    · exact failsCleanly_self after _
    · split
      · exact failsCleanly_self after _
      · exact failsCleanly_ok after _ _

theorem failsCleanly_sleepTime : engine.FailsCleanly (engine.sleepTime line) :=
  engine.failsCleanly_withArgs line fun after _ => failsCleanly_self after _

theorem failsCleanly_setTimer : engine.FailsCleanly (engine.setTimer setup line) := by
  have hlabel := engine.sameButNames_labelArg setup line
  unfold setTimer
  cases hfound : engine.labelArg setup line with
  | mk after answer =>
    rw [hfound] at hlabel
    refine .after hlabel ?_
    cases answer with
    | error problem => exact failsCleanly_self after _
    | ok named =>
      dsimp only
      split
      · exact failsCleanly_self after _
      · refine after.failsCleanly_withArgs line fun after args => ?_
        split
        · exact failsCleanly_self after _
        · exact failsCleanly_ok after _ _

theorem failsCleanly_setOnExit : engine.FailsCleanly (engine.setOnExit setup line) := by
  have hlabel := engine.sameButNames_labelArg setup line
  unfold setOnExit
  cases hfound : engine.labelArg setup line with
  | mk after answer =>
    rw [hfound] at hlabel
    refine .after hlabel ?_
    cases answer with
    | error problem => exact failsCleanly_self after _
    | ok label => exact failsCleanly_ok after _ _

theorem failsCleanly_suspend : engine.FailsCleanly (engine.suspend line) := by
  refine engine.failsCleanly_withArgs line fun after args => ?_
  split
  · exact failsCleanly_self after _
  · exact failsCleanly_ok after _ _

theorem failsCleanly_threadSetting : engine.FailsCleanly (engine.threadSetting line) := by
  refine engine.failsCleanly_withArgs line fun after args => ?_
  dsimp only
  split
  · exact failsCleanly_ok after _ _
  · split
    · exact failsCleanly_ok after _ _
    · exact failsCleanly_self after _

end Engine

/-- Whether an action is a statement of the engine: it changes what the engine holds, sleeps or jumps, and runs no other line. -/
def Action.isStatement : Action → Bool
  | .assign _ | .sleep | .setTimer | .onExit | .suspend | .thread | .goto => true
  | _ => false

namespace Machine

/-- A statement fails cleanly, ends without an error, or falls asleep. -/
inductive Settles (engine : Engine) (id : LineId) (stack : Stack .line) : Machine → Prop
  | failed {after : Engine} (h : engine.SameButNames after) (error : RuntimeError) :
    Settles engine id stack ⟨after, .stepped (.error error) stack⟩
  | ended (after : Engine) (flow : Flow) (next : Option LineId) :
    Settles engine id stack ⟨after, .stepped (.ok (flow, next)) stack⟩
  | asleep (after : Engine) (deadline : Nat) : Settles engine id stack ⟨after, .sleep id deadline stack⟩

variable {setup : Setup} {engine : Engine} {id : LineId} {stack : Stack .line}

/-- A result that fails cleanly is settled. -/
theorem settles_settle {result : Engine × Except Problem Unit} (h : engine.FailsCleanly result) (next : Option LineId) :
    Settles engine id stack (settle setup id next stack result) := by
  obtain ⟨after, answer⟩ := result
  cases answer with
  | error problem => exact .failed (h problem rfl) _
  | ok _ => exact .ended after .normal next

/-- A statement settles. -/
theorem settles_runLine (h : (setup.script.line id).action.isStatement = true) :
    Settles engine id stack (runLine setup engine id stack) := by
  simp only [runLine]
  cases haction : (setup.script.line id).action with
  | assign op => exact settles_settle (engine.failsCleanly_assign setup _ op) _
  | setTimer => exact settles_settle (engine.failsCleanly_setTimer setup _) _
  | onExit => exact settles_settle (engine.failsCleanly_setOnExit setup _) _
  | suspend => exact settles_settle (engine.failsCleanly_suspend _) _
  | thread => exact settles_settle (engine.failsCleanly_threadSetting _) _
  | sleep =>
    have hclean := engine.failsCleanly_sleepTime (setup.script.line id)
    cases hsleep : engine.sleepTime (setup.script.line id) with
    | mk after answer =>
      rw [hsleep] at hclean
      cases answer with
      | error problem => exact .failed (hclean problem rfl) _
      | ok ms => exact .asleep after _
  | goto =>
    have hclean := engine.failsCleanly_jumpTarget setup id
    cases hjump : engine.jumpTarget setup id with
    | mk after answer =>
      rw [hjump] at hclean
      cases answer with
      | error problem => exact .failed (hclean problem rfl) _
      | ok target => exact .ended after _ _
  | _ =>
    rw [haction] at h
    cases h

/-! ## Sleeping -/

/-- A `Sleep` goes on: it is about to look at the queue, or what it lets run is not done. -/
def Dozes (setup : Setup) (id : LineId) (stack : Stack .line) (machine : Machine) : Prop :=
  (∃ deadline, machine.control = .sleep id deadline stack) ∨
    ∃ deadline waiting, Owes setup (.sleep id deadline waiting stack) (fun _ => True) machine

/-- As long as a `Sleep` goes on its line has not ended. -/
theorem Dozes.not_answered {machine : Machine} (h : Dozes setup id stack machine) :
    machine.control.answered? ≠ some ⟨.line, stack⟩ := by
  intro hanswered
  rcases h with ⟨deadline, hcontrol⟩ | ⟨deadline, waiting, howes⟩
  · rw [hcontrol] at hanswered
    cases hanswered
  · -- the frame of the `Sleep` would be a part of the stack below it
    obtain ⟨engine, control⟩ := machine
    cases control with
    | stepped answer top =>
      cases hanswered
      have hsize := Unwinds.size_le howes
      simp only [Stack.sleep.sizeOf_spec] at hsize
      omega
    | _ => cases hanswered

/-- A `Sleep` goes on or ends normally. -/
theorem Dozes.step {machine : Machine} (hown : machine.engine.vars.IsOwn setup.errorLevel)
    (h : Dozes setup id stack machine) :
    Dozes setup id stack (machine.step setup) ∨
      ∃ next, (machine.step setup).control = .stepped (.ok (.normal, next)) stack := by
  rcases h with ⟨deadline, hcontrol⟩ | ⟨deadline, waiting, howes⟩
  · obtain ⟨engine, control⟩ := machine
    obtain rfl : control = .sleep id deadline stack := hcontrol
    exact .inl (.inr ⟨deadline, engine.waiting, .base trivial⟩)
  · by_cases hpolled : machine.control.answered? = some ⟨.queue, .sleep id deadline waiting stack⟩
    · obtain ⟨ran, hcontrol⟩ := Control.eq_polled hpolled
      simp only [Machine.step, hcontrol, afterPoll, afterSlice]
      split
      · exact .inr ⟨_, rfl⟩
      · exact .inl (.inl ⟨deadline, rfl⟩)
    · exact .inl (.inr ⟨deadline, waiting, howes.step (fun h _ => h) hown hpolled⟩)

/-- Once a statement sleeps, its line ends normally whenever it ends. -/
theorem normal_of_dozes {run : Nat → Machine} {m n : Nat} (hrun : IsRun setup run)
    (hown : (run 0).engine.vars.IsOwn setup.errorLevel) (hdozes : Dozes setup id stack (run m)) (hle : m ≤ n)
    (hret : Returns run stack n) : ∃ next, (run n).control = .stepped (.ok (.normal, next)) stack := by
  have hcourse (k : Nat) : m + k ≤ n →
      Dozes setup id stack (run (m + k)) ∨ ∃ next, (run n).control = .stepped (.ok (.normal, next)) stack := by
    induction k with
    | zero => exact fun _ => .inl hdozes
    | succ k ih =>
      intro hk
      rcases ih (by omega) with hdozes | hended
      · obtain ⟨now, helapses, hstep⟩ := hrun (m + k)
        have hnow : Dozes setup id stack ⟨now, (run (m + k)).control⟩ := by
          obtain ⟨world, triggers, rfl⟩ := helapses
          exact hdozes
        rcases hnow.step (helapses.carries.vars.isOwn (isOwn_run hrun hown (m + k))) with h | ⟨next, h⟩
        · exact .inl (hstep ▸ h)
        · rw [← hstep] at h
          -- the line has ended, so this is the end of the run
          obtain rfl : m + k + 1 = n := by
            refine Nat.le_antisymm hk (Nat.le_of_not_lt fun hlt => hret.first _ hlt ?_)
            rw [h]
            rfl
          exact .inr ⟨next, h⟩
      · exact .inr hended
  rcases hcourse (n - m) (by omega) with hdozes | hended
  · rw [Nat.add_sub_cancel' hle] at hdozes
    exact absurd hret.answered hdozes.not_answered
  · exact hended

end Machine

namespace Program

open Machine

/-- A statement that fails changes nothing. Whenever an assignment, `Sleep`, `SetTimer`, `OnExit`, `Suspend`, `Thread` or `Goto`
of a loaded program ends with an error, that is in its first step, and the engine is as it was before that step: every slot with
its value, the timers, the exit routine, the suspension, the settings for new threads, every thread with its priority and the
queue. There may only be new slots, all empty, and more text in the scratch buffer, which the run gives back next. -/
theorem failing_statement_changes_nothing {commands : CommandSet} {items : List Item} {program : Program}
    (hload : load commands items = .ok program) (config : Config) (perform : Performer) (world : World) :
    let setup := (Engine.start program config perform world).1
    let engine := (Engine.start program config perform world).2
    ∀ (run : Nat → Machine) (id : LineId) (stack : Stack .line) (n : Nat) (error : RuntimeError),
      Reachable setup engine (run 0) → IsRun setup run → (run 0).control = .step id stack →
      (setup.script.line id).action.isStatement = true → Returns run stack n →
      (run n).control = .stepped (.error error) stack →
      n = 1 ∧ ∃ now, (run 0).engine.Elapses now ∧ now.SameButNames (run 1).engine := by
  intro setup engine run id stack n error hreach hrun hcontrol haction hret herror
  have hown : engine.vars.IsOwn setup.errorLevel := Engine.start_errorLevel hload config perform world
  have hpos : 1 ≤ n := by
    refine Nat.one_le_iff_ne_zero.mpr fun hzero => ?_
    rw [hzero, hcontrol] at herror
    cases herror
  have hfirst (answer : Except RuntimeError (Flow × Option LineId)) (h : (run 1).control = .stepped answer stack) :
      n = 1 := by
    refine Nat.le_antisymm (Nat.le_of_not_lt fun hlt => hret.first 1 hlt ?_) hpos
    rw [h]
    rfl
  obtain ⟨now, helapses, hstep⟩ := hrun 0
  rw [hcontrol] at hstep
  have hsettles : Settles now id stack (run 1) := hstep ▸ settles_runLine haction
  generalize hmachine : run 1 = machine at hsettles
  cases hsettles with
  | failed hsame =>
    exact ⟨hfirst _ (by rw [hmachine]), now, helapses, hsame⟩
  | ended after flow next =>
    obtain rfl := hfirst _ (by rw [hmachine])
    rw [hmachine] at herror
    cases herror
  | asleep after deadline =>
    have hdozes : Dozes setup id stack (run 1) := .inl ⟨deadline, by rw [hmachine]⟩
    obtain ⟨next, hended⟩ := normal_of_dozes hrun (hreach.isOwn hown) hdozes hpos hret
    cases hended.symm.trans herror

/-- A program that divides a variable by zero whose name it has just put together, with a trigger in its queue. -/
def dividing : List Item :=
  let line (keyword : String) (args : List String) (lineNo : Nat) : Item :=
    .statement { keyword, args := args.map .plain, lineNo } []
  [line "Fire" ["later"] 1, line "+=" ["n", "1"] 2, line "/=" ["Item%n%", "0"] 3, line "Return" [] 4, .label "later" 5,
    line "Return" [] 5]

/-- After some steps `dividing` fails at its division by zero, with one variable more. -/
theorem dividing_fails :
    (match load Standard.commands dividing with
    | .ok program =>
      let (setup, engine) := Engine.start program {} Standard.perform default
      let machine := (step setup)^[12] (HostCall.autoExecute.start setup engine)
      match machine.control, (machine.step setup).control with
      | .step id _, .stepped (.error error) _ =>
        (setup.script.line id).action == .assign .div && error.problem == .divideByZero &&
          machine.engine.queue.length == 1 && (machine.step setup).engine.vars.size == machine.engine.vars.size + 1
      | _, _ => false
    | .error _ => false) = true := by
  decide +kernel

/-- The division fails, and all that is left of it is an empty variable. -/
theorem failing_statement_changes_nothing_dividing :
    ∃ program, load Standard.commands dividing = .ok program ∧
      let setup := (Engine.start program {} Standard.perform default).1
      let engine := (Engine.start program {} Standard.perform default).2
      let run := fun k => (step setup)^[k] ((step setup)^[12] (HostCall.autoExecute.start setup engine))
      ∃ stack error id, (run 0).control = .step id stack ∧ (setup.script.line id).action = .assign .div ∧
        (run 1).control = .stepped (.error error) stack ∧ error.problem = .divideByZero ∧
        (run 0).engine.queue.length = 1 ∧ (run 1).engine.vars.size = (run 0).engine.vars.size + 1 ∧
        ∃ now, (run 0).engine.Elapses now ∧ now.SameButNames (run 1).engine := by
  have hfails := dividing_fails
  cases hload : load Standard.commands dividing with
  | error e => rw [hload] at hfails; cases hfails
  | ok program =>
    simp only [hload] at hfails
    refine ⟨program, rfl, ?_⟩
    intro setup engine run
    split at hfails
    · rename_i id stack error stack' hcontrol herror
      simp only [Bool.and_eq_true, beq_iff_eq] at hfails
      obtain ⟨⟨⟨haction, hproblem⟩, hqueue⟩, hsize⟩ := hfails
      have hreach : Reachable setup engine (run 0) := reachable_iterate (.call .start .autoExecute) 12
      have hrun : IsRun setup run := isRun_iterate setup _
      have hstep : run 1 = runLine setup (run 0).engine id stack := by
        have hcontrol : (run 0).control = .step id stack := hcontrol
        show (run 0).step setup = _
        rw [Machine.step, hcontrol]
      have herror : (run 1).control = .stepped (.error error) stack' := herror
      have hsettles : Settles (run 0).engine id stack (run 1) := hstep ▸ settles_runLine (by rw [haction]; rfl)
      obtain rfl : stack' = stack := by
        generalize hmachine : run 1 = machine at hsettles herror
        cases hsettles with
        | failed => cases herror; rfl
        | ended | asleep => cases herror
      have hret : Returns run stack' 1 := by
        refine ⟨by rw [herror]; rfl, ?_⟩
        intro k hk hanswered
        obtain rfl : k = 0 := Nat.lt_one_iff.mp hk
        rw [show (run 0).control = .step id stack' from hcontrol] at hanswered
        cases hanswered
      obtain ⟨-, hsame⟩ := failing_statement_changes_nothing hload {} Standard.perform default run id stack' 1 error hreach
        hrun hcontrol (by rw [haction]; rfl) hret herror
      exact ⟨stack', error, id, hcontrol, haction, herror, hproblem, hqueue, hsize, hsame⟩
    · cases hfails

end Program

end LineScript
