import Mathlib.Tactic.MkIffOfInductiveProp
import LineScript.Command.Standard
import LineScript.Proofs.Engine.Phase
import LineScript.Proofs.Engine.Planned

/-!
# Interruptions do not show

Two runs of a program that differ only in which triggers are let in, and when, show the same lines and the same commands of the
program itself, if the routines in between are unrelated to it (`Program.interruption_transparent`). What a routine may do to be
unrelated is said of the lines that run on a course, and can be checked on it (`Machine.Unrelated`); then every step of the course
keeps its phase, and what the program does on it is what it does alone in some number of steps (`Machine.Course.phase`).
-/

namespace LineScript

/-! ## What lines name and store into -/

/-- A reference by name, to a variable other than `A_PriorHotkey` and `A_TickCount`. -/
def Target.IsSteady (vars : Variables) : Target → Prop
  | .static v => vars.builtin? v ≠ some .priorHotkey ∧ vars.builtin? v ≠ some .tickCount
  | .dynamic _ => False

/-- A reference by name. -/
def Target.IsStatic : Target → Prop
  | .static _ => True
  | .dynamic _ => False

/-- A reference stands in a line. -/
def Line.Names (line : Line) (target : Target) : Prop :=
  ∃ arg ∈ line.args, ∃ deref ∈ arg.derefs, deref.target = target

/-- What an assignment stores into. -/
def Line.stores? (line : Line) : Option Target :=
  match line.action with
  | .assign _ => line.args.head?.bind Arg.var?
  | _ => none

instance (vars : Variables) : (target : Target) → Decidable (target.IsSteady vars)
  | .static v => inferInstanceAs (Decidable (vars.builtin? v ≠ some .priorHotkey ∧ vars.builtin? v ≠ some .tickCount))
  | .dynamic _ => isFalse id

instance : (target : Target) → Decidable target.IsStatic
  | .static _ => isTrue trivial
  | .dynamic _ => isFalse id

instance (line : Line) (target : Target) : Decidable (line.Names target) :=
  inferInstanceAs (Decidable (∃ arg ∈ line.args, ∃ deref ∈ arg.derefs, deref.target = target))

namespace Expansion

/-- An output that is named is planned as the variable it names. -/
theorem var_of_plan {view : View} {vars vars' : Variables} {arg : Arg} {var : VarId}
    (h : plan view vars arg = .ok (vars', .output (some var))) :
    ∃ target, arg.var? = some target ∧ ∀ v, target = .static v → var = v := by
  unfold plan at h
  split at h
  · cases htarget : arg.var? with
    | none =>
      rw [htarget] at h
      cases h
    | some target =>
      rw [htarget] at h
      refine ⟨target, rfl, ?_⟩
      rintro v rfl
      cases h
      rfl
  · split at h
    · cases h
    · split at h <;> cases h
  · split at h
    all_goals
      obtain ⟨_, -, h⟩ := map_eq_ok h
      cases h

end Expansion

/-- An assignment to a variable that is named stores into that one. -/
theorem Engine.output_expand {engine after : Engine} {line : Line} {op : AssignOp} {args : ExpandedArgs} {var : VarId}
    (haction : line.action = .assign op) (h : engine.expand line = (after, .ok args)) (hvar : args.output? 0 = some var) :
    ∃ target, line.stores? = some target ∧ ∀ v, target = .static v → var = v := by
  obtain ⟨vars, planned, scratch, hplanned, -, rfl, -⟩ := expand_eq_ok.mp h
  simp only [Line.stores?, haction]
  cases hline : line.args with
  | nil =>
    rw [hline] at hplanned
    obtain rfl : [] = planned := Except.ok.inj (congrArg Prod.snd hplanned)
    cases hvar
  | cons arg rest =>
    rw [hline] at hplanned
    obtain ⟨first, others, later, hplan, -, rfl⟩ := Expansion.planAll_cons_eq_ok.mp hplanned
    -- the first argument was written as an output, so that is how it was planned
    obtain rfl : first = .output (some var) := by
      cases first with
      | output found => exact congrArg _ hvar
      | text | expr | input => cases hvar
    exact Expansion.var_of_plan hplan

namespace Machine

variable {setup : Setup} {V W : VarId → Prop} {alone machine : Machine} {n : Nat}

/-! ## Courses -/

/-- A course of a machine: the machines that take a step, one after the other, and the one they lead to. Between two steps only
the clock goes on and triggers arrive. -/
inductive Course (setup : Setup) (start : Machine) : List Machine → Machine → Prop
  | start : Course setup start [] start
  | step {visited : List Machine} {machine : Machine} (h : Course setup start visited machine) (now : Nat)
    (triggers : List Trigger) :
    Course setup start (visited ++ [machine.later { machine.engine.world with now := now } triggers])
      ((machine.later { machine.engine.world with now := now } triggers).step setup)

/-- The course of a machine along a schedule: how many milliseconds pass before each step, and which triggers arrive. -/
def along (setup : Setup) : (schedule : List (Nat × List Trigger)) → Machine → List Machine × Machine
  | [], machine => ([], machine)
  | (ms, triggers) :: rest, machine =>
    let now := machine.later { machine.engine.world with now := machine.engine.world.now + ms } triggers
    let (visited, last) := along setup rest (now.step setup)
    (now :: visited, last)

/-- A course that goes on along a schedule is a course. -/
theorem Course.along {start : Machine} {visited : List Machine} (h : Course setup start visited machine)
    (schedule : List (Nat × List Trigger)) :
    Course setup start (visited ++ (machine.along setup schedule).1) (machine.along setup schedule).2 := by
  induction schedule generalizing visited machine with
  | nil =>
    rw [Machine.along, List.append_nil]
    exact h
  | cons first rest ih =>
    obtain ⟨ms, triggers⟩ := first
    have hrest := ih (h.step (machine.engine.world.now + ms) triggers)
    rw [List.append_assoc] at hrest
    exact hrest

/-- Going along a schedule is a course. -/
theorem course_along (machine : Machine) (schedule : List (Nat × List Trigger)) :
    Course setup machine (machine.along setup schedule).1 (machine.along setup schedule).2 :=
  Course.start.along schedule

/-- What the program itself does on a course. -/
def mainDoings (setup : Setup) (visited : List Machine) : List Doing :=
  visited.flatMap (ownDoings setup)

/-- What the program does on a longer course ends with what it does in the last step. -/
theorem mainDoings_append (visited : List Machine) (machine : Machine) :
    mainDoings setup (visited ++ [machine]) = mainDoings setup visited ++ machine.ownDoings setup := by
  simp [mainDoings]

/-- What the program does in its first `k` steps alone. -/
def doingsAlone (setup : Setup) (alone : Machine) (k : Nat) : List Doing :=
  (List.range k).flatMap fun i => doings setup ((stepAlone setup)^[i] alone)

/-- In one step more alone, the program does what that step does as well. -/
theorem doingsAlone_succ (k : Nat) :
    doingsAlone setup alone (k + 1) = doingsAlone setup alone k ++ doings setup ((stepAlone setup)^[k] alone) := by
  simp [doingsAlone, List.range_succ]

/-- What the program does alone in fewer steps starts what it does in more. -/
theorem prefix_doingsAlone {k l : Nat} (h : k ≤ l) : doingsAlone setup alone k <+: doingsAlone setup alone l := by
  induction h with
  | refl => exact List.prefix_refl _
  | step _ ih =>
    rw [doingsAlone_succ]
    exact ih.trans (List.prefix_append _ _)

/-- A program that is over alone stays over. -/
theorem isOver_iterate {k : Nat} (hover : ((stepAlone setup)^[k] alone).control.IsOver) {l : Nat} (h : k ≤ l) :
    ((stepAlone setup)^[l] alone).control.IsOver := by
  induction h with
  | refl => exact hover
  | step _ ih =>
    rw [Function.iterate_succ_apply']
    exact control_stepAlone_of_isOver ih

/-- A program that is over has done all it does. -/
theorem prefix_doingsAlone_of_isOver {k : Nat} (hover : ((stepAlone setup)^[k] alone).control.IsOver) (l : Nat) :
    doingsAlone setup alone l <+: doingsAlone setup alone k := by
  rcases Nat.le_total l k with hle | hle
  · exact prefix_doingsAlone hle
  · induction hle with
    | refl => exact List.prefix_refl _
    | step hle ih =>
      rw [doingsAlone_succ, doings_of_isOver (isOver_iterate hover hle), List.append_nil]
      exact ih

section

variable {engine : Engine} {start : Machine} {visited : List Machine}

/-- What a course leads to can be reached. -/
theorem Course.reachable (h : Course setup start visited machine) (hstart : Reachable setup engine start) :
    Reachable setup engine machine := by
  induction h with
  | start => exact hstart
  | step _ now triggers ih => exact .step ih ⟨_, ⟨_, triggers, rfl⟩, rfl⟩

/-- The threads of what is reached stand on its stack. -/
theorem Reachable.stacked (h : Reachable setup engine machine) (hengine : Stacked setup ⟨engine, .done 0⟩ []) :
    ∃ starts, Stacked setup machine starts := by
  obtain ⟨log, hlog⟩ := h.exists_log
  exact ⟨log.starts, hlog.stacked hengine⟩

/-- What the program does on a course is what it does alone in some number of steps. -/
theorem Course.phase (h : Course setup start visited machine) (hstart : Reachable setup engine start)
    (hengine : Stacked setup ⟨engine, .done 0⟩ []) (hown : engine.vars.IsOwn setup.errorLevel)
    (hrefers : ∀ id, ∀ arg ∈ (setup.script.line id).args, arg.Refers n)
    (hbehaves : ∀ machine ∈ visited, Behaves setup V W machine) (hV : ∀ v, V v → W v → v = setup.errorLevel)
    (hW : W setup.errorLevel) (hphase : Phase setup V W alone start) :
    ∃ k, mainDoings setup visited = doingsAlone setup alone k ∧ Phase setup V W ((stepAlone setup)^[k] alone) machine := by
  induction h with
  | start => exact ⟨0, rfl, hphase⟩
  | @step visited machine hcourse now triggers ih =>
    obtain ⟨k, hdoings, hphase⟩ := ih fun machine hmem => hbehaves machine (List.mem_append_left _ hmem)
    have hreach := hcourse.reachable hstart
    have hlevel := hreach.isOwn hown
    obtain ⟨starts, hstacked⟩ := hreach.stacked hengine
    have hlast := hbehaves _ (List.mem_append_right _ (List.mem_singleton_self _))
    rcases (hphase.later now triggers).step hrefers (hstacked.later _ triggers) hlevel hlast hV hW with
      ⟨hphase, hnone⟩ | ⟨hphase, hdone⟩
    · refine ⟨k, ?_, hphase⟩
      rw [mainDoings_append, hnone, List.append_nil, hdoings]
    · refine ⟨k + 1, ?_, ?_⟩
      · rw [mainDoings_append, hdone, hdoings, doingsAlone_succ]
      · rw [Function.iterate_succ_apply']
        exact hphase

end

/-! ## Unrelated routines -/

/-- The commands that the program itself calls on a course depend on their arguments alone. -/
def CallsByArgs (setup : Setup) (visited : List Machine) : Prop :=
  ∀ machine ∈ visited, machine.isMain = true → ∀ id cmd stack, machine.control = .call id cmd stack →
    setup.DependsOnArgs (setup.script.commands.get cmd)

/-- On a course of a program, loaded with a table of variables, the routines are unrelated to the program itself. -/
@[mk_iff]
structure Unrelated (setup : Setup) (vars : Variables) (visited : List Machine) : Prop where
  /-- The lines of the program put no names together, and read neither `A_PriorHotkey` nor `A_TickCount`. -/
  steady : ∀ machine ∈ visited, machine.isMain = true → ∀ id ∈ machine.control.line?,
    ∀ arg ∈ (setup.script.line id).args, ∀ deref ∈ arg.derefs, deref.target.IsSteady vars
  /-- Routines do not end the program. -/
  exit : ∀ machine ∈ visited, machine.isRoutine = true → ∀ id ∈ machine.control.line?,
    (setup.script.line id).action ≠ .exitApp
  /-- They assign variables that they name and that no line of the program names. -/
  assigned : ∀ machine ∈ visited, machine.isRoutine = true → ∀ id ∈ machine.control.line?,
    ∀ target ∈ (setup.script.line id).stores?, target.IsStatic ∧
      ∀ other ∈ visited, other.isMain = true → ∀ line ∈ other.control.line?, ¬ (setup.script.line line).Names target
  /-- Their commands are harmless. -/
  deeds : ∀ machine ∈ visited, machine.isRoutine = true → ∀ call ∈ machine.calls setup,
    ∀ deed ∈ (setup.perform call).deeds, deed.IsHarmless setup.errorLevel

set_option synthInstance.maxSize 512 in
instance (setup : Setup) (vars : Variables) (visited : List Machine) : Decidable (Unrelated setup vars visited) :=
  decidable_of_iff _ (unrelated_iff setup vars visited).symm

section

variable {vars : Variables} {visited : List Machine}

/-- The slots that routines may change on a course: the error level, and the variables they assign. -/
def Changed (setup : Setup) (visited : List Machine) (v : VarId) : Prop :=
  v = setup.errorLevel ∨ ∃ machine ∈ visited, machine.isRoutine = true ∧
    ∃ id ∈ machine.control.line?, (setup.script.line id).stores? = some (.static v)

/-- The variables that the program may name on a course. -/
def Visible (setup : Setup) (vars : Variables) (visited : List Machine) (v : VarId) : Prop :=
  v < vars.size ∧ (∀ b, vars.builtin? v = some b → b.IsSteady) ∧ (Changed setup visited v → v = setup.errorLevel)

/-- Where routines are unrelated to the program, every machine on the course does what is asked of it. -/
theorem Unrelated.behaves (h : Unrelated setup vars visited) (hcalls : CallsByArgs setup visited)
    (hrefers : ∀ id, ∀ arg ∈ (setup.script.line id).args, arg.Refers vars.size) (hmem : machine ∈ visited) :
    Behaves setup (Visible setup vars visited) (Changed setup visited) machine where
  plain hmain := by
    refine ⟨fun id hid arg harg deref hderef => ?_, hcalls machine hmem hmain⟩
    have hsteady := h.steady machine hmem hmain id hid arg harg deref hderef
    have hnames : (setup.script.line id).Names deref.target := ⟨arg, harg, deref, hderef, rfl⟩
    cases htarget : deref.target with
    | dynamic parts =>
      rw [htarget] at hsteady
      exact hsteady.elim
    | static v =>
      rw [htarget] at hsteady hnames
      refine ⟨v, rfl, (hrefers id arg harg).known deref hderef v htarget, fun b hb => ?_, ?_⟩
      · exact ⟨fun heq => hsteady.1 (hb.trans (congrArg some heq)), fun heq => hsteady.2 (hb.trans (congrArg some heq))⟩
      · rintro (hlevel | ⟨other, hother, hroutine, line, hline, hstores⟩)
        · exact hlevel
        · exact absurd hnames ((h.assigned other hother hroutine line hline _ hstores).2 machine hmem hmain id hid)
  exit hroutine id stack hcontrol := h.exit machine hmem hroutine id (hcontrol ▸ rfl)
  stores hroutine := by
    refine ⟨fun id stack op hcontrol haction after args var hargs hvar => ?_, fun call hcall var value hdeed => ?_, .inl rfl⟩
    · have hline : id ∈ machine.control.line? := hcontrol ▸ rfl
      obtain ⟨target, hstores, hname⟩ := Engine.output_expand haction hargs hvar
      obtain ⟨hstatic, -⟩ := h.assigned machine hmem hroutine id hline target hstores
      cases target with
      | dynamic parts => exact hstatic.elim
      | static v =>
        obtain rfl := hname v rfl
        exact .inr ⟨machine, hmem, hroutine, id, hline, hstores⟩
    · exact .inl (h.deeds machine hmem hroutine call hcall _ hdeed)
  appends hroutine call hcall path text hdeed := h.deeds machine hmem hroutine call hcall _ hdeed

end

/-! ## From the first line -/

end Machine

/-- Two engines from which a program starts alike: with the same variables, in the same world but for the clock, and both ended or
not. -/
structure Engine.StartsLike (engine engine' : Engine) : Prop where
  vars_eq : engine'.vars = engine.vars
  files_eq : engine'.world.files = engine.world.files
  registry_eq : engine'.world.registry = engine.world.registry
  terminated_eq : engine'.terminated = engine.terminated

namespace Machine

variable {setup : Setup} {V W : VarId → Prop} {machine : Machine} {n : Nat} {engine before before' : Engine} {ran ran' : Nat}
  {start : Machine} {visited : List Machine}

/-- A program that starts follows the course it would take alone. -/
theorem phase_autoExecute (hengine : Stacked setup ⟨engine, .done 0⟩ []) (hown : engine.vars.IsOwn setup.errorLevel)
    (hfree : (engine.held setup).IsFree) (hroom : engine.scratch.Room)
    (hrefers : ∀ id, ∀ arg ∈ (setup.script.line id).args, arg.Refers n) (h : Reachable setup engine ⟨before, .done ran⟩)
    (h' : Reachable setup engine ⟨before', .done ran'⟩) (hlike : before.StartsLike before') (hgoesOn : before'.terminated = false)
    (hslots : ∀ v, V v → ∃ slot, before.vars.slots[v]? = some slot ∧ ∀ b, slot.builtin = some b → b.IsSteady) :
    Phase setup V W (HostCall.autoExecute.start setup before) (HostCall.autoExecute.start setup before') := by
  obtain ⟨starts, -, hthreads, hwaiting, -⟩ := h.stacked hengine
  obtain ⟨starts', -, hthreads', hwaiting', hexit'⟩ := h'.stacked hengine
  obtain ⟨hdepth, hpieces⟩ : (before.held setup).IsFree := h.frees hown hfree
  obtain ⟨hdepth', hpieces'⟩ : (before'.held setup).IsFree := h'.frees hown hfree
  obtain ⟨hroom₁, hlimit⟩ := h.room hrefers hroom
  obtain ⟨hroom₂, hlimit'⟩ := h'.room hrefers hroom
  simp only [HostCall.start, HostCall.autoExecuteOn]
  cases setup.script.firstLine? with
  | none => exact .gone trivial trivial
  | some first =>
    refine .follows ⟨?_, ?_, rfl⟩ ⟨hgoesOn, hexit', rfl⟩
    · exact
        { slots := fun v hv => by
            obtain ⟨slot, hslot, hsteady⟩ := hslots v hv
            exact ⟨slot, hslot, (congrArg (·.slots[v]?) hlike.vars_eq).trans hslot, hsteady⟩
          threads := ⟨_, _, congrArg (_ :: ·) hthreads, congrArg (_ :: ·) hthreads', ⟨rfl, rfl, rfl, rfl⟩⟩
          files_eq := hlike.files_eq
          registry_eq := hlike.registry_eq
          pieces_eq := hpieces'.trans hpieces.symm
          limit_eq := hlimit'.trans hlimit.symm
          room := ⟨hroom₁, hroom₂⟩
          depth_eq := hdepth'.trans hdepth.symm
          terminated_eq := hlike.terminated_eq }
    · have hsame : before'.waiting = before.waiting := hwaiting'.trans hwaiting.symm
      simp only [launch, hsame]
      rfl

/-- A program that has ended does nothing. -/
theorem Course.mainDoings_of_terminated (h : Course setup start visited machine) (hstart : Reachable setup engine start)
    (hended : start.engine.terminated = true) : machine.engine.terminated = true ∧ mainDoings setup visited = [] := by
  induction h with
  | start => exact ⟨hended, rfl⟩
  | @step visited machine hcourse now triggers ih =>
    obtain ⟨hended, hnone⟩ := ih
    have hreach := hcourse.reachable hstart
    have hquiet := hreach.not_busy hended
    have hline : machine.control.line? = none := by
      cases hcontrol : machine.control with
      | step | call =>
        rw [hcontrol] at hquiet
        exact absurd trivial hquiet
      | _ => rfl
    refine ⟨Next.terminated ⟨_, ⟨_, triggers, rfl⟩, rfl⟩ hended, ?_⟩
    rw [mainDoings_append, hnone, List.nil_append]
    exact ownDoings_of_line fun id hid => by cases hline.symm.trans hid

/-- A machine that is done stands at the end of the program's course. -/
theorem Phase.isOver_of_done {alone : Machine} (h : Phase setup V W alone machine) (hdone : machine.control = .done n) :
    alone.control.IsOver := by
  cases h with
  | follows h =>
    have hmain := h.main
    rw [hdone] at hmain
    exact hmain.elim
  | apart _ _ howes =>
    rw [Owes, hdone] at howes
    exact howes.elim
  | leaving hover => exact hover
  | gone hover => exact hover

end Machine

namespace Program

open Machine

/-- Interruptions by unrelated routines do not show. Take two runs of a loaded program from its first line, from the same variables
and in the same world but for the clock, with any triggers let in at any look at the queue. If on both courses the routines are
unrelated to the program, and the commands that it calls depend on their arguments alone, then of what the program itself does (the
lines it runs and the commands it calls, with their expanded arguments) one is the beginning of the other; a run that is done has
done as much as any other; and two runs that are done have done the same. -/
theorem interruption_transparent {commands : CommandSet} {items : List Item} {program : Program}
    (hload : load commands items = .ok program) (config : Config) (perform : Performer) (world : World) :
    let setup := (Engine.start program config perform world).1
    let engine := (Engine.start program config perform world).2
    ∀ (before before' : Engine) (ran ran' : Nat) (visited visited' : List Machine) (machine machine' : Machine),
      Reachable setup engine ⟨before, .done ran⟩ → Reachable setup engine ⟨before', .done ran'⟩ →
      before.StartsLike before' →
      Course setup (HostCall.autoExecute.start setup before) visited machine →
      Course setup (HostCall.autoExecute.start setup before') visited' machine' →
      Unrelated setup program.vars visited → Unrelated setup program.vars visited' →
      CallsByArgs setup visited → CallsByArgs setup visited' →
      (mainDoings setup visited <+: mainDoings setup visited' ∨ mainDoings setup visited' <+: mainDoings setup visited) ∧
      ((∃ n, machine.control = .done n) → mainDoings setup visited' <+: mainDoings setup visited) ∧
      ((∃ n, machine'.control = .done n) → mainDoings setup visited <+: mainDoings setup visited') ∧
      ((∃ n, machine.control = .done n) → (∃ n, machine'.control = .done n) →
        mainDoings setup visited' = mainDoings setup visited) := by
  intro setup engine before before' ran ran' visited visited' machine machine' hreach hreach' hlike hcourse hcourse' hunrelated
    hunrelated' hcalls hcalls'
  have hrefers : ∀ id, ∀ arg ∈ (setup.script.line id).args, arg.Refers program.vars.size := refers_of_load hload
  have hown : engine.vars.IsOwn setup.errorLevel := Engine.start_errorLevel hload config perform world
  have hengine : Stacked setup ⟨engine, .done 0⟩ [] := ⟨rfl, rfl, rfl, rfl⟩
  have hcalled : Reachable setup engine (HostCall.autoExecute.start setup before) := .call hreach .autoExecute
  have hcalled' : Reachable setup engine (HostCall.autoExecute.start setup before') := .call hreach' .autoExecute
  cases hended : before.terminated with
  | true =>
    have hnone := (hcourse.mainDoings_of_terminated hcalled ((carries_start .autoExecute).terminated hended)).2
    have hnone' := (hcourse'.mainDoings_of_terminated hcalled'
      ((carries_start .autoExecute).terminated (hlike.terminated_eq.trans hended))).2
    rw [hnone, hnone']
    exact ⟨.inl (List.prefix_refl _), fun _ => List.prefix_refl _, fun _ => List.prefix_refl _, fun _ _ => rfl⟩
  | false =>
    -- each run does what the program does alone, up to some point, and all of it when it is done
    have halone {now : Engine} {ran : Nat} {visited : List Machine} {machine : Machine}
        (hreached : Reachable setup engine ⟨now, .done ran⟩) (hlike : before.StartsLike now)
        (hcourse : Course setup (HostCall.autoExecute.start setup now) visited machine)
        (hunrelated : Unrelated setup program.vars visited) (hcalls : CallsByArgs setup visited) :
        ∃ k, mainDoings setup visited = doingsAlone setup (HostCall.autoExecute.start setup before) k ∧
          ∀ n, machine.control = .done n →
            ((stepAlone setup)^[k] (HostCall.autoExecute.start setup before)).control.IsOver := by
      have hslots : ∀ v, Visible setup program.vars visited v → ∃ slot, before.vars.slots[v]? = some slot ∧
          ∀ b, slot.builtin = some b → b.IsSteady := by
        rintro v ⟨hsize, hsteady, -⟩
        have hslot := Array.getElem?_eq_getElem hsize
        have hextends := (Variables.extends_intern program.vars Engine.errorLevelName).trans hreach.extends
        obtain ⟨value, hvalue⟩ := hextends v _ hslot
        refine ⟨_, hvalue, fun b hb => hsteady b ?_⟩
        rw [Variables.builtin?, hslot]
        exact hb
      have hphase := phase_autoExecute (W := Changed setup visited) hengine hown ⟨rfl, rfl⟩ (fun _ => Nat.zero_le _) hrefers hreach
        hreached hlike (hlike.terminated_eq.trans hended) hslots
      obtain ⟨k, hdoings, hphase⟩ := hcourse.phase (.call hreached .autoExecute) hengine hown hrefers
        (fun machine hmem => hunrelated.behaves hcalls hrefers hmem) (fun v hv => hv.2.2) (.inl rfl) hphase
      exact ⟨k, hdoings, fun n hdone => hphase.isOver_of_done hdone⟩
    obtain ⟨k, hdoings, hover⟩ := halone hreach ⟨rfl, rfl, rfl, rfl⟩ hcourse hunrelated hcalls
    obtain ⟨k', hdoings', hover'⟩ := halone hreach' hlike hcourse' hunrelated' hcalls'
    rw [hdoings, hdoings']
    refine ⟨?_, ?_, ?_, ?_⟩
    · rcases Nat.le_total k k' with hle | hle
      · exact .inl (prefix_doingsAlone hle)
      · exact .inr (prefix_doingsAlone hle)
    · rintro ⟨n, hdone⟩
      exact prefix_doingsAlone_of_isOver (hover n hdone) k'
    · rintro ⟨n, hdone⟩
      exact prefix_doingsAlone_of_isOver (hover' n hdone) k
    · rintro ⟨n, hdone⟩ ⟨n', hdone'⟩
      have hle := prefix_doingsAlone_of_isOver (hover n hdone) k'
      have hge := prefix_doingsAlone_of_isOver (hover' n' hdone') k
      exact hle.eq_of_length (Nat.le_antisymm hle.length_le hge.length_le)

/-- A program that counts and prints, and a routine that counts for itself, prints and fails, with the error level set. -/
def counting : List Item :=
  let line (keyword : String) (args : List String) (lineNo : Nat) : Item :=
    .statement { keyword, args := args.map .plain, lineNo } []
  [line "Loop" ["2"] 1, line "\x7b" [] 2, line "Echo" ["%n% %ErrorLevel%"] 3, line "Wait" [] 4, line "+=" ["n", "1"] 5,
    line "\x7d" [] 6, line "Return" [] 7, .label "routine" 8, line "+=" ["m", "1"] 8, line "Echo" ["%m%"] 9,
    line "FileAppend" ["%m%"] 10, line "Return" [] 11]

/-- A course that is done, on which the program itself only prints and waits; the flag says whether a routine ran and failed. -/
def countingShows (setup : Setup) (course : List Machine × Machine) (disturbed : Bool) : Bool :=
  (match course.2.control with
    | .done _ => true
    | _ => false) &&
  (course.1.any isRoutine == disturbed && course.2.engine.errors.length == disturbed.toNat) &&
  course.1.all fun machine =>
    match machine.control with
    | .call _ cmd _ => !machine.isMain || ["Echo", "Wait"].contains (setup.script.commands.get cmd).name
    | _ => true

/-- Both courses of `counting` are done, a routine runs on the second one only, and routines are unrelated to the program. -/
theorem counting_done :
    (match load Standard.commands counting with
    | .ok program =>
      let setup := (Engine.start program {} Standard.perform default).1
      let engine := (Engine.start program {} Standard.perform default).2
      let machine := HostCall.autoExecute.start setup engine
      let quiet := machine.along setup (List.replicate 75 (0, []))
      let disturbed := machine.along setup ((0, [{ kind := .hotkey, label := "routine" }]) :: List.replicate 130 (3, []))
      countingShows setup quiet false && countingShows setup disturbed true &&
        decide (Unrelated setup program.vars quiet.1) && decide (Unrelated setup program.vars disturbed.1) &&
        (mainDoings setup quiet.1).length == 14
    | .error _ => false) = true := by
  decide +kernel

/-- Printing and waiting depend on the arguments alone. -/
theorem dependsOnArgs_of_name {setup : Setup} {spec : CommandSpec} (hperform : setup.perform = Standard.perform)
    (hname : spec.name = "Echo" ∨ spec.name = "Wait") : setup.DependsOnArgs spec := by
  intro call call' hspec hspec' hargs _
  rw [hperform]
  rcases hname with hname | hname
  · simp only [Standard.perform, hspec, hspec', hname, Call.text, hargs]
  · simp only [Standard.perform, hspec, hspec', hname, Call.text, hargs]

/-- What `countingShows` tells of a course holds of it. -/
theorem countingShows_spec {setup : Setup} {course : List Machine × Machine} {disturbed : Bool}
    (hperform : setup.perform = Standard.perform) (h : countingShows setup course disturbed = true) :
    (∃ n, course.2.control = .done n) ∧ course.1.any isRoutine = disturbed ∧ CallsByArgs setup course.1 := by
  simp only [countingShows, Bool.and_eq_true, beq_iff_eq, List.all_eq_true] at h
  obtain ⟨⟨hdone, hroutine, -⟩, hcalls⟩ := h
  refine ⟨?_, hroutine, ?_⟩
  · split at hdone
    · rename_i n hcontrol
      exact ⟨n, hcontrol⟩
    · cases hdone
  · intro machine hmem hmain id cmd stack hcontrol
    have hcall := hcalls machine hmem
    rw [hcontrol] at hcall
    refine dependsOnArgs_of_name hperform ?_
    simpa [hmain] using hcall

/-- Once with no trigger, and once with a routine that interrupts, changes the error level and fails: the program does the same
fourteen things. -/
theorem interruption_transparent_counting :
    ∃ program, load Standard.commands counting = .ok program ∧
      let setup := (Engine.start program {} Standard.perform default).1
      let engine := (Engine.start program {} Standard.perform default).2
      let machine := HostCall.autoExecute.start setup engine
      let quiet := machine.along setup (List.replicate 75 (0, []))
      let disturbed := machine.along setup ((0, [{ kind := .hotkey, label := "routine" }]) :: List.replicate 130 (3, []))
      quiet.1.any isRoutine = false ∧ disturbed.1.any isRoutine = true ∧
      Unrelated setup program.vars quiet.1 ∧ Unrelated setup program.vars disturbed.1 ∧
      (mainDoings setup quiet.1).length = 14 ∧ mainDoings setup disturbed.1 = mainDoings setup quiet.1 := by
  have hruns := counting_done
  cases hload : load Standard.commands counting with
  | error e => rw [hload] at hruns; cases hruns
  | ok program =>
    simp only [hload, Bool.and_eq_true, decide_eq_true_eq, beq_iff_eq] at hruns
    obtain ⟨⟨⟨⟨hquiet, hdisturbed⟩, hunrelated⟩, hunrelated'⟩, hlength⟩ := hruns
    refine ⟨program, rfl, ?_⟩
    intro setup engine machine
    -- the two courses are kept as variables, so that nothing runs them while statements are compared
    have hsame (quiet disturbed : List Machine × Machine) (hcourse : Course setup machine quiet.1 quiet.2)
        (hcourse' : Course setup machine disturbed.1 disturbed.2) (hquiet : countingShows setup quiet false = true)
        (hdisturbed : countingShows setup disturbed true = true) (hunrelated : Unrelated setup program.vars quiet.1)
        (hunrelated' : Unrelated setup program.vars disturbed.1) :
        mainDoings setup disturbed.1 = mainDoings setup quiet.1 := by
      obtain ⟨hdone, -, hcalls⟩ := countingShows_spec rfl hquiet
      obtain ⟨hdone', -, hcalls'⟩ := countingShows_spec rfl hdisturbed
      obtain ⟨-, -, -, hsame⟩ := interruption_transparent hload {} Standard.perform default engine engine 0 0 quiet.1 disturbed.1
        quiet.2 disturbed.2 .start .start ⟨rfl, rfl, rfl, rfl⟩ hcourse hcourse' hunrelated hunrelated' hcalls hcalls'
      exact hsame hdone hdone'
    exact ⟨(countingShows_spec rfl hquiet).2.1, (countingShows_spec rfl hdisturbed).2.1, hunrelated, hunrelated', hlength,
      hsame _ _ (course_along machine _) (course_along machine _) hquiet hdisturbed hunrelated hunrelated'⟩

end Program

end LineScript
