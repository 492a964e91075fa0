import LineScript.Proofs.Engine.Apart

/-!
# A run against the program alone

At each moment a run of a program stands in one of four ways to the course the program would take alone (`Machine.Phase`): it
follows that course; a routine has interrupted it and works apart from it; the program has asked for its end and its exit routine
runs; or it is gone. A step of the run is a step of the program alone, or does nothing of the program (`Machine.Phase.step`).
-/

namespace LineScript

namespace Control

/-- The course of the program alone has come to its end. -/
def IsOver : Control → Prop
  | .ended .host | .done _ => True
  | _ => False

/-- The program is left: nothing of it runs any more. -/
def Leaves : Control → Prop
  | .stepped (.ok (.exit, _)) stack | .stepped (.ok (.exitApp, _)) stack => stack.IsMain
  | .ran (.ok .exit) stack | .ran (.ok .exitApp) stack => stack.IsMain
  | .ended .host | .done _ => True
  | _ => False

end Control

namespace Machine

variable {setup : Setup} {V W : VarId → Prop} {alone machine : Machine} {n : Nat}

/-- Only the program itself runs. -/
def isMain (machine : Machine) : Bool :=
  machine.engine.threads.length == 1

/-- A routine runs that has interrupted the program, and the program is not about to end. -/
def isRoutine (machine : Machine) : Bool :=
  decide (1 < machine.engine.threads.length) && !machine.engine.exitRunning

/-- What the program itself does in the next step. -/
def ownDoings (setup : Setup) (machine : Machine) : List Doing :=
  if machine.isMain then machine.doings setup else []

/-- A machine that is at no line does nothing that shows. -/
theorem doings_of_line? (h : machine.control.line? = none) : machine.doings setup = [] := by
  obtain ⟨engine, control⟩ := machine
  cases control with
  | step | call => cases h
  | _ => rfl

/-- A machine that calls a command is at a line. -/
theorem line?_of_mem_calls {call : Call} (h : call ∈ machine.calls setup) : ∃ id, machine.control.line? = some id := by
  obtain ⟨engine, control⟩ := machine
  cases control with
  | call id => exact ⟨id, rfl⟩
  | _ => cases h

/-- Lines of other threads are no doings of the program. -/
theorem ownDoings_of_line (h : ∀ id, machine.control.line? = some id → 1 < machine.engine.threads.length) :
    machine.ownDoings setup = [] := by
  unfold ownDoings
  split
  · rename_i hmain
    refine doings_of_line? (Option.eq_none_iff_forall_ne_some.mpr fun id hid => ?_)
    have hone : machine.engine.threads.length = 1 := by simpa [isMain] using hmain
    exact absurd (h id hid) (by omega)
  · rfl

/-- A program that is over stays over. -/
theorem control_stepAlone_of_isOver (h : alone.control.IsOver) : (alone.stepAlone setup).control.IsOver := by
  obtain ⟨engine, control⟩ := alone
  cases control with
  | ended stack =>
    cases stack with
    | host => exact trivial
    | _ => exact h.elim
  | done => exact trivial
  | _ => exact h.elim

/-- A program that is over does nothing that shows. -/
theorem doings_of_isOver (h : alone.control.IsOver) : alone.doings setup = [] := by
  obtain ⟨engine, control⟩ := alone
  cases control with
  | ended | done => rfl
  | _ => exact h.elim

/-- A program that is left stays so. -/
theorem leaves_step (h : machine.control.Leaves) : (machine.step setup).control.Leaves := by
  obtain ⟨engine, control⟩ := machine
  cases control with
  | stepped answer stack =>
    cases stack with
    | line mark level mode rest =>
      simp only [step, afterLine]
      split
      · exact h.elim
      · rename_i flow next
        cases flow with
        | exit =>
          have hmain : rest.IsMain := h
          split <;> exact hmain
        | exitApp =>
          have hmain : rest.IsMain := h
          split <;> exact hmain
        | _ => exact h.elim
  | ran answer stack =>
    cases answer with
    | error e => exact h.elim
    | ok flow =>
      cases flow with
      | exit | exitApp =>
        have hmain : stack.IsMain := h
        cases stack with
        | body | loop => exact hmain
        | thread mode waiting rest =>
          obtain rfl : rest = .host := hmain
          exact trivial
      | _ => exact h.elim
  | ended stack =>
    cases stack with
    | host => exact trivial
    | _ => exact h.elim
  | done => exact trivial
  | _ => exact h.elim

/-- What is asked of a machine before its next step: the program itself names its variables, all of them in `V`, and calls
commands that depend on their arguments alone; a routine stores only into slots in `W`, appends to no file, and does not end the
program. -/
structure Behaves (setup : Setup) (V W : VarId → Prop) (machine : Machine) : Prop where
  plain : machine.isMain = true → IsPlain setup V machine.control
  exit : machine.isRoutine = true → ∀ id stack, machine.control = .step id stack → (setup.script.line id).action ≠ .exitApp
  stores : machine.isRoutine = true → StoresIn setup W machine
  appends : machine.isRoutine = true → ∀ call ∈ machine.calls setup, ∀ path text,
    .append path text ∉ (setup.perform call).deeds

/-- How a machine stands to the course of the program alone. -/
inductive Phase (setup : Setup) (V W : VarId → Prop) (alone machine : Machine) : Prop
  /-- It follows the course. -/
  | follows (h : Follows setup V alone machine) (hgoesOn : GoesOn machine)
  /-- A routine has interrupted it at a look at the queue, and works apart from the program. -/
  | apart {before : Engine} {ran : Nat} {stack : Stack .queue} (h : Follows setup V alone ⟨before, .poll ran stack⟩)
    (hbefore : before.terminated = false) (howes : Owes setup (.queue ran stack) (· = before.held setup) machine)
    (hapart : before.Apart W machine.engine) (hgoesOn : GoesOn machine)
  /-- The program asks for its end, and its exit routine runs. -/
  | leaving {stack : Stack .line} (hover : alone.control.IsOver) (hmain : stack.IsMain)
    (howes : Owes setup (.exitRoutine stack) (1 ≤ ·.threads.length) machine)
  /-- The program is over. -/
  | gone (hover : alone.control.IsOver) (h : machine.control.Leaves)

namespace Phase

/-- Time that passes and triggers that arrive do not show. -/
theorem later (h : Phase setup V W alone machine) (now : Nat) (triggers : List Trigger) :
    Phase setup V W alone (machine.later { machine.engine.world with now := now } triggers) := by
  cases h with
  | follows h hgoesOn => exact .follows (h.later now triggers) ⟨hgoesOn.terminated_eq, hgoesOn.exitRunning_eq, hgoesOn.asks_eq⟩
  | apart h hbefore howes hapart hgoesOn =>
    refine .apart h hbefore howes ⟨?_, hapart.vars, hapart.files_eq, hapart.registry_eq⟩
      ⟨hgoesOn.terminated_eq, hgoesOn.exitRunning_eq, hgoesOn.asks_eq⟩
    exact ⟨hapart.touches.toGrows, hapart.touches.vars⟩
  | leaving hover hmain howes => exact .leaving hover hmain howes
  | gone hover h => exact .gone hover h

section

variable {starts : List Start} (hrefers : ∀ id, ∀ arg ∈ (setup.script.line id).args, arg.Refers n)
  (hstacked : Stacked setup machine starts) (hown : machine.engine.vars.IsOwn setup.errorLevel)
  (hbehaves : Behaves setup V W machine)

/-- The step of a phase: either the program alone waits and nothing is done of it, or it takes a step and that is what is done. -/
def Steps (setup : Setup) (V W : VarId → Prop) (alone machine : Machine) : Prop :=
  (Phase setup V W alone (machine.step setup) ∧ machine.ownDoings setup = []) ∨
    (Phase setup V W (alone.stepAlone setup) (machine.step setup) ∧ machine.ownDoings setup = alone.doings setup)

include hstacked in
/-- A machine that rests waits for the program's next step, or is interrupted. -/
theorem steps_of_rests (h : Follows setup V alone machine) (hgoesOn : GoesOn machine)
    (hrests : machine.control.rests = true) : Steps setup V W alone machine := by
  have hnone : machine.control.line? = none := by
    cases hcontrol : machine.control with
    | sleep | poll | polled => rfl
    | _ =>
      rw [hcontrol] at hrests
      cases hrests
  have hgoesOn' : GoesOn (machine.step setup) := by
    refine hgoesOn.step hstacked fun id stack hcontrol => ?_
    rw [hcontrol] at hnone
    cases hnone
  refine .inl ⟨?_, ownDoings_of_line fun id hid => by rw [hnone] at hid; cases hid⟩
  rcases h.step_of_rests hrests hgoesOn.terminated_eq with hfollows | ⟨ran, stack, label, trigger, rest, hcontrol, hstep⟩
  · exact .follows hfollows hgoesOn'
  · rw [hstep] at hgoesOn' ⊢
    have hbefore : Follows setup V alone ⟨{ machine.engine with queue := rest }, .poll ran stack⟩ :=
      ⟨{ h.seen with }, hcontrol ▸ h.control_eq, hcontrol ▸ h.main⟩
    have hsteady := Engine.steady_pushThread setup { machine.engine with queue := rest } (some label) trigger
    exact .apart hbefore hgoesOn.terminated_eq (owes_launch (.base rfl))
      ⟨touches_launch _ _ _ _, (Engine.carries_pushThread setup _ _ _).vars, hsteady.files_eq, hsteady.registry_eq⟩ hgoesOn'

include hrefers hstacked hbehaves in
/-- A machine that does not rest takes the program's next step; with an `ExitApp` the program is over. -/
theorem steps_of_awake (h : Follows setup V alone machine) (hgoesOn : GoesOn machine)
    (hawake : machine.control.rests = false) : Steps setup V W alone machine := by
  have hmain : machine.isMain = true := by
    obtain ⟨_, thread, _, hthreads, _⟩ := h.seen.threads
    rw [isMain, hthreads]
    rfl
  have hplain := hbehaves.plain hmain
  have hdoings : machine.ownDoings setup = alone.doings setup := by
    rw [ownDoings, if_pos hmain]
    exact h.doings_eq hrefers hawake hplain
  refine .inr ⟨?_, hdoings⟩
  by_cases hends : ∃ id stack, machine.control = .step id stack ∧ (setup.script.line id).action = .exitApp
  · obtain ⟨id, stack, hcontrol, haction⟩ := hends
    have hover : (alone.stepAlone setup).control.IsOver := by
      unfold stepAlone
      rw [h.control_eq_of_awake hawake, hcontrol]
      dsimp only
      rw [if_pos haction]
      trivial
    have hstack : stack.IsMain := by
      have := h.main
      rwa [hcontrol] at this
    have hstep : machine.step setup = exitApp setup machine.engine stack := by
      simp only [Machine.step, hcontrol, runLine, haction]
    have hthread : 1 ≤ machine.engine.threads.length := by
      obtain ⟨_, thread, _, hthreads, _⟩ := h.seen.threads
      rw [hthreads]
      exact Nat.le_refl _
    rw [hstep]
    unfold exitApp
    split
    · exact .leaving hover hstack (owes_launch (.base hthread))
    · exact .gone hover hstack
  · have hexit : ∀ id stack, machine.control = .step id stack → (setup.script.line id).action ≠ .exitApp :=
      fun id stack hcontrol haction => hends ⟨id, stack, hcontrol, haction⟩
    rcases h.step_of_awake hrefers hawake hplain hexit with hfollows | ⟨hended, hended'⟩
    · exact .follows hfollows (hgoesOn.step hstacked hexit)
    · refine .gone ?_ ?_
      · rw [hended]
        trivial
      · rw [hended']
        trivial

include hrefers hstacked hown hbehaves in
/-- A routine works apart from the program until it ends, and then the program goes on. -/
theorem steps_of_apart {before : Engine} {ran : Nat} {stack : Stack .queue}
    (h : Follows setup V alone ⟨before, .poll ran stack⟩) (hbefore : before.terminated = false)
    (howes : Owes setup (.queue ran stack) (· = before.held setup) machine) (hapart : before.Apart W machine.engine)
    (hgoesOn : GoesOn machine) (hV : ∀ v, V v → W v → v = setup.errorLevel) (hW : W setup.errorLevel) :
    Steps setup V W alone machine := by
  have hthreads : before.threads.length = 1 := by
    obtain ⟨_, thread, _, hthreads, _⟩ := h.seen.threads
    exact congrArg List.length hthreads
  have habove : ∀ id, machine.control.line? = some id → 1 < machine.engine.threads.length := by
    intro id hid
    refine howes.lt_length_threads (fun held hheld => ?_) hid
    rw [hheld]
    exact Nat.le_of_eq hthreads.symm
  have hroutine : ∀ id, machine.control.line? = some id → machine.isRoutine = true := by
    intro id hid
    simp [isRoutine, habove id hid, hgoesOn.exitRunning_eq]
  have hexit : ∀ id stack, machine.control = .step id stack → (setup.script.line id).action ≠ .exitApp :=
    fun id stack hcontrol => hbehaves.exit (hroutine id (hcontrol ▸ rfl)) id stack hcontrol
  have hstores : StoresIn setup W machine := by
    refine ⟨fun id stack op hcontrol => ?_, fun call hcall => ?_, hW⟩
    · exact (hbehaves.stores (hroutine id (hcontrol ▸ rfl))).assigned id stack op hcontrol
    · obtain ⟨id, hid⟩ := line?_of_mem_calls hcall
      exact (hbehaves.stores (hroutine id hid)).stored call hcall
  have hsteady : machine.engine.Steady (machine.step setup).engine := by
    refine steady_step hgoesOn.asks_eq (hgoesOn.endsExit_eq hstacked) hexit fun call hcall => ?_
    obtain ⟨id, hid⟩ := line?_of_mem_calls hcall
    exact hbehaves.appends (hroutine id hid) call hcall
  have hgoesOn' := hgoesOn.step hstacked hexit
  refine .inl ⟨?_, ownDoings_of_line habove⟩
  by_cases hanswered : machine.control.answered? = some ⟨.thread, .queue ran stack⟩
  · obtain ⟨engine, control⟩ := machine
    obtain rfl := Control.eq_ended hanswered
    have hheld : engine.held setup = before.held setup := howes.goal_of_eq rfl
    exact .follows (h.resume hapart hheld (hgoesOn.terminated_eq.trans hbefore.symm) hV) hgoesOn'
  · have hgoal {held held' : Held} (hheld : held = before.held setup) (hsame : Held.Alike .thread held held') :
        held' = before.held setup := Eq.trans hsame hheld
    exact .apart h hbefore (howes.step hgoal hown hanswered) (hapart.trans (apart_step hrefers hstores hsteady)) hgoesOn'

include hown in
/-- The exit routine runs until it ends, and then the program is left. -/
theorem steps_of_leaving {stack : Stack .line} (hover : alone.control.IsOver) (hmain : stack.IsMain)
    (howes : Owes setup (.exitRoutine stack) (1 ≤ ·.threads.length) machine) : Steps setup V W alone machine := by
  refine .inl ⟨?_, ownDoings_of_line fun id hid => howes.lt_length_threads (fun _ hheld => hheld) hid⟩
  by_cases hanswered : machine.control.answered? = some ⟨.thread, .exitRoutine stack⟩
  · obtain ⟨engine, control⟩ := machine
    obtain rfl := Control.eq_ended hanswered
    refine .gone hover ?_
    simp only [Machine.step, afterEnd]
    split <;> exact hmain
  · exact .leaving hover hmain (howes.step (fun hheld hsame => hsame ▸ hheld) hown hanswered)

/-- When the program is over and the machine unwinds, both go on so. -/
theorem steps_of_gone (hover : alone.control.IsOver) (h : machine.control.Leaves) : Steps setup V W alone machine := by
  refine .inl ⟨.gone hover (leaves_step h), ownDoings_of_line fun id hid => ?_⟩
  obtain ⟨engine, control⟩ := machine
  cases control with
  | step | call => exact h.elim
  | _ => cases hid

include hrefers hstacked hown hbehaves in
/-- Each step of a machine is one of the program alone, or does nothing of the program. -/
theorem step (h : Phase setup V W alone machine) (hV : ∀ v, V v → W v → v = setup.errorLevel) (hW : W setup.errorLevel) :
    Steps setup V W alone machine := by
  cases h with
  | follows h hgoesOn =>
    cases hrests : machine.control.rests with
    | true => exact steps_of_rests hstacked h hgoesOn hrests
    | false => exact steps_of_awake hrefers hstacked hbehaves h hgoesOn hrests
  | apart h hbefore howes hapart hgoesOn =>
    exact steps_of_apart hrefers hstacked hown hbehaves h hbefore howes hapart hgoesOn hV hW
  | leaving hover hmain howes => exact steps_of_leaving hown hover hmain howes
  | gone hover h => exact steps_of_gone hover h

end

end Phase

end Machine

end LineScript
