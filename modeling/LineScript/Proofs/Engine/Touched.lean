import LineScript.Proofs.Engine.Ended
import LineScript.Proofs.Engine.Logged
import LineScript.Proofs.Engine.Room

/-!
# What lines touch

A line names new variables while its arguments are expanded, and stores into those that it assigns or that its command asks for;
every other slot stays as it is, and the scratch buffer stays within its ceiling (`Engine.Touches`). This holds of each step of
a machine (`Machine.touches_step`), and so no run of a loaded program ever passes the ceiling (`Machine.Reachable.grows`).
-/

namespace LineScript

namespace Variables

/-- Every slot outside `W` is in another table as it is. -/
def Keeps (W : VarId → Prop) (vars vars' : Variables) : Prop :=
  ∀ (i : VarId) (slot : Slot), ¬ W i → vars.slots[i]? = some slot → vars'.slots[i]? = some slot

variable {W : VarId → Prop} {vars vars' : Variables}

theorem Keeps.refl (vars : Variables) : Keeps W vars vars :=
  fun _ _ _ h => h

theorem Keeps.trans {a b c : Variables} (hab : Keeps W a b) (hbc : Keeps W b c) : Keeps W a c :=
  fun i slot hi h => hbc i slot hi (hab i slot hi h)

/-- Resolving a name keeps all slots. -/
theorem keeps_resolve {name : String} {id : VarId} (h : vars.resolve name = .ok (vars', id)) : Keeps W vars vars' := by
  unfold resolve at h
  split at h
  · cases h
    exact .refl vars
  · obtain ⟨_, -, h⟩ := bind_eq_ok_iff.mp h
    obtain rfl : (vars.intern name).1 = vars' := congrArg Prod.fst (Except.ok.inj h)
    intro i slot _ hslot
    simp only [intern]
    split
    · exact hslot
    · obtain ⟨hi, -⟩ := Array.getElem?_eq_some_iff.mp hslot
      simpa [Array.getElem?_push, Nat.ne_of_lt hi] using hslot

/-- Putting a value into a slot in `W` keeps the others. -/
theorem keeps_put {id : VarId} (hid : W id) (value : Value) : Keeps W vars (vars.put id value) := by
  intro i slot hi hslot
  have hne : i ≠ id := fun heq => hi (heq ▸ hid)
  rw [slot_put_of_ne hne]
  exact hslot

/-- Storing a value into a slot in `W` keeps the others. -/
theorem keeps_set {id : VarId} {value : Value} (hid : W id) (h : vars.set id value = .ok vars') : Keeps W vars vars' := by
  have hput : vars.put id value = vars' := by rw [put, h]
  exact hput ▸ keeps_put hid value

end Variables

namespace Expansion

/-- Looking values up only adds slots. -/
theorem keeps_planAll {W : VarId → Prop} (view : View) (vars : Variables) (args : List Arg) :
    vars.Keeps W (planAll view vars args).1 := by
  have hresolves := resolves_planAll view vars args
  generalize (planAll view vars args).1 = vars' at hresolves
  induction hresolves with
  | refl => exact .refl vars
  | tail _ hresolve ih =>
    obtain ⟨name, id, hresolve⟩ := hresolve
    exact ih.trans (Variables.keeps_resolve hresolve)

end Expansion

namespace Engine

/-- What work of a line touches: slots in `W`, and the scratch buffer within its ceiling. -/
structure Touches (W : VarId → Prop) (engine engine' : Engine) : Prop extends engine.scratch.Grows engine'.scratch where
  vars : engine.vars.Keeps W engine'.vars

variable {W : VarId → Prop}

theorem Touches.refl (engine : Engine) : Touches W engine engine :=
  ⟨.refl _, .refl _⟩

theorem Touches.trans {a b c : Engine} (hab : Touches W a b) (hbc : Touches W b c) : Touches W a c :=
  ⟨hab.toGrows.trans hbc.toGrows, hab.vars.trans hbc.vars⟩

variable (setup : Setup) (engine : Engine) {line : Line} {n : Nat}

theorem touches_onThread (change : Thread → Thread) : Touches W engine (engine.onThread change) := by
  unfold onThread
  split <;> exact ⟨.refl _, .refl _⟩

theorem touches_noteLine (id : LineId) : Touches W engine (engine.noteLine id) := by
  have h := engine.touches_onThread (fun thread => { thread with linesRun := thread.linesRun + 1 }) (W := W)
  exact ⟨h.toGrows, h.vars⟩

theorem touches_advanceLoop : Touches W engine engine.advanceLoop.1 := by
  unfold advanceLoop
  split
  · exact .refl _
  · split
    · exact .refl _
    · exact engine.touches_onThread _

/-- A deed of a command touches the slot it stores into. -/
theorem touches_act {deed : Deed} (h : ∀ var value, deed = .store var value → W var) : Touches W engine (engine.act deed) := by
  cases deed with
  | print | send | wait => exact ⟨.refl _, .refl _⟩
  | store var value => exact ⟨.refl _, Variables.keeps_put (h var value rfl) value⟩
  | append path text =>
    unfold act
    dsimp only
    split <;> exact ⟨.refl _, .refl _⟩
  | declare name =>
    unfold act
    dsimp only
    split
    · rename_i hresolve
      exact ⟨.refl _, Variables.keeps_resolve hresolve⟩
    · exact .refl _

/-- The deeds of a command touch the slots they store into. -/
theorem touches_deeds {deeds : List Deed} (h : ∀ var value, .store var value ∈ deeds → W var) :
    Touches W engine (deeds.foldl act engine) := by
  induction deeds generalizing engine with
  | nil => exact .refl _
  | cons deed rest ih =>
    have hfirst := engine.touches_act fun var value heq => h var value (heq ▸ List.mem_cons_self)
    exact hfirst.trans (ih _ fun var value hmem => h var value (List.mem_cons_of_mem _ hmem))

section

variable (hline : ∀ arg ∈ line.args, arg.Refers n)
include hline

/-- Expanding arguments touches no slot. -/
theorem touches_expand : Touches W engine (engine.expand line).1 := by
  have hplan := Expansion.keeps_planAll engine.view engine.vars line.args (W := W)
  unfold expand Expansion.expand
  cases hplanned : Expansion.planAll engine.view engine.vars line.args with
  | mk vars planned =>
    rw [hplanned] at hplan
    cases planned with
    | error e => exact ⟨.refl _, hplan⟩
    | ok planned =>
      have hsize := Expansion.totalSize_eq (Expansion.fits_planAll hline hplanned)
      simp only
      cases hreserve : engine.scratch.reserve (Expansion.totalSize planned) with
      | error e => exact ⟨.refl _, hplan⟩
      | ok scratch =>
        exact ⟨Scratch.grows_hold (hsize ▸ hreserve), hplan⟩

/-- A statement touches what it touches with its arguments expanded. -/
theorem touches_withArgs {α : Type} {use : Engine → ExpandedArgs → Engine × Except Problem α}
    (h : ∀ after args, engine.expand line = (after, .ok args) → Touches W after (use after args).1) :
    Touches W engine (engine.withArgs line use).1 := by
  have hexpand := engine.touches_expand hline (W := W)
  unfold withArgs
  cases hargs : engine.expand line with
  | mk after args =>
    rw [hargs] at hexpand
    cases args with
    | error e => exact hexpand
    | ok args => exact hexpand.trans (h after args hargs)

theorem touches_condition (cond : Condition) : Touches W engine (engine.condition line cond).1 :=
  engine.touches_withArgs hline fun after _ _ => .refl after

theorem touches_sleepTime : Touches W engine (engine.sleepTime line).1 :=
  engine.touches_withArgs hline fun after _ _ => .refl after

theorem touches_startLoop : Touches W engine (engine.startLoop line).1 :=
  engine.touches_withArgs hline fun after _ _ => .refl after

theorem touches_labelArg : Touches W engine (engine.labelArg setup line).1 := by
  unfold labelArg
  split
  · exact .refl _
  · refine engine.touches_withArgs hline fun after args _ => ?_
    dsimp only
    split
    · exact .refl _
    · split <;> exact .refl _

omit hline in
/-- Finding the target of a jump touches no slot. -/
theorem touches_jumpTarget {id : LineId} (hline : ∀ arg ∈ (setup.script.line id).args, arg.Refers n) :
    Touches W engine (engine.jumpTarget setup id).1 := by
  have hlabel := engine.touches_labelArg setup hline (W := W)
  simp only [jumpTarget]
  cases hfound : engine.labelArg setup (setup.script.line id) with
  | mk after answer =>
    rw [hfound] at hlabel
    cases answer with
    | error problem => exact hlabel
    | ok label? =>
      cases label? with
      | none => exact hlabel
      | some label =>
        dsimp only
        split
        · exact hlabel
        · split <;> exact hlabel

/-- An assignment touches the slot it stores into. -/
theorem touches_assign (op : AssignOp)
    (houtput : ∀ after args var, engine.expand line = (after, .ok args) → args.output? 0 = some var → W var) :
    Touches W engine (engine.assign setup line op).1 := by
  refine engine.touches_withArgs hline fun after args hargs => ?_
  split
  · exact .refl _
  · rename_i var hvar
    split
    · exact .refl _
    · split
      · exact .refl _
      · rename_i hset
        exact ⟨.refl _, Variables.keeps_set (houtput after args var hargs hvar) hset⟩

theorem touches_setTimer : Touches W engine (engine.setTimer setup line).1 := by
  have hlabel := engine.touches_labelArg setup hline (W := W)
  unfold setTimer
  cases hfound : engine.labelArg setup line with
  | mk after answer =>
    rw [hfound] at hlabel
    cases answer with
    | error problem => exact hlabel
    | ok named =>
      dsimp only
      split
      · exact hlabel
      · refine hlabel.trans (after.touches_withArgs hline fun after args _ => ?_)
        split <;> exact ⟨.refl _, .refl _⟩

theorem touches_setOnExit : Touches W engine (engine.setOnExit setup line).1 := by
  have hlabel := engine.touches_labelArg setup hline (W := W)
  unfold setOnExit
  cases hfound : engine.labelArg setup line with
  | mk after answer =>
    rw [hfound] at hlabel
    cases answer with
    | error problem => exact hlabel
    | ok label => exact ⟨hlabel.toGrows, hlabel.vars⟩

theorem touches_suspend : Touches W engine (engine.suspend line).1 := by
  refine engine.touches_withArgs hline fun after args _ => ?_
  split <;> exact ⟨.refl _, .refl _⟩

theorem touches_threadSetting : Touches W engine (engine.threadSetting line).1 := by
  refine engine.touches_withArgs hline fun after args _ => ?_
  dsimp only
  split
  · exact after.touches_onThread _
  · split <;> exact ⟨.refl _, .refl _⟩

/-- Calling a command touches the slots it stores into. -/
theorem touches_call (spec : CommandSpec)
    (hstored : ∀ call ∈ engine.callsOf setup line spec, ∀ var value, .store var value ∈ (setup.perform call).deeds → W var) :
    Touches W engine (engine.call setup line spec).1 := by
  rw [call_eq]
  refine engine.touches_withArgs hline fun after args hargs => ?_
  have hcalls : after.callOf setup spec args ∈ engine.callsOf setup line spec := by
    rw [callsOf, hargs]
    exact List.mem_singleton_self _
  have hdeeds := after.touches_deeds (hstored _ hcalls)
  unfold obey
  dsimp only
  split <;> exact hdeeds.trans (touches_onThread _ _)

end

end Engine

namespace Machine

/-- The next step of a machine stores only into slots in `W`: those that its line assigns, those that its command asks for, and
the error level, which a thread that ends gives back. -/
structure StoresIn (setup : Setup) (W : VarId → Prop) (machine : Machine) : Prop where
  assigned : ∀ id stack op, machine.control = .step id stack → (setup.script.line id).action = .assign op →
    ∀ after args var, machine.engine.expand (setup.script.line id) = (after, .ok args) → args.output? 0 = some var → W var
  stored : ∀ call ∈ machine.calls setup, ∀ var value, .store var value ∈ (setup.perform call).deeds → W var
  errorLevel : W setup.errorLevel

variable {setup : Setup} {W : VarId → Prop} {engine : Engine} {n : Nat}

theorem touches_launch (start : LineId) (label : Option LabelId) (trigger : Trigger) (stack : Stack .thread) :
    engine.Touches W (launch setup engine start label trigger stack).engine := by
  unfold launch Engine.pushThread
  cases trigger.isHotkey <;> exact ⟨.refl _, .refl _⟩

theorem touches_launchExit (label : LabelId) (stack : Stack .thread) :
    engine.Touches W (launchExit setup engine label stack).engine := by
  unfold launchExit launchLabel launch Engine.pushThread
  exact ⟨.refl _, .refl _⟩

/-- A line touches the slots it stores into. -/
theorem touches_runLine (hrefers : ∀ id, ∀ arg ∈ (setup.script.line id).args, arg.Refers n) {id : LineId}
    {stack : Stack .line} (h : StoresIn setup W ⟨engine, .step id stack⟩) :
    engine.Touches W (runLine setup engine id stack).engine := by
  simp only [runLine]
  cases haction : (setup.script.line id).action with
  | blockBegin =>
    simp only
    split <;> exact .refl _
  | blockEnd | otherwise | breakLoop | continueLoop | ret | exit => exact .refl _
  | exitApp =>
    simp only [exitApp]
    split
    · exact touches_launchExit _ _
    · exact ⟨.refl _, .refl _⟩
  | cond cond =>
    have h := engine.touches_condition (hrefers id) cond (W := W)
    simp only
    cases hcond : engine.condition (setup.script.line id) cond with
    | mk engine' answer =>
      rw [hcond] at h
      cases answer with
      | error problem => exact h
      | ok truth =>
        dsimp only
        rw [engine_branch]
        exact h
  | loop =>
    have h := engine.touches_startLoop (hrefers id) (W := W)
    simp only
    cases hloop : engine.startLoop (setup.script.line id) with
    | mk engine' answer =>
      rw [hloop] at h
      cases answer with
      | error problem => exact h
      | ok loop =>
        dsimp only
        split
        · exact h.trans (engine'.touches_onThread _)
        · exact h
  | goto | gosub =>
    have h := engine.touches_jumpTarget setup (hrefers id) (W := W)
    simp only
    cases hjump : engine.jumpTarget setup id with
    | mk engine' answer =>
      rw [hjump] at h
      cases answer <;> exact h
  | sleep =>
    have h := engine.touches_sleepTime (hrefers id) (W := W)
    simp only
    cases hsleep : engine.sleepTime (setup.script.line id) with
    | mk engine' answer =>
      rw [hsleep] at h
      cases answer <;> exact h
  | assign op =>
    simp only [engine_settle]
    exact engine.touches_assign setup (hrefers id) op (h.assigned id stack op rfl haction)
  | setTimer =>
    simp only [engine_settle]
    exact engine.touches_setTimer setup (hrefers id)
  | onExit =>
    simp only [engine_settle]
    exact engine.touches_setOnExit setup (hrefers id)
  | suspend =>
    simp only [engine_settle]
    exact engine.touches_suspend (hrefers id)
  | thread =>
    simp only [engine_settle]
    exact engine.touches_threadSetting (hrefers id)
  | command cmd =>
    dsimp only
    split <;> exact ⟨.refl _, .refl _⟩

/-- Going on with a run touches no slot. -/
theorem touches_walk (cur level : Option LineId) (mode : Mode) (stack : Stack .run) :
    engine.Touches W (walk setup engine cur level mode stack).engine := by
  unfold walk
  split
  · exact ⟨.refl _, .refl _⟩
  · rename_i id
    have hnote := engine.touches_noteLine id (W := W)
    dsimp only
    split
    · split <;> exact ⟨.refl _, .refl _⟩
    · split
      · exact ⟨hnote.toGrows, hnote.vars⟩
      · exact hnote

/-- What follows a line touches no slot. -/
theorem touches_afterLine (answer : Except RuntimeError (Flow × Option LineId)) (level : Option LineId) (mode : Mode)
    (stack : Stack .run) : engine.Touches W (afterLine setup engine answer level mode stack).engine := by
  unfold afterLine
  split
  · exact ⟨.refl _, .refl _⟩
  · split
    · exact ⟨.refl _, .refl _⟩
    · split
      · split <;> exact ⟨.refl _, .refl _⟩
      · split <;> exact ⟨.refl _, .refl _⟩
      · split <;> exact ⟨.refl _, .refl _⟩
      · exact ⟨.refl _, .refl _⟩

/-- Ending a thread touches the error level at most. -/
theorem touches_popThread (herror : W setup.errorLevel) (waiting : Bool) :
    engine.Touches W (engine.popThread setup waiting) := by
  unfold Engine.popThread
  split
  · exact ⟨.refl _, .refl _⟩
  · exact ⟨Scratch.grows_release _ _, Variables.keeps_put herror _⟩

/-- What follows a run touches the error level at most. -/
theorem touches_afterRun (herror : W setup.errorLevel) (answer : Except RuntimeError Flow) (stack : Stack .run) :
    engine.Touches W (afterRun setup engine answer stack).engine := by
  have hpop := @touches_popThread setup W engine herror
  cases stack with
  | body after rest =>
    simp only [afterRun, afterBody]
    split <;> exact .refl _
  | loop id body rest =>
    simp only [afterRun, afterRound]
    split
    · exact engine.touches_onThread _
    · exact .refl _
    · exact .refl _
    · exact engine.touches_onThread _
    · exact engine.touches_onThread _
  | thread mode waiting rest =>
    simp only [afterRun, afterThread]
    split
    · exact .refl _
    all_goals exact ⟨(hpop waiting).toGrows, (hpop waiting).vars⟩

/-- What follows a look at the queue touches no slot. -/
theorem touches_afterPoll (ran : Nat) (stack : Stack .queue) : engine.Touches W (afterPoll setup engine ran stack).engine := by
  cases stack with
  | hostQueue | tick => exact .refl _
  | hostIdle deadline =>
    simp only [afterPoll]
    split <;> exact ⟨.refl _, .refl _⟩
  | sleep id deadline waiting rest =>
    simp only [afterPoll, afterSlice]
    split <;> exact ⟨.refl _, .refl _⟩
  | command id cmd waiting rest =>
    simp only [afterPoll]
    split <;> exact ⟨.refl _, .refl _⟩

/-- Each step touches the slots it stores into, and no others. -/
theorem touches_step (hrefers : ∀ id, ∀ arg ∈ (setup.script.line id).args, arg.Refers n) {machine : Machine}
    (h : StoresIn setup W machine) : machine.engine.Touches W (machine.step setup).engine := by
  obtain ⟨engine, control⟩ := machine
  cases control with
  | enter start mode stack =>
    simp only [Machine.step]
    split <;> exact ⟨.refl _, .refl _⟩
  | walk cur level mode stack => exact touches_walk cur level mode stack
  | reach id level mode stack =>
    simp only [Machine.step]
    split <;> exact ⟨.refl _, .refl _⟩
  | step id stack => exact touches_runLine hrefers h
  | call id cmd stack =>
    have hengine : (Machine.step setup ⟨engine, .call id cmd stack⟩).engine =
      (engine.call setup (setup.script.line id) (setup.script.commands.get cmd)).1 := engine_callCommand cmd
    rw [hengine]
    exact engine.touches_call setup (hrefers id) _ h.stored
  | round id body stack =>
    have hadvance := engine.touches_advanceLoop (W := W)
    simp only [Machine.step]
    cases hround : engine.advanceLoop with
    | mk engine' answer =>
      rw [hround] at hadvance
      have hpop := hadvance.trans (engine'.touches_onThread fun thread => { thread with loops := thread.loops.tail })
      cases answer with
      | error problem => exact hpop
      | ok goesOn =>
        cases goesOn with
        | false => exact hpop
        | true => exact hadvance
  | sleep id deadline stack => exact ⟨.refl _, .refl _⟩
  | poll ran stack =>
    simp only [Machine.step]
    split
    · exact .refl _
    · split
      · exact .refl _
      · rename_i rest _
        split
        · have hqueue : engine.Touches W { engine with queue := rest } := ⟨.refl _, .refl _⟩
          exact hqueue.trans (touches_launch _ _ _ _)
        · exact ⟨.refl _, .refl _⟩
        · exact .refl _
  | idle deadline =>
    simp only [Machine.step]
    split <;> exact ⟨.refl _, .refl _⟩
  | ran answer stack => exact touches_afterRun h.errorLevel answer stack
  | stepped answer stack =>
    cases stack with
    | line mark level mode rest =>
      have hafter := @touches_afterLine setup W { engine with scratch := engine.scratch.release mark } answer level mode rest
      exact ⟨(Scratch.grows_release _ mark).trans hafter.toGrows, hafter.vars⟩
  | polled ran stack => exact touches_afterPoll ran stack
  | ended stack => cases stack <;> exact ⟨.refl _, .refl _⟩
  | done ran => exact .refl _

/-- What a host asks for touches no slot. -/
theorem touches_start (call : HostCall) : engine.Touches W (call.start setup engine).engine := by
  cases call with
  | autoExecute =>
    simp only [HostCall.start, HostCall.autoExecuteOn]
    split
    · exact touches_launch _ _ _ _
    · exact .refl _
  | dispatch trigger =>
    simp only [HostCall.start, HostCall.dispatchOn]
    split
    · exact touches_launch _ _ _ _
    · exact ⟨.refl _, .refl _⟩
    · exact .refl _
  | send | runPending | fireTimers | idle => exact ⟨.refl _, .refl _⟩
  | exitApp =>
    simp only [HostCall.start, HostCall.exitAppOn]
    split
    · exact .refl _
    · split
      · exact touches_launchExit _ _
      · exact ⟨.refl _, .refl _⟩

/-- Whatever happens next, the scratch buffer of a loaded program stays within its ceiling. -/
theorem Move.grows (hrefers : ∀ id, ∀ arg ∈ (setup.script.line id).args, arg.Refers n) {machine machine' : Machine}
    (h : Move setup machine machine') : machine.engine.scratch.Grows machine'.engine.scratch := by
  cases h with
  | step hnext =>
    obtain ⟨now, ⟨world, triggers, rfl⟩, rfl⟩ := hnext
    have hall : StoresIn setup (fun _ => True) (machine.later world triggers) :=
      ⟨fun _ _ _ _ _ _ _ _ _ _ => trivial, fun _ _ _ _ _ => trivial, trivial⟩
    exact (touches_step hrefers hall).toGrows
  | call call => exact (@touches_start setup (fun _ => True) _ call).toGrows
  | taken => exact .refl _

/-- Whatever the host calls lead to, the scratch buffer is what may become of the first one. -/
theorem Reachable.grows (hrefers : ∀ id, ∀ arg ∈ (setup.script.line id).args, arg.Refers n) {machine : Machine}
    (h : Reachable setup engine machine) : engine.scratch.Grows machine.engine.scratch := by
  induction h with
  | start => exact .refl _
  | step _ hnext ih => exact ih.trans (Move.grows hrefers (.step hnext))
  | call _ call ih => exact ih.trans (Move.grows hrefers (.call call))
  | taken _ ih => exact ih

/-- The scratch buffer of a loaded program stays within its ceiling, whatever the host calls lead to. -/
theorem Reachable.room (hrefers : ∀ id, ∀ arg ∈ (setup.script.line id).args, arg.Refers n) {machine : Machine}
    (h : Reachable setup engine machine) (hroom : engine.scratch.Room) :
    machine.engine.scratch.Room ∧ machine.engine.scratch.limit = engine.scratch.limit :=
  ⟨(h.grows hrefers).room hroom, (h.grows hrefers).limit_eq⟩

end Machine

end LineScript
