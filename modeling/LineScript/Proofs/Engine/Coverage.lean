import LineScript.Proofs.Engine.Reachable
import LineScript.Proofs.Load.Enclosing

/-!
# Runs that take jumps

A jump is handed up the stack until a run of lines on the target's level takes it. Whatever line a machine runs, every block
around the line has such a run on the stack, and no loop that starts before the block is left on the way to it
(`Stack.Catches`). This is kept by each step (`Machine.Sound.step`), so it holds of every reachable machine.
-/

namespace LineScript

namespace Script

variable {script : Script} {last : Nat} {layout : Layout} (h : script.LaidOut last layout) {b id : Nat}
include h

/-- The line a run goes on with is in no block that the line before it is not in. -/
theorem LaidOut.inBlock_of_follows {s : Nat} (hf : script.Follows id (some s)) (hb : script.InBlock b s) :
    script.InBlock b id := by
  have howner : script.IsOwner id → script.shapeAt id = .cond ∨ script.shapeAt id = .otherwise ∨ script.shapeAt id = .loop := by
    rintro (hif | helse | hloop)
    · exact .inl ((Program.shape_eq_cond_iff _ _).mpr hif)
    · exact .inr (.inl ((Program.shape_eq_otherwise_iff _ _).mpr helse))
    · exact .inr (.inr (by simp [shapeAt, hloop, Program.shape]))
  generalize hs : some s = next at hf
  cases hf with
  | next hne => exact h.inBlock_of_next (fun hshape => hne ((Program.shape_eq_opening_iff _ _).mp hshape)) hs.symm hb
  | related hown => exact h.inBlock_of_related (howner hown) hs.symm hb
  | otherwise hif helse =>
    obtain ⟨hrel, hother⟩ := Option.filter_eq_some_iff.mp helse
    have hshape := (Program.shape_eq_otherwise_iff script.commands _).mpr (beq_iff_eq.mp hother)
    exact h.inBlock_of_related (howner (.inl hif)) hrel (h.inBlock_of_related (.inr (.inl hshape)) hs.symm hb)
  | block hblock => exact h.inBlock_of_block ((Program.shape_eq_opening_iff _ _).mpr hblock) hs.symm hb

/-- A jump that is valid enters no block. -/
theorem LaidOut.inBlock_of_isJumpValid {target : Nat} (hvalid : script.isJumpValid id target = true)
    (hb : script.InBlock b target) : script.InBlock b id := by
  have hup : ∀ fuel level, script.encloses (script.line target).parent fuel level = true → script.InBlockLevel b level := by
    intro fuel
    induction fuel with
    | zero =>
      intro level hlevel
      rw [show level = _ from beq_iff_eq.mp hlevel]
      exact h.inBlock_iff.mp hb
    | succ fuel ih =>
      intro level hlevel
      unfold encloses at hlevel
      split at hlevel
      · rename_i heq
        rw [beq_iff_eq.mp heq]
        exact h.inBlock_iff.mp hb
      · split at hlevel
        · exact .inr (h.inBlock_iff.mpr (ih _ hlevel))
        · cases hlevel
  exact h.inBlock_iff.mpr (hup _ _ hvalid)

/-- A run that a line opens starts in the blocks that the line is in, or in the block that the line itself is. -/
theorem LaidOut.inBlock_of_opens (hjumps : ∀ {id target}, (script.line id).action = .gosub → script.Jumps id target →
      script.isJumpValid id target = true) {start : Nat} {mode : Mode} (ho : script.Opens id start mode)
    (hb : script.InBlock b start) :
    script.InBlock b id ∨ (script.line start).parent = some b ∧ mode ≠ .oneStatement := by
  cases ho with
  | block hblock hnext =>
    have hshape := (Program.shape_eq_opening_iff script.commands _).mpr hblock
    have hparent : (script.line start).parent = some id := by
      have hle : id ≤ last := h.le_last_of_shape (by rw [shapeAt, hshape]; simp)
      rw [h.next_eq id hle] at hnext
      split at hnext
      · obtain rfl := Option.some.inj hnext
        exact h.parent_in_block hshape
      · cases hnext
    have hb := h.inBlock_iff.mp hb
    rw [hparent] at hb ⊢
    rcases hb with ⟨rfl, -⟩ | hb
    · exact .inr ⟨rfl, fun h => by cases h⟩
    · exact .inl hb
  | body hif hnext =>
    refine .inl (h.inBlock_of_follows (hnext ▸ Follows.next fun hblock => ?_) hb)
    simp [isIfFamily, hblock, isConditional] at hif
  | otherwise hif helse hnext =>
    obtain ⟨hrel, hother⟩ := Option.filter_eq_some_iff.mp helse
    have hother := beq_iff_eq.mp hother
    have hb := h.inBlock_of_follows (hnext ▸ Follows.next (by simp [hother])) hb
    exact .inl (h.inBlock_of_follows (hrel ▸ Follows.related (.inl hif)) hb)
  | routine hgosub hjump => exact .inl (h.inBlock_of_isJumpValid (hjumps hgosub hjump) hb)

end Script

namespace Stack

/-- Going down a stack, a run that takes jumps into the block at `b` comes before any loop that starts before the block. Below
the running thread there is nothing to leave. -/
def Catches (b : LineId) : {a : Awaited} → Stack a → Prop
  | _, .line _ level mode rest => (level = some b ∧ mode ≠ .oneStatement) ∨ Catches b rest
  | _, .body _ rest => Catches b rest
  | _, .loop id _ rest => ¬ id < b ∧ Catches b rest
  | _, _ => True

/-- For every block around a line, a stack has a run that takes jumps into the block. -/
def Covers (script : Script) (stack : Stack .line) (id : LineId) : Prop :=
  ∀ b, script.InBlock b id → stack.Catches b

/-- Every frame of a stack goes on with a line that the stack below covers, and every run covers the lines of its level. -/
def Sound (script : Script) : {a : Awaited} → Stack a → Prop
  | _, .thread _ _ rest => Sound script rest
  | _, .line mark level mode rest =>
    Sound script rest ∧ ∀ b, script.InBlockLevel b level → Catches b (.line mark level mode rest)
  | _, .body after rest => Sound script rest ∧ ∀ s, after = some s → Covers script rest s
  | _, .loop id first rest =>
    Sound script rest ∧ (script.line id).action = .loop ∧ (script.line id).next = some first ∧ Covers script rest id
  | _, .tick id level mode rest =>
    Sound script rest ∧ (∀ b, script.InBlockLevel b level → Catches b (.line 0 level mode rest)) ∧
      (script.line id).action ≠ .blockEnd ∧ Covers script (.line 0 level mode rest) id
  | _, .sleep id _ _ rest => Sound script rest ∧ (script.line id).action = .sleep ∧ Covers script rest id
  | _, .command id cmd _ rest => Sound script rest ∧ (script.line id).action = .command cmd ∧ Covers script rest id
  | _, .queue _ rest => Sound script rest
  | _, .exitRoutine rest => Sound script rest
  | _, .host | _, .hostQueue | _, .hostExit | _, .hostIdle _ => True

end Stack

/-- What a machine does next fits its stack: the line it comes to is covered. -/
def Control.Sound (script : Script) : Control → Prop
  | .enter start mode stack =>
    stack.Sound script ∧ Stack.Covers script (.line 0 (script.line start).parent mode stack) start
  | .walk cur level mode stack =>
    (Stack.line 0 level mode stack).Sound script ∧ ∀ s, cur = some s → Stack.Covers script (.line 0 level mode stack) s
  | .reach id level mode stack => (Stack.tick id level mode stack).Sound script
  | .step id stack => stack.Sound script ∧ (script.line id).action ≠ .blockEnd ∧ stack.Covers script id
  | .call id cmd stack => (Stack.command id cmd false stack).Sound script
  | .round id body stack => (Stack.loop id body stack).Sound script
  | .sleep id deadline stack => (Stack.sleep id deadline false stack).Sound script
  | .poll _ stack | .polled _ stack => stack.Sound script
  | .ran _ stack => stack.Sound script
  | .stepped answer stack => stack.Sound script ∧ ∀ s, answer = .ok (.normal, some s) → stack.Covers script s
  | .ended stack => stack.Sound script
  | .idle _ | .done _ => True

namespace Machine

/-- A machine whose stack covers the line it comes to. -/
def Sound (setup : Setup) (machine : Machine) : Prop :=
  machine.control.Sound setup.script

section

variable {setup : Setup} {engine : Engine}

/-- A thread that is launched starts on a stack that covers its first line. -/
theorem sound_launch {start : LineId} {label : Option LabelId} {trigger : Trigger} {stack : Stack .thread}
    (h : stack.Sound setup.script) : Sound setup (launch setup engine start label trigger stack) :=
  ⟨h, fun _ _ => .inr trivial⟩

/-- What a host asks for starts on a stack that covers its first line. -/
theorem sound_start (call : HostCall) : Sound setup (call.start setup engine) := by
  cases call with
  | autoExecute =>
    simp only [HostCall.start, HostCall.autoExecuteOn]
    split
    · exact sound_launch trivial
    · trivial
  | dispatch trigger =>
    simp only [HostCall.start, HostCall.dispatchOn]
    split
    · exact sound_launch trivial
    · trivial
    · trivial
  | runPending => exact (trivial : Stack.hostQueue.Sound setup.script)
  | send trigger | fireTimers now | idle ms => trivial
  | exitApp =>
    simp only [HostCall.start, HostCall.exitAppOn]
    split
    · trivial
    · split
      · exact sound_launch trivial
      · trivial

variable {last : Nat} {layout : Layout} (hlaid : setup.script.LaidOut last layout)
  (hjumps : ∀ {id target : LineId}, (setup.script.line id).action = .goto ∨ (setup.script.line id).action = .gosub →
    setup.script.Jumps id target → setup.script.isJumpValid id target = true)
include hlaid

/-- A stack that covers a line covers the line that a run goes on with. -/
theorem covers_of_follows {id s : LineId} {stack : Stack .line} (hid : stack.Covers setup.script id)
    (hf : setup.script.Follows id (some s)) : stack.Covers setup.script s :=
  fun b hb => hid b (hlaid.inBlock_of_follows hf hb)

include hjumps in
/-- Whatever a covered line comes to, what is done next fits the stack. -/
theorem sound_outcome {id : LineId} {stack : Stack .line} {machine : Machine} (hstack : stack.Sound setup.script)
    (hid : stack.Covers setup.script id) (hout : Outcome setup engine id stack machine) : Sound setup machine := by
  cases hout with
  | failed => exact ⟨hstack, fun _ h => by cases h⟩
  | wentOn _ hf =>
    refine ⟨hstack, fun s hs => ?_⟩
    cases hs
    exact covers_of_follows hlaid hid hf
  | diverted => exact ⟨hstack, fun s hs => by cases hs⟩
  | opened _ ho hf =>
    refine ⟨⟨hstack, fun s hs => covers_of_follows hlaid hid (hs ▸ hf)⟩, fun b hb => ?_⟩
    rcases hlaid.inBlock_of_opens (fun hgosub => hjumps (.inr hgosub)) ho hb with hb | hb
    · exact .inr (hid b hb)
    · exact .inl hb
  | looped _ hloop hnext => exact ⟨hstack, hloop, hnext, hid⟩
  | slept _ hsleep => exact ⟨hstack, hsleep, hid⟩
  | called hcmd => exact ⟨hstack, hcmd, hid⟩
  | waited hcmd => exact ⟨hstack, hcmd, hid⟩
  | exiting => exact sound_launch hstack

/-- A run that goes on at a covered line leaves a stack that covers it. -/
theorem sound_walk {cur level : Option LineId} {mode : Mode} {stack : Stack .run}
    (hstack : (Stack.line 0 level mode stack).Sound setup.script)
    (hcur : ∀ s, cur = some s → Stack.Covers setup.script (.line 0 level mode stack) s) :
    Sound setup (walk setup engine cur level mode stack) := by
  cases cur with
  | none => exact hstack.1
  | some id =>
    have hid := hcur id rfl
    simp only [walk]
    split
    · rename_i hend
      have hend : (setup.script.line id).action = .blockEnd := beq_iff_eq.mp hend
      split
      · exact hstack.1
      · exact ⟨hstack, fun s hs => covers_of_follows hlaid hid (hs ▸ .next (by simp [hend]))⟩
    · rename_i hend
      have hend : (setup.script.line id).action ≠ .blockEnd := fun h => hend (beq_iff_eq.mpr h)
      split
      · exact ⟨hstack.1, hstack.2, hend, hid⟩
      · exact ⟨hstack.1, hstack.2, hend, hid⟩

/-- After a line, a run goes on at a line that its stack covers. -/
theorem sound_afterLine {answer : Except RuntimeError (Flow × Option LineId)} {mark : Nat} {level : Option LineId}
    {mode : Mode} {stack : Stack .run} (hstack : (Stack.line mark level mode stack).Sound setup.script)
    (hnext : ∀ s, answer = .ok (.normal, some s) → Stack.Covers setup.script (.line mark level mode stack) s) :
    Sound setup (afterLine setup engine answer level mode stack) := by
  unfold afterLine
  split
  · exact hstack.1
  · split
    · exact hstack.1
    · split
      · split
        · exact hstack.1
        · exact ⟨hstack, fun s hs => hnext s (by rw [hs])⟩
      · split
        · rename_i target hcaught
          have hlevel : (setup.script.line target).parent = level := by
            rw [Bool.and_eq_true] at hcaught
            exact beq_iff_eq.mp hcaught.2
          refine ⟨hstack, fun s hs b hb => ?_⟩
          obtain rfl := Option.some.inj hs
          exact hstack.2 b (hlevel ▸ hlaid.inBlock_iff.mp hb)
        · exact hstack.1
      · split <;> exact hstack.1
      · exact hstack.1

/-- After a run, what is below goes on at a line that its stack covers. -/
theorem sound_afterRun {answer : Except RuntimeError Flow} {stack : Stack .run} (hstack : stack.Sound setup.script) :
    Sound setup (afterRun setup engine answer stack) := by
  cases stack with
  | body after rest =>
    simp only [afterRun, afterBody]
    split
    · exact ⟨hstack.1, fun _ h => by cases h⟩
    · exact ⟨hstack.1, fun s hs => hstack.2 s (by cases hs; rfl)⟩
    · exact ⟨hstack.1, fun s hs => by cases hs⟩
  | loop id body rest =>
    obtain ⟨hrest, hloop, hbody, hid⟩ := hstack
    simp only [afterRun, afterRound]
    split
    · exact ⟨hrest, fun _ h => by cases h⟩
    · exact ⟨hrest, hloop, hbody, hid⟩
    · exact ⟨hrest, hloop, hbody, hid⟩
    · refine ⟨hrest, fun s hs => covers_of_follows hlaid hid ?_⟩
      rw [← (Prod.mk.inj (Except.ok.inj hs)).2]
      exact .related (.inr (.inr hloop))
    · exact ⟨hrest, fun s hs => by cases hs⟩
  | thread mode waiting rest =>
    simp only [afterRun, afterThread]
    split
    · exact ⟨hstack, fun _ _ => .inr trivial⟩
    all_goals exact hstack

/-- After a look at the queue, what waits below goes on at a line that its stack covers. -/
theorem sound_afterPoll {ran : Nat} {stack : Stack .queue} (hstack : stack.Sound setup.script) :
    Sound setup (afterPoll setup engine ran stack) := by
  cases stack with
  | hostQueue => trivial
  | hostIdle deadline =>
    simp only [afterPoll]
    split <;> trivial
  | tick id level mode rest => exact hstack
  | sleep id deadline waiting rest =>
    obtain ⟨hrest, hsleep, hid⟩ := hstack
    simp only [afterPoll, afterSlice]
    split
    · refine ⟨hrest, fun s hs => covers_of_follows hlaid hid ?_⟩
      rw [← (Prod.mk.inj (Except.ok.inj hs)).2]
      exact .next (by simp [hsleep])
    · exact ⟨hrest, hsleep, hid⟩
  | command id cmd waiting rest =>
    obtain ⟨hrest, hcmd, hid⟩ := hstack
    simp only [afterPoll]
    split
    · exact ⟨hrest, fun s hs => by cases hs⟩
    · exact ⟨hrest, hcmd, hid⟩

include hjumps in
/-- Each step leaves a stack that covers the line it comes to. -/
theorem Sound.step {machine : Machine} (h : Sound setup machine) : Sound setup (machine.step setup) := by
  obtain ⟨engine, control⟩ := machine
  cases control with
  | enter start mode stack =>
    obtain ⟨hstack, hstart⟩ := h
    simp only [Machine.step]
    split
    · exact hstack
    · refine ⟨⟨hstack, fun b hb => hstart b (hlaid.inBlock_iff.mpr hb)⟩, fun s hs => ?_⟩
      obtain rfl := Option.some.inj hs
      exact hstart
  | walk cur level mode stack => exact sound_walk hlaid h.1 h.2
  | reach id level mode stack =>
    obtain ⟨hstack, hlevel, hend, hid⟩ := h
    simp only [Machine.step]
    split
    · exact hstack
    · exact ⟨⟨hstack, hlevel⟩, hend, hid⟩
  | step id stack => exact sound_outcome hlaid hjumps h.1 h.2.2 outcome_runLine
  | call id cmd stack => exact sound_outcome hlaid hjumps h.1 h.2.2 (outcome_callCommand h.2.1)
  | round id body stack =>
    obtain ⟨hstack, hloop, hbody, hid⟩ := h
    simp only [Machine.step]
    cases engine.advanceLoop with
    | mk engine' answer =>
      cases answer with
      | error problem => exact ⟨hstack, fun _ h => by cases h⟩
      | ok goesOn =>
        cases goesOn with
        | false =>
          refine ⟨hstack, fun s hs => covers_of_follows hlaid hid ?_⟩
          rw [← (Prod.mk.inj (Except.ok.inj hs)).2]
          exact .related (.inr (.inr hloop))
        | true =>
          refine ⟨⟨hstack, hloop, hbody, hid⟩, fun b hb => .inr ?_⟩
          have hb := hlaid.inBlock_of_follows (hbody ▸ Script.Follows.next (by simp [hloop])) hb
          exact ⟨fun hlt => absurd hb.lt (Nat.lt_asymm hlt), hid b hb⟩
  | sleep id deadline stack => exact h
  | poll ran stack =>
    simp only [Machine.step]
    split
    · exact h
    · split
      · exact h
      · split
        · exact sound_launch h
        · exact h
        · exact h
  | idle deadline =>
    simp only [Machine.step]
    split
    · trivial
    · exact (trivial : (Stack.hostIdle deadline).Sound setup.script)
  | ran answer stack => exact sound_afterRun hlaid h
  | stepped answer stack =>
    cases stack with
    | line mark level mode rest => exact sound_afterLine hlaid h.1 h.2
  | polled ran stack => exact sound_afterPoll hlaid h
  | ended stack =>
    cases stack with
    | host | hostExit => trivial
    | queue ran rest => exact h
    | exitRoutine rest => exact ⟨h, fun s hs => by cases (Prod.mk.inj (Except.ok.inj hs)).2⟩
  | done ran => trivial

include hjumps in
/-- In whatever the calls of a host lead to, the stack covers the line that is run. -/
theorem Reachable.sound {machine : Machine} (h : Reachable setup engine machine) : Sound setup machine := by
  induction h with
  | start | taken => trivial
  | step _ hnext ih =>
    obtain ⟨now, -, rfl⟩ := hnext
    have hnow : Sound setup ⟨now, _⟩ := ih
    exact hnow.step hlaid hjumps
  | call _ call => exact sound_start call

end

end Machine

end LineScript
