import Mathlib.Logic.Relation
import LineScript.Engine.Statement
import LineScript.Proofs.Load.Slots

/-!
# What statements may change

A statement works for the running thread alone (`Engine.Worked`): it may write to the scratch buffer, name and store
variables and change the thread's own settings. It leaves the threads below, the loops, the nesting of runs and the list of
errors as they are. Each statement of the engine works in this sense.
-/

namespace LineScript

namespace Thread

/-- A thread with other settings: what it saved and the loops it is in are the same. -/
structure Kept (thread thread' : Thread) : Prop where
  mark_eq : thread'.mark = thread.mark
  saved_eq : thread'.savedErrorLevel = thread.savedErrorLevel
  loops_eq : thread'.loops = thread.loops

theorem Kept.refl (thread : Thread) : Kept thread thread :=
  ⟨rfl, rfl, rfl⟩

theorem Kept.trans {a b c : Thread} (hab : Kept a b) (hbc : Kept b c) : Kept a c :=
  ⟨hbc.mark_eq.trans hab.mark_eq, hbc.saved_eq.trans hab.saved_eq, hbc.loops_eq.trans hab.loops_eq⟩

/-- Only the running thread has changed, and it has changed in a certain way. -/
inductive OnTop (change : Thread → Thread → Prop) : List Thread → List Thread → Prop
  | nil : OnTop change [] []
  | cons {thread thread' : Thread} {rest : List Thread} (h : change thread thread') :
    OnTop change (thread :: rest) (thread' :: rest)

namespace OnTop

variable {change : Thread → Thread → Prop} {a b c : List Thread}

theorem refl (hrefl : ∀ thread, change thread thread) (threads : List Thread) : OnTop change threads threads := by
  cases threads with
  | nil => exact .nil
  | cons thread rest => exact .cons (hrefl thread)

theorem trans (htrans : ∀ {a b c}, change a b → change b c → change a c) (hab : OnTop change a b)
    (hbc : OnTop change b c) : OnTop change a c := by
  cases hab with
  | nil => exact hbc
  | cons h =>
    cases hbc with
    | cons h' => exact .cons (htrans h h')

/-- What changes on top in one way does in every way that covers it. -/
theorem mono {change' : Thread → Thread → Prop} (himp : ∀ {a b}, change a b → change' a b) (h : OnTop change a b) :
    OnTop change' a b := by
  cases h with
  | nil => exact .nil
  | cons h => exact .cons (himp h)

theorem tail_eq (h : OnTop change a b) : b.tail = a.tail := by
  cases h <;> rfl

theorem length_eq (h : OnTop change a b) : b.length = a.length := by
  cases h <;> rfl

end OnTop

end Thread

/-- One more name is resolved. -/
def Variables.Resolves (vars vars' : Variables) : Prop :=
  ∃ name id, vars.resolve name = .ok (vars', id)

namespace Expansion

open Relation

/-- Finding a slot resolves names at most. -/
theorem resolves_slot {view : View} {vars vars' : Variables} {target : Target} {id : VarId}
    (h : slot view vars target = .ok (vars', id)) : ReflTransGen Variables.Resolves vars vars' := by
  unfold slot at h
  split at h
  · cases h
    exact .refl
  · split at h
    · cases h
    · split at h
      · cases h
      · rename_i name _ _ _ hresolve
        cases h
        exact .single ⟨name, id, hresolve⟩

/-- Planning an argument resolves names at most. -/
theorem resolves_plan {view : View} {vars vars' : Variables} {arg : Arg} {planned : Planned}
    (h : plan view vars arg = .ok (vars', planned)) : ReflTransGen Variables.Resolves vars vars' := by
  unfold plan at h
  split at h
  · split at h
    · cases h
      exact .refl
    · split at h
      · cases h
      · rename_i hslot
        cases h
        exact resolves_slot hslot
  · split at h
    · cases h
      exact .refl
    · split at h
      · cases h
      · rename_i hslot
        cases h
        exact resolves_slot hslot
  · split at h
    all_goals
      obtain ⟨_, -, h⟩ := map_eq_ok h
      cases h
      exact .refl

/-- Looking values up does nothing to the variables but resolve names. -/
theorem resolves_planAll (view : View) (vars : Variables) (args : List Arg) :
    ReflTransGen Variables.Resolves vars (planAll view vars args).1 := by
  fun_induction planAll view vars args with
  | case1 | case2 => exact .refl
  | case3 vars arg rest vars₁ p hplan vars₂ e hrest ih | case4 vars arg rest vars₁ p hplan vars₂ ps hrest ih =>
    rw [hrest] at ih
    exact (resolves_plan hplan).trans ih

/-- Planning arguments extends the table. -/
theorem extends_planAll (view : View) (vars : Variables) (args : List Arg) :
    vars.Extends (planAll view vars args).1 := by
  have hresolves := resolves_planAll view vars args
  generalize (planAll view vars args).1 = vars' at hresolves
  induction hresolves with
  | refl => exact .refl vars
  | tail _ hresolve ih =>
    obtain ⟨name, id, hresolve⟩ := hresolve
    exact ih.trans (Variables.extends_resolve hresolve)

/-- Reserving room leaves the texts that are held. -/
theorem pieces_reserve {scratch scratch' : Scratch} {additional : Nat} (h : scratch.reserve additional = .ok scratch') :
    scratch'.pieces = scratch.pieces := by
  simp only [Scratch.reserve] at h
  split at h
  · cases h
    rfl
  · split at h
    · cases h
    · cases h
      rfl

/-- What is held is written on top of what was there. -/
theorem suffix_hold (scratch : Scratch) (args : ExpandedArgs) : scratch.pieces <:+ (hold scratch args).pieces := by
  unfold hold
  induction args generalizing scratch with
  | nil => exact List.suffix_refl _
  | cons arg rest ih =>
    rw [List.foldl_cons]
    cases arg with
    | output var => exact ih scratch
    | text _ | expr _ | input _ _ => exact (List.suffix_cons _ scratch.pieces).trans (ih (scratch.push _))

end Expansion

namespace Engine

/-- What a statement may change of an engine. -/
structure Worked (engine engine' : Engine) : Prop where
  depth_eq : engine'.depth = engine.depth
  waiting_eq : engine'.waiting = engine.waiting
  errors_eq : engine'.errors = engine.errors
  terminated : engine.terminated = true → engine'.terminated = true
  threads : Thread.OnTop Thread.Kept engine.threads engine'.threads
  pieces : engine.scratch.pieces <:+ engine'.scratch.pieces
  vars : engine.vars.Extends engine'.vars

namespace Worked

theorem refl (engine : Engine) : Worked engine engine where
  depth_eq := rfl
  waiting_eq := rfl
  errors_eq := rfl
  terminated := fun h => h
  threads := .refl Thread.Kept.refl _
  pieces := List.suffix_refl _
  vars := .refl _

theorem trans {a b c : Engine} (hab : Worked a b) (hbc : Worked b c) : Worked a c where
  depth_eq := hbc.depth_eq.trans hab.depth_eq
  waiting_eq := hbc.waiting_eq.trans hab.waiting_eq
  errors_eq := hbc.errors_eq.trans hab.errors_eq
  terminated := fun h => hbc.terminated (hab.terminated h)
  threads := hab.threads.trans Thread.Kept.trans hbc.threads
  pieces := hab.pieces.trans hbc.pieces
  vars := hab.vars.trans hbc.vars

end Worked

variable (setup : Setup) (engine : Engine) (line : Line)

/-- Changing the settings of the running thread is work. -/
theorem worked_onThread {change : Thread → Thread} (h : ∀ thread, Thread.Kept thread (change thread)) :
    Worked engine (engine.onThread change) := by
  unfold onThread
  split
  · exact .refl _
  · rename_i thread rest hthreads
    exact { Worked.refl engine with threads := hthreads ▸ .cons (h thread) }

/-- Expanding arguments is work of the running thread. -/
theorem worked_expand : Worked engine (engine.expand line).1 := by
  unfold expand Expansion.expand
  have hplan := Expansion.extends_planAll engine.view engine.vars line.args
  cases hall : Expansion.planAll engine.view engine.vars line.args with
  | mk vars planned =>
    rw [hall] at hplan
    cases planned with
    | error e => exact { Worked.refl engine with vars := hplan }
    | ok planned =>
      simp only
      cases hreserve : engine.scratch.reserve (Expansion.totalSize planned) with
      | error e => exact { Worked.refl engine with vars := hplan }
      | ok scratch =>
        have hpieces := Expansion.suffix_hold scratch (planned.map Expansion.write)
        rw [Expansion.pieces_reserve hreserve] at hpieces
        exact { Worked.refl engine with vars := hplan, pieces := hpieces }

/-- A statement works if what it does with its arguments does. -/
theorem worked_withArgs {α : Type} {use : Engine → ExpandedArgs → Engine × Except Problem α}
    (h : ∀ engine args, Worked engine (use engine args).1) : Worked engine (engine.withArgs line use).1 := by
  have hexpand := worked_expand engine line
  unfold withArgs
  cases hargs : engine.expand line with
  | mk engine' args =>
    rw [hargs] at hexpand
    cases args with
    | error e => exact hexpand
    | ok args => exact hexpand.trans (h engine' args)

theorem worked_condition (cond : Condition) : Worked engine (engine.condition line cond).1 :=
  worked_withArgs engine line fun engine _ => .refl engine

theorem worked_sleepTime : Worked engine (engine.sleepTime line).1 :=
  worked_withArgs engine line fun engine _ => .refl engine

theorem worked_startLoop : Worked engine (engine.startLoop line).1 :=
  worked_withArgs engine line fun engine _ => .refl engine

theorem worked_labelArg : Worked engine (engine.labelArg setup line).1 := by
  unfold labelArg
  split
  · exact .refl _
  · refine worked_withArgs engine line fun engine args => ?_
    dsimp only
    split
    · exact .refl _
    · split <;> exact .refl _

theorem worked_jumpTarget (id : LineId) : Worked engine (engine.jumpTarget setup id).1 := by
  have hlabel := worked_labelArg setup engine (setup.script.line id)
  simp only [jumpTarget]
  split
  · rename_i h
    rw [h] at hlabel
    exact hlabel
  · rename_i h
    rw [h] at hlabel
    exact hlabel
  · rename_i h
    rw [h] at hlabel
    split
    · exact hlabel
    · split <;> exact hlabel

/-- An assignment is work of the running thread. -/
theorem worked_assign (op : AssignOp) : Worked engine (engine.assign setup line op).1 := by
  refine worked_withArgs engine line fun engine args => ?_
  split
  · exact .refl _
  · split
    · exact .refl _
    · split
      · exact .refl _
      · rename_i hset
        exact { Worked.refl engine with vars := Variables.extends_set hset }

theorem worked_setTimer : Worked engine (engine.setTimer setup line).1 := by
  have hlabel := worked_labelArg setup engine line
  unfold setTimer
  split
  · rename_i h
    rw [h] at hlabel
    exact hlabel
  · rename_i engine' named h
    rw [h] at hlabel
    split
    · exact hlabel
    · refine hlabel.trans (worked_withArgs engine' line fun engine args => ?_)
      split
      · exact .refl _
      · exact { Worked.refl engine with }

theorem worked_setOnExit : Worked engine (engine.setOnExit setup line).1 := by
  have hlabel := worked_labelArg setup engine line
  unfold setOnExit
  split
  · rename_i h
    rw [h] at hlabel
    exact hlabel
  · rename_i h
    rw [h] at hlabel
    exact { hlabel with }

theorem worked_suspend : Worked engine (engine.suspend line).1 := by
  refine worked_withArgs engine line fun engine args => ?_
  split
  · exact .refl _
  · exact { Worked.refl engine with }

theorem worked_threadSetting : Worked engine (engine.threadSetting line).1 := by
  refine worked_withArgs engine line fun engine args => ?_
  dsimp only
  split
  · exact worked_onThread engine fun _ => ⟨rfl, rfl, rfl⟩
  · split
    · exact { Worked.refl engine with }
    · exact .refl _

/-- A deed of a command is work of the running thread. -/
theorem worked_act (deed : Deed) : Worked engine (engine.act deed) := by
  cases deed with
  | print text => exact { Worked.refl engine with }
  | append path text =>
    unfold act
    dsimp only
    split
    · exact { Worked.refl engine with }
    · exact .refl _
  | declare name =>
    unfold act
    dsimp only
    split
    · rename_i hresolve
      exact { Worked.refl engine with vars := Variables.extends_resolve hresolve }
    · exact .refl _
  | store var value => exact { Worked.refl engine with vars := Variables.extends_put _ var value }
  | send trigger => exact { Worked.refl engine with }
  | wait ms => exact { Worked.refl engine with }

/-- The deeds of a command are work of the running thread. -/
theorem worked_deeds (deeds : List Deed) : Worked engine (deeds.foldl act engine) := by
  induction deeds generalizing engine with
  | nil => exact .refl _
  | cons deed rest ih => exact (worked_act engine deed).trans (ih _)

/-- Calling a command is work of the running thread. -/
theorem worked_call (spec : CommandSpec) : Worked engine (engine.call setup line spec).1 := by
  refine worked_withArgs engine line fun engine args => ?_
  have hdeeds := worked_deeds engine
  dsimp only
  split <;> exact (hdeeds _).trans (worked_onThread _ fun _ => ⟨rfl, rfl, rfl⟩)

theorem worked_noteLine (id : LineId) : Worked engine (engine.noteLine id) := by
  have h : Worked engine (engine.onThread fun thread => { thread with linesRun := thread.linesRun + 1 }) :=
    worked_onThread engine fun _ => ⟨rfl, rfl, rfl⟩
  exact { h with }

end Engine

end LineScript
