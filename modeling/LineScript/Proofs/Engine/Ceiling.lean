import LineScript.Proofs.Engine.Touched
import LineScript.Proofs.Expr.Walking

/-!
# The ceiling of the scratch buffer

What is reckoned for the arguments of a line is what is written, and no reference takes more away than is there
(`Expansion.Reckoned`). Expanding fails for want of memory exactly where the texts held and those to be written pass the
ceiling, and then leaves the buffer alone (`Engine.ExpandsExactly`): nothing before that asks for memory, not even the evaluation
of an expression (`Expr.spares_evaluate`). So every state of a run keeps the buffer within its ceiling, and the capacity never
shrinks (`Program.scratch_stays_within`).
-/

namespace LineScript

/-! ## Reckoning -/

namespace Expansion

open Text

/-- References give way to values, from a number of bytes on, and none takes more away than is there. -/
def GiveWay : (n : Nat) → List (Deref × Value) → Prop
  | _, [] => True
  | n, (d, v) :: rest => d.size ≤ n + v.size ∧ GiveWay (n + v.size - d.size) rest

/-- Sizes are added up, from a number of bytes on, and no difference is cut off at zero. -/
def Reckoned : (needed : Nat) → List (Arg × Planned) → Prop
  | _, [] => True
  | needed, (arg, .text values) :: rest =>
    (arg.kind = .text → GiveWay (needed + arg.text.utf8ByteSize) (arg.derefs.zip values)) ∧
      Reckoned (addSize needed (arg, .text values)) rest
  | needed, p :: rest => Reckoned (addSize needed p) rest

/-- References that stand in a text give way to their values: none is longer than what is there. -/
theorem giveWay_of_sited {start : Nat} {cs : List Char} {derefs : List Deref} (h : Deref.Sited start cs derefs)
    (values : List Value) (n : Nat) : GiveWay (n + byteSize cs) (derefs.zip values) := by
  induction h generalizing values n with
  | nil => trivial
  | @cons start lead name cs target rest h ih =>
    cases values with
    | nil => trivial
    | cons v values =>
      have hsum : n + byteSize (lead ++ (name ++ cs)) + v.size - byteSize name =
          n + byteSize lead + v.size + byteSize cs := by
        rw [byteSize_append, byteSize_append]
        omega
      refine ⟨?_, ?_⟩
      · dsimp only
        rw [byteSize_append, byteSize_append]
        omega
      · rw [hsum]
        exact ih values _

/-- The sizes of fitting arguments are reckoned without a difference that is cut off. -/
theorem reckoned {planned : List (Arg × Planned)} (h : ∀ p ∈ planned, Fits p) (needed : Nat) : Reckoned needed planned := by
  induction planned generalizing needed with
  | nil => trivial
  | cons p rest ih =>
    have hrest := ih (fun q hq => h q (List.mem_cons_of_mem _ hq)) (addSize needed p)
    obtain ⟨arg, p⟩ := p
    cases p with
    | output | input | expr => exact hrest
    | text values =>
      refine ⟨fun hkind => ?_, hrest⟩
      rcases h _ List.mem_cons_self with ⟨-, hsited⟩ | ⟨hname, -, -⟩
      · have hgive := giveWay_of_sited hsited values needed
        rw [byteSize_toList] at hgive
        exact hgive
      · exact absurd hkind hname

end Expansion

/-! ## Problems that are not for want of memory -/

/-- Memory ran out. -/
def Problem.IsMemory : Problem → Prop
  | outOfMemory _ _ => True
  | _ => False

/-- An answer that does not fail for want of memory. -/
def Spares {α : Type} (answer : Except Problem α) : Prop :=
  ∀ problem, answer = .error problem → ¬ problem.IsMemory

theorem spares_ok {α : Type} (a : α) : Spares (.ok a : Except Problem α) :=
  nofun

theorem Spares.error {α : Type} {problem : Problem} (h : ¬ problem.IsMemory) : Spares (.error problem : Except Problem α) := by
  rintro _ ⟨⟩
  exact h

/-- An answer that spares memory still does when something is made of it. -/
theorem Spares.map {α β : Type} {answer : Except Problem α} (h : Spares answer) (f : α → β) : Spares (answer.map f) := by
  cases answer with
  | ok a => exact spares_ok _
  | error problem => exact .error (h problem rfl)

namespace Expr

/-- An expression never runs out of memory while its variables do not. -/
theorem spares_evaluate {lookup : Lookup} (h : ∀ target, Spares (lookup target)) (text : String) (derefs : List Deref) :
    Spares (evaluate text derefs lookup) := by
  unfold evaluate
  split
  · exact .error id
  · intro problem hfails
    rcases problem_of_evaluateTokens hfails with hrules | ⟨t, -, -, hoperand⟩
    · cases hrules <;> exact id
    · unfold Context.operandOf at hoperand
      split at hoperand
      · cases hoperand
        exact id
      · exact h _ _ hoperand

end Expr

namespace Expansion

variable (view : View) (vars : Variables)

/-- An operand is looked up without running out of memory. -/
theorem spares_operand (target : Target) : Spares (operand view vars target) := by
  unfold operand
  split
  · exact spares_ok _
  · split
    · exact .error id
    · split <;> exact spares_ok _

theorem spares_slot (target : Target) : Spares (slot view vars target) := by
  unfold slot
  split
  · exact spares_ok _
  · split
    · exact .error id
    · split
      · exact .error id
      · exact spares_ok _

theorem spares_operands (derefs : List Deref) : Spares (operands view vars derefs) := by
  induction derefs with
  | nil => exact spares_ok _
  | cons d rest ih =>
    unfold operands
    split
    · rename_i h
      exact .error (spares_operand view vars _ _ h)
    · exact ih.map _

/-- An argument is planned without running out of memory. -/
theorem spares_plan (arg : Arg) : Spares (plan view vars arg) := by
  unfold plan
  split
  · split
    · exact spares_ok _
    · split
      · rename_i h
        exact .error (spares_slot view vars _ _ h)
      · exact spares_ok _
  · split
    · exact spares_ok _
    · split
      · rename_i h
        exact .error (spares_slot view vars _ _ h)
      · exact spares_ok _
  · split
    · exact (Expr.spares_evaluate (spares_operand view vars) _ _).map _
    · exact (spares_operands view vars _).map _

/-- Looking values up never runs out of memory. -/
theorem spares_planAll (args : List Arg) : Spares (planAll view vars args).2 := by
  fun_induction planAll view vars args with
  | case1 => exact spares_ok _
  | case2 vars arg rest e hplan => exact .error (spares_plan view vars arg e hplan)
  | case3 vars arg rest vars₁ p hplan vars₂ e hrest ih =>
    rw [hrest] at ih
    exact .error (ih e rfl)
  | case4 => exact spares_ok _

end Expansion

/-! ## Expanding -/

namespace Scratch

/-- A buffer within its ceiling: it holds no more than it has room for, and it has no more room than the ceiling allows. -/
structure Within (limit : Nat) (s : Scratch) : Prop where
  limit_eq : s.limit = limit
  size_le : s.size ≤ s.capacity
  capacity_le : Countable limit s.capacity → s.capacity ≤ limit

variable {limit : Nat} {s s' : Scratch}

/-- A buffer within its ceiling has room for what it holds. -/
theorem Within.room (h : s.Within limit) : s.Room := by
  intro hword
  rw [h.limit_eq] at hword ⊢
  exact h.capacity_le (.inl hword)

/-- A buffer within its ceiling still is when it has grown by what was written. -/
theorem Within.grows (h : s.Within limit) (hgrows : s.Grows s') : s'.Within limit := by
  have hlimit := hgrows.limit_eq.trans h.limit_eq
  refine ⟨hlimit, hgrows.size_le h.size_le, fun hcount => ?_⟩
  rcases Nat.lt_or_ge limit wordLimit with hword | hword
  · have hroom := hgrows.room h.room
    rw [Room, hlimit] at hroom
    exact hroom hword
  · rcases hcount with hcount | hcount <;> omega

end Scratch

namespace Engine

open Expansion

/-- The arguments of a line are expanded within the ceiling. -/
structure ExpandsExactly (engine : Engine) (line : Line) : Prop where
  /-- What is reckoned is what is written, and no difference was cut off on the way. -/
  reckoned : ∀ vars planned, planAll engine.view engine.vars line.args = (vars, .ok planned) →
    Reckoned 0 planned ∧ ((planned.map write).map heldSize).sum = totalSize planned
  /-- What is written is as much as was reckoned, and goes where room was made for it. -/
  written : ∀ after args, engine.expand line = (after, .ok args) →
    ∃ vars planned grown, planAll engine.view engine.vars line.args = (vars, .ok planned) ∧
      engine.scratch.reserve (totalSize planned) = .ok grown ∧ after.scratch = hold grown args ∧
      after.scratch.size = engine.scratch.size + totalSize planned ∧
      (Scratch.Countable engine.scratch.limit after.scratch.size → after.scratch.capacity = grown.capacity)
  /-- Memory runs out only where the ceiling would be passed. -/
  refused : ∀ after needed limit, engine.expand line = (after, .error (.outOfMemory needed limit)) →
    ∃ vars planned, planAll engine.view engine.vars line.args = (vars, .ok planned) ∧
      engine.scratch.limit < engine.scratch.size + totalSize planned
  /-- Memory runs out wherever the ceiling would be passed. -/
  refuses : ∀ vars planned, planAll engine.view engine.vars line.args = (vars, .ok planned) →
    Scratch.Countable engine.scratch.limit (engine.scratch.size + totalSize planned) →
    engine.scratch.limit < engine.scratch.size + totalSize planned →
    ∃ needed, engine.expand line = ({ engine with vars }, .error (.outOfMemory needed engine.scratch.limit))
  /-- A problem leaves the buffer alone. -/
  spared : ∀ after problem, engine.expand line = (after, .error problem) → after.scratch = engine.scratch

/-- What expanding comes to: a problem with a value, want of memory, or texts that are held. -/
theorem expand_cases (engine : Engine) (line : Line) :
    (∃ vars problem, planAll engine.view engine.vars line.args = (vars, .error problem) ∧
      engine.expand line = ({ engine with vars }, .error problem)) ∨
    ∃ vars planned, planAll engine.view engine.vars line.args = (vars, .ok planned) ∧
      ((∃ problem, engine.scratch.reserve (totalSize planned) = .error problem ∧
        engine.expand line = ({ engine with vars }, .error problem)) ∨
      ∃ grown, engine.scratch.reserve (totalSize planned) = .ok grown ∧
        engine.expand line =
          ({ engine with vars, scratch := hold grown (planned.map write) }, .ok (planned.map write))) := by
  unfold expand Expansion.expand
  cases hplan : planAll engine.view engine.vars line.args with
  | mk vars planned =>
    cases planned with
    | error problem => exact .inl ⟨vars, problem, rfl, rfl⟩
    | ok planned =>
      refine .inr ⟨vars, planned, rfl, ?_⟩
      cases hreserve : engine.scratch.reserve (totalSize planned) with
      | error problem => exact .inl ⟨problem, rfl, by simp only [hreserve]⟩
      | ok grown => exact .inr ⟨grown, rfl, by simp only [hreserve]⟩

/-- Where the references of its arguments stand in their texts, a line is expanded exactly. -/
theorem expandsExactly {engine : Engine} {line : Line} {n : Nat} (hargs : ∀ arg ∈ line.args, arg.Refers n)
    (hroom : engine.scratch.Room) : engine.ExpandsExactly line := by
  have hcases := engine.expand_cases line
  constructor
  case reckoned =>
    intro vars planned hplan
    have hfits := fits_planAll hargs hplan
    exact ⟨Expansion.reckoned hfits 0, (totalSize_eq hfits).symm⟩
  case written =>
    intro after args hexpand
    rw [hexpand] at hcases
    obtain ⟨_, _, -, ⟨⟩⟩ | ⟨vars, planned, hplan, ⟨_, -, ⟨⟩⟩ | ⟨grown, hgrown, ⟨⟩⟩⟩ := hcases
    have htotal := totalSize_eq (fits_planAll hargs hplan)
    have hheld : grown.size = engine.scratch.size := by rw [Scratch.size, Scratch.size, Scratch.pieces_reserve hgrown]
    have hsize : (hold grown (planned.map write)).size = engine.scratch.size + totalSize planned := by
      rw [Scratch.size_hold, hheld, htotal]
    refine ⟨vars, planned, grown, hplan, hgrown, rfl, hsize, fun hcount => ?_⟩
    rw [hsize] at hcount
    exact Scratch.capacity_hold (by rw [← htotal, hheld]; exact Scratch.le_capacity_of_reserve hgrown hroom hcount)
  case refused =>
    intro after needed limit hexpand
    rw [hexpand] at hcases
    obtain ⟨vars, _, hplan, ⟨⟩⟩ | ⟨vars, planned, hplan, ⟨_, hfull, ⟨⟩⟩ | ⟨_, -, ⟨⟩⟩⟩ := hcases
    · have hspares := spares_planAll engine.view engine.vars line.args
      rw [hplan] at hspares
      exact absurd trivial (hspares _ rfl)
    · refine ⟨vars, planned, hplan, ?_⟩
      rw [Scratch.reserve_eq hroom] at hfull
      split at hfull
      · omega
      · cases hfull
  case refuses =>
    intro vars planned hplan hcount hlimit
    have hword : engine.scratch.limit < min Scratch.wordLimit (engine.scratch.size + totalSize planned) := by
      rcases hcount with hcount | hcount <;> omega
    have hfull := Scratch.reserve_eq hroom (totalSize planned)
    rw [if_pos hword] at hfull
    refine ⟨min Scratch.wordLimit (engine.scratch.size + totalSize planned), ?_⟩
    simp only [expand, Expansion.expand, hplan, hfull]
  case spared =>
    intro after problem hexpand
    rw [hexpand] at hcases
    obtain ⟨_, _, -, ⟨⟩⟩ | ⟨_, _, -, ⟨_, -, ⟨⟩⟩ | ⟨_, -, ⟨⟩⟩⟩ := hcases <;> rfl

end Engine

namespace Program

open Machine

/-- The ceiling of the scratch buffer is exact. In every state of every run of a loaded program the buffer holds no more than it
has room for and has no more room than the settings allow, and its capacity never shrinks. In every such state, whichever line is
expanded takes up what was reckoned for it, fails for want of memory exactly where that would pass the ceiling, and leaves the
buffer in such a state again. -/
theorem scratch_stays_within {commands : CommandSet} {items : List Item} {program : Program}
    (hload : load commands items = .ok program) (config : Config) (perform : Performer) (world : World) :
    let setup := (Engine.start program config perform world).1
    let engine := (Engine.start program config perform world).2
    (∀ machine, Reachable setup engine machine →
      machine.engine.scratch.Within config.maxMemory ∧
      ∀ later, Relation.ReflTransGen (Move setup) machine later →
        machine.engine.scratch.capacity ≤ later.engine.scratch.capacity) ∧
    ∀ (now : Engine) (id : LineId), now.scratch.Within config.maxMemory →
      now.ExpandsExactly (program.script.line id) ∧
      (now.expand (program.script.line id)).1.scratch.Within config.maxMemory := by
  intro setup engine
  have hrefers : ∀ id, ∀ arg ∈ (setup.script.line id).args, arg.Refers program.vars.size := refers_of_load hload
  have hstart : engine.scratch.Within config.maxMemory := ⟨rfl, Nat.le_refl _, fun _ => Nat.zero_le _⟩
  refine ⟨fun machine hreach => ⟨hstart.grows (hreach.grows hrefers), fun later hlater => ?_⟩, fun now id hwithin => ?_⟩
  · induction hlater with
    | refl => exact Nat.le_refl _
    | tail _ hmove ih => exact Nat.le_trans ih (hmove.grows hrefers).capacity_le
  · exact ⟨Engine.expandsExactly (hrefers id) hwithin.room,
      hwithin.grows (now.touches_expand (hrefers id) (W := fun _ => True)).toGrows⟩

/-- A text that is repeated until there is no more room for it. -/
def repeated : List Item :=
  let line (keyword : String) (args : List String) : Item :=
    .statement { keyword, args := args.map .plain, lineNo := 1 } []
  [line "=" ["s", "éé"], line "=" ["s", "%s%%s%"], line "Echo" ["-%s%-%s%"]]

/-- Settings with room for a few bytes. -/
def narrow : Config := { maxMemory := 12 }

/-- After some steps of `repeated` the buffer has room for eight bytes, and the next line asks for eighteen. -/
theorem repeated_runs_out :
    (match load Standard.commands repeated with
    | .ok program =>
      let (setup, engine) := Engine.start program narrow Standard.perform default
      let machine := (step setup)^[12] (HostCall.autoExecute.start setup engine)
      machine.engine.scratch.capacity == 8 && machine.engine.scratch.size == 0 &&
        (match Expansion.planAll machine.engine.view machine.engine.vars (program.script.line 2).args with
        | (_, .ok planned) => Expansion.totalSize planned == 18
        | (_, .error _) => false)
    | .error _ => false) = true := by
  decide +kernel

/-- With twelve bytes allowed the buffer has grown to eight, and eighteen more are refused. -/
theorem repeated_stays_within :
    ∃ program, load Standard.commands repeated = .ok program ∧
      let setup := (Engine.start program narrow Standard.perform default).1
      let engine := (Engine.start program narrow Standard.perform default).2
      let machine := (step setup)^[12] (HostCall.autoExecute.start setup engine)
      machine.engine.scratch.capacity = 8 ∧ machine.engine.scratch.Within 12 ∧
      (∀ later, Relation.ReflTransGen (Move setup) machine later → 8 ≤ later.engine.scratch.capacity) ∧
      ∃ after needed, machine.engine.expand (program.script.line 2) = (after, .error (.outOfMemory needed 12)) ∧
        after.scratch = machine.engine.scratch := by
  have hruns := repeated_runs_out
  cases hload : load Standard.commands repeated with
  | error e => rw [hload] at hruns; cases hruns
  | ok program =>
    simp only [hload, Bool.and_eq_true, beq_iff_eq] at hruns
    obtain ⟨⟨hcapacity, hsize⟩, hplanned⟩ := hruns
    refine ⟨program, rfl, ?_⟩
    intro setup engine machine
    obtain ⟨hall, hexpands⟩ := scratch_stays_within hload narrow Standard.perform default
    obtain ⟨hwithin, hlater⟩ := hall machine (reachable_iterate (.call .start .autoExecute) 12)
    obtain ⟨hexact, -⟩ := hexpands machine.engine 2 hwithin
    refine ⟨hcapacity, hwithin, fun later hmoves => hcapacity ▸ hlater later hmoves, ?_⟩
    have hlimit : machine.engine.scratch.limit = 12 := hwithin.limit_eq
    split at hplanned
    · rename_i vars planned hplan
      have htotal := beq_iff_eq.mp hplanned
      have hsum : machine.engine.scratch.size + Expansion.totalSize planned = 18 := by rw [hsize, htotal]
      have hcount : Scratch.Countable machine.engine.scratch.limit 18 := .inl (by rw [hlimit]; decide)
      obtain ⟨needed, hfull⟩ := hexact.refuses vars planned hplan (hsum ▸ hcount) (by omega)
      rw [hlimit] at hfull
      exact ⟨_, needed, hfull, hexact.spared _ _ hfull⟩
    · cases hplanned

end Program

end LineScript
