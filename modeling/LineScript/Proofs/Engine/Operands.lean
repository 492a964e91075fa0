import LineScript.Proofs.Engine.Jumping
import LineScript.Proofs.Expr.Operands
import LineScript.Proofs.Load.Arguments

/-!
# Operands of loaded programs

The expressions of a loaded program are evaluated as they were loaded, in every state that a run comes to and in every table that is
there while the arguments of a line are looked up (`Program.operands_agree`).
-/

namespace LineScript

/-- An expression that was read for an action agrees with its references. -/
theorem Arg.ReadFor.agrees {commands : CommandSet} {action : Action} {vars : Variables} {arg : Arg}
    (h : arg.ReadFor commands action vars) (hexpr : arg.isExpr = true) : ∃ tokens, arg.Agrees vars tokens := by
  obtain ⟨pos, note, before, after, raw, hread, hafter⟩ := h
  obtain ⟨hkind, hisExpr, hcases⟩ := Reference.argument_eq_ok hread
  rw [hexpr] at hisExpr
  have htext := Builder.argKind_of_isExprArg hisExpr.symm (Nat.le_refl _) commands note
  rcases hcases with ⟨-, -, hraw, tokens, hscan, htokens⟩ | ⟨-, hplain, -⟩ | ⟨_, hname, -⟩
  · rw [← hraw] at hscan
    exact ⟨tokens, Arg.agrees_of_ofTokens hscan htokens hafter⟩
  · cases hisExpr.trans hplain
  · exact absurd htext hname

/-- In every state of a loaded program, and with the slots that looking up the arguments of a line makes, each operand of an expression
is given the reference that was made for it when the program was loaded. -/
theorem Program.operands_agree {commands : CommandSet} {items : List Item} {program : Program}
    (hload : load commands items = .ok program) (config : Config) (perform : Performer) (world : World) {machine : Machine}
    (hreach : Machine.Reachable (Engine.start program config perform world).1 (Engine.start program config perform world).2
      machine) {vars : Variables} (hvars : machine.engine.vars.Extends vars) (id : LineId) :
    ∀ arg ∈ (program.script.line id).args, arg.isExpr = true → ∃ tokens, arg.Agrees vars tokens := by
  intro arg harg hexpr
  have hstart : program.vars.Extends (Engine.start program config perform world).2.vars :=
    Variables.extends_intern program.vars Engine.errorLevelName
  exact ((readFor_of_load hload id arg harg).trans (hstart.trans (hreach.extends.trans hvars))).agrees hexpr

namespace Program

open Machine

/-- An expression with names of several references, among them characters of two bytes. -/
def pairedMarks : List Item :=
  let assign (name value : String) : Item := .statement { keyword := ":=", args := [.plain name, .plain value], lineNo := 1 } []
  [assign "n" "1", assign "a1" "2", assign "m" "a%n% . ä%n%b%a1%c * (a1 + n)"]

/-- The references of that expression. -/
def pairedMarksDerefs : List Deref := [
  ⟨0, 4, .dynamic [.literal "a", .var 1]⟩, ⟨7, 11, .dynamic [.literal "ä", .var 1, .literal "b", .var 2, .literal "c"]⟩,
  ⟨22, 2, .static 2⟩, ⟨27, 1, .static 1⟩]

/-- The program of `pairedMarks` is loaded, and the expression in its third line has the references `pairedMarksDerefs`. -/
theorem pairedMarks_loads :
    (match load Standard.commands pairedMarks with
    | .ok program =>
      ((program.script.line 2).args[1]?).any fun arg => arg.isExpr && decide (arg.derefs = pairedMarksDerefs)
    | .error _ => false) = true := by
  decide +kernel

/-- Every operand of `pairedMarks` finds the reference that the loader has made for it. -/
theorem pairedMarks_agree :
    ∃ program, load Standard.commands pairedMarks = .ok program ∧
      let setup := (Engine.start program {} Standard.perform default).1
      let engine := (Engine.start program {} Standard.perform default).2
      let machine := (step setup)^[6] (HostCall.autoExecute.start setup engine)
      ∃ arg, (program.script.line 2).args[1]? = some arg ∧ arg.isExpr = true ∧ arg.derefs = pairedMarksDerefs ∧
        ∃ tokens, arg.Agrees machine.engine.vars tokens := by
  have hloads := pairedMarks_loads
  cases hload : load Standard.commands pairedMarks with
  | error e => rw [hload] at hloads; cases hloads
  | ok program =>
    simp only [hload, Option.any_eq_true, Bool.and_eq_true, decide_eq_true_eq] at hloads
    obtain ⟨arg, harg, hexpr, hderefs⟩ := hloads
    refine ⟨program, rfl, ?_⟩
    intro setup engine machine
    have hreach : Reachable setup engine machine := reachable_iterate (.call .start .autoExecute) 6
    exact ⟨arg, harg, hexpr, hderefs,
      operands_agree hload {} Standard.perform default hreach (Variables.Extends.refl _) 2 arg (List.mem_of_getElem? harg) hexpr⟩

end Program

end LineScript
