import LineScript.Proofs.Engine.Jumping
import LineScript.Proofs.Load.Arguments

/-!
# Labels found early and late

A literal label is found when a program is loaded, and the engine takes it from there. It would find the same one by expanding
the argument and looking its text up, unless memory runs out on the way, and it may leave out the check of such a jump: one that
is not valid was refused when the program was loaded (`Program.noted_label_is_named`).
-/

namespace LineScript

namespace Expansion

variable {view : View} {vars : Variables}

/-- References that are known at load time are always looked up. -/
theorem operands_of_static {derefs : List Deref} (h : ∀ deref ∈ derefs, ∃ id, deref.target = .static id) :
    ∃ values, operands view vars derefs = .ok values := by
  induction derefs with
  | nil => exact ⟨[], rfl⟩
  | cons deref rest ih =>
    obtain ⟨id, hid⟩ := h deref List.mem_cons_self
    obtain ⟨values, hvalues⟩ := ih fun deref hderef => h deref (List.mem_cons_of_mem _ hderef)
    exact ⟨read view vars id :: values, by simp only [operands, hid, operand, hvalues, Except.map]⟩

/-- Free texts that name their variables outright are looked up without a new slot. -/
theorem planAll_of_direct {args : List Arg} (h : ∀ arg ∈ args, arg.Direct) :
    ∃ values : List (List Value), values.length = args.length ∧
      planAll view vars args = (vars, .ok (args.zip (values.map .text))) := by
  induction args with
  | nil => exact ⟨[], rfl, rfl⟩
  | cons arg rest ih =>
    have harg := h arg List.mem_cons_self
    obtain ⟨first, hfirst⟩ := @operands_of_static view vars _ harg.static
    obtain ⟨values, hlength, hvalues⟩ := ih fun arg harg => h arg (List.mem_cons_of_mem _ harg)
    refine ⟨first :: values, by rw [List.length_cons, List.length_cons, hlength], ?_⟩
    have hplan : plan view vars arg = .ok (vars, .text first) := by
      simp only [plan, harg.kind_eq, harg.isExpr_eq, hfirst, Except.map, Bool.false_eq_true, if_false]
    simp only [planAll, hplan, hvalues, List.map_cons, List.zip_cons_cons]

/-- A text without references is written as it stands. -/
theorem toText_write_literal {arg : Arg} (h : arg.isLiteral = true) (values : List Value) :
    (write (arg, .text values)).toText = arg.text := by
  obtain ⟨-, hnone⟩ := Bool.and_eq_true_iff.mp h
  rw [write, List.isEmpty_iff.mp hnone, List.zip_nil_left, fill, String.ofList_toList]
  rfl

end Expansion

/-- Room is refused only beyond the ceiling. -/
theorem Scratch.reserve_eq_error {scratch : Scratch} {additional : Nat} {problem : Problem}
    (h : scratch.reserve additional = .error problem) :
    ∃ needed, scratch.limit < needed ∧ needed ≤ wordLimit ∧ problem = .outOfMemory needed scratch.limit := by
  simp only [reserve] at h
  split at h
  · cases h
  · split at h
    · rename_i hlimit
      cases h
      exact ⟨_, hlimit, Nat.min_le_left _ _, rfl⟩
    · cases h

/-- Among free texts that are written, one without references is as it stands. -/
theorem Expansion.text_write_literal {args : List Arg} {values : List (List Value)} {arg : Arg} {i : Nat}
    (hlength : values.length = args.length) (harg : args[i]? = some arg) (hliteral : arg.isLiteral = true) :
    ExpandedArgs.text ((args.zip (values.map .text)).map write) i = arg.text := by
  obtain ⟨hi, rfl⟩ := List.getElem?_eq_some_iff.mp harg
  have hplanned : (values.map Planned.text)[i]? = some (.text values[i]) := by
    rw [List.getElem?_map, List.getElem?_eq_getElem (hlength ▸ hi)]
    rfl
  have hzip : (args.zip (values.map Planned.text))[i]? = some (args[i], .text values[i]) :=
    List.getElem?_zip_eq_some.mpr ⟨harg, hplanned⟩
  rw [ExpandedArgs.text, List.getElem?_map, hzip]
  exact toText_write_literal hliteral values[i]

namespace Engine

/-- Free texts that name their variables outright are expanded unless memory runs out, and each of them is as it stands if it is
literal. -/
theorem expand_of_direct (engine : Engine) {line : Line} (h : ∀ arg ∈ line.args, arg.Direct) :
    (∃ scratch args, engine.expand line = ({ engine with scratch }, .ok args) ∧
      ∀ i arg, line.args[i]? = some arg → arg.isLiteral = true → args.text i = arg.text) ∨
      ∃ needed, engine.scratch.limit < needed ∧ needed ≤ Scratch.wordLimit ∧
        engine.expand line = (engine, .error (.outOfMemory needed engine.scratch.limit)) := by
  obtain ⟨values, hlength, hplan⟩ := @Expansion.planAll_of_direct engine.view engine.vars _ h
  cases hreserve : engine.scratch.reserve (Expansion.totalSize (line.args.zip (values.map .text))) with
  | error problem =>
    obtain ⟨needed, hlimit, hword, rfl⟩ := Scratch.reserve_eq_error hreserve
    exact .inr ⟨needed, hlimit, hword, by simp only [expand, Expansion.expand, hplan, hreserve]⟩
  | ok scratch =>
    let args := (line.args.zip (values.map .text)).map Expansion.write
    refine .inl ⟨Expansion.hold scratch args, args, by simp only [expand, Expansion.expand, hplan, hreserve, args], ?_⟩
    exact fun i arg harg hliteral => Expansion.text_write_literal hlength harg hliteral

end Engine

namespace Program

/-- Where loading noted a label, expanding the first argument and looking up its text without white space around it finds the
same one, in every state of the engine, unless memory runs out. Whatever line a `Goto` or `Gosub` goes to, noted or not, is one
that it may jump to. -/
theorem noted_label_is_named {commands : CommandSet} {items : List Item} {program : Program}
    (hload : load commands items = .ok program) (config : Config) (perform : Performer) (world : World) :
    let setup := (Engine.start program config perform world).1
    ∀ (engine : Engine) (id : LineId),
      let line := program.script.line id
      (∀ label, line.note = .label label →
        engine.labelArg setup line = (engine, .ok (some label)) ∧
        ((∃ scratch args, engine.expand line = ({ engine with scratch }, .ok args) ∧
            program.script.labels.find? (Text.trim (args.text 0)) = some label ∧
            engine.labelArg setup { line with note := .none } = ({ engine with scratch }, .ok (some label))) ∨
          ∃ needed, engine.scratch.limit < needed ∧
            engine.expand line = (engine, .error (.outOfMemory needed engine.scratch.limit)))) ∧
      (line.action = .goto ∨ line.action = .gosub → ∀ engine' target,
        engine.jumpTarget setup id = (engine', .ok target) → program.script.isJumpValid id target = true) := by
  intro setup engine id line
  refine ⟨fun label hnote => ?_, fun haction engine' target hjump => ?_⟩
  · obtain ⟨htakes, arg, hfirst, hliteral, hname, hfind⟩ := noted_of_load hload hnote
    have hdirect : ∀ arg ∈ line.args, arg.Direct := fun arg harg => (readFor_of_load hload id arg harg).direct htakes
    refine ⟨by simp only [Engine.labelArg, hnote], ?_⟩
    rcases engine.expand_of_direct hdirect with ⟨scratch, args, hexpand, htexts⟩ | ⟨needed, hlimit, -, hexpand⟩
    · rw [← htexts 0 arg (List.head?_eq_getElem? ▸ hfirst) hliteral] at hname hfind
      refine .inl ⟨scratch, args, hexpand, hfind, ?_⟩
      have hexpand' : engine.expand { line with note := .none } = ({ engine with scratch }, .ok args) := hexpand
      have hfind' : setup.script.labels.find? (Text.trim (args.text 0)) = some label := hfind
      simp only [Engine.labelArg, Engine.withArgs, hexpand', hname, hfind', Bool.false_eq_true, if_false]
    · exact .inr ⟨needed, hlimit, hexpand⟩
  · exact isJumpValid_of_jumps hload haction (Engine.jumps_of_jumpTarget hjump)

open Machine

/-- Two jumps to one label: one spells it in capitals and with blanks around it, the other names a variable that holds it. -/
def spelledApart : List Item :=
  let line (keyword : String) (args : List String) : Item :=
    .statement { keyword, args := args.map .plain, lineNo := 1 } []
  [line "=" ["where", "again"], .label "Again" 1, line "+=" ["n", "1"], line "Goto" [" AGAIN "], line "Goto" ["%where%"]]

/-- After some steps of `spelledApart` its label is found by one line from its note, and by the next through a variable. -/
theorem spelledApart_jumps :
    (match load Standard.commands spelledApart with
    | .ok program =>
      let (setup, engine) := Engine.start program {} Standard.perform default
      let engine := ((step setup)^[4] (HostCall.autoExecute.start setup engine)).engine
      (program.script.line 2).note == .label 0 && (engine.expand (program.script.line 2)).2.toOption.isSome &&
        (program.script.line 3).note == .none && (program.script.line 3).action == .goto &&
        (engine.jumpTarget setup 3).2.toOption == some 1
    | .error _ => false) = true := by
  decide +kernel

/-- Once the variable is set, the label that was noted is found again, and the jump through the variable is valid. -/
theorem spelledApart_named :
    ∃ program, load Standard.commands spelledApart = .ok program ∧
      let setup := (Engine.start program {} Standard.perform default).1
      let start := (Engine.start program {} Standard.perform default).2
      let engine := ((step setup)^[4] (HostCall.autoExecute.start setup start)).engine
      (program.script.line 2).note = .label 0 ∧
      (∃ scratch, engine.labelArg setup { program.script.line 2 with note := .none } =
        ({ engine with scratch }, .ok (some 0))) ∧
      (program.script.line 3).note = .none ∧ (∃ engine', engine.jumpTarget setup 3 = (engine', .ok 1)) ∧
      program.script.isJumpValid 3 1 = true := by
  have hjumps := spelledApart_jumps
  cases hload : load Standard.commands spelledApart with
  | error e => rw [hload] at hjumps; cases hjumps
  | ok program =>
    simp only [hload, Bool.and_eq_true, beq_iff_eq] at hjumps
    obtain ⟨⟨⟨⟨hnote, hexpands⟩, hnone⟩, hgoto⟩, hjumps⟩ := hjumps
    refine ⟨program, rfl, ?_⟩
    intro setup start engine
    have hjump : engine.jumpTarget setup 3 = ((engine.jumpTarget setup 3).1, .ok 1) := by
      cases hanswer : (engine.jumpTarget setup 3).2 with
      | error problem => rw [hanswer] at hjumps; cases hjumps
      | ok target =>
        rw [hanswer] at hjumps
        exact Prod.ext rfl (hanswer.trans (congrArg _ (Option.some.inj hjumps)))
    have hnamed := noted_label_is_named hload {} Standard.perform default engine
    refine ⟨hnote, ?_, hnone, ⟨_, hjump⟩, (hnamed 3).2 (.inl hgoto) _ 1 hjump⟩
    obtain ⟨-, ⟨scratch, args, -, -, hlate⟩ | ⟨needed, -, hmemory⟩⟩ := (hnamed 2).1 0 hnote
    · exact ⟨scratch, hlate⟩
    · rw [hmemory] at hexpands
      cases hexpands

end Program

end LineScript
