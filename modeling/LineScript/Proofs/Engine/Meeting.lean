import LineScript.Proofs.Engine.Operands
import LineScript.Proofs.Engine.Planned
import LineScript.Proofs.Expr.Printing
import LineScript.Proofs.Variables.Names

/-!
# Names that meet

A variable is named outright, or by a name that is put together from parts when it is used, with its letters in any case. However it
is named it is one variable, and what is assigned to it under one of its names is read under all of them (`VarName.meets`). Both ways
of looking a reference up, for its value (`Expansion.operand_of_standsFor`) and for its slot (`Expansion.slot_of_standsFor`), come to
the slot that is found by the name.
-/

namespace LineScript

open Text Expansion

/-! ## References to a name -/

/-- A reference stands for a name: it is to the slot that the name has, or its parts make the name up, ASCII case aside. -/
inductive Target.StandsFor (view : View) (vars : Variables) (name : String) : Target → Prop
  | static {id : VarId} {written : String} (hsame : sameAscii written name = true) (hfind : vars.find? written = some id) :
    StandsFor view vars name (.static id)
  | dynamic {parts : List NamePart} (hsame : sameAscii (assembled view vars parts) name = true) :
    StandsFor view vars name (.dynamic parts)

/-- A reference reads a value: as an operand or in free text, and as an argument that takes a variable. -/
structure Target.Reads (view : View) (vars : Variables) (value : Value) (target : Target) : Prop where
  operand_eq : operand view vars target = .ok value
  slot_eq : ∃ id, slot view vars target = .ok (vars, id) ∧ read view vars id = value

/-- Names that differ in ASCII case only are found in the same slot. -/
theorem Variables.find?_of_sameAscii {written name : String} (h : sameAscii written name = true) (vars : Variables) :
    vars.find? written = vars.find? name := by
  unfold find?
  rw [lower_eq_of_sameAscii h]

/-- Names that differ in ASCII case only are the same engine variable's, or nobody's. -/
theorem Builtin.ofName?_of_sameAscii {written name : String} (h : sameAscii written name = true) :
    ofName? written = ofName? name := by
  unfold ofName?
  rw [eq_of_beq h]

/-- What is stored through a slot is what it reads as. -/
theorem Variables.read_of_set {vars vars' : Variables} {name : String} {id : VarId} {value : Value}
    (hfind : vars.find? name = some id) (h : vars.set id value = .ok vars') (view : View) : read view vars' id = value := by
  have hlt : id < vars.slots.size := Reference.lt_of_findKey? hfind
  have hslot := Array.getElem?_eq_getElem hlt
  cases hbuiltin : vars.slots[id].builtin with
  | some b =>
    simp only [set, hslot, hbuiltin] at h
    cases h
  | none =>
    rw [set_of_own hslot hbuiltin] at h
    cases h
    simp [Expansion.read, builtin?, get, hlt, hbuiltin]

section

variable {view : View} {vars vars' : Variables} {target : Target} {id : VarId} (name : VarName)
  (hstands : target.StandsFor view vars name.text)

/-- The parts of a name make a name up in any case of its letters. -/
theorem VarName.dynamicName_eq {parts : List NamePart} (hsame : sameAscii (assembled view vars parts) name.text = true) :
    dynamicName view vars parts = .ok (assembled view vars parts) := by
  rw [Expansion.dynamicName_eq, Name.validate_of_sameAscii hsame name.valid]
  rfl

/-- The name written out is loaded as a reference to its slot. -/
theorem VarName.loaded_eq {written : String} (hsame : sameAscii written name.text = true) (vars : Variables)
    (literal : Nat → Bool) :
    ∃ later id, Reference.slot vars written = .ok (later, id) ∧
      Reference.ofName vars written.toList literal = .ok (later, .static id) ∧ later.find? written = some id := by
  have hwritten : ∃ other : VarName, other.text = written := ⟨⟨written, Name.validate_of_sameAscii hsame name.valid⟩, rfl⟩
  obtain ⟨other, rfl⟩ := hwritten
  exact ⟨_, _, by rw [Reference.slot, other.resolve_eq], other.ofName_eq vars literal, other.find?_intern vars⟩

include hstands

/-- A reference that stands for a name that has a slot is to that slot. -/
theorem Expansion.slot_of_standsFor (hfind : vars.find? name.text = some id) : slot view vars target = .ok (vars, id) := by
  cases hstands with
  | static hsame hstatic =>
    rw [Variables.find?_of_sameAscii hsame, hfind] at hstatic
    cases hstatic
    rfl
  | dynamic hsame =>
    rw [← Variables.find?_of_sameAscii hsame] at hfind
    simp only [slot, name.dynamicName_eq hsame, Variables.resolve_of_find? hfind]

/-- Taking the slot that a reference stands for gives one to the name. -/
theorem Expansion.find?_of_slot (h : slot view vars target = .ok (vars', id)) : vars'.find? name.text = some id := by
  cases hstands with
  | static hsame hstatic =>
    cases h
    rwa [← Variables.find?_of_sameAscii hsame]
  | dynamic hsame =>
    simp only [slot, name.dynamicName_eq hsame] at h
    split at h
    · cases h
    · rename_i hresolve
      cases h
      rw [← Variables.find?_of_sameAscii hsame]
      exact Variables.find?_of_resolve hresolve

/-- A reference that stands for a name that has a slot has the value of that slot. The name is no engine variable's, for of those a
name that is put together never looks at the slot. -/
theorem Expansion.operand_of_standsFor (hown : Builtin.ofName? name.text = none) (hfind : vars.find? name.text = some id) :
    operand view vars target = .ok (read view vars id) := by
  cases hstands with
  | static hsame hstatic =>
    rw [Variables.find?_of_sameAscii hsame, hfind] at hstatic
    cases hstatic
    rfl
  | dynamic hsame =>
    rw [← Variables.find?_of_sameAscii hsame] at hfind
    rw [← Builtin.ofName?_of_sameAscii hsame] at hown
    simp only [operand, name.dynamicName_eq hsame, hown, hfind]
    rfl

end

/-- A name that is put together and has no slot reads as empty. -/
theorem Expansion.operand_of_new {view : View} {vars : Variables} (name : VarName) {parts : List NamePart}
    (hsame : sameAscii (assembled view vars parts) name.text = true) (hown : Builtin.ofName? name.text = none)
    (hnew : vars.find? name.text = none) : operand view vars (.dynamic parts) = .ok .empty := by
  rw [← Variables.find?_of_sameAscii hsame] at hnew
  rw [← Builtin.ofName?_of_sameAscii hsame] at hown
  simp only [operand, name.dynamicName_eq hsame, hown, hnew]
  rfl

/-! ## Assigning and reading -/

/-- The variable that a line is given to store into is the one its first argument stands for. -/
theorem Engine.find?_of_expand {engine after : Engine} {line : Line} {args : ExpandedArgs} {out : Arg} {target : Target}
    (name : VarName) (hout : line.args.head? = some out) (hkind : out.kind = .output) (hvar : out.var? = some target)
    (hstands : target.StandsFor engine.view engine.vars name.text) (h : engine.expand line = (after, .ok args)) :
    ∃ var, args.output? 0 = some var ∧ after.vars.find? name.text = some var := by
  obtain ⟨vars, planned, scratch, hplanned, -, rfl, rfl⟩ := expand_eq_ok.mp h
  obtain ⟨rest, hargs⟩ := List.head?_eq_some_iff.mp hout
  rw [hargs] at hplanned
  obtain ⟨first, others, later, hplan, hothers, rfl⟩ := planAll_cons_eq_ok.mp hplanned
  obtain ⟨var, hslot, rfl⟩ := (plan_output_eq_ok hkind hvar).mp hplan
  have hext := extends_planAll engine.view later rest
  rw [hothers] at hext
  exact ⟨var, rfl, hext.find? (find?_of_slot name hstands hslot)⟩

/-- An expression of one operand has the value of what the operand refers to. -/
theorem Expansion.plan_of_operand {view : View} {vars : Variables} {arg : Arg} {t : Token} {deref : Deref}
    (hkind : arg.kind = .text) (hexpr : arg.isExpr = true) (h : arg.Agrees vars [t])
    (hmem : (t, deref) ∈ (Token.operands [t]).zip arg.derefs) :
    plan view vars arg = (operand view vars deref.target).map fun value => (vars, .expr value) := by
  have hoperand : t.kind = .operand := eq_of_beq (List.mem_filter.mp (List.of_mem_zip hmem).1).2
  have hprimary : Expr.ReadsPrimary { derefs := arg.derefs, lookup := operand view vars } [t]
      fun _ => operand view vars deref.target := by
    refine Expr.readsPrimary_token (by rw [hoperand]; exact nofun) (by rw [hoperand]; exact nofun) fun fuel quiet rest => ?_
    exact (h.found t deref hmem).2 (operand view vars) fuel quiet rest
  have hwhole := (hprimary.readsUnary.readsAt Expr.leastLevel).whole false (8 * [t].length + 8) (Nat.le_refl _)
    (Expr.stops_nil _) (by rw [List.length_singleton]; omega)
  rw [List.append_nil] at hwhole
  rw [plan, hkind]
  dsimp only
  rw [if_pos hexpr, Expr.evaluate, h.scan_eq]
  dsimp only
  rw [Expr.evaluateTokens, if_neg (by simp), hwhole]
  cases operand view vars deref.target <;> rfl

/-- All ways of naming a variable come to the same one. -/
structure VarName.Meets (setup : Setup) (name : VarName) : Prop where
  /-- The name written out, in free text or by itself, is loaded as a reference that stands for it from then on. -/
  loaded (written : String) (before : Variables) (literal : Nat → Bool) : sameAscii written name.text = true →
    ∃ later id, Reference.slot before written = .ok (later, id) ∧
      Reference.ofName before written.toList literal = .ok (later, .static id) ∧
      ∀ (view : View) (vars : Variables), later.Extends vars → (Target.static id).StandsFor view vars name.text
  /-- An assignment through a reference that stands for the name, when it succeeds, gives a value to the slot of the name, and every
  reference that stands for the name then reads that value. -/
  assigned (engine engine' : Engine) (line : Line) (op : AssignOp) (out : Arg) (target : Target) :
    line.args.head? = some out → out.kind = .output → out.var? = some target →
    target.StandsFor engine.view engine.vars name.text → engine.assign setup line op = (engine', .ok ()) →
    ∃ after args var value, engine.expand line = (after, .ok args) ∧ args.output? 0 = some var ∧
      after.assigned setup op var args = .ok value ∧ engine'.vars.find? name.text = some var ∧
      ∀ other : Target, other.StandsFor engine'.view engine'.vars name.text → other.Reads engine'.view engine'.vars value
  /-- An operand that is put together to the name is empty as long as the name has no slot, and looking it up makes none. -/
  empty (view : View) (vars : Variables) (parts : List NamePart) :
    (Target.dynamic parts).StandsFor view vars name.text → vars.find? name.text = none →
    operand view vars (.dynamic parts) = .ok .empty ∧
    ∀ (arg : Arg) (tokens : List Token), arg.kind = .text → arg.isExpr = true → arg.Agrees vars tokens →
      ∀ t deref, (t, deref) ∈ (Token.operands tokens).zip arg.derefs → deref.target = .dynamic parts →
        (∀ fuel quiet rest, Expr.primary { derefs := arg.derefs, lookup := operand view vars } (fuel + 1) quiet (t :: rest) =
          .ok (.empty, rest)) ∧
        (∀ vars' planned, plan view vars arg = .ok (vars', planned) → vars' = vars) ∧
        (tokens = [t] → plan view vars arg = .ok (vars, .expr .empty))

/-- A name that is no engine variable's is one variable, however it is put together and in whatever case it is written: what is
assigned through one reference to it is read through every other. -/
theorem VarName.meets (setup : Setup) (name : VarName) (hown : Builtin.ofName? name.text = none) : name.Meets setup where
  loaded written before literal hsame := by
    obtain ⟨later, id, hslot, hname, hfind⟩ := name.loaded_eq hsame before literal
    exact ⟨later, id, hslot, hname, fun view vars hext => .static hsame (hext.find? hfind)⟩
  assigned engine engine' line op out target hout hkind hvar hstands h := by
    unfold Engine.assign Engine.withArgs at h
    cases hexpand : engine.expand line with
    | mk after result =>
      cases result with
      | error e =>
        rw [hexpand] at h
        cases h
      | ok args =>
        obtain ⟨var, houtput, hfind⟩ := Engine.find?_of_expand name hout hkind hvar hstands hexpand
        simp only [hexpand, houtput] at h
        cases hvalue : after.assigned setup op var args with
        | error e =>
          rw [hvalue] at h
          cases h
        | ok value =>
          cases hset : after.vars.set var value with
          | error e =>
            simp only [hvalue, hset] at h
            cases h
          | ok vars =>
            simp only [hvalue, hset] at h
            cases h
            have hfound : vars.find? name.text = some var := (Variables.extends_set hset).find? hfind
            have hread := Variables.read_of_set hfind hset
            refine ⟨after, args, var, value, rfl, houtput, hvalue, hfound, fun other hother => ⟨?_, var, ?_, hread _⟩⟩
            · rw [operand_of_standsFor name hother hown hfound, hread]
            · exact slot_of_standsFor name hother hfound
  empty view vars parts hstands hnew := by
    have hsame : sameAscii (assembled view vars parts) name.text = true := by
      cases hstands with
      | dynamic hsame => exact hsame
    have hempty := operand_of_new name hsame hown hnew
    refine ⟨hempty, fun arg tokens hkind hexpr hagrees t deref hmem htarget => ⟨fun fuel quiet rest => ?_, ?_, ?_⟩⟩
    · rw [(hagrees.found t deref hmem).2, htarget, hempty]
      rfl
    · intro vars' planned hplan
      rw [plan, hkind] at hplan
      dsimp only at hplan
      rw [if_pos hexpr] at hplan
      obtain ⟨_, -, hplan⟩ := map_eq_ok hplan
      cases hplan
      rfl
    · rintro rfl
      rw [plan_of_operand hkind hexpr hagrees hmem, htarget, hempty]
      rfl

namespace Program

/-- A program that assigns to a name of two parts and reads it with other cuts and in other cases. -/
def cutThrice : List Item :=
  let assign (name value : String) : Item := .statement { keyword := ":=", args := [.plain name, .plain value], lineNo := 1 } []
  [assign "m" "\"M\"", assign "n" "1", assign "Ite%m%%n%" "6 * 7", assign "both" "ITEM1 . i%x%te%m%1"]

/-- The parts of the name that it assigns to, and of the one that it reads. -/
def cutThriceParts : List NamePart × List NamePart :=
  ([.literal "Ite", .var 1, .var 2], [.literal "i", .var 5, .literal "te", .var 1, .literal "1"])

/-- The lines of `cutThrice` store 42 under a name that is put together, and read it under another spelling of that name. -/
theorem cutThrice_runs :
    (match load Standard.commands cutThrice with
    | .ok program =>
      let (setup, engine) := Engine.start program {} Standard.perform default
      let given := ((engine.assign setup (program.script.line 0) .expr).1.assign setup (program.script.line 1) .expr).1
      let (after, result) := given.assign setup (program.script.line 2) .expr
      ((program.script.line 2).args.head?).any (fun out => out.kind == .output &&
        decide (out.var? = some (.dynamic cutThriceParts.1))) &&
      decide (((program.script.line 3).args[1]?).map (·.derefs.map (·.target)) =
        some [.static 4, .dynamic cutThriceParts.2]) &&
      sameAscii (assembled given.view given.vars cutThriceParts.1) "item1" && result.isOk &&
      after.vars.find? "ITEM1" == some 4 && sameAscii (assembled after.view after.vars cutThriceParts.2) "item1" &&
      (read after.view after.vars 4).toText == "42"
    | .error _ => false) = true := by
  decide +kernel

/-- A name that is cut in three places meets the variable of `cutThrice`. -/
theorem meets_cutThrice :
    Builtin.ofName? "item1" = none ∧ ∃ program, load Standard.commands cutThrice = .ok program ∧
      let (setup, engine) := Engine.start program {} Standard.perform default
      let given := ((engine.assign setup (program.script.line 0) .expr).1.assign setup (program.script.line 1) .expr).1
      let after := (given.assign setup (program.script.line 2) .expr).1
      ∃ value, value.toText = "42" ∧ ∃ arg, (program.script.line 3).args[1]? = some arg ∧
        ∀ deref ∈ arg.derefs, deref.target.Reads after.view after.vars value := by
  refine ⟨by decide, ?_⟩
  have hruns := cutThrice_runs
  cases hload : load Standard.commands cutThrice with
  | error e => rw [hload] at hruns; cases hruns
  | ok program =>
    refine ⟨program, rfl, ?_⟩
    simp only [hload] at hruns
    generalize Engine.start program {} Standard.perform default = started at hruns ⊢
    obtain ⟨setup, engine⟩ := started
    dsimp only at hruns ⊢
    generalize ((engine.assign setup (program.script.line 0) .expr).1.assign setup (program.script.line 1) .expr).1 = given
      at hruns ⊢
    cases hassign : given.assign setup (program.script.line 2) .expr with
    | mk after result =>
      simp only [hassign, Bool.and_eq_true, Option.any_eq_true, beq_iff_eq, decide_eq_true_eq] at hruns
      obtain ⟨⟨⟨⟨⟨⟨⟨out, hout, hkind, hvar⟩, hderefs⟩, hgiven⟩, hok⟩, hfind⟩, hafter⟩, hread⟩ := hruns
      obtain ⟨arg, harg, htargets⟩ := Option.map_eq_some_iff.mp hderefs
      cases result with
      | error e => cases hok
      | ok _ =>
        have hmeets := (VarName.mk "item1" (by decide)).meets setup (by decide)
        obtain ⟨_, _, var, value, -, -, -, hvalue, hreads⟩ :=
          hmeets.assigned given after _ .expr out _ hout hkind hvar (.dynamic hgiven) hassign
        have hstatic := hreads (.static 4) (.static (by decide) hfind)
        refine ⟨value, ?_, arg, harg, fun deref hderef => hreads _ ?_⟩
        · rw [← Except.ok.inj hstatic.operand_eq]
          exact hread
        · have hmem := List.mem_map_of_mem (f := (·.target)) hderef
          rw [htargets] at hmem
          rcases List.mem_cons.mp hmem with htarget | hmem
          · rw [htarget]
            exact .static (by decide) hfind
          · rw [List.mem_singleton.mp hmem]
            exact .dynamic hafter

end Program

end LineScript
