import LineScript.Engine.Statement
import LineScript.Proofs.Engine.Labels
import LineScript.Proofs.Engine.Room
import LineScript.Proofs.Expr.Printing
import LineScript.Proofs.Variables.Names

/-!
# Two ways to compare

An `if` line compares a variable with a text in words of its own, or it compares two variables in an expression. The first way
compares the text of the variable, the second one what it holds. Both answers are the same wherever the number that a value stands
for is read from its text, and only the least integer is not (`Engine.notations_agree`).
-/

namespace LineScript

open Text

/-! ## Orders -/

namespace Value

/-- What a value is compared as does not depend on whether it is a text, if its number can be read from that. -/
theorem order_text {v : Value} (h : (text v.toText).toNumber? = v.toNumber?) (caseSensitive : Bool) (w : Value) :
    (text v.toText).order caseSensitive w = v.order caseSensitive w := by
  rw [order, order, h]
  rfl

/-- Where one of two values is no number they are compared by their texts. -/
theorem order_of_toNumber? {v w : Value} (h : v.toNumber? = none ∨ w.toNumber? = none) (caseSensitive : Bool) :
    v.order caseSensitive w = textOrder caseSensitive v.toText w.toText := by
  unfold order
  split
  · rename_i hv hw
    rcases h with h | h
    · cases hv.symm.trans h
    · cases hw.symm.trans h
  · rfl

/-- The text of the least integer is compared as a text. -/
theorem order_least {n : Int64} (h : n = Int64.minValue) (w : String) :
    (text (int n).toText).order false (.text w) = textOrder false (int n).toText w := by
  have hnone : (text (int n).toText).toNumber? = none := (Number.ofText?_intText n).trans (if_pos h)
  exact order_of_toNumber? (.inl hnone) false

/-- The text of a value that is no double compares as the value does, but where that is the least integer and meets a number. -/
theorem order_toText {v : Value} {w : String} (hfloat : ∀ x, v ≠ .float x)
    (h : ¬ (v = .int Int64.minValue ∧ (Number.ofText? w).isSome = true)) :
    (text v.toText).order false (.text w) = v.order false (.text w) := by
  cases v with
  | text s => rfl
  | float x => exact absurd rfl (hfloat x)
  | int n =>
    by_cases hmin : n = Int64.minValue
    · have hw : (Value.text w).toNumber? = none :=
        Option.not_isSome_iff_eq_none.mp fun hsome => h ⟨congrArg _ hmin, hsome⟩
      rw [order_of_toNumber? (.inr hw), order_of_toNumber? (.inr hw)]
      rfl
    · refine order_text ?_ false (.text w)
      exact (Number.ofText?_intText n).trans (if_neg hmin)

end Value

/-! ## Comparisons in expressions -/

namespace Comparison

/-- How a comparison is written. -/
def symbol : Comparison → String
  | equal => "="
  | notEqual => "<>"
  | greater => ">"
  | greaterOrEqual => ">="
  | less => "<"
  | lessOrEqual => "<="

/-- What a comparison is in an expression. -/
def op : Comparison → Op
  | equal => .eq
  | notEqual => .ne
  | greater => .gt
  | greaterOrEqual => .ge
  | less => .lt
  | lessOrEqual => .le

/-- How tightly a comparison binds there. -/
def level : Comparison → Nat
  | equal | notEqual => 4
  | greater | greaterOrEqual | less | lessOrEqual => 5

/-- The operator of a comparison binds at the level of the comparison. -/
theorem level?_op (c : Comparison) : Expr.level? c.op = some c.level := by
  cases c <;> decide

/-- A comparison as an operator of expressions. -/
def operator (c : Comparison) : Expr.BinaryOp where
  op := c.op
  level := c.level
  binds := level?_op c

/-- The operator of a comparison is applied as the comparison holds. -/
theorem apply_operator (op : Comparison) (a b : Value) :
    Arith.apply op.operator.op a b = .ok (.ofBool (op.holds (a.order false b))) := by
  cases op <;> rfl

/-- A traditional `If` with a symbol is a comparison. -/
theorem ifAction_symbol (op : Comparison) (subject operand : RawArg) :
    Keyword.ifAction [subject, .plain op.symbol, operand] = .ok (.cond (.compare op), [subject, operand]) := by
  have hlookup : Keyword.operators.lookup (Keyword.operatorText op.symbol) = some (.compare op) := by
    cases op <;> decide +kernel
  simp only [Keyword.ifAction, RawArg.plain, hlookup, Keyword.withOperand]

end Comparison

/-- The name of a variable that may stand in an expression. -/
structure OperandName extends VarName where
  starts : Expr.startsName text.toList = true
  notOperator : Expr.operatorWord? text.toList = none

namespace OperandName

/-- What may stand in names is plain in expressions. -/
theorem isPlain_of_isNameChar {c : Char} (h : Name.isNameChar c = true) : Expr.isPlain c = true := by
  have hterminators : ['\t', ' ', '+', '-', '<', '>', '=', '*', '/', '&', '|', '^', '~', '!', '(', ')', ',', '"'].all
      (!Name.isNameChar ·) = true := by decide
  have hillegal : ['\x27', '\\', ':', ';', '\x60', '\x7b', '\x7d'].all (!Name.isNameChar ·) = true := by decide
  refine Expr.isPlain_iff.mpr ⟨Bool.eq_false_iff.mpr fun hc => ?_, Bool.eq_false_iff.mpr fun hc => ?_⟩
  · have hnot := List.all_eq_true.mp hterminators c (List.contains_iff_mem.mp hc)
    rw [h] at hnot
    cases hnot
  · have hnot := List.all_eq_true.mp hillegal c (List.contains_iff_mem.mp hc)
    rw [h] at hnot
    cases hnot

/-- The name as an operand of an expression. -/
def identifier (name : OperandName) : Expr.Identifier where
  chars := name.text.toList
  nonempty := name.toList_ne_nil
  plain := List.all_eq_true.mpr fun c hc => isPlain_of_isNameChar (name.isNameChar c hc)
  starts := name.starts
  notOperator := name.notOperator

end OperandName

namespace Reference

/-- There is one reference for each operand. -/
theorem length_ofTokens {vars vars' : Variables} {tokens : List Token} {derefs : List Deref}
    (h : ofTokens vars tokens = .ok (vars', derefs)) : derefs.length = (operandNames tokens).length := by
  induction tokens generalizing vars derefs with
  | nil =>
    cases h
    rfl
  | cons first rest ih =>
    unfold ofTokens at h
    split at h
    · rename_i hkind
      obtain ⟨⟨vars₁, target⟩, -, h⟩ := bind_eq_ok_iff.mp h
      obtain ⟨⟨vars₂, more⟩, hmore, h⟩ := bind_eq_ok_iff.mp h
      cases h
      rw [operandNames, List.filter_cons, if_pos hkind]
      exact congrArg Nat.succ (ih hmore)
    · rename_i hkind
      rw [operandNames, List.filter_cons, if_neg hkind]
      exact ih h

end Reference

namespace Expr

/-- Evaluating a term in parentheses, with the references that are found in it, gives the value of the term. -/
theorem evaluate_parenthesized (style : Style) (term : Term) {vars vars' : Variables}
    (h : Reference.declare vars term.names = .ok vars') :
    ∃ derefs, Reference.inExpr vars (.ofList (written (style.parenthesized (term.pieces style)))) = .ok (vars', derefs) ∧
      derefs.length = term.names.length ∧
      ∀ lookup, evaluate (.ofList (written (style.parenthesized (term.pieces style)))) derefs lookup =
        term.value (environment vars' lookup) false := by
  have hscans := (stands_parenthesized style (term.stands style).scans).scans [] closes_nil
  have hpairs := (pairwise_tokensFrom hscans 0).1
  obtain ⟨opening, closing, next, hopening, hclosing, htokens⟩ := tokensFrom_parenthesized style 0 (term.pieces style)
  have hscan : Token.scan (.ofList (written (style.parenthesized (term.pieces style)))) =
      .ok (opening :: (tokensFrom next (term.pieces style) ++ [closing])) := by
    rw [Token.scan, String.toList_ofList, Token.scanChars, scanOnto_written hscans (Nat.lt_succ_self _), ← htokens]
    rfl
  have hnames : Reference.operandNames (opening :: (tokensFrom next (term.pieces style) ++ [closing])) = term.names := by
    have hnames := operandNames_tokensFrom 0 (style.parenthesized (term.pieces style))
    rw [htokens] at hnames
    rw [hnames, ← term.names_pieces style]
    simp [Style.parenthesized, Style.gap, Piece.names]
  rw [htokens] at hpairs
  obtain ⟨derefs, hderefs⟩ := Reference.exists_ofTokens (hnames.symm ▸ h)
  refine ⟨derefs, by simp only [Reference.inExpr, hscan, hderefs], ?_, fun lookup => ?_⟩
  · rw [Reference.length_ofTokens hderefs, hnames]
  have hresolves : Resolves { derefs, lookup } (environment vars' lookup) (tokensFrom next (term.pieces style)) := by
    intro t ht hkind
    obtain ⟨deref, hfind, hname⟩ := Reference.find?_of_ofTokens hderefs hpairs t
      (List.mem_cons_of_mem _ (List.mem_append_left _ ht)) hkind
    exact ⟨deref, hfind, by simp only [environment, hname]⟩
  have hinside := (term.reads style { derefs, lookup } (environment vars' lookup) next hresolves).readsAt
  have hreads := (hinside.parenthesized term.leastLevel_le hopening hclosing).readsUnary.readsAt leastLevel
  have hwhole := hreads.whole false (8 * (opening :: (tokensFrom next (term.pieces style) ++ [closing])).length + 8)
    (Nat.le_refl _) (stops_nil _) (by omega)
  rw [List.append_nil] at hwhole
  simp only [evaluate, hscan, evaluateTokens, List.isEmpty_cons, Bool.false_eq_true, if_false, hwhole]
  cases term.value (environment vars' lookup) false <;> rfl

end Expr

namespace Comparison

/-- Two variables compared in an expression in parentheses. -/
def term (v : OperandName) (op : Comparison) (u : OperandName) : Expr.Term :=
  .binary op.operator (.var v.identifier) (.var u.identifier)

/-- Two variables compared in an expression in parentheses, as text. -/
def print (style : Expr.Style) (v : OperandName) (op : Comparison) (u : OperandName) : String :=
  .ofList (Expr.written (style.parenthesized ((term v op u).pieces style)))

variable (style : Expr.Style) (v u : OperandName) (op : Comparison)

/-- The comparison as a term is true if the comparison holds. -/
theorem value_term {env : Expr.Environment} {a b : Value} (hv : env v.text.toList = .ok a) (hu : env u.text.toList = .ok b) :
    (term v op u).value env false = .ok (.ofBool (op.holds (a.order false b))) := by
  have hand : op.operator.op ≠ .and := by cases op <;> nofun
  have hor : op.operator.op ≠ .or := by cases op <;> nofun
  have hv : env v.identifier.chars = .ok a := hv
  have hu : env u.identifier.chars = .ok b := hu
  simp only [term, Expr.Term.value, hv, hu, Except.bind, Expr.combine_of_ne hand hor, apply_operator]
  rfl

/-- The variables that both sides of a comparison name. -/
def declared (vars : Variables) : Variables :=
  ((vars.intern v.text).1.intern u.text).1

/-- A comparison in an expression is read with a slot for each variable, and evaluates to whether it holds of what they hold. -/
theorem exists_argument (vars : Variables) :
    ∃ derefs, Reference.argument vars .text true (.plain (print style v op u)) =
        .ok (declared v u vars, { kind := .text, text := print style v op u, isExpr := true, derefs }) ∧
      ∀ (lookup : Expr.Lookup) (i j : VarId) (a b : Value), (declared v u vars).find? v.text = some i →
        (declared v u vars).find? u.text = some j → lookup (.static i) = .ok a → lookup (.static j) = .ok b →
        Expr.evaluate (print style v op u) derefs lookup = .ok (.ofBool (op.holds (a.order false b))) := by
  have hdeclare : Reference.declare vars (term v op u).names = .ok (declared v u vars) := by
    have hv := v.ofName_eq vars fun _ => false
    have hu := u.ofName_eq (vars.intern v.text).1 fun _ => false
    simp only [term, Expr.Term.names, OperandName.identifier, List.singleton_append, Reference.declare, hv, hu, bind,
      Except.bind]
    rfl
  obtain ⟨derefs, hinExpr, hlength, hevaluate⟩ := Expr.evaluate_parenthesized style (term v op u) hdeclare
  have hfew : derefs.length ≤ maxReferences := by
    rw [hlength]
    exact (by decide : 2 ≤ maxReferences)
  refine ⟨derefs, Reference.argument_expr_eq hfew hinExpr, fun lookup i j a b hi hj ha hb => ?_⟩
  have henv {name : OperandName} {id : VarId} {value : Value} (hid : (declared v u vars).find? name.text = some id)
      (hvalue : lookup (.static id) = .ok value) :
      Expr.environment (declared v u vars) lookup name.text.toList = .ok value := by
    simp only [Expr.environment, name.ofName_eq, Variables.intern_of_find? hid, hvalue]
  exact (hevaluate lookup).trans (value_term v u op (henv hi ha) (henv hj hb))

end Comparison

/-! ## Lines -/

namespace Expansion

/-- The text that the references of a free text make of it. -/
def freeText (view : View) (vars : Variables) (arg : Arg) : Except Problem String :=
  (operands view vars arg.derefs).map fun values => fill 0 arg.text.toList (arg.derefs.zip values)

end Expansion

namespace Engine

open Expansion

/-- A variable shows a value to the program. -/
def Shows (engine : Engine) (name : String) (value : Value) : Prop :=
  ∃ id, engine.vars.find? name = some id ∧ read engine.view engine.vars id = value

variable {engine : Engine} {line : Line} {vars vars' : Variables} {held : Value} {w : String}

/-- A line that compares a variable with a text compares their texts. -/
theorem condition_compare (op : Comparison) {subject second : Arg} {i : VarId} (hline : line.args = [subject, second])
    (hkind : subject.kind = .input) (hvar : subject.var? = some (.static i)) (hheld : read engine.view engine.vars i = held)
    (hdirect : second.Direct) (hsited : Deref.Sited 0 second.text.toList second.derefs)
    (htext : freeText engine.view engine.vars second = .ok w)
    (hroom : engine.scratch.size + (held.size + w.utf8ByteSize) ≤ engine.scratch.limit) :
    ∃ scratch, engine.condition line (.compare op) =
      ({ engine with scratch }, .ok (op.holds ((Value.text held.toText).order false (.text w)))) := by
  obtain ⟨values, hvalues, hfill⟩ := map_eq_ok htext
  have hplan : planAll engine.view engine.vars line.args =
      (engine.vars, .ok [(subject, .input i held), (second, .text values)]) := by
    simp only [hline, planAll, plan, hkind, hvar, slot, hheld, hdirect.kind_eq, hdirect.isExpr_eq, hvalues, Except.map,
      Bool.false_eq_true, if_false]
  have hfits : ∀ p ∈ [(subject, Planned.input i held), (second, .text values)], Fits p := by
    simp [Fits, hdirect.kind_eq, hsited]
  have hwrite : [(subject, Planned.input i held), (second, .text values)].map write = [.input i held.toText, .text w] := by
    simp only [List.map_cons, List.map_nil, write, hfill]
  obtain ⟨grown, -, hexpand⟩ := expand_of_le hplan hfits (by rw [hwrite]; simpa [heldSize, Expanded.toText, Value.size] using hroom)
  rw [hwrite] at hexpand
  refine ⟨hold grown [.input i held.toText, .text w], ?_⟩
  simp only [condition, withArgs, expand, hexpand]
  rfl

/-- A line that evaluates an expression asks whether its value is true. -/
theorem condition_expr {arg : Arg} {truth : Bool} (hline : line.args = [arg]) (hkind : arg.kind = .text)
    (hexpr : arg.isExpr = true)
    (hvalue : Expr.evaluate arg.text arg.derefs (operand engine.view engine.vars) = .ok (.ofBool truth))
    (hroom : engine.scratch.size + 1 ≤ engine.scratch.limit) :
    ∃ scratch, engine.condition line .expr = ({ engine with scratch }, .ok truth) := by
  have hplan : planAll engine.view engine.vars line.args = (engine.vars, .ok [(arg, .expr (.ofBool truth))]) := by
    simp only [hline, planAll, plan, hkind, hexpr, hvalue, Except.map, if_true]
  have hfits : ∀ p ∈ [(arg, Planned.expr (.ofBool truth))], Fits p := by simp [Fits]
  have hsize : (Value.ofBool truth).toText.utf8ByteSize = 1 := by cases truth <;> decide
  obtain ⟨grown, -, hexpand⟩ := expand_of_le hplan hfits (by simpa [write, heldSize, Expanded.toText, hsize] using hroom)
  refine ⟨hold grown [.expr (.ofBool truth)], ?_⟩
  simp only [condition, withArgs, expand, hexpand]
  cases truth <;> rfl

end Engine

namespace Builder

variable {commands : CommandSet} {vars vars' : Variables} {note : Note} {args : List Arg}

/-- The arguments of an `if` line are built one after the other, without more to check. -/
theorem buildArgs_cond (cond : Condition) (least pos : Nat) (vars : Variables) (raw : RawArg) (rest : List RawArg) :
    buildArgs commands (.cond cond) least pos note vars (raw :: rest) =
      Reference.argument vars (argKind commands (.cond cond) note pos) (isExprArg (.cond cond) pos) raw >>= fun (vars, arg) =>
        (buildArgs commands (.cond cond) least (pos + 1) note vars rest).map fun (vars, note, args) =>
          (vars, note, arg :: args) := by
  have hkind : (argKind commands (.cond cond) note pos == .output) = false := by
    cases cond <;> simp only [argKind] <;> first | rfl | (split <;> rfl)
  have hloop : (Action.cond cond == .loop) = false := rfl
  rw [buildArgs]
  simp only [hkind, hloop, Bool.false_and, Bool.false_eq_true, if_false]
  rfl

/-- The arguments of a line that compares a variable with a text. -/
theorem buildArgs_compare {op : Comparison} {v : VarName} {operand : RawArg} (hv : trim v.text = v.text)
    (h : buildArgs commands (.cond (.compare op)) 2 0 .none vars [.plain v.text, operand] = .ok (vars', note, args)) :
    ∃ subject second, args = [subject, second] ∧ subject.kind = .input ∧
      subject.var? = some (.static (vars.intern v.text).2) ∧
      Reference.argument (vars.intern v.text).1 .text false operand = .ok (vars', second) := by
  rw [buildArgs_cond] at h
  obtain ⟨⟨vars₁, subject⟩, hsubject, h⟩ := bind_eq_ok_iff.mp h
  have hsubject : Reference.argument vars .input false (.plain v.text) = .ok (vars₁, subject) := hsubject
  rw [v.argument_eq hv] at hsubject
  cases hsubject
  obtain ⟨⟨vars₂, note₂, rest⟩, hrest, h⟩ := map_eq_ok h
  cases h
  rw [buildArgs_cond] at hrest
  obtain ⟨⟨vars₃, second⟩, hsecond, hrest⟩ := bind_eq_ok_iff.mp hrest
  cases hrest
  exact ⟨_, second, rfl, rfl, rfl, hsecond⟩

/-- The argument of a line that evaluates an expression. -/
theorem buildArgs_expr {raw : RawArg} {arg : Arg} (h : Reference.argument vars .text true raw = .ok (vars', arg)) :
    buildArgs commands (.cond .expr) 1 0 .none vars [raw] = .ok (vars', .none, [arg]) := by
  have hkind : argKind commands (.cond .expr) .none 0 = .text := rfl
  have hexpr : isExprArg (.cond .expr) 0 = true := rfl
  rw [buildArgs_cond, hkind, hexpr, h]
  rfl

end Builder

namespace Engine

open Expansion

/-- Every integer but the least is read from its text. So a line that compares a variable, which holds a text or an integer, with
some text in its own words answers as one that compares it in an expression with a variable that holds the text, wherever both have
room for their arguments; but where the variable holds the least integer and the text is a number, the first line compares texts
while the second one compares numbers. -/
theorem notations_agree (commands : CommandSet) (style : Expr.Style) (v u : OperandName) (op : Comparison) (raw : RawArg)
    (vars vars' : Variables) (note : Note) (args : List Arg) (hname : trim v.text = v.text)
    (hargs : Builder.buildArgs commands (.cond (.compare op)) 2 0 .none vars [.plain v.text, raw] = .ok (vars', note, args)) :
    (∀ n : Int64, Number.ofText? (Value.int n).toText = if n = Int64.minValue then none else some (.int n)) ∧
    Keyword.ifAction [.plain v.text, .plain op.symbol, raw] = .ok (.cond (.compare op), [.plain v.text, raw]) ∧
    ∃ vars'' args', Builder.buildArgs commands (.cond .expr) 1 0 .none vars' [.plain (op.print style v u)] =
        .ok (vars'', .none, args') ∧
      ∀ (engine : Engine) (line line' : Line) (held : Value) (w : String), vars''.Extends engine.vars →
        line.args = args → line'.args = args' →
        engine.Shows v.text held → (∀ x, held ≠ .float x) → engine.Shows u.text (.text w) →
        (args[1]?).map (freeText engine.view engine.vars) = some (.ok w) →
        engine.scratch.size + (held.size + w.utf8ByteSize) ≤ engine.scratch.limit →
        engine.scratch.size + 1 ≤ engine.scratch.limit →
        ∃ scratch scratch' truth,
          engine.condition line (.compare op) = ({ engine with scratch }, .ok truth) ∧
          engine.condition line' .expr =
            ({ engine with scratch := scratch' }, .ok (op.holds (held.order false (.text w)))) ∧
          (held = .int Int64.minValue ∧ (Number.ofText? w).isSome = true →
            truth = op.holds (textOrder false held.toText w)) ∧
          (¬ (held = .int Int64.minValue ∧ (Number.ofText? w).isSome = true) →
            truth = op.holds (held.order false (.text w))) := by
  refine ⟨Number.ofText?_intText, op.ifAction_symbol _ _, ?_⟩
  obtain ⟨subject, second, rfl, hkind, hvar, hsecond⟩ := Builder.buildArgs_compare hname hargs
  obtain ⟨derefs, hexpr, hevaluate⟩ := Comparison.exists_argument style v u op vars'
  refine ⟨_, _, Builder.buildArgs_expr hexpr, ?_⟩
  intro engine line line' held w hext hline hline' hheld hfloat hshown htext hroom hroom'
  have hextends : vars'.Extends (Comparison.declared v u vars') :=
    (vars'.extends_intern _).trans (Variables.extends_intern _ _)
  have hv := (hextends.find? ((Reference.extends_argument hsecond).find? (v.find?_intern vars)))
  have hu : (Comparison.declared v u vars').find? u.text = some _ := u.find?_intern (vars'.intern v.text).1
  -- both lines look up the variables where the engine has them
  obtain ⟨i, hi, hheld⟩ := hheld
  obtain rfl := Option.some.inj (hi.symm.trans (hext.find? hv))
  obtain ⟨j, hj, hshown⟩ := hshown
  obtain rfl := Option.some.inj (hj.symm.trans (hext.find? hu))
  have hdirect := Reference.direct_argument hsecond
  have hsited := (Reference.refers_argument hsecond).sited hdirect.kind_eq hdirect.isExpr_eq
  obtain ⟨scratch, htraditional⟩ := condition_compare op hline hkind hvar hheld hdirect hsited (Option.some.inj htext) hroom
  obtain ⟨scratch', hexpression⟩ := condition_expr hline' rfl rfl
    (hevaluate (operand engine.view engine.vars) _ _ _ _ hv hu (congrArg Except.ok hheld) (congrArg Except.ok hshown)) hroom'
  refine ⟨scratch, scratch', _, htraditional, hexpression, ?_, fun hagrees => by rw [Value.order_toText hfloat hagrees]⟩
  rintro ⟨rfl, -⟩
  exact congrArg op.holds (Value.order_least rfl w)

/-- The variable on the left of the comparisons below. -/
def left : OperandName := ⟨⟨"v", by decide⟩, by decide, by decide⟩

/-- The variable on their right. -/
def right : OperandName := ⟨⟨"u", by decide⟩, by decide, by decide⟩

/-- An engine whose first two variables hold a value and a text. -/
def comparing (vars : Variables) (held : Value) (w : String) : Engine :=
  { vars := (vars.put 0 held).put 1 (.text w), world := default, scratch := { limit := 64 }, freshMs := 0, freshLines := 0 }

/-- Comparing `v` with `u` is read in both notations, and the variables show what they are given. -/
theorem twelve_is_read :
    (match Builder.buildArgs {} (.cond (.compare .less)) 2 0 .none {} [.plain "v", .plain "%u%"] with
    | .error _ => false
    | .ok (vars', _, args) =>
      match Builder.buildArgs {} (.cond .expr) 1 0 .none vars' [.plain (Comparison.less.print Expr.spaced left right)] with
      | .error _ => false
      | .ok (vars'', _, _) =>
        let engine := comparing vars'' (.int 12) "0x10"
        engine.vars.find? "v" == some 0 && engine.vars.find? "u" == some 1 &&
          match read engine.view engine.vars 0, read engine.view engine.vars 1,
            (args[1]?).map (freeText engine.view engine.vars) with
          | .int n, .text shown, some (.ok w) => n == 12 && shown == "0x10" && w == "0x10"
          | _, _, _ => false) = true := by
  decide +kernel

/-- With twelve in `v` and its hexadecimal digits in `u`, the variables show these and the free text is the second. -/
theorem comparing_twelve {vars' vars'' : Variables} {note : Note} {args args' : List Arg}
    (h : Builder.buildArgs {} (.cond (.compare .less)) 2 0 .none {} [.plain "v", .plain "%u%"] = .ok (vars', note, args))
    (h' : Builder.buildArgs {} (.cond .expr) 1 0 .none vars' [.plain (Comparison.less.print Expr.spaced left right)] =
      .ok (vars'', .none, args')) :
    (comparing vars'' (.int 12) "0x10").Shows "v" (.int 12) ∧ (comparing vars'' (.int 12) "0x10").Shows "u" (.text "0x10") ∧
      (args[1]?).map (freeText (comparing vars'' (.int 12) "0x10").view (comparing vars'' (.int 12) "0x10").vars) =
        some (.ok "0x10") := by
  have hread := twelve_is_read
  simp only [h, h', Bool.and_eq_true, beq_iff_eq] at hread
  obtain ⟨⟨hv, hu⟩, hread⟩ := hread
  split at hread
  · rename_i n shown w hheld hshown hw
    simp only [Bool.and_eq_true, beq_iff_eq] at hread
    obtain ⟨⟨rfl, rfl⟩, rfl⟩ := hread
    exact ⟨⟨0, hv, hheld⟩, ⟨1, hu, hshown⟩, hw⟩
  · cases hread

/-- Twelve is less than a hexadecimal sixteen, though not by its text. -/
theorem notations_agree_at_twelve :
    textOrder false "12" "0x10" = .gt ∧
    ∃ vars' note args vars'' args',
      Builder.buildArgs {} (.cond (.compare .less)) 2 0 .none {} [.plain "v", .plain "%u%"] = .ok (vars', note, args) ∧
      Builder.buildArgs {} (.cond .expr) 1 0 .none vars' [.plain "(v < u)"] = .ok (vars'', .none, args') ∧
      ∃ scratch scratch',
        (comparing vars'' (.int 12) "0x10").condition { (default : Line) with args } (.compare .less) =
          ({ comparing vars'' (.int 12) "0x10" with scratch }, .ok true) ∧
        (comparing vars'' (.int 12) "0x10").condition { (default : Line) with args := args' } .expr =
          ({ comparing vars'' (.int 12) "0x10" with scratch := scratch' }, .ok true) := by
  refine ⟨by decide +kernel, ?_⟩
  have hbuilt : (Builder.buildArgs {} (.cond (.compare .less)) 2 0 .none {} [.plain "v", .plain "%u%"]).isOk = true := by
    decide +kernel
  have hless : Comparison.less.holds ((Value.int 12).order false (.text "0x10")) = true := by decide +kernel
  have hroom : 0 + ((Value.int 12).size + "0x10".utf8ByteSize) ≤ 64 := by decide +kernel
  have hroom' : 0 + 1 ≤ 64 := by decide
  cases h : Builder.buildArgs {} (.cond (.compare .less)) 2 0 .none {} [.plain "v", .plain "%u%"] with
  | error problem =>
    rw [h] at hbuilt
    cases hbuilt
  | ok built =>
    obtain ⟨vars', note, args⟩ := built
    obtain ⟨-, -, vars'', args', h', hanswers⟩ :=
      notations_agree {} Expr.spaced left right .less (.plain "%u%") {} vars' note args (by decide +kernel) h
    obtain ⟨hv, hu, hw⟩ := comparing_twelve h h'
    obtain ⟨scratch, scratch', truth, htraditional, hexpression, -, htruth⟩ :=
      hanswers (comparing vars'' (.int 12) "0x10") { (default : Line) with args } { (default : Line) with args := args' }
        (.int 12) "0x10" ((Variables.extends_put _ _ _).trans (Variables.extends_put _ _ _)) rfl rfl hv nofun hu hw hroom hroom'
    obtain rfl := (htruth fun hleast => nomatch hleast.1).trans hless
    rw [hless] at hexpression
    exact ⟨vars', note, args, vars'', args', rfl, h', scratch, scratch', htraditional, hexpression⟩

/-- What two lines answer that compare a variable with a text, the first one in words of its own and the second one in an
expression. -/
def answers (op : Comparison) (operand : String) (held : Value) (w : String) : Option (Bool × Bool) :=
  match Builder.buildArgs {} (.cond (.compare op)) 2 0 .none {} [.plain "v", .plain operand] with
  | .error _ => none
  | .ok (vars', _, args) =>
    match Builder.buildArgs {} (.cond .expr) 1 0 .none vars' [.plain (op.print Expr.spaced left right)] with
    | .error _ => none
    | .ok (vars'', _, args') =>
      let engine := comparing vars'' held w
      match (engine.condition { (default : Line) with args } (.compare op)).2,
        (engine.condition { (default : Line) with args := args' } .expr).2 with
      | .ok truth, .ok truth' => some (truth, truth')
      | _, _ => none

/-- The least integer is not read from its text, and by that it is not less than minus five. -/
theorem notations_differ_at_least : Number.ofText? (Value.int Int64.minValue).toText = none ∧
    answers .less "-5" (.int Int64.minValue) "-5" = some (false, true) := by
  decide +kernel

end Engine

end LineScript
