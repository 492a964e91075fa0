import LineScript.Proofs.Expr.Retracing

/-!
# What an evaluation meets

An evaluation walks through its tokens and meets no others: wherever a rule ends, the tokens that it leaves are the last of those it
was given. So what can go wrong is what the rules find by themselves (`Expr.OfRules`) and what is wrong with one of the operands
(`Expr.problem_of_evaluateTokens`).
-/

namespace LineScript

namespace Expr

/-- A problem that the rules of expressions find by themselves, whatever the operands are. -/
inductive OfRules : Problem → Prop
  | divideByZero : OfRules .divideByZero
  | unknownFunction (name : String) : OfRules (.unknownFunction name)
  | missingOperand : OfRules (.expression .missingOperand)
  | unexpected (token : String) : OfRules (.expression (.unexpected token))
  | missing (token : String) : OfRules (.expression (.missing token))
  | invalidNumber (text : String) : OfRules (.expression (.invalidNumber text))
  | argCount (name : String) (least most given : Nat) : OfRules (.expression (.argCount name least most given))

/-- A problem of a walk through some tokens: one that the rules find, or one of an operand among the tokens. -/
def OfWalk (ctx : Context) (all : List Token) (problem : Problem) : Prop :=
  OfRules problem ∨ ∃ t ∈ all, t.kind = .operand ∧ ctx.operandOf t = .error problem

/-- A problem of an operator is one of the rules. -/
theorem ofRules_of_apply {op : Op} {a b : Value} {e : Problem} (h : Arith.apply op a b = .error e) : OfRules e :=
  divideByZero_of_apply h ▸ .divideByZero

/-- A problem of a call is one of the rules. -/
theorem ofRules_of_call {name : String} {args : List Value} {e : Problem} (h : Function.call name args = .error e) : OfRules e := by
  unfold Function.call at h
  split at h
  · cases h
    exact .unknownFunction name
  · dsimp only at h
    split at h
    · cases h
      exact .argCount name _ _ _
    · exact divideByZero_of_function h ▸ .divideByZero

/-- A problem that is left quietly was there before. -/
theorem error_of_quietly {quiet : Bool} {r : Except Problem Value} {e : Problem} (h : quietly quiet r = .error e) :
    r = .error e := by
  unfold quietly at h
  split at h
  · split at h
    · cases h
    · exact h
  · exact h

/-- The outcome of a rule that began among some tokens: it leaves the last of them, or it has a problem of theirs. -/
structure Stays {α : Type} (ctx : Context) (all : List Token) (answer : Except Problem (α × List Token)) : Prop where
  left : ∀ v rest, answer = .ok (v, rest) → rest <:+ all
  problem : ∀ e, answer = .error e → OfWalk ctx all e

namespace Stays

variable {α β : Type} {ctx : Context} {all : List Token}

theorem done {rest : List Token} (h : rest <:+ all) (v : α) : Stays ctx all (.ok (v, rest)) where
  left _ _ heq := by
    cases heq
    exact h
  problem := nofun

theorem error {e : Problem} (h : OfWalk ctx all e) : Stays ctx all (.error e : Except Problem (α × List Token)) where
  left := nofun
  problem _ heq := by
    cases heq
    exact h

theorem rules {e : Problem} (h : OfRules e) : Stays ctx all (.error e : Except Problem (α × List Token)) :=
  error (.inl h)

/-- The problem of one rule is the problem of another that applies it. -/
theorem fail {answer : Except Problem (α × List Token)} (h : Stays ctx all answer) {e : Problem} (he : answer = .error e) :
    Stays ctx all (.error e : Except Problem (β × List Token)) :=
  error (h.problem e he)

end Stays

theorem suffix_of_cons {all rest : List Token} {t : Token} (h : t :: rest <:+ all) : rest <:+ all :=
  (List.suffix_cons t rest).trans h

theorem suffix_of_binaryOp? {all tokens after : List Token} {op : Op} {level : Nat} (h : tokens <:+ all)
    (hop : binaryOp? tokens = some (op, level, after)) : after <:+ all := by
  obtain ⟨sign, rfl, -⟩ := eq_append_of_binaryOp? hop
  exact (List.suffix_append sign after).trans h

/-- The rules of an expression, with some rounds left, stay among some tokens. -/
structure StaysAmong (ctx : Context) (all : List Token) (fuel : Nat) : Prop where
  binary : ∀ quiet least tokens, tokens <:+ all → Stays ctx all (binary ctx fuel quiet least tokens)
  operators : ∀ quiet least left tokens, tokens <:+ all → Stays ctx all (operators ctx fuel quiet least left tokens)
  unary : ∀ quiet tokens, tokens <:+ all → Stays ctx all (unary ctx fuel quiet tokens)
  power : ∀ quiet tokens, tokens <:+ all → Stays ctx all (power ctx fuel quiet tokens)
  primary : ∀ quiet tokens, tokens <:+ all → Stays ctx all (primary ctx fuel quiet tokens)
  arguments : ∀ quiet done tokens, tokens <:+ all → Stays ctx all (arguments ctx fuel quiet done tokens)

section

variable {ctx : Context} {all : List Token} {fuel : Nat} (ih : StaysAmong ctx all fuel)
include ih

/-- A run of operands stays among the tokens. -/
theorem stays_binary (quiet : Bool) (least : Nat) (tokens : List Token) (h : tokens <:+ all) :
    Stays ctx all (binary ctx (fuel + 1) quiet least tokens) := by
  cases tokens with
  | nil => exact .rules .missingOperand
  | cons t rest =>
    unfold binary
    dsimp only
    split
    · have hoperand := ih.binary quiet notLevel rest (suffix_of_cons h)
      split
      · rename_i hfails
        exact hoperand.fail hfails
      · rename_i hvalue
        exact ih.operators _ _ _ _ (hoperand.left _ _ hvalue)
    · have hoperand := ih.unary quiet (t :: rest) h
      split
      · rename_i hfails
        exact hoperand.fail hfails
      · rename_i hvalue
        exact ih.operators _ _ _ _ (hoperand.left _ _ hvalue)

theorem stays_operators (quiet : Bool) (least : Nat) (left : Value) (tokens : List Token) (h : tokens <:+ all) :
    Stays ctx all (operators ctx (fuel + 1) quiet least left tokens) := by
  unfold operators
  split
  · exact .done h left
  · rename_i op level after hop
    have hright (quiet : Bool) := ih.binary quiet (level + 1) after (suffix_of_binaryOp? h hop)
    split
    · exact .done h left
    split
    · dsimp only
      split
      · rename_i hfails
        exact (hright _).fail hfails
      · rename_i hvalue
        exact ih.operators _ _ _ _ ((hright _).left _ _ hvalue)
    · split
      · rename_i hfails
        exact (hright _).fail hfails
      · rename_i hvalue
        split
        · rename_i hfails
          exact .rules (ofRules_of_apply (error_of_quietly hfails))
        · exact ih.operators _ _ _ _ ((hright _).left _ _ hvalue)

/-- An operand after a sign stays among the tokens. -/
theorem stays_signed (quiet : Bool) (rest : List Token) (h : rest <:+ all) (f : Value → Value) :
    Stays ctx all (match unary ctx fuel quiet rest with
      | .error e => .error e
      | .ok (v, rest) => .ok (f v, rest)) := by
  have hoperand := ih.unary quiet rest h
  split
  · rename_i hfails
    exact hoperand.fail hfails
  · rename_i hvalue
    exact .done (hoperand.left _ _ hvalue) _

theorem stays_unary (quiet : Bool) (tokens : List Token) (h : tokens <:+ all) :
    Stays ctx all (unary ctx (fuel + 1) quiet tokens) := by
  cases tokens with
  | nil => exact .rules .missingOperand
  | cons t rest =>
    have hsigned := stays_signed ih quiet rest (suffix_of_cons h)
    unfold unary
    dsimp only
    split
    · exact hsigned _
    split
    · exact hsigned _
    split
    · exact hsigned _
    split
    · exact hsigned _
    · exact ih.power quiet _ h

theorem stays_power (quiet : Bool) (tokens : List Token) (h : tokens <:+ all) :
    Stays ctx all (power ctx (fuel + 1) quiet tokens) := by
  have hbase := ih.primary quiet tokens h
  unfold power
  split
  · rename_i hfails
    exact hbase.fail hfails
  · rename_i hvalue
    exact .done (hbase.left _ _ hvalue) _
  · rename_i hvalue
    have hrest := hbase.left _ _ hvalue
    split
    · have hexponent := ih.unary quiet _ (suffix_of_cons hrest)
      split
      · rename_i hfails
        exact hexponent.fail hfails
      · rename_i hvalue
        exact .done (hexponent.left _ _ hvalue) _
    · exact .done hrest _

/-- An operand without signs stays among the tokens. -/
theorem stays_primary (quiet : Bool) (tokens : List Token) (h : tokens <:+ all) :
    Stays ctx all (primary ctx (fuel + 1) quiet tokens) := by
  cases tokens with
  | nil => exact .rules .missingOperand
  | cons t rest =>
    have hrest := suffix_of_cons h
    cases hkind : t.kind with
    | operand =>
      rw [Retracing.primary_of_operand hkind]
      cases hvalue : ctx.operandOf t with
      | error e => exact .error (.inr ⟨t, h.mem List.mem_cons_self, hkind, hvalue⟩)
      | ok v => exact .done hrest v
    | number =>
      simp only [primary, hkind]
      split
      · exact .done hrest _
      · exact .rules (.invalidNumber _)
    | str =>
      simp only [primary, hkind]
      exact .done hrest _
    | function =>
      simp only [primary, hkind]
      split
      · split
        · have hargs := ih.arguments quiet [] _ (suffix_of_cons hrest)
          split
          · rename_i hfails
            exact hargs.fail hfails
          · rename_i hvalue
            split
            · rename_i hfails
              exact .rules (ofRules_of_call (error_of_quietly hfails))
            · exact .done (hargs.left _ _ hvalue) _
        · exact .rules (.missing _)
      · exact .rules (.missing _)
    | leftParen =>
      simp only [primary, hkind]
      have hinside := ih.binary quiet leastLevel rest hrest
      split
      · rename_i hfails
        exact hinside.fail hfails
      · rename_i hvalue
        split
        · exact .done (suffix_of_cons (hinside.left _ _ hvalue)) _
        · exact .rules (.missing _)
      · exact .rules (.missing _)
    | op _ | rightParen | comma =>
      simp only [primary, hkind]
      exact .rules (.unexpected _)

/-- An argument stays among the tokens, and so do those after it. -/
theorem stays_argument (quiet : Bool) (done : List Value) (tokens : List Token) (h : tokens <:+ all) :
    Stays ctx all (match binary ctx fuel quiet leastLevel tokens with
      | .error e => .error e
      | .ok (_, []) => .error (.expression (.missing ")"))
      | .ok (v, t :: rest) =>
        if t.kind == .comma then arguments ctx fuel quiet (v :: done) rest
        else if t.kind == .rightParen then .ok ((v :: done).reverse, rest)
        else .error (.expression (.missing ")"))) := by
  have harg := ih.binary quiet leastLevel tokens h
  split
  · rename_i hfails
    exact harg.fail hfails
  · exact .rules (.missing _)
  · rename_i hvalue
    have hrest := suffix_of_cons (harg.left _ _ hvalue)
    split
    · exact ih.arguments _ _ _ hrest
    split
    · exact .done hrest _
    · exact .rules (.missing _)

/-- The arguments of a call stay among the tokens. -/
theorem stays_arguments (quiet : Bool) (done : List Value) (tokens : List Token) (h : tokens <:+ all) :
    Stays ctx all (arguments ctx (fuel + 1) quiet done tokens) := by
  unfold arguments
  dsimp only
  split
  · split
    · exact .done (suffix_of_cons h) _
    · exact stays_argument ih quiet done _ h
  · exact stays_argument ih quiet done _ h

end

/-- With any fuel, all walks stay among the tokens. -/
theorem staysAmong (ctx : Context) (all : List Token) (fuel : Nat) : StaysAmong ctx all fuel := by
  induction fuel with
  | zero =>
    constructor <;> intros <;> simp only [binary, operators, unary, power, primary, arguments] <;> exact .rules .missingOperand
  | succ fuel ih =>
    exact ⟨stays_binary ih, stays_operators ih, stays_unary ih, stays_power ih, stays_primary ih, stays_arguments ih⟩

/-- What goes wrong with an evaluation is found by the rules, or it is wrong with one of the operands. -/
theorem problem_of_evaluateTokens {ctx : Context} {tokens : List Token} {problem : Problem}
    (h : evaluateTokens ctx tokens = .error problem) : OfWalk ctx tokens problem := by
  have hwalk := (staysAmong ctx tokens (8 * tokens.length + 8)).binary false leastLevel tokens List.suffix_rfl
  unfold evaluateTokens at h
  split at h
  · cases h
  split at h
  · rename_i hfails
    cases h
    exact hwalk.problem _ hfails
  · cases h
  · cases h
    exact .inl (.unexpected _)

end Expr

end LineScript
