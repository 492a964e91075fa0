import LineScript.Proofs.Expr.Climbing
import LineScript.Proofs.Expr.Naming
import LineScript.Proofs.Expr.Scanning

/-!
# Printed terms mean what they say

Scanning and evaluating the text of a term gives the value of the term, or its first problem (`Expr.evaluate_print`). The proof
goes along the term: each way of building one is a way of putting pieces together (`Reads`), and the tokens of the pieces are
read as `Climbing` says.
-/

namespace LineScript

namespace Expr

variable {ctx : Context}

/-! ## Leaves -/

theorem unquoteOnto_doubled (cs taken : List Char) : unquoteOnto taken (doubled cs) = taken.reverse ++ cs := by
  induction cs generalizing taken with
  | nil => simp [doubled, unquoteOnto]
  | cons c cs ih =>
    by_cases hc : c = '"'
    · simp [doubled, hc, unquoteOnto, ih]
    · simp [doubled, hc, unquoteOnto, ih]

/-- What is written in quotes is read back. -/
theorem unquote_quote (cs : List Char) : unquote (quote cs) = .ofList cs := by
  simp [unquote, quote, unquoteOnto_doubled]

/-- A token that is an operand by itself. -/
theorem readsPrimary_token {t : Token} {result : Except Problem Value} (hparen : t.kind ≠ .rightParen)
    (hop : ∀ op, t.kind ≠ .op op)
    (h : ∀ fuel quiet rest, primary ctx (fuel + 1) quiet (t :: rest) = result.map (·, rest)) :
    ReadsPrimary ctx [t] fun _ => result := by
  refine ⟨⟨t, [], rfl, hparen, hop⟩, ?_⟩
  intro quiet fuel rest hfuel
  rw [List.length_singleton] at hfuel
  obtain ⟨fuel, rfl⟩ : ∃ f, fuel = f + 1 := ⟨fuel - 1, by omega⟩
  exact h fuel quiet rest

/-- A number is an operand without signs, and its value is the number's. -/
theorem readsPrimary_number (numeral : Numeral) (start : Nat) :
    ReadsPrimary ctx [⟨.number, start, numeral.chars⟩] fun _ => numeral.value := by
  refine readsPrimary_token nofun nofun ?_
  intro fuel quiet rest
  simp only [primary, Token.text, Numeral.value]
  cases Number.ofText? (.ofList numeral.chars) <;> rfl

/-- A text in quotes is an operand without signs, and its value is the text. -/
theorem readsPrimary_text (s : String) (start : Nat) :
    ReadsPrimary ctx [⟨.str, start, quote s.toList⟩] fun _ => .ok (.text s) := by
  refine readsPrimary_token nofun nofun ?_
  intro fuel quiet rest
  simp only [primary, unquote_quote, String.ofList_toList]
  rfl

/-- A name with a reference is an operand without signs, and its value is what the reference stands for. -/
theorem readsPrimary_var {name : List Char} {start : Nat} {deref : Deref}
    (h : ctx.derefs.find? (·.start == start) = some deref) :
    ReadsPrimary ctx [⟨.operand, start, name⟩] fun _ => ctx.lookup deref.target := by
  refine readsPrimary_token nofun nofun ?_
  intro fuel quiet rest
  simp only [primary, h]
  cases ctx.lookup deref.target <;> rfl

/-! ## Pieces that read as an operand -/

/-- Tokens are read as an operand of a level, and as one with signs or without where the level says so. -/
structure Operand (ctx : Context) (level : Nat) (tokens : List Token) (r : Bool → Except Problem Value) : Prop where
  readsAt : ReadsAt ctx level tokens r
  readsUnary : unaryLevel ≤ level → ReadsUnary ctx tokens r
  readsPrimary : primaryLevel ≤ level → ReadsPrimary ctx tokens r

/-- What is read without signs is an operand of every level. -/
theorem ReadsPrimary.operand {tokens : List Token} {r : Bool → Except Problem Value} (h : ReadsPrimary ctx tokens r)
    (level : Nat) : Operand ctx level tokens r :=
  ⟨h.readsUnary.readsAt level, fun _ => h.readsUnary, fun _ => h⟩

/-- What is read with its signs is an operand of the level of signs. -/
theorem ReadsUnary.operand {tokens : List Token} {r : Bool → Except Problem Value} (h : ReadsUnary ctx tokens r) :
    Operand ctx unaryLevel tokens r :=
  ⟨h.readsAt unaryLevel, fun _ => h, fun hle => absurd hle (by decide)⟩

/-- What is read as an operand of a level below that of signs is one of that level. -/
theorem ReadsAt.operand {level : Nat} {tokens : List Token} {r : Bool → Except Problem Value}
    (h : ReadsAt ctx level tokens r) (hlt : level < unaryLevel) : Operand ctx level tokens r :=
  ⟨h, fun hle => absurd hlt (Nat.not_lt.mpr hle),
    fun hle => absurd (Nat.lt_trans hlt (Nat.lt_succ_self unaryLevel)) (Nat.not_lt.mpr hle)⟩

/-- The names of the operands among some tokens stand for what an environment says. -/
def Resolves (ctx : Context) (env : Environment) (tokens : List Token) : Prop :=
  ∀ t ∈ tokens, t.kind = .operand →
    ∃ deref, ctx.derefs.find? (·.start == t.start) = some deref ∧ ctx.lookup deref.target = env t.chars

/-- Pieces are read as an operand of a level wherever they start. -/
def Reads (ctx : Context) (env : Environment) (level : Nat) (pieces : List Piece) (r : Bool → Except Problem Value) : Prop :=
  ∀ start, Resolves ctx env (tokensFrom start pieces) → Operand ctx level (tokensFrom start pieces) r

/-- An operand of a level is one of every lower level. -/
theorem Operand.mono {level level' : Nat} {tokens : List Token} {r : Bool → Except Problem Value}
    (h : Operand ctx level tokens r) (hle : level' ≤ level) : Operand ctx level' tokens r :=
  ⟨h.readsAt.mono hle, fun hunary => h.readsUnary (Nat.le_trans hunary hle),
    fun hprimary => h.readsPrimary (Nat.le_trans hprimary hle)⟩

/-- Where names resolve, those among fewer tokens do. -/
theorem Resolves.mono {env : Environment} {tokens tokens' : List Token} (h : Resolves ctx env tokens)
    (hsub : ∀ t ∈ tokens', t ∈ tokens) : Resolves ctx env tokens' :=
  fun t ht => h t (hsub t ht)

/-- The binding powers of binary operators lie below that of signs. -/
theorem BinaryOp.level_bounds (op : BinaryOp) : leastLevel ≤ op.level ∧ op.level < unaryLevel := by
  have hbounds : ∀ (op : Op) (level : Nat), level? op = some level → leastLevel ≤ level ∧ level < unaryLevel := by
    intro op level h
    cases op <;> cases h <;> decide
  exact hbounds op.op op.level op.binds

/-- No term binds more loosely than the least level. -/
theorem Term.leastLevel_le (term : Term) : leastLevel ≤ term.level := by
  cases term with
  | binary op => exact op.level_bounds.1
  | number | text | var | call => exact (by decide : leastLevel ≤ primaryLevel)
  | signed | power => exact (by decide : leastLevel ≤ unaryLevel)
  | negation => exact (by decide : leastLevel ≤ notLevel)

/-- The word `not` has three letters, which the sign has not. -/
theorem length_of_notWord {chars : List Char} (h : operatorWord? chars = some .not) : chars.length = 3 := by
  have hwords : ∀ word ∈ operatorWords, word.2 = .not → word.1.length = 3 := by decide
  rw [← List.length_map Char.toLower]
  exact hwords _ (mem_operatorWords h) rfl

section

variable (style : Style) {env : Environment} {pieces : List Piece} {r : Bool → Except Problem Value}

/-- The tokens of pieces in parentheses. -/
theorem tokensFrom_parenthesized (start : Nat) (pieces : List Piece) :
    ∃ opening closing next, opening.kind = .leftParen ∧ closing.kind = .rightParen ∧
      tokensFrom start (style.parenthesized pieces) = opening :: (tokensFrom next pieces ++ [closing]) :=
  ⟨_, _, _, rfl, rfl, congrArg (_ :: ·) (tokensFrom_append _ pieces _)⟩

/-- Where one token stands between pieces, the names on both sides of it resolve if all names do. -/
theorem Resolves.between {start : Nat} {left tail : List Piece} (h : Resolves ctx env (tokensFrom start (left ++ tail)))
    (kind : TokenKind) (right : List Piece)
    (htail : ∀ n, ∃ t next, t.kind = kind ∧ tokensFrom n tail = t :: tokensFrom next right) :
    ∃ t next, t.kind = kind ∧ tokensFrom start (left ++ tail) = tokensFrom start left ++ t :: tokensFrom next right ∧
      Resolves ctx env (tokensFrom start left) ∧ Resolves ctx env (tokensFrom next right) := by
  rw [tokensFrom_append] at h ⊢
  obtain ⟨t, next, hkind, htokens⟩ := htail (left.foldl (fun offset piece => offset + piece.width) start)
  rw [htokens] at h ⊢
  exact ⟨t, next, hkind, rfl, h.mono fun t ht => List.mem_append_left _ ht,
    h.mono fun t ht => List.mem_append_right _ (List.mem_cons_of_mem _ ht)⟩

/-- Put in parentheses where its place asks for them, an operand is read in that place. -/
theorem Reads.operand {level : Nat} (h : Reads ctx env level pieces r) (hlevel : leastLevel ≤ level) (least : Nat) :
    Reads ctx env least (style.operand least level pieces) r := by
  intro start hresolves
  unfold Style.operand at hresolves ⊢
  split
  · rename_i hlt
    obtain ⟨opening, closing, next, hopening, hclosing, htokens⟩ := tokensFrom_parenthesized style start pieces
    rw [if_pos hlt, htokens] at hresolves
    rw [htokens]
    have hinside := h next (hresolves.mono fun t ht => List.mem_cons_of_mem _ (List.mem_append_left _ ht))
    exact (hinside.readsAt.parenthesized hlevel hopening hclosing).operand least
  · rename_i hlt
    rw [if_neg hlt] at hresolves
    exact (h start hresolves).mono (Nat.le_of_not_lt hlt)

/-- A sign with its blanks in front of an operand is read. -/
theorem Reads.signed (h : Reads ctx env unaryLevel pieces r) (sign : Sign) :
    Reads ctx env unaryLevel (.lexeme (.op sign.op) [sign.char] :: style.gap .afterSign :: pieces)
      fun quiet => (r quiet).map sign.apply := by
  intro start hresolves
  have hoperand := h _ (hresolves.mono fun t ht => List.mem_cons_of_mem _ ht)
  have hsigned := (hoperand.readsUnary (Nat.le_refl _)).signed (t := ⟨.op sign.op, start, [sign.char]⟩) rfl
    (Bool.and_false _)
  exact hsigned.operand

/-- The word `not` with its blanks in front of an operand is read. -/
theorem Reads.negation (h : Reads ctx env notLevel pieces r) :
    Reads ctx env notLevel (.lexeme (.op .not) style.notWord :: .gap style.afterNot :: pieces)
      fun quiet => (r quiet).map fun v => .ofBool !v.isTrue := by
  intro start hresolves
  have hoperand := h _ (hresolves.mono fun t ht => List.mem_cons_of_mem _ ht)
  have hword : isWordNot ⟨.op .not, start, style.notWord⟩ = true := by
    simp [isWordNot, length_of_notWord style.notWord_spelled]
  exact (hoperand.readsAt.negation hword).operand (by decide)

/-- Two operands with an operator and its blanks between them are read. -/
theorem Reads.binary {left : List Piece} {rl : Bool → Except Problem Value} {op : BinaryOp}
    (hleft : Reads ctx env op.level left rl) (h : Reads ctx env (op.level + 1) pieces r) :
    Reads ctx env op.level (left ++ (style.operator op ++ pieces))
      fun quiet => (rl quiet).bind fun v => combine op.op quiet v r := by
  intro start hresolves
  obtain ⟨t, next, hkind, htokens, hbefore, hafter⟩ := hresolves.between (.op op.op) pieces fun _ => ⟨_, _, rfl, rfl⟩
  rw [htokens]
  exact ((hleft start hbefore).readsAt.binary op.binds (h next hafter).readsAt hkind).operand op.level_bounds.2

/-- A power with its blanks is read. -/
theorem Reads.power {base : List Piece} {rb : Bool → Except Problem Value} (hbase : Reads ctx env primaryLevel base rb)
    (h : Reads ctx env unaryLevel pieces r) :
    Reads ctx env unaryLevel
      (base ++ (style.gap .beforePower :: .lexeme (.op .pow) ['*', '*'] :: style.gap .afterPower :: pieces))
      fun quiet => (rb quiet).bind fun b => (r quiet).map fun e => Arith.power b e := by
  intro start hresolves
  obtain ⟨t, next, hkind, htokens, hbefore, hafter⟩ := hresolves.between (.op .pow) pieces fun _ => ⟨_, _, rfl, rfl⟩
  rw [htokens]
  have hbase := (hbase start hbefore).readsPrimary (Nat.le_refl _)
  have hexponent := (h next hafter).readsUnary (Nat.le_refl _)
  exact (hbase.power hexponent hkind).operand

/-- Pieces are read as the arguments of a call wherever they start. -/
def ReadsArgs (ctx : Context) (env : Environment) (pieces : List Piece) (rs : Bool → Except Problem (List Value)) : Prop :=
  ∀ start, Resolves ctx env (tokensFrom start pieces) → ReadsArguments ctx (tokensFrom start pieces) rs

/-- An operand is read as a last argument. -/
theorem Reads.lastArgument {level : Nat} (h : Reads ctx env level pieces r) (hlevel : leastLevel ≤ level) :
    ReadsArgs ctx env pieces fun quiet => (r quiet).map fun v => [v] := by
  intro start hresolves
  exact (h start hresolves).readsAt.lastArgument hlevel

/-- An operand, a comma and more arguments are read as arguments. -/
theorem Reads.argument {level : Nat} (h : Reads ctx env level pieces r) (hlevel : leastLevel ≤ level) {args : List Piece}
    {rs : Bool → Except Problem (List Value)} (hargs : ReadsArgs ctx env args rs) :
    ReadsArgs ctx env (pieces ++ (style.comma ++ args)) fun quiet => (r quiet).bind fun v => (rs quiet).map (v :: ·) := by
  intro start hresolves
  obtain ⟨t, next, hkind, htokens, hbefore, hafter⟩ := hresolves.between .comma args fun _ => ⟨_, _, rfl, rfl⟩
  rw [htokens]
  exact (h start hbefore).readsAt.argument hlevel (hargs next hafter) hkind

/-- A call with arguments is read. -/
theorem ReadsArgs.call {rs : Bool → Except Problem (List Value)} (h : ReadsArgs ctx env pieces rs) (name : FunctionName) :
    Reads ctx env primaryLevel (.lexeme .function name.chars :: style.parenthesized pieces)
      fun quiet => (rs quiet).bind fun vs => quietly quiet (Function.call (.ofList name.chars) vs) := by
  intro start hresolves
  obtain ⟨opening, closing, next, hopening, hclosing, htokens⟩ :=
    tokensFrom_parenthesized style (start + Text.byteSize name.chars) pieces
  have hcall : tokensFrom start (.lexeme .function name.chars :: style.parenthesized pieces) =
      ⟨.function, start, name.chars⟩ :: opening :: (tokensFrom next pieces ++ [closing]) := congrArg (_ :: ·) htokens
  rw [hcall] at hresolves ⊢
  have hargs := h next (hresolves.mono fun t ht =>
    List.mem_cons_of_mem _ (List.mem_cons_of_mem _ (List.mem_append_left _ ht)))
  exact (hargs.call rfl hopening hclosing).operand primaryLevel

/-- A call without arguments is read. -/
theorem reads_call_nil (name : FunctionName) :
    Reads ctx env primaryLevel (.lexeme .function name.chars :: style.parenthesized [])
      fun quiet => quietly quiet (Function.call (.ofList name.chars) []) := by
  intro start _
  exact (@readsPrimary_call_nil ctx ⟨.function, start, name.chars⟩ _ _ rfl rfl rfl).operand primaryLevel

end

/-! ## Terms -/

mutual

/-- A written term is read as an operand of its level, and its value is the one of the term. -/
theorem Term.reads (style : Style) (ctx : Context) (env : Environment) :
    (term : Term) → Reads ctx env term.level (term.pieces style) (term.value env)
  | .number numeral => fun start _ => (readsPrimary_number numeral start).operand _
  | .text s => fun start _ => (readsPrimary_text s start).operand _
  | .var name => fun start hresolves => by
    obtain ⟨deref, hfind, hvalue⟩ := hresolves _ (List.mem_singleton_self _) rfl
    exact (hvalue ▸ readsPrimary_var hfind : ReadsPrimary ctx _ fun _ => env name.chars).operand _
  | .signed sign operand => ((operand.reads style ctx env).operand style operand.leastLevel_le _).signed style sign
  | .negation operand => ((operand.reads style ctx env).operand style operand.leastLevel_le _).negation style
  | .binary op left right =>
    ((left.reads style ctx env).operand style left.leastLevel_le _).binary style
      ((right.reads style ctx env).operand style right.leastLevel_le _)
  | .power base exponent =>
    ((base.reads style ctx env).operand style base.leastLevel_le _).power style
      ((exponent.reads style ctx env).operand style exponent.leastLevel_le _)
  | .call name args => by
    by_cases hargs : args = []
    · subst hargs
      exact reads_call_nil style name
    · exact (Term.readsArgs style ctx env args hargs).call style name

/-- Written arguments are read one after the other. -/
theorem Term.readsArgs (style : Style) (ctx : Context) (env : Environment) :
    (args : List Term) → args ≠ [] → ReadsArgs ctx env (Term.argumentPieces style args) (Term.values env args)
  | [], hne => absurd rfl hne
  | [arg], _ => by
    have hpieces : Term.argumentPieces style [arg] = arg.pieces style := by
      simp [Term.argumentPieces]
    have hvalues : Term.values env [arg] = fun quiet => (arg.value env quiet).map fun v => [v] := by
      funext quiet
      simp only [Term.values]
      cases arg.value env quiet <;> rfl
    rw [hpieces, hvalues]
    exact (arg.reads style ctx env).lastArgument arg.leastLevel_le
  | arg :: next :: args, _ => by
    have hmore := Term.readsArgs style ctx env (next :: args) (List.cons_ne_nil _ _)
    exact (arg.reads style ctx env).argument style arg.leastLevel_le hmore

end

/-! ## Variables -/

/-- The names that pieces hold. -/
def Piece.names : Piece → List (List Char)
  | .lexeme .operand chars => [chars]
  | _ => []

/-- The operands among the tokens of pieces are the names that the pieces hold. -/
theorem operandNames_tokensFrom (start : Nat) (pieces : List Piece) :
    Reference.operandNames (tokensFrom start pieces) = pieces.flatMap Piece.names := by
  induction pieces generalizing start with
  | nil => rfl
  | cons piece pieces ih =>
    rw [List.flatMap_cons, ← ih (start + piece.width)]
    cases piece with
    | gap blanks => rfl
    | lexeme kind chars => cases kind <;> rfl

/-- An operand holds the same names with and without its parentheses. -/
theorem names_operand (style : Style) (least level : Nat) (pieces : List Piece) :
    (style.operand least level pieces).flatMap Piece.names = pieces.flatMap Piece.names := by
  unfold Style.operand
  split
  · simp [Style.parenthesized, Style.gap, Piece.names]
  · rfl

mutual

/-- The names in a written term are those of the term. -/
theorem Term.names_pieces (style : Style) : (term : Term) → (term.pieces style).flatMap Piece.names = term.names
  | .number _ | .text _ | .var _ => rfl
  | .signed _ operand | .negation operand => by
    have hoperand := operand.names_pieces style
    simp [Term.pieces, Term.names, Style.gap, Piece.names, names_operand, hoperand]
  | .binary _ left right | .power left right => by
    have hleft := left.names_pieces style
    have hright := right.names_pieces style
    simp [Term.pieces, Term.names, Style.operator, Style.gap, Piece.names, names_operand, hleft, hright]
  | .call _ args => by
    have hargs := Term.names_argumentPieces style args
    simp [Term.pieces, Term.names, Style.parenthesized, Style.gap, Piece.names, hargs]

/-- The names in written arguments are those of the arguments. -/
theorem Term.names_argumentPieces (style : Style) :
    (args : List Term) → (Term.argumentPieces style args).flatMap Piece.names = Term.argumentNames args
  | [] => rfl
  | arg :: args => by
    have harg := arg.names_pieces style
    have hargs := Term.names_argumentPieces style args
    unfold Term.argumentPieces Term.argumentNames
    split
    · rename_i hnil
      obtain rfl := List.isEmpty_iff.mp hnil
      simp [harg, Term.argumentNames]
    · simp [harg, hargs, Style.comma, Style.gap, Piece.names]

end

/-- What the names of a table of variables stand for, given what its references do. -/
def environment (vars : Variables) (lookup : Lookup) : Environment := fun name =>
  match Reference.ofName vars name fun _ => false with
  | .ok (_, target) => lookup target
  | .error _ => .error (.expression (.unknownOperand (.ofList name)))

/-- Evaluating the text of a term, with the references the loader finds in it, gives the value of the term, or its first problem
from left to right. -/
theorem evaluate_print (style : Style) (term : Term) (vars vars' : Variables)
    (h : Reference.declare vars term.names = .ok vars') :
    ∃ derefs, Reference.inExpr vars (term.print style) = .ok (vars', derefs) ∧
      ∀ lookup, evaluate (term.print style) derefs lookup = term.value (environment vars' lookup) false := by
  have hscan := term.scan_print style
  have hpairs := (pairwise_tokensFrom ((term.stands style).scans [] closes_nil) 0).1
  obtain ⟨derefs, hderefs⟩ : ∃ derefs, Reference.ofTokens vars (tokensFrom 0 (term.pieces style)) = .ok (vars', derefs) := by
    apply Reference.exists_ofTokens
    rw [operandNames_tokensFrom, term.names_pieces style]
    exact h
  refine ⟨derefs, by simp only [Reference.inExpr, hscan, hderefs], ?_⟩
  intro lookup
  have hresolves : Resolves { derefs, lookup } (environment vars' lookup) (tokensFrom 0 (term.pieces style)) := by
    intro t ht hkind
    obtain ⟨deref, hfind, hname⟩ := Reference.find?_of_ofTokens hderefs hpairs t ht hkind
    exact ⟨deref, hfind, by simp only [environment, hname]⟩
  have hreads := (term.reads style { derefs, lookup } (environment vars' lookup) 0 hresolves).readsAt
  obtain ⟨first, tail, htokens, -⟩ := hreads.head
  have hwhole := hreads.whole false (8 * (tokensFrom 0 (term.pieces style)).length + 8) term.leastLevel_le (stops_nil _)
    (by omega)
  rw [List.append_nil] at hwhole
  have hnonempty : (tokensFrom 0 (term.pieces style)).isEmpty = false := by rw [htokens]; rfl
  simp only [evaluate, hscan, evaluateTokens, hnonempty, Bool.false_eq_true, if_false, hwhole]
  cases term.value (environment vars' lookup) false <;> rfl

/-- An operator is always spelled by its first symbol, or by the point between blanks. -/
theorem spelled_of_blanks (op : BinaryOp) {before after : Blanks} (hbefore : before.chars ≠ []) (hafter : after.chars ≠ []) :
    (symbols op.op).headD ['.'] ∈ symbols op.op ∨
      StandsApart op.op ((symbols op.op).headD ['.']) ∧ before.chars ≠ [] ∧ after.chars ≠ [] := by
  have hpoint : ∀ op, level? op ≠ none → symbols op = [] → op = .concat := by
    intro op
    cases op <;> decide
  cases hsymbols : symbols op.op with
  | cons first rest => exact .inl (List.mem_cons_self ..)
  | nil =>
    have hconcat := hpoint op.op (by rw [op.binds]; exact Option.some_ne_none _) hsymbols
    exact .inr ⟨.inr ⟨hconcat, rfl⟩, hbefore, hafter⟩

/-- A style with a space around every operator and after every comma. -/
def spaced : Style where
  spelling op :=
    { before := { chars := [' '] }, chars := (symbols op.op).headD ['.'], after := { chars := [' '] }
      spelled := spelled_of_blanks op (by decide) (by decide) }
  notWord := ['n', 'o', 't']
  afterNot := { chars := [' '] }
  blanks
    | .beforePower | .afterPower | .afterComma => { chars := [' '] }
    | .afterSign | .afterOpening | .beforeClosing | .beforeComma => { chars := [] }

/-- A term whose right side would divide by zero if the left one did not decide. -/
def decidedEarly : Term :=
  let two : Term := .number { chars := ['2'] }
  let n : Term := .var { chars := ['n'] }
  .binary { op := .or, level := 1 }
    (.negation (.binary { op := .eq, level := 4 } n (.signed .minus (.power two two))))
    (.binary { op := .mul, level := 12 } (.binary { op := .concat, level := 6 } (.text "a\"b") n)
      (.call { chars := ['M', 'o', 'd'] } [n, .binary { op := .floorDiv, level := 12 } two (.number { chars := ['0'] })]))

/-- The names of `decidedEarly` can be declared. -/
theorem decidedEarly_declares :
    (match Reference.declare {} decidedEarly.names with
    | .ok _ => true
    | .error _ => false) = true := by
  decide +kernel

/-- The text of `decidedEarly` is read back, and evaluated without the division on its right side. -/
theorem evaluate_decidedEarly :
    decidedEarly.print spaced = "not n = -2 ** 2 || (\"a\"\"b\" . n) * Mod(n, 2 // 0)" ∧
      decidedEarly.value (fun _ => .ok (.int 5)) false = .ok (.int 1) ∧
      ∃ vars', Reference.declare {} decidedEarly.names = .ok vars' ∧
        ∃ derefs, Reference.inExpr {} (decidedEarly.print spaced) = .ok (vars', derefs) ∧
          ∀ lookup, evaluate (decidedEarly.print spaced) derefs lookup =
            decidedEarly.value (environment vars' lookup) false := by
  refine ⟨by decide +kernel, by rfl, ?_⟩
  have hdeclares := decidedEarly_declares
  cases hnames : Reference.declare {} decidedEarly.names with
  | error problem => rw [hnames] at hdeclares; cases hdeclares
  | ok vars' => exact ⟨vars', rfl, evaluate_print spaced decidedEarly {} vars' hnames⟩

end Expr

end LineScript
