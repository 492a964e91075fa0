import LineScript.Proofs.Expr.Term

/-!
# Reading tokens by precedence

What the evaluator makes of a run of tokens, one rule at a time. `ReadsPrimary`, `ReadsUnary` and `ReadsAt` say that tokens are
read as an operand of a certain kind with a certain value, whatever follows them that cannot belong to them; each way of building
terms has a lemma that puts such facts together. The rounds an operand takes are bounded by five times the number of its tokens.
-/

namespace LineScript

namespace Expr

/-- Nothing in front raises to a power. -/
def NoPower (rest : List Token) : Prop :=
  ∀ t ∈ rest.head?, t.kind ≠ .op .pow

/-- What may follow an operand in a place of a level: operators that bind no more tightly than the level. -/
structure Follows (level : Nat) (rest : List Token) : Prop where
  noPower : NoPower rest
  loose : ∀ op l after, binaryOp? rest = some (op, l, after) → l ≤ level

/-- What ends a run of operands: operators that bind more loosely than the run asks for. -/
structure Stops (least : Nat) (rest : List Token) : Prop where
  noPower : NoPower rest
  loose : ∀ op l after, binaryOp? rest = some (op, l, after) → l < least

/-- What may follow an operand of a level may follow one of a higher level. -/
theorem Follows.mono {level level' : Nat} {rest : List Token} (h : Follows level rest) (hle : level ≤ level') :
    Follows level' rest :=
  ⟨h.noPower, fun op l after hop => Nat.le_trans (h.loose op l after hop) hle⟩

/-- What may follow an operand of a level ends a run that asks for more than the level. -/
theorem Follows.stops {level least : Nat} {rest : List Token} (h : Follows level rest) (hlt : level < least) :
    Stops least rest :=
  ⟨h.noPower, fun op l after hop => Nat.lt_of_le_of_lt (h.loose op l after hop) hlt⟩

/-- What ends a run may follow an operand of the level that the run asks for, or a higher one. -/
theorem Stops.follows {level least : Nat} {rest : List Token} (h : Stops least rest) (hle : least ≤ level) :
    Follows level rest :=
  ⟨h.noPower, fun op l after hop => Nat.le_trans (Nat.le_of_lt (h.loose op l after hop)) hle⟩

/-- An operator between two operands, written or not, has its own binding power. -/
theorem level?_of_binaryOp? {rest after : List Token} {op : Op} {l : Nat} (h : binaryOp? rest = some (op, l, after)) :
    level? op = some l := by
  cases rest with
  | nil => cases h
  | cons t rest =>
    cases hkind : t.kind with
    | op written =>
      simp only [binaryOp?, hkind, Option.map_eq_some_iff] at h
      obtain ⟨level, hlevel, heq⟩ := h
      cases heq
      exact hlevel
    | number | str | operand | function | leftParen =>
      simp only [binaryOp?, hkind] at h
      cases h
      rfl
    | rightParen | comma => simp [binaryOp?, hkind] at h

/-- No operator between two operands binds as the word `not` does. -/
theorem level_ne_notLevel {rest after : List Token} {op : Op} {l : Nat} (h : binaryOp? rest = some (op, l, after)) :
    l ≠ notLevel := by
  rintro rfl
  have hlevel := level?_of_binaryOp? h
  cases op <;> cases hlevel

/-- What may follow an operand up to the level of `not` ends a run of that level. -/
theorem Follows.stops_not {level : Nat} {rest : List Token} (h : Follows level rest) (hle : level ≤ notLevel) :
    Stops notLevel rest :=
  ⟨h.noPower, fun op l after hop =>
    Nat.lt_of_le_of_ne (Nat.le_trans (h.loose op l after hop) hle) (level_ne_notLevel hop)⟩

/-- A token that is no operator and no operand ends every run. -/
theorem stops_of_kind {t : Token} (h : t.kind = .rightParen ∨ t.kind = .comma) (rest : List Token) {least : Nat} :
    Stops least (t :: rest) := by
  constructor
  · rintro _ ⟨⟩ hpow
    rcases h with h | h <;> cases h.symm.trans hpow
  · intro op l after hop
    rcases h with h | h <;> simp [binaryOp?, h] at hop

theorem stops_nil (least : Nat) : Stops least [] :=
  ⟨nofun, nofun⟩

/-- An operator is what may follow an operand of its level. -/
theorem follows_op {t : Token} {rest : List Token} {op : Op} {level : Nat} (hkind : t.kind = .op op)
    (hlevel : level? op = some level) : Follows level (t :: rest) := by
  constructor
  · rintro _ ⟨⟩ hpow
    obtain rfl := TokenKind.op.inj (hkind.symm.trans hpow)
    cases hlevel
  · intro op' l after hop
    simp only [binaryOp?, hkind, hlevel, Option.map_some, Option.some.injEq, Prod.mk.injEq] at hop
    exact Nat.le_of_eq hop.2.1.symm

/-! ## Operands -/

variable (ctx : Context) {tokens : List Token} {r : Bool → Except Problem Value}

/-- Tokens are read as a literal, a variable, a call or a parenthesis. -/
structure ReadsPrimary (tokens : List Token) (r : Bool → Except Problem Value) : Prop where
  head : ∃ t tail, tokens = t :: tail ∧ t.kind ≠ .rightParen ∧ ∀ op, t.kind ≠ .op op
  reads : ∀ quiet fuel rest, 5 * tokens.length ≤ fuel + 3 →
    primary ctx fuel quiet (tokens ++ rest) = (r quiet).map (·, rest)

/-- Tokens are read as an operand with its signs. -/
structure ReadsUnary (tokens : List Token) (r : Bool → Except Problem Value) : Prop where
  head : ∃ t tail, tokens = t :: tail ∧ t.kind ≠ .rightParen ∧ isWordNot t = false
  reads : ∀ quiet fuel rest, NoPower rest → 5 * tokens.length ≤ fuel + 1 →
    unary ctx fuel quiet (tokens ++ rest) = (r quiet).map (·, rest)

/-- Tokens are read as an operand of a level: a run of operands that starts with them goes on after them. -/
structure ReadsAt (level : Nat) (tokens : List Token) (r : Bool → Except Problem Value) : Prop where
  head : ∃ t tail, tokens = t :: tail ∧ t.kind ≠ .rightParen
  reads : ∃ rounds ≤ tokens.length, ∀ quiet least fuel rest, least ≤ level → Follows level rest → 5 * tokens.length ≤ fuel →
    binary ctx fuel quiet least (tokens ++ rest) =
      (r quiet).bind fun v => operators ctx (fuel - rounds) quiet least v rest

variable {ctx}

/-- A run of operands that stops has the value read so far. -/
theorem operators_stop {quiet : Bool} {least fuel : Nat} {v : Value} {rest : List Token} (h : Stops least rest) :
    operators ctx (fuel + 1) quiet least v rest = .ok (v, rest) := by
  unfold operators
  split
  · rfl
  · rename_i op l after hop
    rw [if_pos (h.loose op l after hop)]

/-- Tokens of a level are a whole run of operands where the run stops after them. -/
theorem ReadsAt.whole {level : Nat} (h : ReadsAt ctx level tokens r) (quiet : Bool) (fuel : Nat) {least : Nat}
    {rest : List Token} (hle : least ≤ level) (hstops : Stops least rest) (hfuel : 5 * tokens.length ≤ fuel) :
    binary ctx fuel quiet least (tokens ++ rest) = (r quiet).map (·, rest) := by
  obtain ⟨t, tail, rfl, -⟩ := h.head
  obtain ⟨rounds, hrounds, hreads⟩ := h.reads
  rw [hreads quiet least fuel rest hle (hstops.follows hle) hfuel]
  obtain ⟨left, hleft⟩ : ∃ left, fuel - rounds = left + 1 :=
    ⟨fuel - rounds - 1, by rw [List.length_cons] at hfuel hrounds; omega⟩
  cases r quiet with
  | error e => rfl
  | ok v => rw [hleft]; exact operators_stop hstops

/-- What is read as an operand of a level is read as one of a lower level. -/
theorem ReadsAt.mono {level level' : Nat} (h : ReadsAt ctx level tokens r) (hle : level' ≤ level) :
    ReadsAt ctx level' tokens r := by
  obtain ⟨rounds, hrounds, hreads⟩ := h.reads
  exact ⟨h.head, rounds, hrounds, fun quiet least fuel rest hleast hfollows hfuel =>
    hreads quiet least fuel rest (Nat.le_trans hleast hle) (hfollows.mono hle) hfuel⟩

/-- An operand with its signs is one of every level. -/
theorem ReadsUnary.readsAt (h : ReadsUnary ctx tokens r) (level : Nat) : ReadsAt ctx level tokens r := by
  obtain ⟨t, tail, rfl, hparen, hnot⟩ := h.head
  refine ⟨⟨t, tail, rfl, hparen⟩, 1, by simp, fun quiet least fuel rest _ hfollows hfuel => ?_⟩
  obtain ⟨fuel, rfl⟩ : ∃ f, fuel = f + 1 := ⟨fuel - 1, by rw [List.length_cons] at hfuel; omega⟩
  have hunary := h.reads quiet fuel rest hfollows.noPower (by omega)
  rw [List.cons_append] at hunary ⊢
  simp only [binary, hnot, Bool.false_and, Bool.false_eq_true, if_false, hunary]
  cases r quiet <;> rfl

/-- Where no operator stands in front there is no sign. -/
theorem unary_of_operand {t : Token} {rest : List Token} {quiet : Bool} {fuel : Nat} (hop : ∀ op, t.kind ≠ .op op) :
    unary ctx (fuel + 1) quiet (t :: rest) = power ctx fuel quiet (t :: rest) := by
  simp only [unary, beq_iff_eq, Bool.and_eq_true, hop, false_and, if_false]

/-- An operand without signs is one with its signs. -/
theorem ReadsPrimary.readsUnary (h : ReadsPrimary ctx tokens r) : ReadsUnary ctx tokens r := by
  obtain ⟨t, tail, rfl, hparen, hop⟩ := h.head
  refine ⟨⟨t, tail, rfl, hparen, by simp [isWordNot, hop]⟩, fun quiet fuel rest hpower hfuel => ?_⟩
  obtain ⟨fuel, rfl⟩ : ∃ f, fuel = f + 2 := ⟨fuel - 2, by rw [List.length_cons] at hfuel; omega⟩
  have hprimary := h.reads quiet fuel rest (by omega)
  rw [List.cons_append] at hprimary ⊢
  rw [unary_of_operand hop]
  simp only [power, hprimary]
  cases r quiet with
  | error e => rfl
  | ok v =>
    cases rest with
    | nil => rfl
    | cons next rest => simp [Except.map, hpower next rfl]

/-! ## Putting operands together -/

/-- A sign in front of an operand is applied to its value. -/
theorem ReadsUnary.signed (h : ReadsUnary ctx tokens r) {t : Token} {sign : Sign} (hkind : t.kind = .op sign.op)
    (hword : isWordNot t = false) : ReadsUnary ctx (t :: tokens) fun quiet => (r quiet).map sign.apply := by
  refine ⟨⟨t, tokens, rfl, by simp [hkind], hword⟩, fun quiet fuel rest hpower hfuel => ?_⟩
  rw [List.length_cons] at hfuel
  obtain ⟨fuel, rfl⟩ : ∃ f, fuel = f + 1 := ⟨fuel - 1, by omega⟩
  have hunary := h.reads quiet fuel rest hpower (by omega)
  rw [List.cons_append]
  cases sign <;> cases hr : r quiet <;>
    simp [unary, hkind, hword, Sign.op, Sign.apply, hunary, hr, Except.map]

/-- An operand raised to a power is an operand with its signs. -/
theorem ReadsPrimary.power {base : List Token} {rb : Bool → Except Problem Value} (hbase : ReadsPrimary ctx base rb)
    (h : ReadsUnary ctx tokens r) {t : Token} (hkind : t.kind = .op .pow) :
    ReadsUnary ctx (base ++ t :: tokens) fun quiet =>
      (rb quiet).bind fun b => (r quiet).map fun e => Arith.power b e := by
  obtain ⟨first, tail, rfl, hparen, hop⟩ := hbase.head
  refine ⟨⟨first, tail ++ t :: tokens, rfl, hparen, by simp [isWordNot, hop]⟩, fun quiet fuel rest hpower hfuel => ?_⟩
  simp only [List.length_append, List.length_cons] at hfuel
  obtain ⟨fuel, rfl⟩ : ∃ f, fuel = f + 2 := ⟨fuel - 2, by omega⟩
  have hprimary := hbase.reads quiet fuel (t :: (tokens ++ rest)) (by simp only [List.length_cons]; omega)
  have hunary := h.reads quiet fuel rest hpower (by omega)
  simp only [List.cons_append, List.append_assoc] at hprimary ⊢
  rw [unary_of_operand hop]
  simp only [Expr.power, hprimary]
  cases rb quiet with
  | error e => rfl
  | ok b =>
    simp only [Except.map, hkind, beq_self_eq_true, if_true, hunary]
    cases r quiet <;> rfl

/-- The word `not` in front of an operand of its level negates its value. -/
theorem ReadsAt.negation (h : ReadsAt ctx notLevel tokens r) {t : Token} (hword : isWordNot t = true) :
    ReadsAt ctx notLevel (t :: tokens) fun quiet => (r quiet).map fun v => .ofBool !v.isTrue := by
  have hkind : t.kind = .op .not := by
    simp only [isWordNot, Bool.and_eq_true, beq_iff_eq] at hword
    exact hword.1
  refine ⟨⟨t, tokens, rfl, by simp [hkind]⟩, 1, by simp, fun quiet least fuel rest hleast hfollows hfuel => ?_⟩
  rw [List.length_cons] at hfuel
  obtain ⟨fuel, rfl⟩ : ∃ f, fuel = f + 1 := ⟨fuel - 1, by omega⟩
  have hwhole := h.whole quiet fuel (Nat.le_refl _) (hfollows.stops_not (Nat.le_refl _)) (by omega)
  rw [List.cons_append]
  simp only [binary, hword, hleast, decide_true, Bool.and_self, if_true, hwhole]
  cases r quiet <;> rfl

/-- An operator other than `and` and `or` is applied to the values of both sides. -/
theorem combine_of_ne {op : Op} (hand : op ≠ .and) (hor : op ≠ .or) (quiet : Bool) (v : Value) :
    combine op quiet v r = (r quiet).bind fun w => quietly quiet (Arith.apply op v w) := by
  unfold combine
  split
  · exact absurd rfl hand
  · exact absurd rfl hor
  · rfl

/-- A run of operands goes on with an operator that binds tightly enough, once its right operand is read. -/
theorem operators_combine {op : Op} {level least fuel : Nat} {quiet : Bool} {v : Value} {front after rest : List Token}
    (hop : binaryOp? front = some (op, level, after)) (hle : least ≤ level)
    (hright : ∀ quiet, binary ctx fuel quiet (level + 1) after = (r quiet).map (·, rest)) :
    operators ctx (fuel + 1) quiet least v front =
      (combine op quiet v r).bind fun w => operators ctx fuel quiet least w rest := by
  have hnot : ¬ level < least := Nat.not_lt.mpr hle
  simp only [operators, hop, hnot, if_false, hright]
  by_cases hand : op = .and
  · subst hand
    have hflag : (Op.and == Op.or) = false := rfl
    cases htrue : v.isTrue
    · cases hr : r true <;> simp [combine, htrue, hflag, hr, Except.map, Except.bind]
    · cases hr : r quiet <;> simp [combine, htrue, hflag, hr, Except.map, Except.bind]
  · by_cases hor : op = .or
    · subst hor
      cases htrue : v.isTrue
      · cases hr : r quiet <;> simp [combine, htrue, hr, Except.map, Except.bind]
      · cases hr : r true <;> simp [combine, htrue, hr, Except.map, Except.bind]
    · simp only [beq_iff_eq, Bool.or_eq_true, hand, hor, or_self, if_false, combine_of_ne hand hor]
      cases r quiet with
      | error e => rfl
      | ok w =>
        simp only [Except.map, Except.bind]
        cases quietly quiet (Arith.apply op v w) <;> rfl

/-- An operator of a level, with a left side of that level and a right side that binds more tightly, makes an operand of the
level. -/
theorem ReadsAt.binary {left : List Token} {rl : Bool → Except Problem Value} {op : Op} {level : Nat}
    (hlevel : level? op = some level) (hleft : ReadsAt ctx level left rl) (hright : ReadsAt ctx (level + 1) tokens r)
    {t : Token} (hkind : t.kind = .op op) :
    ReadsAt ctx level (left ++ t :: tokens) fun quiet => (rl quiet).bind fun v => combine op quiet v r := by
  obtain ⟨first, tail, hfirst, hparen⟩ := hleft.head
  obtain ⟨rounds, hrounds, hreads⟩ := hleft.reads
  refine ⟨⟨first, tail ++ t :: tokens, by rw [hfirst, List.cons_append], hparen⟩, rounds + 1, ?_, ?_⟩
  · rw [List.length_append, List.length_cons]
    omega
  · intro quiet least fuel rest hleast hfollows hfuel
    rw [List.length_append, List.length_cons] at hfuel
    obtain ⟨after, hafter⟩ : ∃ f, fuel - rounds = f + 1 := ⟨fuel - rounds - 1, by omega⟩
    have hstops : Stops (level + 1) rest := hfollows.stops (Nat.lt_succ_self level)
    have hop : binaryOp? (t :: (tokens ++ rest)) = some (op, level, tokens ++ rest) := by
      simp [binaryOp?, hkind, hlevel]
    rw [List.append_assoc, List.cons_append, hreads quiet least fuel _ hleast (follows_op hkind hlevel) (by omega)]
    cases rl quiet with
    | error e => rfl
    | ok v =>
      rw [show fuel - (rounds + 1) = after by omega, hafter]
      exact operators_combine hop hleast fun quiet => hright.whole quiet after (Nat.le_refl _) hstops (by omega)

/-- An operand in parentheses is an operand without signs. -/
theorem ReadsAt.parenthesized {level : Nat} (h : ReadsAt ctx level tokens r) (hlevel : leastLevel ≤ level)
    {opening closing : Token} (hopening : opening.kind = .leftParen) (hclosing : closing.kind = .rightParen) :
    ReadsPrimary ctx (opening :: (tokens ++ [closing])) r := by
  refine ⟨⟨opening, tokens ++ [closing], rfl, by simp [hopening], by simp [hopening]⟩, fun quiet fuel rest hfuel => ?_⟩
  rw [List.length_cons, List.length_append, List.length_singleton] at hfuel
  obtain ⟨fuel, rfl⟩ : ∃ f, fuel = f + 1 := ⟨fuel - 1, by omega⟩
  have hwhole := h.whole quiet fuel hlevel (stops_of_kind (.inl hclosing) rest) (by omega)
  rw [List.cons_append, List.append_assoc, List.singleton_append]
  simp only [primary, hopening, hwhole]
  cases r quiet <;> simp [Except.map, hclosing]

/-! ## Calls -/

/-- Tokens are read as the arguments of a call, up to the parenthesis that closes it. -/
def ReadsArguments (ctx : Context) (tokens : List Token) (r : Bool → Except Problem (List Value)) : Prop :=
  ∀ quiet fuel taken closing rest, closing.kind = .rightParen → 5 * tokens.length + 5 ≤ fuel →
    arguments ctx fuel quiet taken (tokens ++ closing :: rest) = (r quiet).map fun vs => (taken.reverse ++ vs, rest)

/-- Where something other than a closing parenthesis stands in front, an argument is read. -/
theorem arguments_more {fuel : Nat} {quiet : Bool} {taken : List Value} {t next : Token} {tail rest : List Token}
    (hparen : t.kind ≠ .rightParen)
    (hread : binary ctx fuel quiet leastLevel (t :: tail) = (r quiet).map (·, next :: rest)) :
    arguments ctx (fuel + 1) quiet taken (t :: tail) = (r quiet).bind fun v =>
      if next.kind = .comma then arguments ctx fuel quiet (v :: taken) rest
      else if next.kind = .rightParen then .ok ((v :: taken).reverse, rest)
      else .error (.expression (.missing ")")) := by
  simp only [arguments, beq_iff_eq, Bool.and_eq_true, hparen, false_and, if_false, hread]
  cases r quiet <;> rfl

/-- An operand is a last argument. -/
theorem ReadsAt.lastArgument {level : Nat} (h : ReadsAt ctx level tokens r) (hlevel : leastLevel ≤ level) :
    ReadsArguments ctx tokens fun quiet => (r quiet).map fun v => [v] := by
  intro quiet fuel taken closing rest hclosing hfuel
  obtain ⟨fuel, rfl⟩ : ∃ f, fuel = f + 1 := ⟨fuel - 1, by omega⟩
  have hwhole := h.whole quiet fuel hlevel (stops_of_kind (.inl hclosing) rest) (by omega)
  obtain ⟨t, tail, rfl, hparen⟩ := h.head
  rw [List.cons_append] at hwhole ⊢
  rw [arguments_more hparen hwhole]
  dsimp only
  cases r quiet <;> simp [Except.map, Except.bind, hclosing]

/-- An operand with a comma after it and more arguments are arguments. -/
theorem ReadsAt.argument {level : Nat} (h : ReadsAt ctx level tokens r) (hlevel : leastLevel ≤ level) {more : List Token}
    {rs : Bool → Except Problem (List Value)} (hmore : ReadsArguments ctx more rs) {t : Token} (hkind : t.kind = .comma) :
    ReadsArguments ctx (tokens ++ t :: more) fun quiet => (r quiet).bind fun v => (rs quiet).map (v :: ·) := by
  intro quiet fuel taken closing rest hclosing hfuel
  rw [List.length_append, List.length_cons] at hfuel
  obtain ⟨fuel, rfl⟩ : ∃ f, fuel = f + 1 := ⟨fuel - 1, by omega⟩
  have hwhole := h.whole quiet fuel hlevel (stops_of_kind (.inr hkind) (more ++ closing :: rest)) (by omega)
  have hrest (v : Value) := hmore quiet fuel (v :: taken) closing rest hclosing (by omega)
  obtain ⟨first, tail, rfl, hparen⟩ := h.head
  rw [List.cons_append] at hwhole
  rw [List.append_assoc, List.cons_append, List.cons_append, arguments_more hparen hwhole]
  dsimp only
  cases r quiet with
  | error e => rfl
  | ok v =>
    simp only [Except.bind, hkind, if_true, hrest]
    cases rs quiet <;> simp [Except.map]

/-- A call with arguments. -/
theorem ReadsArguments.call {rs : Bool → Except Problem (List Value)} (h : ReadsArguments ctx tokens rs)
    {name opening closing : Token} (hname : name.kind = .function) (hopening : opening.kind = .leftParen)
    (hclosing : closing.kind = .rightParen) :
    ReadsPrimary ctx (name :: opening :: (tokens ++ [closing])) fun quiet =>
      (rs quiet).bind fun vs => quietly quiet (Function.call name.text vs) := by
  refine ⟨⟨name, opening :: (tokens ++ [closing]), rfl, by simp [hname], by simp [hname]⟩, fun quiet fuel rest hfuel => ?_⟩
  simp only [List.length_cons, List.length_append, List.length_nil] at hfuel
  obtain ⟨fuel, rfl⟩ : ∃ f, fuel = f + 1 := ⟨fuel - 1, by omega⟩
  have hargs := h quiet fuel [] closing rest hclosing (by omega)
  simp only [List.cons_append, List.append_assoc, List.nil_append] at hargs ⊢
  simp only [primary, hname, hopening, beq_self_eq_true, if_true, hargs]
  cases rs quiet with
  | error e => rfl
  | ok vs =>
    simp only [Except.map, List.reverse_nil, List.nil_append, Except.bind]
    cases quietly quiet (Function.call name.text vs) <;> rfl

/-- A call without arguments. -/
theorem readsPrimary_call_nil {name opening closing : Token} (hname : name.kind = .function)
    (hopening : opening.kind = .leftParen) (hclosing : closing.kind = .rightParen) :
    ReadsPrimary ctx [name, opening, closing] fun quiet => quietly quiet (Function.call name.text []) := by
  refine ⟨⟨name, [opening, closing], rfl, by simp [hname], by simp [hname]⟩, fun quiet fuel rest hfuel => ?_⟩
  simp only [List.length_cons, List.length_nil] at hfuel
  obtain ⟨fuel, rfl⟩ : ∃ f, fuel = f + 2 := ⟨fuel - 2, by omega⟩
  simp only [List.cons_append, List.nil_append, primary, hname, hopening, beq_self_eq_true, if_true, arguments, hclosing,
    List.isEmpty_nil, Bool.and_self]
  cases quietly quiet (Function.call name.text []) <;> rfl

end Expr

end LineScript
