import LineScript.Expr.Evaluate
import LineScript.Proofs.Load.Building

/-!
# Walking tokens again

The way an evaluation takes through its tokens does not depend on the values it finds. So once tokens were walked without a
problem, a walk over the same tokens elsewhere takes the same way (`Retracing`): before a closing parenthesis, with other
variables, or quietly. Quietly, only the operands can be a problem, and the first one that is shows (`Context.lookAll`). Where the
operands have the same values as before, so has the whole.
-/

namespace LineScript

/-- A token that stands further on. -/
def Token.moved (offset : Nat) (t : Token) : Token :=
  { t with start := offset + t.start }

/-- A moved token is of the same kind. -/
@[simp] theorem Token.kind_moved (offset : Nat) (t : Token) : (t.moved offset).kind = t.kind :=
  rfl

@[simp] theorem Token.chars_moved (offset : Nat) (t : Token) : (t.moved offset).chars = t.chars :=
  rfl

@[simp] theorem Token.text_moved (offset : Nat) (t : Token) : (t.moved offset).text = t.text :=
  rfl

namespace Expr

/-- A moved token is the word `not` if it was before. -/
@[simp] theorem isWordNot_moved (offset : Nat) (t : Token) : isWordNot (t.moved offset) = isWordNot t :=
  rfl

/-- The value of an operand. -/
def Context.operandOf (ctx : Context) (t : Token) : Except Problem Value :=
  match ctx.derefs.find? (·.start == t.start) with
  | none => .error (.expression (.unknownOperand t.text))
  | some deref => ctx.lookup deref.target

/-- The first problem of the operands among some tokens. -/
def Context.lookAll (ctx : Context) : List Token → Except Problem Unit
  | [] => .ok ()
  | t :: rest => if t.kind == .operand then (ctx.operandOf t).bind fun _ => ctx.lookAll rest else ctx.lookAll rest

/-- A token that is no operand is not looked up. -/
theorem Context.lookAll_cons {ctx : Context} {t : Token} (h : t.kind ≠ .operand) (rest : List Token) :
    ctx.lookAll (t :: rest) = ctx.lookAll rest := by
  rw [lookAll, if_neg (by simpa using h)]

theorem Context.lookAll_append (ctx : Context) (tokens rest : List Token) :
    ctx.lookAll (tokens ++ rest) = (ctx.lookAll tokens).bind fun _ => ctx.lookAll rest := by
  induction tokens with
  | nil => rfl
  | cons t tokens ih =>
    rw [List.cons_append, lookAll, lookAll, ih]
    split
    · cases ctx.operandOf t <;> rfl
    · rfl

/-- Where tokens are walked again: further on, in another context, before others. -/
structure Passage where
  /-- The context of the second walk. -/
  ctx : Context
  /-- How far on the tokens stand. -/
  offset : Nat
  /-- The tokens after them. -/
  after : List Token

namespace Passage

variable (p : Passage)

/-- The tokens as they are walked again. -/
def move (tokens : List Token) : List Token :=
  tokens.map (·.moved p.offset) ++ p.after

/-- The result of walking tokens again, after a first walk that gave `first`: the same tokens are passed, and unless one of their
operands is a problem there is a value that stands to the first one as `r` says. -/
def Retraced {α : Type} (r : α → α → Prop) (tokens : List Token) (first : α × List Token)
    (again : Except Problem (α × List Token)) : Prop :=
  ∃ used v, tokens = used ++ first.2 ∧ r first.1 v ∧
    again = (p.ctx.lookAll (used.map (·.moved p.offset))).map fun _ => (v, p.move first.2)

end Passage

/-- The second value is the first one, if all operands have the same values. -/
def Alike (same : Prop) (v w : Value) : Prop :=
  same → w = v

/-- There are as many values, and they are the same, if all operands have the same values. -/
def AlikeAll (same : Prop) (vs ws : List Value) : Prop :=
  ws.length = vs.length ∧ (same → ws = vs)

/-- The second walk is quiet, or as quiet as the first one if all operands have the same values. -/
def Eases (same : Prop) (quiet quiet' : Bool) : Prop :=
  quiet' = true ∨ same ∧ quiet' = quiet

/-- Alike values stay alike when the same is made of them. -/
theorem Alike.map {same : Prop} {v w : Value} (h : Alike same v w) (f : Value → Value) : Alike same (f v) (f w) :=
  fun hsame => congrArg f (h hsame)

/-- Lists of alike values stay alike when alike values are put in front. -/
theorem AlikeAll.cons {same : Prop} {vs ws : List Value} (h : AlikeAll same vs ws) {v w : Value} (hv : Alike same v w) :
    AlikeAll same (v :: vs) (w :: ws) :=
  ⟨congrArg Nat.succ h.1, fun hsame => by rw [h.2 hsame, hv hsame]⟩

/-- Lists of alike values are alike in reverse. -/
theorem AlikeAll.reverse {same : Prop} {vs ws : List Value} (h : AlikeAll same vs ws) : AlikeAll same vs.reverse ws.reverse :=
  ⟨by rw [List.length_reverse, List.length_reverse, h.1], fun hsame => by rw [h.2 hsame]⟩

/-- Of two lists of alike values, both or neither are empty. -/
theorem AlikeAll.isEmpty_eq {same : Prop} {vs ws : List Value} (h : AlikeAll same vs ws) : ws.isEmpty = vs.isEmpty := by
  rw [Bool.eq_iff_iff, List.isEmpty_iff_length_eq_zero, List.isEmpty_iff_length_eq_zero, h.1]

/-- A second walk that eases the first does so on a side that is decided as well. -/
theorem Eases.or {same : Prop} {quiet quiet' decided decided' : Bool} (h : Eases same quiet quiet')
    (hdecided : same → decided' = decided) : Eases same (quiet || decided) (quiet' || decided') := by
  rcases h with rfl | ⟨hsame, rfl⟩
  · exact .inl (Bool.true_or _)
  · exact .inr ⟨hsame, by rw [hdecided hsame]⟩

/-! ## What can be a problem -/

/-- The only problem of an operator on numbers is division by zero. -/
theorem divideByZero_of_onNumbers {op : Op} {x y : Number} {e : Problem} (h : Arith.onNumbers op x y = .error e) :
    e = .divideByZero := by
  unfold Arith.onNumbers at h
  split at h
  any_goals split at h
  all_goals cases h
  all_goals rfl

/-- The only problem of an operator is division by zero. -/
theorem divideByZero_of_apply {op : Op} {a b : Value} {e : Problem} (h : Arith.apply op a b = .error e) : e = .divideByZero := by
  unfold Arith.apply at h
  split at h
  · cases h
  split at h
  · cases h
  unfold Arith.onValues at h
  split at h
  · exact divideByZero_of_onNumbers h
  · cases h

/-- The only problem of a function is division by zero. -/
theorem divideByZero_of_function {f : Function} {args : List Value} {e : Problem} (h : f.apply args = .error e) :
    e = .divideByZero := by
  cases f with
  | mod =>
    simp only [Function.apply, Function.remainder] at h
    split at h
    · split at h
      · cases h
        rfl
      · split at h <;> cases h
    · cases h
  | abs =>
    simp only [Function.apply] at h
    split at h <;> cases h
  | _ => cases h

/-- A function that can be called with some values can be called with as many others: its only problem is division by zero. -/
theorem divideByZero_of_call {name : String} {args args' : List Value} (hlength : args'.length = args.length)
    (h : ∀ e, Function.call name args = .error e → e = .divideByZero) :
    ∀ e, Function.call name args' = .error e → e = .divideByZero := by
  intro e he
  unfold Function.call at h he
  cases hname : Function.ofName? name with
  | none =>
    rw [hname] at h
    cases h _ rfl
  | some f =>
    rw [hname] at h he
    simp only [hlength] at h he
    split at he
    · rename_i hcount
      rw [if_pos hcount] at h
      cases h _ rfl
    · exact divideByZero_of_function he

/-- What goes well quietly has no problem but division by zero. -/
theorem divideByZero_of_quietly {quiet : Bool} {r : Except Problem Value} {v : Value} (h : quietly quiet r = .ok v) :
    ∀ e, r = .error e → e = .divideByZero := by
  rintro e rfl
  unfold quietly at h
  split at h
  · rename_i heq
    exact Except.error.inj heq
  · cases h

/-- What goes well quietly or not goes well again, where the second walk eases the first. -/
theorem Eases.quietly {same : Prop} {quiet quiet' : Bool} (heases : Eases same quiet quiet') {r : Except Problem Value}
    (r' : Except Problem Value) {v : Value} (h : quietly quiet r = .ok v) (hr : same → r' = r)
    (hproblem : ∀ e, r' = .error e → e = .divideByZero) :
    ∃ w, Alike same v w ∧ Expr.quietly quiet' r' = .ok w := by
  rcases heases with rfl | ⟨hsame, rfl⟩
  · cases hr' : r' with
    | ok w =>
      refine ⟨w, fun hsame => ?_, rfl⟩
      rw [← hr hsame, hr'] at h
      exact Except.ok.inj h
    | error e =>
      obtain rfl := hproblem e hr'
      refine ⟨.empty, fun hsame => ?_, rfl⟩
      rw [← hr hsame, hr'] at h
      unfold Expr.quietly at h
      dsimp only at h
      split at h
      · exact Except.ok.inj h
      · cases h
  · rw [hr hsame]
    exact ⟨v, fun _ => rfl, h⟩

/-! ## The second walk -/

/-- A second walk over tokens: a closing parenthesis comes after them, if anything, and if `same` holds all operands that had a
value have the same one again. -/
structure Retracing (ctx : Context) (p : Passage) (same : Prop) : Prop where
  closes : ∀ t ∈ p.after.head?, t.kind = .rightParen
  operandOf : same → ∀ t v, ctx.operandOf t = .ok v → p.ctx.operandOf (t.moved p.offset) = .ok v

theorem Passage.move_cons (p : Passage) (t : Token) (rest : List Token) :
    p.move (t :: rest) = t.moved p.offset :: p.move rest :=
  rfl

namespace Retracing

variable {ctx : Context} {p : Passage} {same : Prop}

/-- The operator in front is the same. -/
theorem binaryOp?_move (hp : Retracing ctx p same) (tokens : List Token) :
    binaryOp? (p.move tokens) = (binaryOp? tokens).map fun (op, level, after) => (op, level, p.move after) := by
  cases tokens with
  | nil =>
    show binaryOp? p.after = none
    cases hafter : p.after with
    | nil => rfl
    | cons t rest =>
      have hkind := hp.closes t (by rw [hafter]; rfl)
      simp only [binaryOp?, hkind]
  | cons t rest =>
    rw [Passage.move_cons]
    cases hkind : t.kind with
    | op op =>
      simp only [binaryOp?, Token.kind_moved, hkind]
      cases level? op <;> rfl
    | _ => simp only [binaryOp?, Token.kind_moved, hkind, Option.map_some, Option.map_none, Passage.move_cons]

end Retracing

/-- An operator in front is no operand. -/
theorem eq_append_of_binaryOp? {tokens after : List Token} {op : Op} {level : Nat}
    (h : binaryOp? tokens = some (op, level, after)) :
    ∃ sign, tokens = sign ++ after ∧ ∀ t ∈ sign, t.kind ≠ .operand := by
  cases tokens with
  | nil => cases h
  | cons t rest =>
    cases hkind : t.kind with
    | op written =>
      simp only [binaryOp?, hkind, Option.map_eq_some_iff] at h
      obtain ⟨level, -, heq⟩ := h
      cases heq
      refine ⟨[t], rfl, fun u hu => ?_⟩
      rw [List.mem_singleton.mp hu, hkind]
      exact nofun
    | number | str | operand | function | leftParen =>
      simp only [binaryOp?, hkind] at h
      cases h
      exact ⟨[], rfl, nofun⟩
    | rightParen | comma => simp [binaryOp?, hkind] at h

/-- Tokens without operands have nothing to look up. -/
theorem Context.lookAll_of_forall {ctx : Context} {tokens : List Token} (h : ∀ t ∈ tokens, t.kind ≠ .operand) :
    ctx.lookAll tokens = .ok () := by
  induction tokens with
  | nil => rfl
  | cons t rest ih =>
    rw [lookAll_cons (h t List.mem_cons_self)]
    exact ih fun u hu => h u (List.mem_cons_of_mem _ hu)

namespace Passage.Retraced

variable {p : Passage} {α β : Type} {r : α → α → Prop} {s : β → β → Prop} {tokens rest : List Token} {v w : α}

/-- A walk that passes nothing more. -/
theorem done (h : r v w) : p.Retraced r rest (v, rest) (.ok (w, p.move rest)) :=
  ⟨[], w, rfl, h, rfl⟩

/-- A walk that goes on after another. -/
theorem bind {first : α × List Token} {second : β × List Token} {again : Except Problem (α × List Token)}
    (h : p.Retraced r tokens first again) {whole : Except Problem (β × List Token)}
    {f : α → Except Problem (β × List Token)} (hnext : ∀ w, r first.1 w → p.Retraced s first.2 second (f w))
    (herror : ∀ e, again = .error e → whole = .error e) (hok : ∀ w, again = .ok (w, p.move first.2) → whole = f w) :
    p.Retraced s tokens second whole := by
  obtain ⟨used, w, rfl, hw, hagain⟩ := h
  obtain ⟨more, x, hrest, hx, hmore⟩ := hnext w hw
  refine ⟨used ++ more, x, by rw [hrest, List.append_assoc], hx, ?_⟩
  rw [List.map_append, Context.lookAll_append]
  cases hlook : p.ctx.lookAll (used.map (·.moved p.offset)) with
  | error e =>
    rw [hlook] at hagain
    exact herror e hagain
  | ok _ =>
    rw [hlook] at hagain
    exact (hok w hagain).trans hmore

/-- Tokens that are no operands may be passed before. -/
theorem append {sign : List Token} {first : α × List Token} {again : Except Problem (α × List Token)}
    (h : p.Retraced r tokens first again) (hsign : ∀ t ∈ sign, t.kind ≠ .operand) :
    p.Retraced r (sign ++ tokens) first again := by
  obtain ⟨used, w, rfl, hw, hagain⟩ := h
  refine ⟨sign ++ used, w, (List.append_assoc ..).symm, hw, ?_⟩
  have hlook : p.ctx.lookAll (sign.map (·.moved p.offset)) = .ok () := by
    refine Context.lookAll_of_forall fun t ht => ?_
    obtain ⟨u, hu, rfl⟩ := List.mem_map.mp ht
    exact hsign u hu
  rw [List.map_append, Context.lookAll_append, hlook]
  exact hagain

/-- A walk that is retraced is so with a token before it that is no operand. -/
theorem cons {t : Token} (ht : t.kind ≠ .operand) {first : α × List Token} {again : Except Problem (α × List Token)}
    (h : p.Retraced r tokens first again) : p.Retraced r (t :: tokens) first again :=
  h.append fun u hu => by rwa [List.mem_singleton.mp hu]

end Passage.Retraced

namespace Retracing

variable {ctx : Context} {p : Passage} {same : Prop}

/-- An operand is read by looking up its reference. -/
theorem primary_of_operand {fuel : Nat} {quiet : Bool} {t : Token} (hkind : t.kind = .operand) (rest : List Token) :
    primary ctx (fuel + 1) quiet (t :: rest) = (ctx.operandOf t).map fun v => (v, rest) := by
  simp only [Expr.primary, hkind, Context.operandOf]
  cases ctx.derefs.find? (·.start == t.start) with
  | none => rfl
  | some deref =>
    dsimp only
    cases ctx.lookup deref.target <;> rfl

/-- An operand that was looked up is looked up again, further on. -/
theorem retraced_operand (hp : Retracing ctx p same) {t : Token} {rest : List Token} {v : Value} (hkind : t.kind = .operand)
    (h : ctx.operandOf t = .ok v) :
    p.Retraced (Alike same) (t :: rest) (v, rest)
      ((p.ctx.operandOf (t.moved p.offset)).map fun w => (w, p.move rest)) := by
  cases hvalue : p.ctx.operandOf (t.moved p.offset) with
  | error e =>
    refine ⟨[t], v, rfl, fun _ => rfl, ?_⟩
    simp [Context.lookAll, hkind, hvalue, Except.bind, Except.map]
  | ok w =>
    refine ⟨[t], w, rfl, fun hsame => ?_, ?_⟩
    · exact Except.ok.inj (hvalue.symm.trans (hp.operandOf hsame t v h))
    · simp [Context.lookAll, hkind, hvalue, Except.bind, Except.map]

mutual

/-- A run of operands is retraced, with more fuel and no more problems. -/
theorem binary (hp : Retracing ctx p same) : (fuel : Nat) → ∀ ⦃fuel' : Nat⦄ ⦃quiet quiet' : Bool⦄ ⦃least : Nat⦄
    ⦃tokens : List Token⦄ ⦃first : Rest⦄, fuel ≤ fuel' → Eases same quiet quiet' →
      Expr.binary ctx fuel quiet least tokens = .ok first →
      p.Retraced (Alike same) tokens first (Expr.binary p.ctx fuel' quiet' least (p.move tokens))
  | 0 => by
    intro _ _ _ _ _ _ _ _ h
    cases h
  | fuel + 1 => by
    intro fuel' quiet quiet' least tokens first hle heases h
    obtain ⟨fuel', rfl⟩ := Nat.exists_eq_add_one_of_ne_zero (Nat.ne_zero_of_lt hle)
    have hle := Nat.le_of_succ_le_succ hle
    cases tokens with
    | nil => cases h
    | cons t rest =>
      rw [Passage.move_cons]
      simp only [Expr.binary] at h
      split at h
      · rename_i hnot
        split at h
        · cases h
        · rename_i v rest₁ hoperand
          have hkind : t.kind ≠ .operand := by
            intro hkind
            simp [isWordNot, hkind] at hnot
          refine .cons hkind ((binary hp fuel hle heases hoperand).bind (fun w hw =>
            operators hp fuel hle heases (hw.map fun v => .ofBool !v.isTrue) h) (fun e he => ?_) fun w hw => ?_)
          · simp only [Expr.binary, isWordNot_moved, hnot, if_true, he]
          · simp only [Expr.binary, isWordNot_moved, hnot, if_true, hw]
      · rename_i hnot
        split at h
        · cases h
        · rename_i v rest₁ hoperand
          refine (unary hp fuel hle heases hoperand).bind (fun w hw => operators hp fuel hle heases hw h) (fun e he => ?_)
            fun w hw => ?_
          · simp only [Expr.binary, isWordNot_moved, hnot, if_false, ← Passage.move_cons, he, Bool.false_eq_true]
          · simp only [Expr.binary, isWordNot_moved, hnot, if_false, ← Passage.move_cons, hw, Bool.false_eq_true]

/-- The operators after an operand are retraced, with more fuel and no more problems. -/
theorem operators (hp : Retracing ctx p same) : (fuel : Nat) → ∀ ⦃fuel' : Nat⦄ ⦃quiet quiet' : Bool⦄ ⦃least : Nat⦄
    ⦃left left' : Value⦄ ⦃tokens : List Token⦄ ⦃first : Rest⦄, fuel ≤ fuel' → Eases same quiet quiet' → Alike same left left' →
      Expr.operators ctx fuel quiet least left tokens = .ok first →
        p.Retraced (Alike same) tokens first (Expr.operators p.ctx fuel' quiet' least left' (p.move tokens))
  | 0 => by
    intro _ _ _ _ _ _ _ _ _ _ _ h
    cases h
  | fuel + 1 => by
    intro fuel' quiet quiet' least left left' tokens first hle heases hleft h
    obtain ⟨fuel', rfl⟩ := Nat.exists_eq_add_one_of_ne_zero (Nat.ne_zero_of_lt hle)
    have hle := Nat.le_of_succ_le_succ hle
    have hop := hp.binaryOp?_move tokens
    simp only [Expr.operators] at h ⊢
    cases hfront : binaryOp? tokens with
    | none =>
      rw [hfront] at h hop
      simp only [hop, Option.map_none]
      cases h
      exact .done hleft
    | some found =>
      obtain ⟨op, level, after⟩ := found
      rw [hfront] at h hop
      simp only [hop, Option.map_some] at h ⊢
      split at h
      · rename_i hloose
        rw [if_pos hloose]
        cases h
        exact .done hleft
      rename_i hloose
      rw [if_neg hloose]
      obtain ⟨sign, rfl, hsign⟩ := eq_append_of_binaryOp? hfront
      refine .append ?_ hsign
      split at h
      · rename_i hshort
        rw [if_pos hshort]
        have hdecided : same → (left'.isTrue == (op == .or)) = (left.isTrue == (op == .or)) := fun hsame => by rw [hleft hsame]
        split at h
        · cases h
        · rename_i right rest₁ hright
          have hvalue (w : Value) (hw : Alike same right w) :
              Alike same (.ofBool (if (left.isTrue == (op == .or)) = true then op == .or else right.isTrue))
                (.ofBool (if (left'.isTrue == (op == .or)) = true then op == .or else w.isTrue)) :=
            fun hsame => by rw [hleft hsame, hw hsame]
          refine (binary hp fuel hle (heases.or hdecided) hright).bind
            (fun w hw => operators hp fuel hle heases (hvalue w hw) h) (fun e he => ?_) fun w hw => ?_
          · simp only [he]
          · simp only [hw]
      · rename_i hshort
        rw [if_neg hshort]
        split at h
        · cases h
        · rename_i right rest₁ hright
          split at h
          · cases h
          · rename_i v hv
            refine (binary hp fuel hle heases hright).bind (f := fun w => (quietly quiet' (Arith.apply op left' w)).bind fun v =>
              Expr.operators p.ctx fuel' quiet' least v (p.move rest₁)) (fun w hw => ?_) (fun e he => ?_) fun w hw => ?_
            · obtain ⟨v', hv', hquietly⟩ := heases.quietly (Arith.apply op left' w) hv
                (fun hsame => by rw [hleft hsame, hw hsame]) fun e he => divideByZero_of_apply he
              rw [hquietly]
              exact operators hp fuel hle heases hv' h
            · simp only [he]
            · simp only [hw]
              cases quietly quiet' (Arith.apply op left' w) <;> rfl

theorem unary (hp : Retracing ctx p same) : (fuel : Nat) → ∀ ⦃fuel' : Nat⦄ ⦃quiet quiet' : Bool⦄ ⦃tokens : List Token⦄
    ⦃first : Rest⦄, fuel ≤ fuel' → Eases same quiet quiet' → Expr.unary ctx fuel quiet tokens = .ok first →
      p.Retraced (Alike same) tokens first (Expr.unary p.ctx fuel' quiet' (p.move tokens))
  | 0 => by
    intro _ _ _ _ _ _ _ h
    cases h
  | fuel + 1 => by
    intro fuel' quiet quiet' tokens first hle heases h
    obtain ⟨fuel', rfl⟩ := Nat.exists_eq_add_one_of_ne_zero (Nat.ne_zero_of_lt hle)
    have hle := Nat.le_of_succ_le_succ hle
    cases tokens with
    | nil => cases h
    | cons t rest =>
      -- All signs are walked alike.
      have hsigned (f : Value → Value) (hkind : t.kind ≠ .operand)
          (h : (match Expr.unary ctx fuel quiet rest with
            | .error e => .error e
            | .ok (v, rest) => .ok (f v, rest)) = Except.ok first) :
          p.Retraced (Alike same) (t :: rest) first (match Expr.unary p.ctx fuel' quiet' (p.move rest) with
            | .error e => .error e
            | .ok (v, rest) => .ok (f v, rest)) := by
        split at h
        · cases h
        · rename_i v rest₁ hoperand
          cases h
          refine .cons hkind ((unary hp fuel hle heases hoperand).bind (fun w hw => .done (hw.map f)) (fun e he => ?_)
            fun w hw => ?_)
          · simp only [he]
          · simp only [hw]
      rw [Passage.move_cons]
      simp only [Expr.unary, Token.kind_moved, isWordNot_moved] at h ⊢
      split at h
      · rename_i hsign
        simp only [hsign, if_true]
        exact hsigned _ (by rw [eq_of_beq hsign]; exact nofun) h
      rename_i hsub
      split at h
      · rename_i hsign
        simp only [hsub, hsign, if_true]
        exact hsigned _ (by rw [eq_of_beq hsign]; exact nofun) h
      rename_i hadd
      split at h
      · rename_i hsign
        simp only [hsub, hadd, hsign, if_true]
        exact hsigned _ (by rw [eq_of_beq (Bool.and_eq_true_iff.mp hsign).1]; exact nofun) h
      rename_i hnot
      split at h
      · rename_i hsign
        simp only [hsub, hadd, hnot, hsign, if_true]
        exact hsigned _ (by rw [eq_of_beq hsign]; exact nofun) h
      · rename_i hbits
        simp only [hsub, hadd, hnot, hbits]
        exact power hp fuel hle heases h

theorem power (hp : Retracing ctx p same) : (fuel : Nat) → ∀ ⦃fuel' : Nat⦄ ⦃quiet quiet' : Bool⦄ ⦃tokens : List Token⦄
    ⦃first : Rest⦄, fuel ≤ fuel' → Eases same quiet quiet' → Expr.power ctx fuel quiet tokens = .ok first →
      p.Retraced (Alike same) tokens first (Expr.power p.ctx fuel' quiet' (p.move tokens))
  | 0 => by
    intro _ _ _ _ _ _ _ h
    cases h
  | fuel + 1 => by
    intro fuel' quiet quiet' tokens first hle heases h
    obtain ⟨fuel', rfl⟩ := Nat.exists_eq_add_one_of_ne_zero (Nat.ne_zero_of_lt hle)
    have hle := Nat.le_of_succ_le_succ hle
    simp only [Expr.power] at h ⊢
    split at h
    · cases h
    · rename_i base hbase
      cases h
      refine (primary hp fuel hle heases hbase).bind (fun w hw => .done hw) (fun e he => ?_) fun w hw => ?_
      · simp only [he]
      · have hclose : ∀ t ∈ (p.move []).head?, t.kind = .rightParen := hp.closes
        simp only [hw]
        cases hmove : p.move [] with
        | nil => rfl
        | cons t rest =>
          rw [hmove] at hclose
          simp only [hclose t rfl]
          rfl
    · rename_i base t rest hbase
      split at h
      · rename_i hpow
        split at h
        · cases h
        · rename_i exponent rest₁ hexponent
          cases h
          refine (primary hp fuel hle heases hbase).bind (f := fun w =>
            (Expr.unary p.ctx fuel' quiet' (p.move rest)).map fun (exponent, rest) => (Arith.power w exponent, rest)) (fun b hb => ?_) (fun e he => ?_) fun w hw => ?_
          · refine .cons (by rw [eq_of_beq hpow]; exact nofun) ((unary hp fuel hle heases hexponent).bind
              (f := fun w => .ok (Arith.power b w, p.move rest₁)) (fun w hw => .done ?_) (fun e he => ?_) fun w hw => ?_)
            · exact fun hsame => by rw [hb hsame, hw hsame]
            · simp only [he, Except.map]
            · simp only [hw, Except.map]
          · simp only [he]
          · simp only [hw, Passage.move_cons, Token.kind_moved, hpow, if_true]
            cases Expr.unary p.ctx fuel' quiet' (p.move rest) <;> rfl
      · rename_i hpow
        cases h
        refine (primary hp fuel hle heases hbase).bind (fun w hw => .done hw) (fun e he => ?_) fun w hw => ?_
        · simp only [he]
        · simp only [hw, Passage.move_cons, Token.kind_moved, hpow, if_false, Bool.false_eq_true]

/-- An operand without signs is retraced, with more fuel and no more problems. -/
theorem primary (hp : Retracing ctx p same) : (fuel : Nat) → ∀ ⦃fuel' : Nat⦄ ⦃quiet quiet' : Bool⦄ ⦃tokens : List Token⦄
    ⦃first : Rest⦄, fuel ≤ fuel' → Eases same quiet quiet' → Expr.primary ctx fuel quiet tokens = .ok first →
      p.Retraced (Alike same) tokens first (Expr.primary p.ctx fuel' quiet' (p.move tokens))
  | 0 => by
    intro _ _ _ _ _ _ _ h
    cases h
  | fuel + 1 => by
    intro fuel' quiet quiet' tokens first hle heases h
    obtain ⟨fuel', rfl⟩ := Nat.exists_eq_add_one_of_ne_zero (Nat.ne_zero_of_lt hle)
    have hle := Nat.le_of_succ_le_succ hle
    cases tokens with
    | nil => cases h
    | cons t rest =>
      rw [Passage.move_cons]
      cases hkind : t.kind with
      | number =>
        simp only [Expr.primary, Token.kind_moved, Token.text_moved, hkind] at h ⊢
        split at h
        · rename_i n hn
          cases h
          exact .cons (by rw [hkind]; exact nofun) (.done fun _ => rfl)
        · cases h
      | str =>
        simp only [Expr.primary, Token.kind_moved, Token.chars_moved, hkind] at h ⊢
        cases h
        exact .cons (by rw [hkind]; exact nofun) (.done fun _ => rfl)
      | operand =>
        have hmoved : (t.moved p.offset).kind = .operand := hkind
        rw [primary_of_operand hkind] at h
        rw [primary_of_operand hmoved]
        obtain ⟨v, hv, rfl⟩ := map_eq_ok h
        exact hp.retraced_operand hkind hv
      | function =>
        simp only [Expr.primary, Token.kind_moved, Token.text_moved, hkind] at h ⊢
        cases rest with
        | nil => cases h
        | cons paren rest =>
          simp only [Passage.move_cons, Token.kind_moved] at h ⊢
          split at h
          · rename_i hparen
            simp only [hparen, if_true]
            split at h
            · cases h
            · rename_i args rest₁ hargs
              split at h
              · cases h
              · rename_i v hv
                cases h
                have hopening : paren.kind ≠ .operand := by rw [eq_of_beq hparen]; exact nofun
                refine .cons (by rw [hkind]; exact nofun) (.cons hopening
                  ((arguments hp fuel hle heases (show AlikeAll same [] [] from ⟨rfl, fun _ => rfl⟩) hargs).bind (f := fun args' =>
                    (quietly quiet' (Function.call t.text args')).map fun v => (v, p.move rest₁)) (fun args' hargs' => ?_)
                    (fun e he => ?_) fun args' hargs' => ?_))
                · obtain ⟨w, hw, hquietly⟩ := heases.quietly (Function.call t.text args') hv
                    (fun hsame => by rw [hargs'.2 hsame]) (divideByZero_of_call hargs'.1 (divideByZero_of_quietly hv))
                  rw [hquietly]
                  exact .done hw
                · simp only [he]
                · simp only [hargs']
                  cases quietly quiet' (Function.call t.text args') <;> rfl
          · cases h
      | leftParen =>
        simp only [Expr.primary, Token.kind_moved, hkind] at h ⊢
        split at h
        · cases h
        · rename_i v close rest₁ hinside
          split at h
          · rename_i hclose
            cases h
            refine .cons (by rw [hkind]; exact nofun) ((binary hp fuel hle heases hinside).bind
              (f := fun w => .ok (w, p.move rest₁)) (fun w hw => ?_) (fun e he => ?_) fun w hw => ?_)
            · exact .cons (by rw [eq_of_beq hclose]; exact nofun) (.done hw)
            · simp only [he]
            · simp only [hw, Passage.move_cons, Token.kind_moved, hclose, if_true]
          · cases h
        · cases h
      | op _ | rightParen | comma => simp only [Expr.primary, hkind] at h; cases h

/-- The arguments of a call are retraced, with more fuel and no more problems. -/
theorem arguments (hp : Retracing ctx p same) : (fuel : Nat) → ∀ ⦃fuel' : Nat⦄ ⦃quiet quiet' : Bool⦄ ⦃done done' : List Value⦄
    ⦃tokens : List Token⦄ ⦃first : List Value × List Token⦄, fuel ≤ fuel' → Eases same quiet quiet' → AlikeAll same done done' →
      Expr.arguments ctx fuel quiet done tokens = .ok first →
        p.Retraced (AlikeAll same) tokens first (Expr.arguments p.ctx fuel' quiet' done' (p.move tokens))
  | 0 => by
    intro _ _ _ _ _ _ _ _ _ _ h
    cases h
  | fuel + 1 => by
    intro fuel' quiet quiet' done done' tokens first hle heases hdone h
    obtain ⟨fuel', rfl⟩ := Nat.exists_eq_add_one_of_ne_zero (Nat.ne_zero_of_lt hle)
    have hle := Nat.le_of_succ_le_succ hle
    cases tokens with
    | nil =>
      cases fuel <;> cases h
    | cons t rest =>
      -- An argument, with others after it or the parenthesis that closes the call.
      have hmore (h : (match Expr.binary ctx fuel quiet leastLevel (t :: rest) with
            | .error e => .error e
            | .ok (_, []) => .error (.expression (.missing ")"))
            | .ok (v, next :: rest) =>
              if next.kind == .comma then Expr.arguments ctx fuel quiet (v :: done) rest
              else if next.kind == .rightParen then .ok ((v :: done).reverse, rest)
              else .error (.expression (.missing ")"))) = Except.ok first) :
          p.Retraced (AlikeAll same) (t :: rest) first
            (match Expr.binary p.ctx fuel' quiet' leastLevel (p.move (t :: rest)) with
            | .error e => .error e
            | .ok (_, []) => .error (.expression (.missing ")"))
            | .ok (v, next :: rest) =>
              if next.kind == .comma then Expr.arguments p.ctx fuel' quiet' (v :: done') rest
              else if next.kind == .rightParen then .ok ((v :: done').reverse, rest)
              else .error (.expression (.missing ")"))) := by
        split at h
        · cases h
        · cases h
        · rename_i v next rest₁ harg
          split at h
          · rename_i hcomma
            refine (binary hp fuel hle heases harg).bind
              (f := fun w => Expr.arguments p.ctx fuel' quiet' (w :: done') (p.move rest₁))
              (fun w hw => .cons (by rw [eq_of_beq hcomma]; exact nofun) (arguments hp fuel hle heases (hdone.cons hw) h))
              (fun e he => ?_) fun w hw => ?_
            · simp only [he]
            · rw [hw]
              simp only [Passage.move_cons, Token.kind_moved, hcomma, if_true]
          rename_i hcomma
          split at h
          · rename_i hclose
            cases h
            refine (binary hp fuel hle heases harg).bind (f := fun w => .ok ((w :: done').reverse, p.move rest₁))
              (fun w hw => .cons (by rw [eq_of_beq hclose]; exact nofun) (.done (hdone.cons hw).reverse))
              (fun e he => ?_) fun w hw => ?_
            · simp only [he]
            · rw [hw]
              simp only [Passage.move_cons, Token.kind_moved, hcomma, hclose, if_true, if_false, Bool.false_eq_true]
          · cases h
      simp only [Expr.arguments] at h
      rw [Passage.move_cons]
      simp only [Expr.arguments, Token.kind_moved, hdone.isEmpty_eq]
      split at h
      · rename_i hclose
        simp only [hclose, if_true]
        cases h
        have hkind : t.kind ≠ .operand := by
          rw [eq_of_beq (Bool.and_eq_true_iff.mp hclose).1]
          exact nofun
        exact .cons hkind (.done ⟨rfl, fun _ => rfl⟩)
      · rename_i hclose
        simp only [hclose]
        exact hmore h

end

/-- Tokens that were walked to their end are walked to it again, unless an operand is a problem. -/
theorem binary_all (hp : Retracing ctx p same) {fuel fuel' least : Nat} {quiet quiet' : Bool} {tokens : List Token} {v : Value}
    (hle : fuel ≤ fuel') (heases : Eases same quiet quiet') (h : Expr.binary ctx fuel quiet least tokens = .ok (v, [])) :
    ∃ w, Alike same v w ∧ Expr.binary p.ctx fuel' quiet' least (p.move tokens) =
      (p.ctx.lookAll (tokens.map (·.moved p.offset))).map fun _ => (w, p.after) := by
  obtain ⟨used, w, hused, hw, hwalk⟩ := binary hp fuel hle heases h
  rw [List.append_nil] at hused
  exact ⟨w, hw, hused ▸ hwalk⟩

end Retracing

/-- Where tokens were walked to their end, all their operands have a value. -/
theorem lookAll_of_binary {ctx : Context} {fuel least : Nat} {quiet : Bool} {tokens : List Token} {v : Value}
    (h : binary ctx fuel quiet least tokens = .ok (v, [])) : ctx.lookAll tokens = .ok () := by
  have hmoved (t : Token) : t.moved 0 = t := by simp [Token.moved]
  have htokens : tokens.map (·.moved 0) = tokens := by simp [hmoved]
  have hagain : Retracing ctx { ctx, offset := 0, after := [] } True := ⟨nofun, fun _ t v hv => by rwa [hmoved]⟩
  obtain ⟨w, -, hwalk⟩ := hagain.binary_all (Nat.le_refl fuel) (.inr ⟨trivial, rfl⟩) h
  simp only [Passage.move, htokens, List.append_nil, h] at hwalk
  cases hlook : ctx.lookAll tokens with
  | error e =>
    rw [hlook] at hwalk
    cases hwalk
  | ok _ => rfl

/-- Operands that had values have them again where they have the same ones. -/
theorem Context.lookAll_moved {ctx ctx' : Context} {offset : Nat} {tokens : List Token}
    (hsame : ∀ t v, ctx.operandOf t = .ok v → ctx'.operandOf (t.moved offset) = .ok v) (h : ctx.lookAll tokens = .ok ()) :
    ctx'.lookAll (tokens.map (·.moved offset)) = .ok () := by
  induction tokens with
  | nil => rfl
  | cons t rest ih =>
    rw [List.map_cons]
    unfold lookAll at h ⊢
    rw [Token.kind_moved]
    split at h
    · rename_i hkind
      rw [if_pos hkind]
      cases hvalue : ctx.operandOf t with
      | error e =>
        rw [hvalue] at h
        cases h
      | ok v =>
        rw [hvalue] at h
        rw [hsame t v hvalue]
        exact ih h
    · rename_i hkind
      rw [if_neg hkind]
      exact ih h

/-- A second walk that finds the same values gives the same value. -/
theorem Retracing.binary_same {ctx : Context} {p : Passage} (hp : Retracing ctx p True) {fuel fuel' least : Nat} {quiet : Bool}
    {tokens : List Token} {v : Value} (hle : fuel ≤ fuel') (h : Expr.binary ctx fuel quiet least tokens = .ok (v, [])) :
    Expr.binary p.ctx fuel' quiet least (p.move tokens) = .ok (v, p.after) := by
  obtain ⟨w, hw, hwalk⟩ := hp.binary_all hle (.inr ⟨trivial, rfl⟩) h
  rw [hwalk, Context.lookAll_moved (hp.operandOf trivial) (lookAll_of_binary h), hw trivial]
  rfl

end Expr

end LineScript
