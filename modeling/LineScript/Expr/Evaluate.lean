import LineScript.Expr.Arithmetic
import LineScript.Expr.Function

/-!
# Evaluating expressions

Walks the tokens of an expression by precedence and computes its value on the way. The side of `and` and `or` that does
not matter is walked too, with division by zero giving the empty value; every other problem still shows.
-/

namespace LineScript

namespace Expr

/-- The value of a variable reference, or why it has none. -/
abbrev Lookup := Target → Except Problem Value

/-- What an evaluation needs to know: the references of the expression by offset, and the variables. -/
structure Context where
  /-- The references. -/
  derefs : List Deref
  /-- The variables. -/
  lookup : Lookup

/-- The binding power of a binary operator, loosest first; the others have none. -/
def level? : Op → Option Nat
  | .or => some 1
  | .and => some 2
  | .eq | .strictEq | .ne => some 4
  | .lt | .le | .gt | .ge => some 5
  | .concat => some 6
  | .bitOr => some 7
  | .bitXor => some 8
  | .bitAnd => some 9
  | .shl | .shr => some 10
  | .add | .sub => some 11
  | .mul | .div | .floorDiv => some 12
  | .pow | .not | .bitNot => none

/-- The binding power of the word `not`. -/
def notLevel : Nat := 3

/-- The least binding power. -/
def leastLevel : Nat := 1

/-- Whether a token is `not` written as a word. -/
def isWordNot (t : Token) : Bool :=
  t.kind == .op .not && t.chars.length == 3

/-- The binary operator at the head of some tokens, its binding power, and the tokens after it. Operands that stand side
by side are concatenated. -/
def binaryOp? : List Token → Option (Op × Nat × List Token)
  | [] => none
  | t :: rest =>
    match t.kind with
    | .op op => (level? op).map fun level => (op, level, rest)
    | .number | .str | .operand | .function | .leftParen => some (.concat, 6, t :: rest)
    | .rightParen | .comma => none

/-- Division by zero gives the empty value where the result does not matter. -/
def quietly (quiet : Bool) (r : Except Problem Value) : Except Problem Value :=
  match r with
  | .error .divideByZero => if quiet then .ok .empty else r
  | _ => r

/-- Quoted characters with doubled quotes made single, put after `done`, which is kept in reverse. -/
def unquoteOnto : (done : List Char) → List Char → List Char
  | done, [] => done.reverse
  | done, '"' :: '"' :: rest => unquoteOnto ('"' :: done) rest
  | done, c :: rest => unquoteOnto (c :: done) rest

/-- The text a quoted token stands for. -/
def unquote (chars : List Char) : String :=
  .ofList (unquoteOnto [] (chars.drop 1).dropLast)

/-- A value with the tokens that are left. -/
abbrev Rest := Value × List Token

mutual

/-- A run of operands joined by operators that bind at least as tightly as `least`. -/
def binary (ctx : Context) : (fuel : Nat) → (quiet : Bool) → (least : Nat) → List Token → Except Problem Rest
  | 0, _, _, _ => .error (.expression .missingOperand)
  | fuel + 1, quiet, least, tokens =>
    match tokens with
    | t :: rest =>
      if isWordNot t && least ≤ notLevel then
        match binary ctx fuel quiet notLevel rest with
        | .error e => .error e
        | .ok (v, rest) => operators ctx fuel quiet least (.ofBool !v.isTrue) rest
      else
        match unary ctx fuel quiet (t :: rest) with
        | .error e => .error e
        | .ok (v, rest) => operators ctx fuel quiet least v rest
    | [] => .error (.expression .missingOperand)

/-- Goes on after a left operand. -/
def operators (ctx : Context) : (fuel : Nat) → (quiet : Bool) → (least : Nat) → (left : Value) → List Token →
    Except Problem Rest
  | 0, _, _, _, _ => .error (.expression .missingOperand)
  | fuel + 1, quiet, least, left, tokens =>
    match binaryOp? tokens with
    | none => .ok (left, tokens)
    | some (op, level, after) =>
      if level < least then .ok (left, tokens)
      else if op == .and || op == .or then
        let decided := left.isTrue == (op == .or)
        match binary ctx fuel (quiet || decided) (level + 1) after with
        | .error e => .error e
        | .ok (right, rest) =>
          operators ctx fuel quiet least (.ofBool (if decided then op == .or else right.isTrue)) rest
      else
        match binary ctx fuel quiet (level + 1) after with
        | .error e => .error e
        | .ok (right, rest) =>
          match quietly quiet (Arith.apply op left right) with
          | .error e => .error e
          | .ok v => operators ctx fuel quiet least v rest

/-- An operand with its signs. -/
def unary (ctx : Context) : (fuel : Nat) → (quiet : Bool) → List Token → Except Problem Rest
  | 0, _, _ => .error (.expression .missingOperand)
  | _ + 1, _, [] => .error (.expression .missingOperand)
  | fuel + 1, quiet, t :: rest =>
    let signed (f : Value → Value) : Except Problem Rest :=
      match unary ctx fuel quiet rest with
      | .error e => .error e
      | .ok (v, rest) => .ok (f v, rest)
    if t.kind == .op .sub then signed Arith.negate
    else if t.kind == .op .add then signed id
    else if t.kind == .op .not && !isWordNot t then signed fun v => .ofBool !v.isTrue
    else if t.kind == .op .bitNot then signed Arith.complement
    else power ctx fuel quiet (t :: rest)

/-- An operand, raised to a power if one follows. -/
def power (ctx : Context) : (fuel : Nat) → (quiet : Bool) → List Token → Except Problem Rest
  | 0, _, _ => .error (.expression .missingOperand)
  | fuel + 1, quiet, tokens =>
    match primary ctx fuel quiet tokens with
    | .error e => .error e
    | .ok (base, []) => .ok (base, [])
    | .ok (base, t :: rest) =>
      if t.kind == .op .pow then
        match unary ctx fuel quiet rest with
        | .error e => .error e
        | .ok (exponent, rest) => .ok (Arith.power base exponent, rest)
      else .ok (base, t :: rest)

/-- A literal, a variable, a call or a parenthesis. -/
def primary (ctx : Context) : (fuel : Nat) → (quiet : Bool) → List Token → Except Problem Rest
  | 0, _, _ => .error (.expression .missingOperand)
  | _ + 1, _, [] => .error (.expression .missingOperand)
  | fuel + 1, quiet, t :: rest =>
    match t.kind with
    | .number =>
      match Number.ofText? t.text with
      | some n => .ok (n.toValue, rest)
      | none => .error (.expression (.invalidNumber t.text))
    | .str => .ok (.text (unquote t.chars), rest)
    | .operand =>
      match ctx.derefs.find? (·.start == t.start) with
      | none => .error (.expression (.unknownOperand t.text))
      | some deref =>
        match ctx.lookup deref.target with
        | .error e => .error e
        | .ok v => .ok (v, rest)
    | .function =>
      match rest with
      | paren :: rest =>
        if paren.kind == .leftParen then
          match arguments ctx fuel quiet [] rest with
          | .error e => .error e
          | .ok (args, rest) =>
            match quietly quiet (Function.call t.text args) with
            | .error e => .error e
            | .ok v => .ok (v, rest)
        else .error (.expression (.missing "("))
      | [] => .error (.expression (.missing "("))
    | .leftParen =>
      match binary ctx fuel quiet leastLevel rest with
      | .error e => .error e
      | .ok (v, close :: rest) =>
        if close.kind == .rightParen then .ok (v, rest) else .error (.expression (.missing ")"))
      | .ok (_, []) => .error (.expression (.missing ")"))
    | .op _ | .rightParen | .comma => .error (.expression (.unexpected t.text))

/-- The arguments of a call up to its closing parenthesis, put after `done`, which is kept in reverse. Only a call
without arguments may close at once. -/
def arguments (ctx : Context) : (fuel : Nat) → (quiet : Bool) → (done : List Value) → List Token →
    Except Problem (List Value × List Token)
  | 0, _, _, _ => .error (.expression .missingOperand)
  | fuel + 1, quiet, done, tokens =>
    let more : Except Problem (List Value × List Token) :=
      match binary ctx fuel quiet leastLevel tokens with
      | .error e => .error e
      | .ok (_, []) => .error (.expression (.missing ")"))
      | .ok (v, t :: rest) =>
        if t.kind == .comma then arguments ctx fuel quiet (v :: done) rest
        else if t.kind == .rightParen then .ok ((v :: done).reverse, rest)
        else .error (.expression (.missing ")"))
    match tokens with
    | t :: rest => if t.kind == .rightParen && done.isEmpty then .ok ([], rest) else more
    | [] => more

end

/-- The value of a sequence of tokens. No tokens are the empty value. Every operand passes at most seven rules on its
way, which bounds the rounds. -/
def evaluateTokens (ctx : Context) (tokens : List Token) : Except Problem Value :=
  if tokens.isEmpty then .ok .empty
  else match binary ctx (8 * tokens.length + 8) false leastLevel tokens with
    | .error e => .error e
    | .ok (v, []) => .ok v
    | .ok (_, t :: _) => .error (.expression (.unexpected t.text))

/-- The value of an expression. -/
def evaluate (text : String) (derefs : List Deref) (lookup : Lookup) : Except Problem Value :=
  match Token.scan text with
  | .error e => .error (.expression (.lexical e))
  | .ok tokens => evaluateTokens { derefs, lookup } tokens

end Expr

end LineScript
