import LineScript.Expr.Evaluate

/-!
# Expressions as trees

Terms are what expressions mean before anything is said about text: literals, variables, operators and calls. `Term.value`
computes them from the leaves up. `Term.pieces` writes them down: operands that bind more loosely than their place allows are put
into parentheses, and a `Style` chooses spellings and blanks.
-/

namespace LineScript

namespace Expr

/-! ## Words -/

/-- Whether a character can stand in a word: it neither ends words nor is refused in them. -/
def isPlain (c : Char) : Bool :=
  !Token.isTerminator c && !Token.isIllegal c

/-- Characters that stand together as one word of an expression. -/
structure Word where
  /-- The characters. -/
  chars : List Char
  nonempty : chars ≠ [] := by decide
  plain : chars.all isPlain = true := by decide

/-- Whether characters start like a number: with a digit, or with a point and a digit. -/
def startsNumber : List Char → Bool
  | '.' :: c :: _ => c.isDigit
  | c :: _ => c.isDigit
  | [] => false

/-- A word that starts like a number. Not every one of them is a number. -/
structure Numeral extends Word where
  starts : startsNumber chars = true := by decide

/-- The operators that are spelled as words. -/
def operatorWords : List (List Char × Op) := [(['a', 'n', 'd'], .and), (['o', 'r'], .or), (['n', 'o', 't'], .not)]

/-- The operator that a word spells, whatever its case. -/
def operatorWord? (chars : List Char) : Option Op :=
  operatorWords.lookup (chars.map Char.toLower)

/-- Whether characters start like a name: with neither a digit nor a point. -/
def startsName : List Char → Bool
  | c :: _ => !c.isDigit && c != '.'
  | [] => false

/-- A word that names something. -/
structure Identifier extends Word where
  starts : startsName chars = true := by decide
  notOperator : operatorWord? chars = none := by decide

/-- The name of a function, which is always spelled out. -/
structure FunctionName extends Identifier where
  direct : '%' ∉ chars := by decide

/-! ## Terms and their values -/

/-- The operators that stand before one operand and bind more tightly than all between two. -/
inductive Sign where
  | minus
  | plus
  | not
  | complement
  deriving DecidableEq

/-- The operator of a sign. -/
def Sign.op : Sign → Op
  | minus => .sub
  | plus => .add
  | not => .not
  | complement => .bitNot

/-- The character a sign is written with. -/
def Sign.char : Sign → Char
  | minus => '-'
  | plus => '+'
  | not => '!'
  | complement => '~'

/-- What a sign makes of a value. -/
def Sign.apply : Sign → Value → Value
  | minus, v => Arith.negate v
  | plus, v => v
  | not, v => .ofBool !v.isTrue
  | complement, v => Arith.complement v

/-- An operator between two operands, with its binding power. -/
structure BinaryOp where
  /-- The operator. -/
  op : Op
  /-- How tightly it binds. -/
  level : Nat
  binds : level? op = some level := by decide

/-- An expression as a tree. -/
inductive Term where
  | number (numeral : Numeral)
  | text (s : String)
  | var (name : Identifier)
  | signed (sign : Sign) (operand : Term)
  /-- The word `not`, which binds more loosely than a sign. -/
  | negation (operand : Term)
  | binary (op : BinaryOp) (left right : Term)
  | power (base exponent : Term)
  | call (name : FunctionName) (args : List Term)

/-- What the variables of a term hold, by name. -/
abbrev Environment := List Char → Except Problem Value

/-- The value of a number. -/
def Numeral.value (numeral : Numeral) : Except Problem Value :=
  match Number.ofText? (.ofList numeral.chars) with
  | some n => .ok n.toValue
  | none => .error (.expression (.invalidNumber (.ofList numeral.chars)))

/-- A binary operator between the value of its left operand and its right operand. Where the left one decides, the right one is
computed quietly and only its problems matter. -/
def combine (op : Op) (quiet : Bool) (left : Value) (right : Bool → Except Problem Value) : Except Problem Value :=
  match op with
  | .and =>
    if left.isTrue then (right quiet).map fun v => .ofBool v.isTrue
    else (right true).map fun _ => .ofBool false
  | .or =>
    if left.isTrue then (right true).map fun _ => .ofBool true
    else (right quiet).map fun v => .ofBool v.isTrue
  | op => (right quiet).bind fun v => quietly quiet (Arith.apply op left v)

mutual

/-- The value of a term, or its first problem from left to right. Quietly, division by zero gives the empty value. -/
def Term.value (env : Environment) : Term → (quiet : Bool) → Except Problem Value
  | .number numeral, _ => numeral.value
  | .text s, _ => .ok (.text s)
  | .var name, _ => env name.chars
  | .signed sign operand, quiet => (operand.value env quiet).map sign.apply
  | .negation operand, quiet => (operand.value env quiet).map fun v => .ofBool !v.isTrue
  | .binary op left right, quiet => (left.value env quiet).bind fun v => combine op.op quiet v (right.value env)
  | .power base exponent, quiet =>
    (base.value env quiet).bind fun b => (exponent.value env quiet).map fun e => Arith.power b e
  | .call name args, quiet =>
    (Term.values env args quiet).bind fun vs => quietly quiet (Function.call (.ofList name.chars) vs)

/-- The values of the arguments of a call. -/
def Term.values (env : Environment) : List Term → (quiet : Bool) → Except Problem (List Value)
  | [], _ => .ok []
  | arg :: args, quiet => (arg.value env quiet).bind fun v => (Term.values env args quiet).map (v :: ·)

end

mutual

/-- The names of the variables of a term, from left to right. -/
def Term.names : Term → List (List Char)
  | .number _ | .text _ => []
  | .var name => [name.chars]
  | .signed _ operand | .negation operand => operand.names
  | .binary _ left right | .power left right => left.names ++ right.names
  | .call _ args => Term.argumentNames args

/-- The names of the variables of the arguments of a call. -/
def Term.argumentNames : List Term → List (List Char)
  | [] => []
  | arg :: args => arg.names ++ Term.argumentNames args

end

/-! ## How tightly terms bind -/

/-- The level of terms with signs and of powers. -/
def unaryLevel : Nat := 13

/-- The level of terms that need no parentheses anywhere. -/
def primaryLevel : Nat := 14

/-- How tightly a term binds. -/
def Term.level : Term → Nat
  | .number _ | .text _ | .var _ | .call .. => primaryLevel
  | .signed .. | .power .. => unaryLevel
  | .negation _ => notLevel
  | .binary op .. => op.level

/-! ## Writing terms -/

/-- Spaces and tabs. -/
structure Blanks where
  /-- The characters. -/
  chars : List Char
  blank : chars.all Text.isSpaceOrTab = true := by decide

/-- A piece of a written expression: blanks, or what the scanner makes one token of. -/
inductive Piece where
  | gap (blanks : Blanks)
  | lexeme (kind : TokenKind) (chars : List Char)

/-- The symbols of a binary operator. -/
def symbols : Op → List (List Char)
  | .or => [['|', '|']]
  | .and => [['&', '&']]
  | .eq => [['=']]
  | .strictEq => [['=', '=']]
  | .ne => [['!', '='], ['<', '>']]
  | .lt => [['<']]
  | .le => [['<', '=']]
  | .gt => [['>']]
  | .ge => [['>', '=']]
  | .bitOr => [['|']]
  | .bitXor => [['^']]
  | .bitAnd => [['&']]
  | .shl => [['<', '<']]
  | .shr => [['>', '>']]
  | .add => [['+']]
  | .sub => [['-']]
  | .mul => [['*']]
  | .div => [['/']]
  | .floorDiv => [['/', '/']]
  | .concat | .pow | .not | .bitNot => []

/-- The spellings of a binary operator that need blanks on both sides: words, and the point. -/
def StandsApart (op : Op) (chars : List Char) : Prop :=
  operatorWord? chars = some op ∨ op = .concat ∧ chars = ['.']

/-- How an operator is written between its operands. -/
structure Spelling (op : Op) where
  /-- The blanks before it. -/
  before : Blanks
  /-- Its characters. -/
  chars : List Char
  /-- The blanks after it. -/
  after : Blanks
  spelled : chars ∈ symbols op ∨ StandsApart op chars ∧ before.chars ≠ [] ∧ after.chars ≠ []

/-- Where blanks may stand apart from operators. -/
inductive Place where
  | beforePower
  | afterPower
  | afterSign
  | afterOpening
  | beforeClosing
  | beforeComma
  | afterComma

/-- The choices a writer of expressions has. -/
structure Style where
  /-- How binary operators are written. -/
  spelling : (op : BinaryOp) → Spelling op.op
  /-- How the word `not` is written. -/
  notWord : List Char
  /-- The blanks after that word. -/
  afterNot : Blanks
  /-- The blanks in other places. -/
  blanks : Place → Blanks
  notWord_spelled : operatorWord? notWord = some .not := by decide
  afterNot_nonempty : afterNot.chars ≠ [] := by decide

/-- The characters of a text with every quote doubled. -/
def doubled : List Char → List Char
  | [] => []
  | c :: cs => if c = '"' then '"' :: '"' :: doubled cs else c :: doubled cs

/-- A text in quotes, with quotes in it doubled. -/
def quote (cs : List Char) : List Char :=
  '"' :: (doubled cs ++ ['"'])

namespace Style

variable (style : Style)

/-- Blanks in a place. -/
def gap (place : Place) : Piece :=
  .gap (style.blanks place)

/-- A binary operator with its blanks. -/
def operator (op : BinaryOp) : List Piece :=
  [.gap (style.spelling op).before, .lexeme (.op op.op) (style.spelling op).chars, .gap (style.spelling op).after]

/-- A comma with its blanks. -/
def comma : List Piece :=
  [style.gap .beforeComma, .lexeme .comma [','], style.gap .afterComma]

/-- Pieces in parentheses. -/
def parenthesized (pieces : List Piece) : List Piece :=
  .lexeme .leftParen ['('] :: style.gap .afterOpening :: (pieces ++ [style.gap .beforeClosing, .lexeme .rightParen [')']])

/-- An operand in a place that asks for a level: in parentheses if it binds too loosely. -/
def operand (least level : Nat) (pieces : List Piece) : List Piece :=
  if level < least then style.parenthesized pieces else pieces

end Style

mutual

/-- The pieces of a term. -/
def Term.pieces (style : Style) : Term → List Piece
  | .number numeral => [.lexeme .number numeral.chars]
  | .text s => [.lexeme .str (quote s.toList)]
  | .var name => [.lexeme .operand name.chars]
  | .signed sign operand =>
    .lexeme (.op sign.op) [sign.char] :: style.gap .afterSign ::
      style.operand unaryLevel operand.level (operand.pieces style)
  | .negation operand =>
    .lexeme (.op .not) style.notWord :: .gap style.afterNot ::
      style.operand notLevel operand.level (operand.pieces style)
  | .binary op left right =>
    style.operand op.level left.level (left.pieces style) ++
      (style.operator op ++ style.operand (op.level + 1) right.level (right.pieces style))
  | .power base exponent =>
    style.operand primaryLevel base.level (base.pieces style) ++
      (style.gap .beforePower :: .lexeme (.op .pow) ['*', '*'] :: style.gap .afterPower ::
        style.operand unaryLevel exponent.level (exponent.pieces style))
  | .call name args => .lexeme .function name.chars :: style.parenthesized (Term.argumentPieces style args)

/-- The pieces of the arguments of a call. -/
def Term.argumentPieces (style : Style) : List Term → List Piece
  | [] => []
  | arg :: args =>
    arg.pieces style ++ if args.isEmpty then [] else style.comma ++ Term.argumentPieces style args

end

/-- The characters of a piece. -/
def Piece.chars : Piece → List Char
  | .gap blanks => blanks.chars
  | .lexeme _ chars => chars

/-- The text of some pieces. -/
def written (pieces : List Piece) : List Char :=
  pieces.flatMap Piece.chars

/-- A term as text. -/
def Term.print (style : Style) (term : Term) : String :=
  .ofList (written (term.pieces style))

end Expr

end LineScript
