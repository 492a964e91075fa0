import LineScript.Text.Basic

/-!
# Tokens of expressions

An expression is a sequence of numbers, quoted texts, operands, function names, operators, parentheses and commas. A
token carries its own characters and the byte offset where they start.
-/

namespace LineScript

/-- The operators. -/
inductive Op where
  | add
  | sub
  | mul
  | div
  | floorDiv
  | pow
  | concat
  | bitAnd
  | bitOr
  | bitXor
  | bitNot
  | not
  | and
  | or
  | shl
  | shr
  | eq
  | strictEq
  | ne
  | lt
  | le
  | gt
  | ge
  deriving DecidableEq

/-- The kinds of token. A function is a word directly before a parenthesis; the characters of a quoted text include its
quotes. -/
inductive TokenKind where
  | number
  | str
  | operand
  | function
  | op (op : Op)
  | leftParen
  | rightParen
  | comma
  deriving DecidableEq

/-- A token: its kind, the byte offset of its first character, and its characters. -/
structure Token where
  /-- What it is. -/
  kind : TokenKind
  /-- The byte offset of its first character. -/
  start : Nat
  /-- Its characters. -/
  chars : List Char
  deriving DecidableEq

/-- The text of a token. -/
def Token.text (t : Token) : String :=
  .ofList t.chars

/-- The length of a token, in bytes. -/
def Token.size (t : Token) : Nat :=
  Text.byteSize t.chars

end LineScript
