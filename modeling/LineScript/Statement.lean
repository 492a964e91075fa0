import LineScript.Text.Basic

/-!
# Statements

What a program is loaded from: labels, and statements made of a keyword and its arguments, with more statements
possibly following on the same line. In an argument a backtick takes the meaning out of the character after it: a
percent sign after a backtick starts no variable reference.
-/

namespace LineScript

/-- An argument as written: its text and the byte offsets of the characters taken literally. -/
structure RawArg where
  /-- The text, without escapes. -/
  text : String
  /-- The byte offsets of escaped characters. -/
  literal : List Nat := []
  deriving DecidableEq

namespace RawArg

/-- Decodes the remaining characters, with the text so far in reverse, its size in bytes and the literal offsets in
reverse before them. -/
def decodeOnto : (text : List Char) → (size : Nat) → (literal : List Nat) → List Char → RawArg
  | text, _, literal, [] => ⟨.ofList text.reverse, literal.reverse⟩
  | text, _, literal, ['\x60'] => ⟨.ofList ('\x60' :: text).reverse, literal.reverse⟩
  | text, size, literal, '\x60' :: c :: rest =>
    if c == 'n' then decodeOnto ('\n' :: text) (size + 1) literal rest
    else if c == 'r' then decodeOnto ('\r' :: text) (size + 1) literal rest
    else if c == 't' then decodeOnto ('\t' :: text) (size + 1) literal rest
    else decodeOnto (c :: text) (size + c.utf8Size) (size :: literal) rest
  | text, size, literal, c :: rest => decodeOnto (c :: text) (size + c.utf8Size) literal rest

/-- Decodes backticks: before `n`, `r` and `t` they make a line feed, a carriage return and a tab, before any other
character they make it literal, and at the end they stand for themselves. -/
def ofEscaped (s : String) : RawArg :=
  decodeOnto [] 0 [] s.toList

/-- An argument that is its own text. -/
def plain (s : String) : RawArg :=
  { text := s }

/-- Whether the character at a byte offset is taken literally. -/
def isLiteralAt (arg : RawArg) (offset : Nat) : Bool :=
  arg.literal.contains offset

end RawArg

/-- A statement as written: a keyword, its arguments and the number of its line. -/
structure Statement where
  /-- The keyword. -/
  keyword : String
  /-- The arguments. -/
  args : List RawArg := []
  /-- The number of its line. -/
  lineNo : Nat
  deriving DecidableEq

/-- One entry of a program as written: a label, a statement with those that follow it on the same line, or the start of
another file. -/
inductive Item where
  | label (name : String) (lineNo : Nat)
  | statement (first : Statement) (sameLine : List Statement)
  | file (name : String)
  deriving DecidableEq

end LineScript
