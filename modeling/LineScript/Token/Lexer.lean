import LineScript.Token.Basic

/-!
# Reading tokens

`Token.scan` splits the text of an expression into tokens, or names the first problem: a quote that is never closed, or
a character that may not stand outside quotes. Loader and evaluator both read expressions with it, so they agree on
where every operand starts.
-/

namespace LineScript

/-- Why a text is no sequence of tokens. -/
inductive LexError where
  | missingQuote
  | illegal (c : Char)
  deriving DecidableEq

/-- The message of a problem with tokens. -/
def LexError.message : LexError → String
  | missingQuote => "missing close-quote"
  | illegal c => "illegal character '" ++ c.toString ++ "' in expression"

namespace Token

/-- A character that ends a word. -/
def isTerminator (c : Char) : Bool :=
  ['\t', ' ', '+', '-', '<', '>', '=', '*', '/', '&', '|', '^', '~', '!', '(', ')', ',', '"'].contains c

/-- A character that may not stand in a word. -/
def isIllegal (c : Char) : Bool :=
  ['\x27', '\\', ':', ';', '\x60', '\x7b', '\x7d'].contains c

/-- Reads the rest of a quoted text, with `taken` in reverse before it. A doubled quote stands for itself; the text must
end with a quote of its own. -/
def quotedOnto : (taken : List Char) → List Char → Option (List Char × List Char)
  | _, [] => none
  | taken, '"' :: '"' :: rest => quotedOnto ('"' :: '"' :: taken) rest
  | taken, '"' :: rest => some (('"' :: taken).reverse, rest)
  | taken, c :: rest => quotedOnto (c :: taken) rest

/-- The operator or bracket a text starts with, with the number of its characters. A point is an operator unless a
digit follows it. -/
def symbol? : List Char → Option (TokenKind × Nat)
  | '(' :: _ => some (.leftParen, 1)
  | ')' :: _ => some (.rightParen, 1)
  | ',' :: _ => some (.comma, 1)
  | '*' :: '*' :: _ => some (.op .pow, 2)
  | '*' :: _ => some (.op .mul, 1)
  | '/' :: '/' :: _ => some (.op .floorDiv, 2)
  | '/' :: _ => some (.op .div, 1)
  | '+' :: _ => some (.op .add, 1)
  | '-' :: _ => some (.op .sub, 1)
  | '&' :: '&' :: _ => some (.op .and, 2)
  | '&' :: _ => some (.op .bitAnd, 1)
  | '|' :: '|' :: _ => some (.op .or, 2)
  | '|' :: _ => some (.op .bitOr, 1)
  | '^' :: _ => some (.op .bitXor, 1)
  | '~' :: _ => some (.op .bitNot, 1)
  | '!' :: '=' :: _ => some (.op .ne, 2)
  | '!' :: _ => some (.op .not, 1)
  | '<' :: '>' :: _ => some (.op .ne, 2)
  | '<' :: '<' :: _ => some (.op .shl, 2)
  | '<' :: '=' :: _ => some (.op .le, 2)
  | '<' :: _ => some (.op .lt, 1)
  | '>' :: '>' :: _ => some (.op .shr, 2)
  | '>' :: '=' :: _ => some (.op .ge, 2)
  | '>' :: _ => some (.op .gt, 1)
  | '=' :: '=' :: _ => some (.op .strictEq, 2)
  | '=' :: _ => some (.op .eq, 1)
  | '.' :: c :: _ => if c.isDigit then none else some (.op .concat, 1)
  | ['.'] => some (.op .concat, 1)
  | _ => none

/-- What a word is: a number if it starts like one, an operator if it is spelled like one, a function if it holds no
percent sign and a parenthesis follows, and an operand otherwise. -/
def wordKind (word after : List Char) : TokenKind :=
  let startsNumber := match word with
    | c :: _ => c.isDigit || c == '.'
    | [] => false
  let lower := word.map Char.toLower
  if startsNumber then .number
  else if lower == ['a', 'n', 'd'] then .op .and
  else if lower == ['o', 'r'] then .op .or
  else if lower == ['n', 'o', 't'] then .op .not
  else if !word.contains '%' && after.head? == some '(' then .function
  else .operand

/-- The token at the head of a text that starts with neither a space nor a tab, and the text after it. -/
def next (start : Nat) (cs : List Char) : Except LexError (Token × List Char) :=
  match cs with
  | '"' :: rest =>
    match quotedOnto ['"'] rest with
    | none => .error .missingQuote
    | some (chars, rest) => .ok (⟨.str, start, chars⟩, rest)
  | _ =>
    match symbol? cs with
    | some (kind, n) => .ok (⟨kind, start, cs.take n⟩, cs.drop n)
    | none =>
      let word := cs.takeWhile (!isTerminator ·)
      let rest := cs.dropWhile (!isTerminator ·)
      match word.find? isIllegal with
      | some c => .error (.illegal c)
      | none => .ok (⟨wordKind word rest, start, word⟩, rest)

/-- Reads tokens from byte offset `start` on, with `done` in reverse before them. Every token takes at least one
character, so the length of the text bounds the number of rounds. -/
def scanOnto : (fuel : Nat) → (done : List Token) → (start : Nat) → List Char → Except LexError (List Token)
  | 0, done, _, _ => .ok done.reverse
  | _ + 1, done, _, [] => .ok done.reverse
  | fuel + 1, done, start, c :: cs =>
    if Text.isSpaceOrTab c then scanOnto fuel done (start + 1) cs
    else match next start (c :: cs) with
      | .error e => .error e
      | .ok (token, rest) => scanOnto fuel (token :: done) (start + token.size) rest

/-- The tokens of a list of characters. -/
def scanChars (cs : List Char) : Except LexError (List Token) :=
  scanOnto (cs.length + 1) [] 0 cs

/-- The tokens of a text. -/
def scan (s : String) : Except LexError (List Token) :=
  scanChars s.toList

end Token

end LineScript
