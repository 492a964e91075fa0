import LineScript.Action
import LineScript.Variables

/-!
# Lines

A line of a loaded program: an action, its arguments with the variable references found in them, and the links to other
lines that say where execution goes on.
-/

namespace LineScript

/-- The number of a line. -/
abbrev LineId := Nat

/-- The number of a label. -/
abbrev LabelId := Nat

/-- A piece of a variable name that is put together when it is used. -/
inductive NamePart where
  | literal (s : String)
  | var (id : VarId)
  deriving DecidableEq

/-- What a reference stands for: a known variable, or one whose name is put together from pieces. -/
inductive Target where
  | static (id : VarId)
  | dynamic (parts : List NamePart)
  deriving DecidableEq

/-- A variable reference in the text of an argument. In free text it covers the name with both percent signs, in an
expression the operand. -/
structure Deref where
  /-- The byte offset where the reference starts. -/
  start : Nat
  /-- Its length in bytes. -/
  size : Nat
  /-- What it stands for. -/
  target : Target
  deriving DecidableEq

/-- The byte offset where a reference ends. -/
def Deref.stop (d : Deref) : Nat :=
  d.start + d.size

/-- An argument of a line. -/
structure Arg where
  /-- How it is read. -/
  kind : ArgKind
  /-- Its text, without escapes. -/
  text : String
  /-- Whether the text is an expression. -/
  isExpr : Bool
  /-- The references in it, in order. -/
  derefs : List Deref
  deriving DecidableEq

namespace Arg

/-- Whether the text is the value: no expression and no references. -/
def isLiteral (arg : Arg) : Bool :=
  !arg.isExpr && arg.derefs.isEmpty

/-- The variable an argument names, unless it is a text or blank. -/
def var? (arg : Arg) : Option Target :=
  match arg.kind with
  | .text => none
  | .input | .output => arg.derefs.head?.map (·.target)

end Arg

/-- What the loader noted of a line: the kind of a loop, or the label of a literal jump. -/
inductive Note where
  | none
  | loop (kind : LoopKind)
  | label (id : LabelId)
  deriving DecidableEq

/-- A line of a loaded program. -/
structure Line where
  /-- What it does. -/
  action : Action
  /-- The number of the file it was read from. -/
  file : Nat
  /-- Its number in that file. -/
  lineNo : Nat
  /-- Its arguments. -/
  args : List Arg
  /-- What the loader noted of it. -/
  note : Note := .none
  /-- The line before it. -/
  prev : Option LineId := Option.none
  /-- The line after it. -/
  next : Option LineId := Option.none
  /-- The other end of a block, the else of an `if`, or the line after a body. -/
  related : Option LineId := Option.none
  /-- The line that encloses it: the start of a block, or the line whose body it is. -/
  parent : Option LineId := Option.none
  deriving DecidableEq

instance : Inhabited Line := ⟨{ action := .exit, file := 0, lineNo := 0, args := [] }⟩

/-- The text of an argument, empty where there is none. -/
def Line.argText (line : Line) (pos : Nat) : String :=
  ((line.args[pos]?).map (·.text)).getD ""

end LineScript
