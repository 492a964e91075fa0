import LineScript.Expr.Evaluate
import LineScript.Scratch

/-!
# Expanding arguments

Before a line runs, the references in all its arguments are replaced by what the variables hold. The values are looked
up first and their sizes added up, then room for all of them is reserved at once, and only then the texts are written.
A variable named for the first time gets its slot even if the line then fails.
-/

namespace LineScript

/-- An argument after expansion. -/
inductive Expanded where
  | text (s : String)
  | expr (value : Value)
  | input (var : VarId) (s : String)
  | output (var : Option VarId)

namespace Expanded

/-- The text of an expanded argument. What is stored into has none. -/
def toText : Expanded → String
  | text s => s
  | expr value => value.toText
  | input _ s => s
  | output _ => ""

end Expanded

/-- The arguments of a line after expansion. -/
abbrev ExpandedArgs := List Expanded

namespace ExpandedArgs

/-- The text of the argument at a position, empty where there is none. -/
def text (args : ExpandedArgs) (i : Nat) : String :=
  ((args[i]?).map Expanded.toText).getD ""

/-- The texts of all arguments. -/
def texts (args : ExpandedArgs) : List String :=
  args.map Expanded.toText

/-- The variable the argument at a position stores into. -/
def output? (args : ExpandedArgs) (i : Nat) : Option VarId :=
  match args[i]? with
  | some (.output var) => var
  | _ => none

/-- The value of the expression at a position. -/
def value? (args : ExpandedArgs) (i : Nat) : Option Value :=
  match args[i]? with
  | some (.expr value) => some value
  | _ => none

end ExpandedArgs

namespace Expansion

/-- What the engine variables hold at the moment. -/
abbrev View := Builtin → Value

/-- What a slot holds, engine variables included. -/
def read (view : View) (vars : Variables) (id : VarId) : Value :=
  match vars.builtin? id with
  | some b => view b
  | none => vars.get id

/-- The text of a part of a name. -/
def partText (view : View) (vars : Variables) : NamePart → String
  | .literal s => s
  | .var id => (read view vars id).toText

/-- The name that parts make up, if it is one. -/
def dynamicName (view : View) (vars : Variables) (parts : List NamePart) : Except NameError String :=
  let name := parts.foldl (fun name part => name ++ partText view vars part) ""
  (Name.validate name).map fun _ => name

/-- What a reference stands for now. A name put together that no variable has reads as empty. -/
def operand (view : View) (vars : Variables) : Target → Except Problem Value
  | .static id => .ok (read view vars id)
  | .dynamic parts =>
    match dynamicName view vars parts with
    | .error e => .error (.naming e)
    | .ok name =>
      match Builtin.ofName? name with
      | some b => .ok (view b)
      | none => .ok (((vars.find? name).map (read view vars)).getD .empty)

/-- The slot a reference stands for, made if its name is put together and new. -/
def slot (view : View) (vars : Variables) : Target → Except Problem (Variables × VarId)
  | .static id => .ok (vars, id)
  | .dynamic parts =>
    match dynamicName view vars parts with
    | .error e => .error (.naming e)
    | .ok name =>
      match vars.resolve name with
      | .error e => .error (.naming e)
      | .ok r => .ok r

/-- An argument with its values looked up. -/
inductive Planned where
  | text (values : List Value)
  | expr (value : Value)
  | input (var : VarId) (value : Value)
  | output (var : Option VarId)

/-- Looks up the references of a free text, in order. -/
def operands (view : View) (vars : Variables) : List Deref → Except Problem (List Value)
  | [] => .ok []
  | d :: rest =>
    match operand view vars d.target with
    | .error e => .error e
    | .ok v => (operands view vars rest).map (v :: ·)

/-- Looks up the values of one argument. -/
def plan (view : View) (vars : Variables) (arg : Arg) : Except Problem (Variables × Planned) :=
  match arg.kind with
  | .output =>
    match arg.var? with
    | none => .ok (vars, .output none)
    | some target =>
      match slot view vars target with
      | .error e => .error e
      | .ok (vars, id) => .ok (vars, .output (some id))
  | .input =>
    match arg.var? with
    | none => .ok (vars, .text [])
    | some target =>
      match slot view vars target with
      | .error e => .error e
      | .ok (vars, id) => .ok (vars, .input id (read view vars id))
  | .text =>
    if arg.isExpr then (Expr.evaluate arg.text arg.derefs (operand view vars)).map fun v => (vars, .expr v)
    else (operands view vars arg.derefs).map fun vs => (vars, .text vs)

/-- Looks up the values of all arguments. The slots made stay, also before a problem. -/
def planAll (view : View) : (vars : Variables) → List Arg → Variables × Except Problem (List (Arg × Planned))
  | vars, [] => (vars, .ok [])
  | vars, arg :: rest =>
    match plan view vars arg with
    | .error e => (vars, .error e)
    | .ok (vars, p) =>
      match planAll view vars rest with
      | (vars, .error e) => (vars, .error e)
      | (vars, .ok ps) => (vars, .ok ((arg, p) :: ps))

/-- The bytes needed so far and those of one more argument: a reference gives way to its value. Only free text has bytes of
its own; an argument that names no variable needs none. -/
def addSize (needed : Nat) : Arg × Planned → Nat
  | (_, .output _) => needed
  | (_, .input _ v) => needed + v.size
  | (_, .expr v) => needed + v.size
  | (arg, .text values) =>
    match arg.kind with
    | .text => (arg.derefs.zip values).foldl (fun n (d, v) => n + v.size - d.size) (needed + arg.text.utf8ByteSize)
    | .input | .output => needed

/-- The bytes all arguments need. -/
def totalSize (planned : List (Arg × Planned)) : Nat :=
  planned.foldl addSize 0

/-- A text from byte offset `start` on, with its references replaced by values. -/
def fill : (start : Nat) → List Char → List (Deref × Value) → String
  | _, cs, [] => .ofList cs
  | start, cs, (d, v) :: rest =>
    let (lead, cs) := (Text.cut? cs (d.start - start)).getD (cs, [])
    let (_, cs) := (Text.cut? cs d.size).getD ([], [])
    .ofList lead ++ v.toText ++ fill d.stop cs rest

/-- One argument with its references replaced. -/
def write : Arg × Planned → Expanded
  | (_, .output var) => .output var
  | (_, .input var v) => .input var v.toText
  | (_, .expr v) => .expr v
  | (arg, .text values) => .text (fill 0 arg.text.toList (arg.derefs.zip values))

/-- Holds the texts of the arguments in the buffer, in order. -/
def hold (scratch : Scratch) (args : ExpandedArgs) : Scratch :=
  args.foldl (fun scratch arg =>
    match arg with
    | .output _ => scratch
    | arg => scratch.push arg.toText) scratch

/-- Expands the arguments of a line. -/
def expand (view : View) (vars : Variables) (scratch : Scratch) (line : Line) :
    Variables × Except Problem (Scratch × ExpandedArgs) :=
  match planAll view vars line.args with
  | (vars, .error e) => (vars, .error e)
  | (vars, .ok planned) =>
    match scratch.reserve (totalSize planned) with
    | .error e => (vars, .error e)
    | .ok scratch =>
      let args := planned.map write
      (vars, .ok (hold scratch args, args))

end Expansion

end LineScript
