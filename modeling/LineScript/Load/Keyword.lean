import LineScript.Load.Problem
import LineScript.Statement

/-!
# Keywords

What a keyword stands for. The engine's own keywords come first, in any ASCII case; every other word must be a command.
`if` with more than one argument has its operator in second place.
-/

namespace LineScript

namespace Keyword

/-- The keywords of the engine, in lower case, apart from `if` and the two that make up several lines. -/
def actions : List (String × Action) := [
  ("=", .assign .text), (":=", .assign .expr), ("+=", .assign .add), ("-=", .assign .sub), ("*=", .assign .mul),
  ("/=", .assign .div), ("ifequal", .cond (.compare .equal)), ("ifnotequal", .cond (.compare .notEqual)),
  ("ifgreater", .cond (.compare .greater)), ("ifgreaterorequal", .cond (.compare .greaterOrEqual)),
  ("ifless", .cond (.compare .less)), ("iflessorequal", .cond (.compare .lessOrEqual)), ("else", .otherwise),
  ("\x7b", .blockBegin), ("\x7d", .blockEnd), ("loop", .loop), ("break", .breakLoop), ("continue", .continueLoop),
  ("goto", .goto), ("gosub", .gosub), ("return", .ret), ("exit", .exit), ("exitapp", .exitApp), ("sleep", .sleep),
  ("settimer", .setTimer), ("onexit", .onExit), ("suspend", .suspend), ("thread", .thread)]

/-- The operators of `if`. -/
def operators : List (String × Condition) := [
  ("=", .compare .equal), ("<>", .compare .notEqual), ("!=", .compare .notEqual), (">", .compare .greater),
  (">=", .compare .greaterOrEqual), ("<", .compare .less), ("<=", .compare .lessOrEqual), ("between", .between false),
  ("not between", .between true), ("in", .member false), ("not in", .member true), ("contains", .contains false),
  ("not contains", .contains true), ("is", .ofType false), ("is not", .ofType true)]

/-- An operator in one spelling: lower case, with single spaces between its words. -/
def operatorText (s : String) : String :=
  let words := (Text.splitBy Text.isBlank (Text.asciiLower s).toList).filter (!·.isEmpty)
  Text.joinWith " " (words.map String.ofList)

/-- A comparison with one argument compares with the empty text. -/
def withOperand (action : Action) (args : List RawArg) : List RawArg :=
  match action, args with
  | .cond (.compare _), [subject] => [subject, .plain ""]
  | _, args => args

/-- The action of an `if` and its arguments without the operator. -/
def ifAction : List RawArg → Except LoadProblem (Action × List RawArg)
  | subject :: op :: operands =>
    let op := operatorText op.text
    match operators.lookup op with
    | none => .error (.unknownOperator op)
    | some condition => .ok (.cond condition, withOperand (.cond condition) (subject :: operands))
  | args => .ok (.cond .expr, args)

/-- The action a keyword stands for, with its arguments. -/
def action (commands : CommandSet) (keyword : String) (args : List RawArg) :
    Except LoadProblem (Action × List RawArg) :=
  let word := Text.trim keyword
  let lower := Text.asciiLower word
  if lower == "if" then ifAction args
  else match actions.lookup lower with
    | some action => .ok (action, withOperand action args)
    | none =>
      match commands.find? word with
      | some id => .ok (.command id, args)
      | none => .error (.unknownAction word)

/-- The least and the greatest number of arguments of an action. -/
def argBounds (commands : CommandSet) : Action → Nat × Nat
  | .assign .text => (1, 2)
  | .assign _ => (2, 2)
  | .cond .expr => (1, 1)
  | .cond (.between _) => (3, 3)
  | .cond _ => (2, 2)
  | .otherwise | .blockBegin | .blockEnd | .breakLoop | .continueLoop | .ret => (0, 0)
  | .exit | .exitApp | .onExit | .suspend => (0, 1)
  | .loop => (0, 4)
  | .goto | .gosub | .sleep => (1, 1)
  | .setTimer | .thread => (1, 3)
  | .command id => ((commands.get id).minArgs, (commands.get id).maxArgs)

end Keyword

end LineScript
