import LineScript.Files.Error
import LineScript.Line
import LineScript.Token.Lexer

/-!
# Problems while running

What can go wrong with a line, with its wording. A problem ends the current thread and nothing else.
-/

namespace LineScript

/-- What is wrong with an expression. -/
inductive ExprProblem where
  | lexical (problem : LexError)
  | missingOperand
  | unexpected (token : String)
  | missing (token : String)
  | invalidNumber (text : String)
  | unknownOperand (text : String)
  | argCount (name : String) (least most given : Nat)
  deriving DecidableEq

/-- The wording of a problem with an expression. -/
def ExprProblem.message : ExprProblem → String
  | lexical problem => problem.message
  | missingOperand => "missing operand"
  | unexpected token => "unexpected " ++ Text.quoted token
  | missing token => "missing " ++ Text.quoted token
  | invalidNumber text => "invalid number " ++ Text.quoted text
  | unknownOperand text => "unknown operand " ++ Text.quoted text
  | argCount name least most given =>
    name ++ "() takes " ++ toString least ++ " to " ++ toString most ++ " parameters, got " ++ toString given

/-- What is wrong with an argument whose contents are only known when the line runs. -/
inductive BadParameter where
  | unknownType (name : String)
  | blankOutput
  | timerPeriod (text : String)
  | suspendMode (text : String)
  | threadSetting (text : String)
  | fileMode (text : String)
  | registryMode (text : String)
  | registryRoot (text : String)
  | filePattern (pattern : String) (limit : Nat)
  deriving DecidableEq

/-- The wording of a problem with an argument. -/
def BadParameter.message : BadParameter → String
  | unknownType name => "unknown type " ++ Text.quoted name
  | blankOutput => "blank output variable"
  | timerPeriod text => "SetTimer: invalid period " ++ Text.quoted text
  | suspendMode text => "Suspend: invalid mode " ++ Text.quoted text
  | threadSetting text => "Thread: unknown sub-command " ++ Text.quoted text
  | fileMode text => "invalid file-loop mode " ++ Text.quoted text ++ " (must be 0, 1 or 2)"
  | registryMode text => "invalid registry-loop mode " ++ Text.quoted text ++ " (must be 0, 1 or 2)"
  | registryRoot text => "invalid registry root " ++ Text.quoted text
  | filePattern pattern limit =>
    "invalid file pattern " ++ Text.quoted pattern ++ ": Compiled regex exceeds size limit of " ++ toString limit ++
      " bytes."

/-- Which loop could not read on. -/
inductive LoopFailure where
  | folder (path : String) (error : FileError)
  | read (error : FileError)
  deriving DecidableEq

/-- The wording of a loop's failure. -/
def LoopFailure.message : LoopFailure → String
  | folder path error => "file loop: " ++ path ++ ": " ++ error.message
  | read error => "read loop: " ++ error.message

/-- What went wrong with a line. -/
inductive Problem where
  | divideByZero
  | outOfMemory (needed limit : Nat)
  | unknownLabel (name : String)
  | invalidJump (name : String)
  | naming (problem : NameError)
  | unknownFunction (name : String)
  | expression (problem : ExprProblem)
  | badParameter (problem : BadParameter)
  | commandFailed (command message : String)
  | tooDeep (limit : Nat)
  | io (failure : LoopFailure)
  deriving DecidableEq

/-- The wording of a problem. -/
def Problem.message : Problem → String
  | divideByZero => "This line would attempt to divide by zero."
  | outOfMemory needed limit =>
    "out of memory: expanding this line needs " ++ toString needed ++ " bytes (limit " ++ toString limit ++ ")"
  | unknownLabel name => "target label " ++ Text.quoted name ++ " does not exist"
  | invalidJump name => "a Goto/Gosub cannot jump into a block or loop (" ++ Text.quoted name ++ ")"
  | naming problem => problem.message
  | unknownFunction name => "call to nonexistent function " ++ Text.quoted name
  | expression problem => "expression error: " ++ problem.message
  | badParameter problem => problem.message
  | commandFailed command message => command ++ " failed: " ++ message
  | tooDeep limit => "nesting exceeds " ++ toString limit ++ " levels"
  | io failure => "i/o error: " ++ failure.message

/-- A problem with the line that raised it. -/
structure RuntimeError where
  /-- What went wrong. -/
  problem : Problem
  /-- The file and line number. -/
  place : String
  /-- The line. -/
  line : LineId
  deriving DecidableEq

/-- The wording of a runtime error. -/
def RuntimeError.message (e : RuntimeError) : String :=
  e.place ++ ": " ++ e.problem.message ++ " The current thread will exit."

end LineScript
