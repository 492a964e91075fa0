import LineScript.Action
import LineScript.Name
import LineScript.Token.Lexer

/-!
# Problems found while loading

Loading stops at the first problem. A problem is a cause; its wording stands in one place, `LoadProblem.message`.
-/

namespace LineScript

/-- What controls a body of one statement. -/
inductive Owner where
  | cond
  | otherwise
  | loop
  deriving DecidableEq

/-- What a message calls the owner of a body. -/
def Owner.word : Owner → String
  | cond => "IF"
  | otherwise => "ELSE"
  | loop => "LOOP"

/-- Why a program cannot be loaded. -/
inductive LoadProblem where
  | invalidLabel (name : String)
  | duplicateLabel (name : String)
  | tooManyArgs
  | noSameLine
  | unknownAction (keyword : String)
  | sameLineNotAllowed (keyword : String)
  | unknownOperator (op : String)
  | tooFew (action : String)
  | tooMany (action : String)
  | blankOutput (action : String)
  | lexical (problem : LexError)
  | naming (problem : NameError)
  | tooManyReferences
  | emptyReference
  | openReference
  | openNameReference (name : String)
  | registryMode
  | fileMode
  | recurseFlag
  | suspendMode
  | threadSetting
  | timerPeriod
  | missingOpen
  | missingClose
  | unexpectedClose
  | strayElse
  | outsideLoop (action : String)
  | noBody (owner : Owner)
  | unknownLabel (name : String)
  | jumpIntoBlock (action name : String)
  deriving DecidableEq

/-- The greatest number of references in one argument. -/
def maxReferences : Nat := 512

/-- The wording of a problem. -/
def LoadProblem.message : LoadProblem → String
  | invalidLabel name => "invalid label name " ++ Text.quoted name
  | duplicateLabel name => "duplicate label " ++ Text.quoted name
  | tooManyArgs => "too many parameters"
  | noSameLine => "an action on the same line is not allowed here"
  | unknownAction keyword => Text.quoted keyword ++ " is not a recognized action"
  | sameLineNotAllowed keyword => Text.quoted keyword ++ " cannot have an action on the same line"
  | unknownOperator op => "unrecognized if operator " ++ Text.quoted op
  | tooFew action => action ++ ": too few parameters"
  | tooMany action => action ++ ": too many parameters"
  | blankOutput action => action ++ ": output variable is blank"
  | lexical problem => problem.message
  | naming problem => problem.message
  | tooManyReferences => "too many variable references in one parameter (max " ++ toString maxReferences ++ ")"
  | emptyReference => "empty variable reference (%%)"
  | openReference => "this parameter contains a variable name missing its ending percent sign"
  | openNameReference name => "variable name " ++ Text.quoted name ++ " is missing an ending percent sign"
  | registryMode => "Loop: invalid registry mode (must be 0, 1 or 2)"
  | fileMode => "Loop: invalid file mode (must be 0, 1 or 2)"
  | recurseFlag => "Loop: recurse must be 0 or 1"
  | suspendMode => "Suspend: parameter must be On, Off, Toggle or Permit"
  | threadSetting => "Thread: unknown sub-command"
  | timerPeriod => "SetTimer: period must be On, Off or a number"
  | missingOpen => "missing " ++ Text.quoted "\x7b"
  | missingClose => "missing " ++ Text.quoted "\x7d"
  | unexpectedClose => "unexpected " ++ Text.quoted "\x7d"
  | strayElse => "ELSE with no matching IF"
  | outsideLoop action => action ++ " must be enclosed by a Loop"
  | noBody owner => owner.word ++ " has no action below it"
  | unknownLabel name => "target label " ++ Text.quoted name ++ " does not exist"
  | jumpIntoBlock action name => "a " ++ action ++ " cannot jump into a block or loop (" ++ Text.quoted name ++ ")"

/-- A problem with the file and line where it was found. -/
structure LoadError where
  /-- The file. -/
  file : String
  /-- The line. -/
  lineNo : Nat
  /-- The problem. -/
  problem : LoadProblem
  deriving DecidableEq

/-- The message of a load error: its place, then its wording. -/
def LoadError.message (e : LoadError) : String :=
  e.file ++ ":" ++ toString e.lineNo ++ ": " ++ e.problem.message

end LineScript
