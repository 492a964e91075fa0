import LineScript.Command

/-!
# Actions

What a line of a program does. Assignments, conditions and loops come in several kinds; every other action has one form.
-/

namespace LineScript

/-- The kinds of assignment: of a text, of an expression, and by arithmetic with what the variable holds. -/
inductive AssignOp where
  | text
  | expr
  | add
  | sub
  | mul
  | div
  deriving DecidableEq

/-- The comparisons of a condition. -/
inductive Comparison where
  | equal
  | notEqual
  | greater
  | greaterOrEqual
  | less
  | lessOrEqual
  deriving DecidableEq

/-- Whether an order satisfies a comparison. -/
def Comparison.holds : Comparison → Ordering → Bool
  | equal, o => o.isEq
  | notEqual, o => !o.isEq
  | greater, o => o.isGT
  | greaterOrEqual, o => o.isGE
  | less, o => o.isLT
  | lessOrEqual, o => o.isLE

/-- The conditions an `if` may test. -/
inductive Condition where
  | expr
  | compare (op : Comparison)
  | between (negate : Bool)
  | member (negate : Bool)
  | contains (negate : Bool)
  | ofType (negate : Bool)
  deriving DecidableEq

/-- What a line does. -/
inductive Action where
  | assign (op : AssignOp)
  | cond (condition : Condition)
  | otherwise
  | blockBegin
  | blockEnd
  | loop
  | breakLoop
  | continueLoop
  | goto
  | gosub
  | ret
  | exit
  | exitApp
  | sleep
  | setTimer
  | onExit
  | suspend
  | thread
  | command (id : CommandId)
  deriving DecidableEq

namespace Action

/-- The name of an action, as messages and listings show it. -/
def name : Action → String
  | assign .text => "="
  | assign .expr => ":="
  | assign .add => "+="
  | assign .sub => "-="
  | assign .mul => "*="
  | assign .div => "/="
  | cond _ => "If"
  | otherwise => "Else"
  | blockBegin => "\x7b"
  | blockEnd => "\x7d"
  | loop => "Loop"
  | breakLoop => "Break"
  | continueLoop => "Continue"
  | goto => "Goto"
  | gosub => "Gosub"
  | ret => "Return"
  | exit => "Exit"
  | exitApp => "ExitApp"
  | sleep => "Sleep"
  | setTimer => "SetTimer"
  | onExit => "OnExit"
  | suspend => "Suspend"
  | thread => "Thread"
  | command _ => "command"

/-- The actions whose first argument is a label. -/
def takesLabel : Action → Bool
  | goto | gosub | setTimer | onExit => true
  | _ => false

end Action

/-- The kinds of loop. `unknown` is decided when the loop starts. -/
inductive LoopKind where
  | unknown
  | count
  | file
  | registry
  | parse
  | read
  deriving DecidableEq

end LineScript
