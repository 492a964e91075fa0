import LineScript.Expansion
import LineScript.Loop.Context
import LineScript.Trigger

/-!
# Calls of commands

The seam between the engine and the commands it does not know. A command is called with its expanded arguments and what
it may look at; it answers with a status and a list of deeds, which the engine then does. So a command changes nothing
but through its deeds, and those keep the numbers of slots and the order of the queue.
-/

namespace LineScript

/-- How a command ended. A failure ends the current thread; the answers yes and no are those of conditions. -/
inductive Status where
  | ok
  | fail (message : String)
  | yes
  | no
  deriving DecidableEq

/-- Something a command does. -/
inductive Deed where
  /-- Prints a line. -/
  | print (text : String)
  /-- Appends a line to a file. -/
  | append (path text : String)
  /-- Gives a name a slot. -/
  | declare (name : String)
  /-- Stores a value. -/
  | store (var : VarId) (value : Value)
  /-- Queues a trigger. -/
  | send (trigger : Trigger)
  /-- Lets time pass. -/
  | wait (ms : Nat)

/-- What a command sees when it is called. -/
structure Call where
  /-- Its description. -/
  spec : CommandSpec
  /-- Its arguments. -/
  args : ExpandedArgs
  /-- How the previous command of the thread ended. -/
  lastResult : Option Status
  /-- The loops around it, innermost first. -/
  loops : List LoopContext
  /-- The variables. -/
  vars : Variables
  /-- The slot of the variable that says how a command ended. -/
  errorLevel : VarId
  /-- The files. -/
  files : Files

namespace Call

/-- The text of the argument at a position. -/
def text (call : Call) (i : Nat) : String :=
  call.args.text i

/-- The file that the innermost loop over lines writes to, if it names one. -/
def loopOutput? (call : Call) : Option String :=
  (call.loops.find? (·.kind == .read)).bind (·.output?)

/-- The deeds that store a value in the variable at a position. A blank one is left out. -/
def storeAt (call : Call) (i : Nat) (value : Value) : Except NameError (List Deed) :=
  match call.args.output? i with
  | none => .ok []
  | some var => (call.vars.set var value).map fun _ => [.store var value]

end Call

/-- A command's answer. -/
structure Reply where
  /-- What it does, in order. -/
  deeds : List Deed := []
  /-- How it ended. -/
  status : Status := .ok

/-- What all commands of a set do. -/
abbrev Performer := Call → Reply

end LineScript
