import LineScript.Command.Call

/-!
# Threads

What a running routine carries with it. Threads are stacked: one that interrupts another ends before the other goes on.
-/

namespace LineScript

/-- A running routine. -/
structure Thread where
  /-- The label it runs; the start of the program has none. -/
  label : Option LabelId
  /-- The name of the label, as the trigger spelled it. -/
  labelName : String
  /-- The name it sees as its hotkey. -/
  name : String
  /-- What started it. -/
  kind : TriggerKind
  /-- Triggers of a lower priority do not interrupt it. -/
  priority : Int32
  /-- When it started, in milliseconds. -/
  started : Nat
  /-- The lines it has run. -/
  linesRun : Nat := 0
  /-- The loops it is in, innermost first. -/
  loops : List LoopContext := []
  /-- For how long it is not interrupted, in milliseconds. -/
  freshMs : Nat
  /-- For how many lines it is not interrupted. -/
  freshLines : Nat
  /-- What the scratch buffer held when it started. -/
  mark : Nat
  /-- What the error level was when it started. -/
  savedErrorLevel : Value
  /-- How its last command ended. -/
  lastResult : Option Status := none

namespace Thread

/-- A thread is not interrupted until it has run for a while or for some lines, whichever comes first. -/
def isFresh (thread : Thread) (now : Nat) : Bool :=
  now - thread.started < thread.freshMs && thread.linesRun < thread.freshLines

/-- What the innermost loop shows that shows something of the kind picked. -/
def innermost {α : Type} (thread : Thread) (pick : LoopItem → Option α) : Option α :=
  thread.loops.findSome? fun loop => pick loop.current

/-- The field of the innermost loop over fields. -/
def field? (thread : Thread) : Option String :=
  thread.innermost fun
    | .field s => some s
    | _ => none

/-- The line of the innermost loop over lines. -/
def line? (thread : Thread) : Option String :=
  thread.innermost fun
    | .line s => some s
    | _ => none

/-- The entry of the innermost file loop. -/
def file? (thread : Thread) : Option FileItem :=
  thread.innermost fun
    | .file item => some item
    | _ => none

/-- The key or value of the innermost registry loop. -/
def key? (thread : Thread) : Option RegItem :=
  thread.innermost fun
    | .key item => some item
    | _ => none

/-- What an engine variable that depends on the thread holds. -/
def view (thread : Thread) : Builtin → Value
  | .index => .int (Int64.ofNat ((thread.loops.head?.map (·.index)).getD 0))
  | .loopField => .text (thread.field?.getD "")
  | .loopReadLine => .text (thread.line?.getD "")
  | .loopFileName => .text ((thread.file?.map (·.name)).getD "")
  | .loopFileExt => .text ((thread.file?.map (·.extension)).getD "")
  | .loopFileDir => .text ((thread.file?.map (·.folder)).getD "")
  | .loopFileFullPath => .text ((thread.file?.map (·.fullPath)).getD "")
  | .loopFileSize => ((thread.file?.map fun item => Value.int (Int64.ofNat item.size))).getD .empty
  | .loopRegName => .text ((thread.key?.map (·.name)).getD "")
  | .loopRegType => .text ((thread.key?.map (·.kind)).getD "")
  | .loopRegKey => .text ((thread.key?.map (·.root.name)).getD "")
  | .loopRegSubKey => .text ((thread.key?.map (·.subkey)).getD "")
  | .thisLabel => .text thread.labelName
  | .thisHotkey => .text thread.name
  | _ => .empty

end Thread

end LineScript
