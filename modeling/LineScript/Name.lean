import LineScript.Text.Basic

/-!
# Variable names

Which texts name a variable, and which names belong to the engine. A name holds ASCII letters and digits, a few signs
and any character beyond ASCII, up to 253 bytes. The engine's own names are read-only; what they hold is computed when
they are read.
-/

namespace LineScript

/-- Why a text cannot name the variable that is wanted. -/
inductive NameError where
  | empty
  | tooLong (name : String)
  | illegalChar (name : String) (c : Char)
  | readOnly (name : String)
  deriving DecidableEq

/-- The message of a name error. -/
def NameError.message : NameError → String
  | empty => "blank variable name"
  | tooLong name => "variable name too long: " ++ Text.quoted name
  | illegalChar name c =>
    "variable name " ++ Text.quoted name ++ " contains an illegal character '" ++ c.toString ++ "'"
  | readOnly name => Text.quoted name ++ " is a read-only variable"

/-- The variables whose contents the engine computes when they are read. -/
inductive Builtin where
  | index
  | loopField
  | loopReadLine
  | loopFileName
  | loopFileExt
  | loopFileDir
  | loopFileFullPath
  | loopFileSize
  | loopRegName
  | loopRegType
  | loopRegKey
  | loopRegSubKey
  | thisLabel
  | thisHotkey
  | priorHotkey
  | tickCount
  | space
  | tab
  deriving DecidableEq

namespace Builtin

/-- Every engine variable with its name in lower case. -/
def names : List (String × Builtin) := [
  ("a_index", index), ("a_loopfield", loopField), ("a_loopreadline", loopReadLine), ("a_loopfilename", loopFileName),
  ("a_loopfileext", loopFileExt), ("a_loopfiledir", loopFileDir), ("a_loopfilefullpath", loopFileFullPath),
  ("a_loopfilesize", loopFileSize), ("a_loopregname", loopRegName), ("a_loopregtype", loopRegType),
  ("a_loopregkey", loopRegKey), ("a_loopregsubkey", loopRegSubKey), ("a_thislabel", thisLabel),
  ("a_thishotkey", thisHotkey), ("a_priorhotkey", priorHotkey), ("a_tickcount", tickCount), ("a_space", space),
  ("a_tab", tab)]

/-- The engine variable a text names, ASCII case aside. -/
def ofName? (name : String) : Option Builtin :=
  names.lookup (Text.asciiLower name)

end Builtin

namespace Name

/-- The greatest length of a name, in bytes. -/
def maxBytes : Nat := 253

/-- A character that may stand in a name. -/
def isNameChar (c : Char) : Bool :=
  c.isAlphanum || c == '_' || c == '#' || c == '@' || c == '$' || c == '?' || c == '[' || c == ']' || 128 ≤ c.toNat

/-- The first character of a list that may not stand in a name. -/
def illegal? (cs : List Char) : Option Char :=
  cs.find? (!isNameChar ·)

/-- Checks that a text names a variable. Blank comes before too long, and that before an illegal character. -/
def validate (name : String) : Except NameError Unit :=
  if name.isEmpty then .error .empty
  else if maxBytes < name.utf8ByteSize then .error (.tooLong name)
  else match illegal? name.toList with
    | some c => .error (.illegalChar name c)
    | none => .ok ()

end Name

end LineScript
