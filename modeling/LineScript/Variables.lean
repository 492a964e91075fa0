import LineScript.Name
import LineScript.Value

/-!
# Variables

A table of variables in slots. A slot's number is given out once and keeps its meaning; a name finds its slot whatever
its case, and the first spelling is the one shown. The slots of engine variables cannot be set.
-/

namespace LineScript

/-- The number of a slot. -/
abbrev VarId := Nat

/-- One variable: the spelling it was first named with, the lower-case form it is found by, what it holds, and which
engine variable it is, if any. -/
structure Slot where
  /-- The first spelling of the name. -/
  name : String
  /-- The lower-case form of the name. -/
  key : String
  /-- What the variable holds. -/
  value : Value
  /-- The engine variable of that name. -/
  builtin : Option Builtin

/-- The variables of a program, in the order they were first named. -/
structure Variables where
  /-- The slots. -/
  slots : Array Slot := #[]

namespace Variables

instance : Inhabited Variables := ⟨{}⟩

/-- The number of slots. -/
def size (vars : Variables) : Nat :=
  vars.slots.size

/-- The slot with a given lower-case name. -/
def findKey? (vars : Variables) (key : String) : Option VarId :=
  vars.slots.findIdx? (·.key == key)

/-- The slot of a name, case aside. -/
def find? (vars : Variables) (name : String) : Option VarId :=
  vars.findKey? (Text.lower name)

/-- The slot a name gets when it is new. -/
def newSlot (name key : String) : Slot :=
  { name, key, value := .empty, builtin := Builtin.ofName? name }

/-- The slot of a name, made on first use. The name is taken as valid. -/
def intern (vars : Variables) (name : String) : Variables × VarId :=
  let key := Text.lower name
  match vars.findKey? key with
  | some id => (vars, id)
  | none => ({ slots := vars.slots.push (newSlot name key) }, vars.size)

/-- The slot of a name, made on first use if the name is valid. A name that is there already is not checked again. -/
def resolve (vars : Variables) (name : String) : Except NameError (Variables × VarId) :=
  match vars.find? name with
  | some id => .ok (vars, id)
  | none => do
    Name.validate name
    return vars.intern name

/-- The first spelling of a slot's name. -/
def name (vars : Variables) (id : VarId) : String :=
  (vars.slots[id]?.map (·.name)).getD ""

/-- The engine variable a slot belongs to. -/
def builtin? (vars : Variables) (id : VarId) : Option Builtin :=
  vars.slots[id]?.bind (·.builtin)

/-- What a slot holds. Engine variables hold nothing themselves. -/
def get (vars : Variables) (id : VarId) : Value :=
  (vars.slots[id]?.map (·.value)).getD .empty

/-- Stores a value; the slots of engine variables refuse. -/
def set (vars : Variables) (id : VarId) (value : Value) : Except NameError Variables :=
  match vars.slots[id]? with
  | none => .ok vars
  | some slot =>
    match slot.builtin with
    | some _ => .error (.readOnly slot.name)
    | none => .ok { slots := vars.slots.setIfInBounds id { slot with value := value } }

/-- Stores a value where that is allowed and leaves the table alone otherwise. -/
def put (vars : Variables) (id : VarId) (value : Value) : Variables :=
  match vars.set id value with
  | .ok vars => vars
  | .error _ => vars

/-- Names and values in slot order, engine variables left out. -/
def toList (vars : Variables) : List (String × Value) :=
  vars.slots.toList.filterMap fun slot => if slot.builtin.isSome then none else some (slot.name, slot.value)

end Variables

end LineScript
