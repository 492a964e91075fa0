import LineScript.Text.Basic
import LineScript.Word

/-!
# JSON values

The values a JSON document is made of. A text may be well formed and still stand for no value: half of a surrogate pair
is no character, and a number may be too large for a double. Such a part is `unreadable`; it does no harm where nobody
looks at it.
-/

namespace LineScript

/-- A JSON value. The fields of an object are in the order they were written. -/
inductive JsonValue where
  | null
  | bool (b : Bool)
  /-- A number written as an integer. -/
  | integer (n : Int)
  /-- A number written with a point or an exponent: its digits times a power of ten. -/
  | real (digits exponent : Int)
  | string (s : String)
  | array (items : List JsonValue)
  | object (fields : List (String × JsonValue))
  | unreadable

namespace JsonValue

mutual

/-- Whether every part of a value can be read, and arrays and objects are nested at most `depth` deep. -/
def isReadable (depth : Nat) : JsonValue → Bool
  | unreadable => false
  | array items => 0 < depth && areReadable (depth - 1) items
  | object fields => 0 < depth && fieldsReadable (depth - 1) fields
  | _ => true

/-- Whether every part of some values can be read. -/
def areReadable (depth : Nat) : List JsonValue → Bool
  | [] => true
  | v :: rest => v.isReadable depth && areReadable depth rest

/-- Whether every part of some fields can be read. -/
def fieldsReadable (depth : Nat) : List (String × JsonValue) → Bool
  | [] => true
  | (_, v) :: rest => v.isReadable depth && fieldsReadable depth rest

end

/-- The text of a string. -/
def string? : JsonValue → Option String
  | string s => some s
  | _ => none

/-- The texts of an array of strings. -/
def strings? : JsonValue → Option (List String)
  | array items => items.mapM string?
  | _ => none

/-- A natural number of at most 32 bits. -/
def word? : JsonValue → Option Nat
  | integer n => if 0 ≤ n && n < values32 then some n.toNat else none
  | _ => none

/-- The value of a field that must not be given twice: `none` if it is, and otherwise the value if there is one. -/
def once? (fields : List (String × JsonValue)) (name : String) : Option (Option JsonValue) :=
  match fields.filter (·.1 == name) with
  | [] => some none
  | [(_, v)] => some (some v)
  | _ => none

end JsonValue

end LineScript
