import LineScript.Problem
import LineScript.Text.Letter

/-!
# Conditions

The conditions of `if` lines that are no expressions. Texts that both read as numbers are compared as numbers; lists
are separated by commas, with a doubled comma standing for one; `is` asks whether a text is of some type.
-/

namespace LineScript

namespace Condition

/-- Whether a text lies between two others: as doubles if all three are numbers, by text otherwise. -/
def isBetween (v low high : String) : Bool :=
  match Number.ofText? v, Number.ofText? low, Number.ofText? high with
  | some v, some low, some high => low.toFloat ≤ v.toFloat && v.toFloat ≤ high.toFloat
  | _, _, _ =>
    (Text.order (Text.lower low) (Text.lower v)).isLE && (Text.order (Text.lower v) (Text.lower high)).isLE

/-- The items of a list: `done` holds the finished ones and `item` the characters of the current one, both in
reverse. -/
def itemsOnto : (done : List (List Char)) → (item : List Char) → List Char → List (List Char)
  | done, item, [] => (item.reverse :: done).reverse
  | done, item, ',' :: ',' :: rest => itemsOnto done (',' :: item) rest
  | done, item, ',' :: rest => itemsOnto (item.reverse :: done) [] rest
  | done, item, c :: rest => itemsOnto done (c :: item) rest

/-- The items of a list separated by commas, where a doubled comma stands for a comma. -/
def items (s : String) : List String :=
  (itemsOnto [] [] s.toList).map String.ofList

/-- Whether a text is one of the items of a list, case aside. -/
def isMember (v list : String) : Bool :=
  let v := Text.lower v
  (items list).any fun item => Text.lower item == v

/-- Whether a text contains one of the items of a list, case aside. A blank item is contained in nothing. -/
def containsAny (v list : String) : Bool :=
  let hay := (Text.lower v).toList
  (items list).any fun item => !item.isEmpty && Text.occursIn (Text.lower item).toList hay

/-- Whether two digits at a position, if they are there, make a number between the bounds. -/
def fieldBetween (digits : List Char) (pos low high : Nat) : Bool :=
  match (digits.drop pos).take 2 with
  | [a, b] =>
    let n := Text.digitsOnto 0 [a, b]
    low ≤ n && n ≤ high
  | _ => true

/-- Whether a text is a time: a year, a month, a day, hours, minutes and seconds, cut off after any of them. -/
def isTimestamp (cs : List Char) : Bool :=
  let n := cs.length
  4 ≤ n && n ≤ 14 && n % 2 == 0 && cs.all Char.isDigit && fieldBetween cs 4 1 12 && fieldBetween cs 6 1 31 &&
    fieldBetween cs 8 0 23 && fieldBetween cs 10 0 59 && fieldBetween cs 12 0 59

/-- A text without a leading `0x`. -/
def dropHexMark : List Char → List Char
  | '0' :: 'x' :: rest => rest
  | '0' :: 'X' :: rest => rest
  | cs => cs

/-- Whether a text has characters and they all satisfy `p`. -/
def allOf (p : Char → Bool) (cs : List Char) : Bool :=
  !cs.isEmpty && cs.all p

/-- The types `is` knows, each with its test. -/
def types : List (String × (String → Bool)) := [
  ("integer", fun v => match Number.ofText? v with
    | some (.int _) => true
    | _ => false),
  ("float", fun v => match Number.ofText? v with
    | some (.float _) => true
    | _ => false),
  ("number", fun v => (Number.ofText? v).isSome),
  ("digit", fun v => allOf Char.isDigit v.toList),
  ("xdigit", fun v => allOf Text.isHexDigit (dropHexMark v.toList)),
  ("alpha", fun v => allOf Text.isLetter v.toList),
  ("upper", fun v => allOf Text.isCapital v.toList),
  ("lower", fun v => allOf Text.isSmall v.toList),
  ("alnum", fun v => allOf Text.isLetterOrNumeral v.toList),
  ("space", fun v => allOf Text.isBlank v.toList),
  ("time", fun v => isTimestamp (Text.trimList Text.isSpaceOrTab v.toList))]

/-- Whether a text is of the type of a name. -/
def isOfType (v typeName : String) : Except Problem Bool :=
  let name := Text.asciiLower (Text.trim typeName)
  match types.lookup name with
  | some test => .ok (test v)
  | none => .error (.badParameter (.unknownType name))

/-- Whether a condition holds of a line's arguments: the subject first, then the operands. -/
def holds (condition : Condition) (args : List String) : Except Problem Bool :=
  let arg (i : Nat) : String := (args[i]?).getD ""
  let subject := arg 0
  match condition with
  | .expr => .ok (Value.text subject).isTrue
  | .compare op => .ok (op.holds (Value.order false (.text subject) (.text (arg 1))))
  | .between negate => .ok (negate != isBetween subject (arg 1) (arg 2))
  | .member negate => .ok (negate != isMember subject (arg 1))
  | .contains negate => .ok (negate != containsAny subject (arg 1))
  | .ofType negate => (isOfType subject (arg 1)).map (negate != ·)

end Condition

end LineScript
