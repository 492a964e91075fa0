import LineScript.Problem

/-!
# Functions

The functions an expression may call. A numeric function of something that is no number is empty. Positions in texts
count characters from one.
-/

namespace LineScript

/-- The functions. -/
inductive Function where
  | abs
  | ceil
  | floor
  | round
  | sqrt
  | exp
  | log
  | ln
  | mod
  | strLen
  | asc
  | chr
  | inStr
  | subStr
  deriving DecidableEq

namespace Function

/-- The names of the functions, in lower case. -/
def names : List (String × Function) := [
  ("abs", abs), ("ceil", ceil), ("floor", floor), ("round", round), ("sqrt", sqrt), ("exp", exp), ("log", log),
  ("ln", ln), ("mod", mod), ("strlen", strLen), ("asc", asc), ("chr", chr), ("instr", inStr), ("substr", subStr)]

/-- The function of a name, ASCII case aside. -/
def ofName? (name : String) : Option Function :=
  names.lookup (Text.asciiLower name)

/-- The least and the greatest number of arguments. -/
def arity : Function → Nat × Nat
  | round => (1, 2)
  | mod => (2, 2)
  | inStr => (2, 4)
  | subStr => (2, 3)
  | _ => (1, 1)

/-- A function of doubles, empty where it is not defined. -/
def ofFloat (n : Option Number) (f : Float → Option Float) : Value :=
  match n.bind fun n => f n.toFloat with
  | some x => .float x
  | none => .empty

/-- A number rounded to an integer. -/
def toWhole (r : Binary64.Rounding) (n : Option Number) : Value :=
  match n with
  | some n => .int (Binary64.toInt64 r n.toFloat)
  | none => .empty

/-- The most places a number is rounded to; further digits would be noise. -/
def mostPlaces : Int := 17

/-- The least places: beyond them every factor is infinite. -/
def leastPlaces : Int := -400

/-- A number rounded to some places. With none or fewer it is an integer, with more it is a text. -/
def roundTo (n : Option Number) (places : Option Number) : Value :=
  match n with
  | none => .empty
  | some n =>
    let places : Int := match places with
      | some p => max leastPlaces (min mostPlaces p.toInt64.toInt)
      | none => 0
    if places ≤ 0 then
      let factor := Binary64.powerOfTen (-places).toNat
      .int (Binary64.toInt64 .toZero (Binary64.roundWith .nearest (n.toFloat / factor) * factor))
    else .text (Binary64.fixed places.toNat n.toFloat)

/-- The remainder of a division truncated toward zero. -/
def remainder (a b : Option Number) : Except Problem Value :=
  match a, b with
  | some a, some b =>
    if b.isZero then .error .divideByZero
    else match a, b with
      | .int x, .int y => .ok (.int (x % y))
      | x, y => .ok (.float (Binary64.remainder x.toFloat y.toFloat))
  | _, _ => .ok .empty

/-- The character of a code point, as a text. -/
def charText (n : Option Number) : Value :=
  match n with
  | none => .empty
  | some n =>
    let code := n.toInt64.toInt
    if 0 ≤ code && decide code.toNat.isValidChar then .text (Char.ofNat code.toNat).toString else .empty

/-- The position of `needle` in `hay` at or after position `start`, or zero. -/
def position (hay needle : String) (caseSensitive : Bool) (start : Nat) : Nat :=
  let hay := if caseSensitive then hay.toList else (Text.lower hay).toList
  let needle := if caseSensitive then needle.toList else (Text.lower needle).toList
  if needle.isEmpty then 0
  else match Text.findFrom needle start (hay.drop (start - 1)) with
    | some p => p
    | none => 0

/-- The part of a text from position `start` on, of `size` characters if given. Zero and negative positions count back
from the last character, and a negative size leaves that many characters off the end. -/
def part (s : String) (start : Int) (size : Option Int) : String :=
  let cs := s.toList
  let total : Int := cs.length
  let first := if 1 ≤ start then start - 1 else max 0 (total - 1 + start)
  if total ≤ first then ""
  else
    let stop := match size with
      | none => total
      | some n => if 0 ≤ n then min total (first + n) else max first (total + n)
    .ofList ((cs.drop first.toNat).take (stop - first).toNat)

/-- Calls a function. -/
def apply (f : Function) (args : List Value) : Except Problem Value :=
  let number (i : Nat) : Option Number := (args[i]?).bind Value.toNumber?
  let text (i : Nat) : String := ((args[i]?).map Value.toText).getD ""
  match f with
  | abs =>
    match number 0 with
    | some (.int n) => .ok (.int (if n < 0 then -n else n))
    | some (.float x) => .ok (.float x.abs)
    | none => .ok .empty
  | ceil => .ok (toWhole .up (number 0))
  | floor => .ok (toWhole .down (number 0))
  | round => .ok (roundTo (number 0) (number 1))
  | sqrt => .ok (ofFloat (number 0) fun x => if 0.0 ≤ x then some x.sqrt else none)
  | exp => .ok (ofFloat (number 0) fun x => some x.exp)
  | log => .ok (ofFloat (number 0) fun x => if 0.0 < x then some x.log10 else none)
  | ln => .ok (ofFloat (number 0) fun x => if 0.0 < x then some x.log else none)
  | mod => remainder (number 0) (number 1)
  | strLen => .ok (.int (Int64.ofNat (text 0).toList.length))
  | asc => .ok (.int (Int64.ofNat (((text 0).toList.head?.map Char.toNat).getD 0)))
  | chr => .ok (charText (number 0))
  | inStr =>
    let start := match number 3 with
      | some n => (max 1 n.toInt64.toInt).toNat
      | none => 1
    .ok (.int (Int64.ofNat (position (text 0) (text 1) ((args[2]?).any Value.isTrue) start)))
  | subStr =>
    let start := match number 1 with
      | some n => n.toInt64.toInt
      | none => 1
    .ok (.text (part (text 0) start ((number 2).map fun n => n.toInt64.toInt)))

/-- Calls the function of a name. -/
def call (name : String) (args : List Value) : Except Problem Value :=
  match ofName? name with
  | none => .error (.unknownFunction name)
  | some f =>
    let (least, most) := f.arity
    if args.length < least || most < args.length then
      .error (.expression (.argCount name least most args.length))
    else f.apply args

end Function

end LineScript
