import LineScript.Problem

/-!
# Arithmetic

The operators on numbers. Integers wrap around at 64 bits and meet doubles as doubles. Division is in doubles, floor
division of integers is exact; both refuse to divide by zero. A side that is no number makes the result empty.
-/

namespace LineScript

namespace Arith

/-- The quotient of two integers rounded down. -/
def floorDiv (x y : Int64) : Int64 :=
  let q := x / y
  if x % y != 0 && ((x < 0) != (y < 0)) then q - 1 else q

/-- An operator on two numbers. -/
def onNumbers (op : Op) (x y : Number) : Except Problem Value :=
  match op, x, y with
  | .add, .int x, .int y => .ok (.int (x + y))
  | .sub, .int x, .int y => .ok (.int (x - y))
  | .mul, .int x, .int y => .ok (.int (x * y))
  | .add, x, y => .ok (.float (x.toFloat + y.toFloat))
  | .sub, x, y => .ok (.float (x.toFloat - y.toFloat))
  | .mul, x, y => .ok (.float (x.toFloat * y.toFloat))
  | .div, x, y => if y.isZero then .error .divideByZero else .ok (.float (x.toFloat / y.toFloat))
  | .floorDiv, .int x, .int y => if y == 0 then .error .divideByZero else .ok (.int (floorDiv x y))
  | .floorDiv, x, y =>
    if y.isZero then .error .divideByZero else .ok (.float (Binary64.roundWith .down (x.toFloat / y.toFloat)))
  | .bitAnd, x, y => .ok (.int (x.toInt64 &&& y.toInt64))
  | .bitOr, x, y => .ok (.int (x.toInt64 ||| y.toInt64))
  | .bitXor, x, y => .ok (.int (x.toInt64 ^^^ y.toInt64))
  | .shl, x, y => .ok (.int (x.toInt64 <<< y.toInt64))
  | .shr, x, y => .ok (.int (x.toInt64 >>> y.toInt64))
  | _, _, _ => .ok .empty

/-- An operator on two values. -/
def onValues (op : Op) (a b : Value) : Except Problem Value :=
  match a.toNumber?, b.toNumber? with
  | some x, some y => onNumbers op x y
  | _, _ => .ok .empty

/-- An integer power, if it fits into 64 bits and its exponent into 32. -/
def intPower? (base exponent : Int64) : Option Int64 :=
  let b := base.toInt
  let e := exponent.toInt
  if e < 0 || values32 ≤ e then none
  else if b == 0 || b == 1 || b == -1 then
    some (if e == 0 then 1 else if b == -1 && e % 2 == 0 then 1 else base)
  else if 63 < e then none
  else
    let p := b.pow e.toNat
    if leastInt ≤ p && p ≤ greatestInt then some (Int64.ofInt p) else none

/-- A power: exact where `intPower?` gives one, in doubles otherwise, and empty where there is none. -/
def power (base exponent : Value) : Value :=
  match base.toNumber?, exponent.toNumber? with
  | some b, some e =>
    let inFloats : Value :=
      let r := Float.pow b.toFloat e.toFloat
      if r.isNaN then .empty else .float r
    match b, e with
    | .int b, .int e =>
      match intPower? b e with
      | some n => .int n
      | none => inFloats
    | _, _ => inFloats
  | _, _ => .empty

/-- The negative of a value, empty if it is no number. -/
def negate (v : Value) : Value :=
  match v.toNumber? with
  | some (.int n) => .int (-n)
  | some (.float x) => .float (-x)
  | none => .empty

/-- The bits of a value turned over, empty if it is no number. -/
def complement (v : Value) : Value :=
  match v.toNumber? with
  | some n => .int (~~~ n.toInt64)
  | none => .empty

/-- Whether a comparison operator holds between two values. -/
def comparison? (op : Op) (a b : Value) : Option Bool :=
  match op with
  | .eq => some (a.order false b).isEq
  | .ne => some !(a.order false b).isEq
  | .strictEq => some (a.order true b).isEq
  | .lt => some (a.order false b).isLT
  | .le => some (a.order false b).isLE
  | .gt => some (a.order false b).isGT
  | .ge => some (a.order false b).isGE
  | _ => none

/-- A binary operator other than `and` and `or`. -/
def apply (op : Op) (a b : Value) : Except Problem Value :=
  match op with
  | .concat => .ok (.text (a.toText ++ b.toText))
  | _ =>
    match comparison? op a b with
    | some holds => .ok (.ofBool holds)
    | none => onValues op a b

/-- The value an arithmetic assignment stores: integers divide toward zero here. -/
def assign (op : AssignOp) (current operand : Number) : Except Problem Value :=
  match op with
  | .add => onNumbers .add current operand
  | .sub => onNumbers .sub current operand
  | .mul => onNumbers .mul current operand
  | .div =>
    if operand.isZero then .error .divideByZero
    else match current, operand with
      | .int x, .int y => .ok (.int (x / y))
      | x, y => .ok (.float (x.toFloat / y.toFloat))
  | .text | .expr => .ok operand.toValue

end Arith

end LineScript
