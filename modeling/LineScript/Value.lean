import LineScript.Binary64
import LineScript.Text.Lower
import LineScript.Text.Basic

/-!
# Values and numbers

A value is a text, an integer or a double. Scripts see every value as a text, so a number has one written form
(`Value.text`) and texts are read back as numbers where a number is wanted (`Number.ofText?`). Comparison is numeric
when both sides are numbers and goes by text otherwise.
-/

namespace LineScript

/-- A number a script can hold: a 64-bit integer or a double. -/
inductive Number where
  | int (n : Int64)
  | float (x : Float)

/-- What a variable holds. -/
inductive Value where
  | text (s : String)
  | int (n : Int64)
  | float (x : Float)

namespace Number

/-- The double nearest to a number. -/
def toFloat : Number → Float
  | int n => Float.ofInt n.toInt
  | float x => x

/-- A number as an integer: doubles are cut toward zero and kept within range. -/
def toInt64 : Number → Int64
  | int n => n
  | float x => Binary64.toInt64 .toZero x

/-- Whether a number is zero, of either sign. -/
def isZero : Number → Bool
  | int n => n == 0
  | float x => x == 0.0

/-- The value of a list of hexadecimal digits. -/
def hexValue (cs : List Char) : Nat :=
  cs.foldl (fun n c => n * 16 +
    (if c.isDigit then c.toNat - '0'.toNat else if c.isUpper then c.toNat - 'A'.toNat + 10 else c.toNat - 'a'.toNat + 10)) 0

/-- Reads a number after its sign: hexadecimal digits after `0x`, decimal digits, or decimal digits with one point.
A hexadecimal number may use all 64 bits, a decimal integer must fit below `2 ^ 63`. -/
def ofUnsigned? (negative : Bool) (body : List Char) : Option Number :=
  let hexadecimal (digits : List Char) : Option Number :=
    if digits.isEmpty || !digits.all Text.isHexDigit then none
    else
      let n := hexValue digits
      if n < values64 then
        let word := Int64.ofInt n
        some (.int (if negative then -word else word))
      else none
  match body with
  | '0' :: 'x' :: digits => hexadecimal digits
  | '0' :: 'X' :: digits => hexadecimal digits
  | _ =>
    let points := body.countP (· == '.')
    let digits := body.countP Char.isDigit
    if digits == 0 || 1 < points || digits + points != body.length then none
    else if points == 0 then
      let n := Text.digitsOnto 0 body
      if n ≤ greatestInt then some (.int (Int64.ofInt (if negative then -(n : Int) else n))) else none
    else
      let whole := body.takeWhile (· != '.')
      let x := Binary64.ofDecimal whole (body.drop (whole.length + 1))
      some (.float (if negative then -x else x))

/-- Reads the number a text stands for, spaces and tabs around it aside. -/
def ofText? (s : String) : Option Number :=
  match Text.trimList Text.isSpaceOrTab s.toList with
  | [] => none
  | '-' :: body => ofUnsigned? true body
  | '+' :: body => ofUnsigned? false body
  | body => ofUnsigned? false body

/-- A number as a value. -/
def toValue : Number → Value
  | int n => .int n
  | float x => .float x

end Number

/-- The decimal text of a 64-bit integer. -/
def intText (n : Int64) : String :=
  match n.toInt with
  | .ofNat k => .ofList (Nat.toDigits 10 k)
  | .negSucc k => .ofList ('-' :: Nat.toDigits 10 (k + 1))

namespace Value

/-- The empty text, which every variable holds at first. -/
def empty : Value := .text ""

instance : Inhabited Value := ⟨empty⟩

/-- The text scripts see: doubles are written with six places. -/
def toText : Value → String
  | text s => s
  | int n => intText n
  | float x => Binary64.fixed 6 x

/-- The length of the text, in bytes. -/
def size (v : Value) : Nat :=
  v.toText.utf8ByteSize

/-- Whether a value is the empty text. -/
def isEmpty : Value → Bool
  | text s => s.isEmpty
  | _ => false

/-- The number a value stands for, if it stands for one. -/
def toNumber? : Value → Option Number
  | text s => Number.ofText? s
  | int n => some (.int n)
  | float x => some (.float x)

/-- The empty text and zero are false, every other value is true. -/
def isTrue (v : Value) : Bool :=
  match v with
  | text s => !s.isEmpty && !(Number.ofText? s).any Number.isZero
  | int n => !(n == 0)
  | float x => !(x == 0.0)

/-- One for true, zero for false. -/
def ofBool (b : Bool) : Value :=
  .int (if b then 1 else 0)

end Value

/-- The order of two doubles; where they have none they count as equal. -/
def floatOrder (x y : Float) : Ordering :=
  if x < y then .lt else if y < x then .gt else .eq

/-- The order of two texts, with or without regard to case. -/
def textOrder (caseSensitive : Bool) (a b : String) : Ordering :=
  if caseSensitive then Text.order a b else Text.order (Text.lower a) (Text.lower b)

/-- The order of two numbers: exact between integers, as doubles otherwise. -/
def Number.order : Number → Number → Ordering
  | .int x, .int y => compare x.toInt y.toInt
  | x, y => floatOrder x.toFloat y.toFloat

/-- The order of two values: by number when both are numbers, by text otherwise. -/
def Value.order (caseSensitive : Bool) (a b : Value) : Ordering :=
  match a.toNumber?, b.toNumber? with
  | some x, some y => x.order y
  | _, _ => textOrder caseSensitive a.toText b.toText

end LineScript
