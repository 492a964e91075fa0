import LineScript.Word

/-!
# Double-precision numbers, exactly

A finite double is `± mantissa · 2 ^ exponent` with whole `mantissa` and `exponent`. `Binary64.parts` reads these off
the bits, and rounding to whole numbers, conversion to 64-bit words, remainders and decimal texts are then whole-number
arithmetic. Only the elementary functions (powers, logarithms, exponential) are left to the machine.
-/

namespace LineScript

namespace Binary64

/-- What a double stands for. -/
inductive Parts where
  | nan
  | infinite (negative : Bool)
  | finite (negative : Bool) (mantissa : Nat) (exponent : Int)
  deriving DecidableEq

/-- Reads the parts off a word: a sign bit, eleven bits of exponent and fifty-two bits of mantissa. -/
def partsOfBits (bits : Nat) : Parts :=
  let negative := bits / pow2 63 % 2 == 1
  let exponent : Nat := bits / pow2 52 % pow2 11
  let mantissa : Nat := bits % pow2 52
  if exponent == 2047 then
    if mantissa == 0 then .infinite negative else .nan
  else if exponent == 0 then .finite negative mantissa (-1074)
  else .finite negative (pow2 52 + mantissa) (exponent - 1075)

/-- The parts of a double. -/
def parts (x : Float) : Parts :=
  partsOfBits x.toBits.toNat

/-- The double `± mantissa · 2 ^ exponent` for a mantissa below `2 ^ 53` and an exponent of at least `-1074`. -/
def ofParts (negative : Bool) (mantissa : Nat) (exponent : Int) : Float :=
  let sign := if negative then pow2 63 else 0
  if mantissa == 0 then Float.ofBits (UInt64.ofNat sign)
  else
    let up := min (52 - Nat.log2 mantissa) (exponent + 1074).toNat
    let mantissa := mantissa * pow2 up
    let exponent := exponent - up
    if mantissa < pow2 52 then Float.ofBits (UInt64.ofNat (sign + mantissa))
    else Float.ofBits (UInt64.ofNat (sign + (exponent + 1075).toNat * pow2 52 + (mantissa - pow2 52)))

/-- How a number between two whole numbers is rounded. -/
inductive Rounding where
  | down
  | up
  | nearest
  | toZero
  deriving DecidableEq

/-- `± mantissa / divisor` rounded to a whole number; `nearest` takes a half away from zero. -/
def Rounding.quotient (r : Rounding) (negative : Bool) (mantissa divisor : Nat) : Int :=
  let whole := mantissa / divisor
  let rest := mantissa % divisor
  let away : Bool := match r with
    | .down => negative && rest != 0
    | .up => !negative && rest != 0
    | .nearest => divisor ≤ 2 * rest && rest != 0
    | .toZero => false
  let magnitude : Int := if away then whole + 1 else whole
  if negative then -magnitude else magnitude

/-- `± mantissa · 2 ^ exponent` rounded to a whole number. -/
def Rounding.whole (r : Rounding) (negative : Bool) (mantissa : Nat) (exponent : Int) : Int :=
  match exponent with
  | .ofNat e => if negative then -(mantissa * pow2 e : Nat) else (mantissa * pow2 e : Nat)
  | .negSucc e => r.quotient negative mantissa (pow2 (e + 1))

/-- A double rounded and turned into a 64-bit integer: out of range it stops at the nearer end, and what is no number
gives zero. -/
def toInt64 (r : Rounding) (x : Float) : Int64 :=
  match parts x with
  | .nan => 0
  | .infinite negative => Int64.ofInt (if negative then leastInt else greatestInt)
  | .finite negative mantissa exponent =>
    Int64.ofInt (max leastInt (min greatestInt (r.whole negative mantissa exponent)))

/-- A double rounded to a whole double. Whole numbers, the two zeros and what is no finite number stay as they are. -/
def roundWith (r : Rounding) (x : Float) : Float :=
  match parts x with
  | .finite negative mantissa (.negSucc e) =>
    if mantissa % pow2 (e + 1) == 0 then x else Float.ofInt (r.quotient negative mantissa (pow2 (e + 1)))
  | _ => x

/-- The remainder of a division truncated toward zero, with the sign of the dividend. It is exact. -/
def remainder (x y : Float) : Float :=
  match parts x, parts y with
  | .finite negative m e, .finite _ n f =>
    if n == 0 then 0.0 / 0.0
    else
      let common := min e f
      let dividend := m * pow2 (e - common).toNat
      let divisor := n * pow2 (f - common).toNat
      ofParts negative (dividend % divisor) common
  | .finite .., .infinite _ => x
  | _, _ => 0.0 / 0.0

/-- Multiplies `result` by the powers of `base` that the binary digits of `n` select, squaring as it goes. -/
def powerOnto : (fuel : Nat) → (result base : Float) → (n : Nat) → Float
  | 0, result, _, _ => result
  | fuel + 1, result, base, n =>
    let result := if n % 2 == 1 then result * base else result
    if n / 2 == 0 then result else powerOnto fuel result (base * base) (n / 2)

/-- A power of ten, computed by repeated squaring in double precision. -/
def powerOfTen (n : Nat) : Float :=
  powerOnto (n + 1) 1.0 10.0 n

/-- The nearest even-tie quotient of two whole numbers. -/
def halfEven (num den : Nat) : Nat :=
  let whole := num / den
  let rest := num % den
  if 2 * rest < den then whole
  else if den < 2 * rest then whole + 1
  else whole + whole % 2

/-- The decimal digits of a number, filled up with zeros on the left to at least `width`. -/
def paddedDigits (width n : Nat) : List Char :=
  let digits := Nat.toDigits 10 n
  List.replicate (width - digits.length) '0' ++ digits

/-- `± n / 10 ^ places` in decimal, with exactly `places` digits after the point. -/
def placed (negative : Bool) (places n : Nat) : String :=
  let sign := if negative then ['-'] else []
  let whole := Nat.toDigits 10 (n / pow10 places)
  let fraction := if places == 0 then [] else '.' :: paddedDigits places (n % pow10 places)
  .ofList (sign ++ whole ++ fraction)

/-- A double in decimal with a fixed number of places: the exact value, a half going to the even neighbour. The sign of
a negative zero is kept. -/
def fixed (places : Nat) (x : Float) : String :=
  match parts x with
  | .nan => "NaN"
  | .infinite negative => if negative then "-inf" else "inf"
  | .finite negative mantissa exponent =>
    match exponent with
    | .ofNat e => placed negative places (mantissa * pow2 e * pow10 places)
    | .negSucc e => placed negative places (halfEven (mantissa * pow10 places) (pow2 (e + 1)))

/-- The double nearest to a decimal given by its digits before and after the point. -/
def ofDecimal (whole fraction : List Char) : Float :=
  let read (cs : List Char) (n : Nat) : Nat := cs.foldl (fun n c => n * 10 + (c.toNat - '0'.toNat)) n
  Float.ofScientific (read fraction (read whole 0)) true fraction.length

/-- Whether digits times a power of ten are too large for a double: at least halfway from the greatest one to the next
power of two. Numbers of more than 309 digits are, those of fewer are not. -/
def overflows (digits : Nat) (exponent : Int) : Bool :=
  let size : Int := (Nat.toDigits 10 digits).length + exponent
  if digits == 0 || size < 309 then false
  else if 309 < size then true
  else
    let bound : Nat := pow2 1024 - pow2 970
    bound * pow10 (-exponent).toNat ≤ digits * pow10 exponent.toNat

end Binary64

end LineScript
