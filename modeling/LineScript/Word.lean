/-!
# Words

The powers of two and ten, and how many values words of 32 and 64 bits have.
-/

namespace LineScript

/-- The power of two with an exponent. -/
def pow2 (n : Nat) : Nat :=
  Nat.pow 2 n

/-- The power of ten with an exponent. -/
def pow10 (n : Nat) : Nat :=
  Nat.pow 10 n

/-- The number of values a word of 32 bits has. -/
def values32 : Nat := 4294967296

/-- The number of values a word of 64 bits has. -/
def values64 : Nat := 18446744073709551616

/-- The least integer of 64 bits. -/
def leastInt : Int := -9223372036854775808

/-- The greatest integer of 64 bits. -/
def greatestInt : Int := 9223372036854775807

end LineScript
