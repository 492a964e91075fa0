import LineScript.Expr.Function
import LineScript.Proofs.Binary64.Wholes

/-!
# Rounding integers

`Floor`, `Ceil` and `Round` round doubles, integers too. So all three give an integer's nearest double, cut to the range of the
integers, and leave the integer alone where a double can hold it (`Function.rounded_integer`). Integers with more than 53 digits
before the zeros they end with are changed, the greatest integer aside (`Function.rounding_misses_integer`).
-/

namespace LineScript

namespace Function

section

variable {n : Int64}

/-- The double of an integer stands for the nearest whole number that is a double. -/
theorem standsFor_integer (n : Int64) : Binary64.StandsFor (Number.int n).toFloat.toModel.unpack (Binary64.nearest n.toInt) := by
  have hlow := n.le_toInt
  have hhigh := n.toInt_lt
  exact Binary64.standsFor_ofInt (by omega)

/-- An integer that is rounded has gone through a double and back. -/
theorem toWhole_integer (r : Binary64.Rounding) (n : Int64) :
    toWhole r (some (.int n)) = .int (Binary64.throughDouble n) :=
  congrArg Value.int (Binary64.toInt64_of_nearest r (standsFor_integer n))

/-- Without places a number is divided by one, rounded and multiplied by one. -/
theorem roundTo_integer (n : Int64) : roundTo (some (.int n)) none = .int (Binary64.throughDouble n) := by
  have hsize : (Binary64.nearest n.toInt).natAbs ≤ 2 ^ 64 := by
    have hlow : -9223372036854775808 ≤ Binary64.nearest n.toInt := (Binary64.nearest_bounds n).1
    have hhigh : Binary64.nearest n.toInt ≤ 9223372036854775808 := (Binary64.nearest_bounds n).2
    omega
  have hquotient := Binary64.standsFor_div_one (standsFor_integer n) hsize
  have hproduct := Binary64.standsFor_mul_one hquotient hsize
  change Value.int (Binary64.toInt64 .toZero (Binary64.roundWith .nearest ((Number.int n).toFloat / 1.0) * 1.0)) = _
  rw [Binary64.roundWith_of_standsFor .nearest hquotient, Binary64.toInt64_of_nearest .toZero hproduct]

/-- The functions that round to an integer. -/
def Rounds (f : Function) : Prop :=
  f = floor ∨ f = ceil ∨ f = round

/-- A function that rounds takes an integer through a double and back. -/
theorem call_integer {name : String} {f : Function} (hname : ofName? name = some f) (hf : f.Rounds) {v : Value}
    (hv : v.toNumber? = some (.int n)) : call name [v] = .ok (.int (Binary64.throughDouble n)) := by
  rw [call, hname]
  rcases hf with rfl | rfl | rfl
  · change Except.ok (toWhole .down v.toNumber?) = _
    rw [hv, toWhole_integer]
  · change Except.ok (toWhole .up v.toNumber?) = _
    rw [hv, toWhole_integer]
  · change Except.ok (roundTo v.toNumber? none) = _
    rw [hv, roundTo_integer]

/-- Whatever spelling of the three names and whatever value that is an integer: `Floor`, `Ceil` and `Round` give the integer's
nearest double, cut to the range of the integers. That is the integer itself if a double can hold it or it is the greatest one, and
another one otherwise. -/
theorem rounded_integer {name : String} {f : Function} (hname : ofName? name = some f) (hf : f.Rounds) {v : Value}
    (hv : v.toNumber? = some (.int n)) :
    call name [v] = .ok (.int (Binary64.throughDouble n)) ∧
    (call name [v] = .ok (.int n) ↔ Binary64.FitsDouble n.toInt ∨ n = Int64.maxValue) := by
  have hcall := call_integer hname hf hv
  refine ⟨hcall, ?_⟩
  rw [hcall, Except.ok.injEq, Value.int.injEq, Binary64.throughDouble_eq_self_iff]

/-- The least integer, in hexadecimal digits, is left alone by rounding. -/
theorem rounded_integer_least :
    ofName? "ROUND" = some round ∧ round.Rounds ∧ (Value.text " 0x8000000000000000").toNumber? = some (.int Int64.minValue) ∧
      call "ROUND" [.text " 0x8000000000000000"] = .ok (.int Int64.minValue) := by
  have hname : ofName? "ROUND" = some round := rfl
  have hrounds : round.Rounds := .inr (.inr rfl)
  have hv : (Value.text " 0x8000000000000000").toNumber? = some (.int Int64.minValue) := rfl
  have hleast : Binary64.FitsDouble Int64.minValue.toInt := ⟨-1, 63, by decide, by decide⟩
  exact ⟨hname, hrounds, hv, (rounded_integer hname hrounds hv).2.mpr (.inl hleast)⟩

/-- The nearest double of `2 ^ 53 + 1` is `2 ^ 53`. -/
theorem rounding_misses_integer :
    call "Floor" [.int 9007199254740993] = .ok (.int 9007199254740992) ∧
      call "Ceil" [.int 9007199254740993] = .ok (.int 9007199254740992) ∧
      call "Round" [.int 9007199254740993] = .ok (.int 9007199254740992) := by
  have hthrough : Binary64.throughDouble 9007199254740993 = 9007199254740992 := by decide +kernel
  rw [← hthrough]
  exact ⟨call_integer rfl (.inl rfl) rfl, call_integer rfl (.inr (.inl rfl)) rfl, call_integer rfl (.inr (.inr rfl)) rfl⟩

end

end Function

end LineScript
