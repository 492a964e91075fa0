import LineScript.Engine.Statement
import Mathlib.Data.Rat.Floor

/-!
# Division of integers

`//` rounds quotients down, `Mod` and `/=` cut them toward zero. On integers all three give what the exact quotient gives, taken
into 64 bits (`Arith.divisions_of_integers`). Only the least integer over minus one has a quotient that needs that: otherwise no
step of a division leaves the range, the one that corrects a quotient downward included (`Arith.stepsExact`).
-/

namespace LineScript

namespace Arith

/-! ## Quotients of whole numbers -/

/-- A rational number cut toward zero. -/
def towardZero (q : ℚ) : ℤ :=
  if 0 ≤ q then ⌊q⌋ else ⌈q⌉

/-- Rounding toward zero does not depend on the sign. -/
theorem towardZero_neg (q : ℚ) : towardZero (-q) = -towardZero q := by
  unfold towardZero
  rcases lt_trichotomy q 0 with hq | rfl | hq
  · rw [if_pos (neg_nonneg.mpr hq.le), if_neg (not_le.mpr hq), Int.floor_neg]
  · simp
  · rw [if_neg (not_le.mpr (neg_neg_of_pos hq)), if_pos hq.le, Int.ceil_neg]

/-- Rounding a quotient down is floor division. -/
theorem floor_div (x y : ℤ) : ⌊(x / y : ℚ)⌋ = x.fdiv y := by
  obtain ⟨d, rfl | rfl⟩ := y.eq_nat_or_neg
  · rw [Int.cast_natCast, Rat.floor_intCast_div_natCast, Int.fdiv_eq_ediv_of_nonneg _ (Int.natCast_nonneg d)]
  · have hsigns : (x / (-d : ℤ) : ℚ) = (-x : ℤ) / (d : ℕ) := by
      push_cast
      rw [div_neg, neg_div]
    rw [hsigns, Rat.floor_intCast_div_natCast, ← Int.fdiv_eq_ediv_of_nonneg _ (Int.natCast_nonneg d), ← Int.neg_fdiv_neg x,
      neg_neg]

/-- Cutting a quotient toward zero is truncated division. -/
theorem towardZero_div (x y : ℤ) : towardZero (x / y) = x.tdiv y := by
  have hnat (n d : ℕ) : towardZero ((n : ℚ) / d) = (n : ℤ).tdiv d := by
    rw [towardZero, if_pos (by positivity), Rat.floor_natCast_div_natCast]
    rfl
  obtain ⟨n, rfl | rfl⟩ := x.eq_nat_or_neg <;> obtain ⟨d, rfl | rfl⟩ := y.eq_nat_or_neg
  · exact hnat n d
  · rw [Int.cast_neg, div_neg, towardZero_neg, Int.tdiv_neg]
    exact congrArg Neg.neg (hnat n d)
  · rw [Int.cast_neg, neg_div, towardZero_neg, Int.neg_tdiv]
    exact congrArg Neg.neg (hnat n d)
  · rw [Int.cast_neg, Int.cast_neg, neg_div_neg_eq, Int.neg_tdiv, Int.tdiv_neg, neg_neg]
    exact hnat n d

/-- Rounding down is cutting toward zero, less one where the quotient is negative and not whole. -/
theorem fdiv_eq_ite {x y : ℤ} (hy : y ≠ 0) : x.fdiv y = x.tdiv y - if ¬ y ∣ x ∧ ¬ (x < 0 ↔ y < 0) then 1 else 0 := by
  rw [Int.fdiv_eq_tdiv]
  by_cases hdvd : y ∣ x
  · simp [hdvd]
  rcases lt_or_gt_of_ne hy with hneg | hpos
  · simp only [hdvd, hneg, not_le.mpr hneg, Int.sign_eq_neg_one_of_neg hneg, ← not_lt (a := x)]
    by_cases hx : x < 0 <;> simp [hx]
  · simp only [hdvd, hpos.le, not_lt.mpr hpos.le, Int.sign_eq_one_of_pos hpos, ← not_lt (a := x)]
    by_cases hx : x < 0 <;> simp [hx]

/-! ## Quotients of words -/

section

variable {x y : Int64}

/-- Dividing integers rounds the quotient toward zero and wraps. -/
theorem div_eq_ofInt (x y : Int64) : x / y = Int64.ofInt (towardZero (x.toInt / y.toInt)) := by
  rw [towardZero_div, ← Int64.toInt_inj, Int64.toInt_div, Int64.toInt_ofInt]

/-- The remainder is what is left of the quotient rounded toward zero. -/
theorem toInt_mod_eq (x y : Int64) : (x % y).toInt = x.toInt - y.toInt * towardZero (x.toInt / y.toInt) := by
  rw [towardZero_div, Int64.toInt_mod, Int.tmod_def]

/-- There is a remainder exactly if the divisor does not divide the dividend. -/
theorem mod_ne_zero_iff (x y : Int64) : x % y ≠ 0 ↔ ¬ y.toInt ∣ x.toInt := by
  rw [Int.dvd_iff_tmod_eq_zero, ← Int64.toInt_mod, ← Int64.toInt_zero, Int64.toInt_inj]

/-- A quotient is corrected downward if it is negative and not whole. -/
theorem floorDiv_eq_ite (x y : Int64) :
    floorDiv x y = if ¬ y.toInt ∣ x.toInt ∧ ¬ (x.toInt < 0 ↔ y.toInt < 0) then x / y - 1 else x / y := by
  have hsigns : (decide (x < 0) != decide (y < 0)) = true ↔ ¬ (x.toInt < 0 ↔ y.toInt < 0) := by
    rw [bne_iff_ne, ne_eq, decide_eq_decide, Int64.lt_iff_toInt_lt, Int64.lt_iff_toInt_lt, Int64.toInt_zero]
  unfold floorDiv
  simp only [Bool.and_eq_true, bne_iff_ne, mod_ne_zero_iff, hsigns]

/-- Floor division rounds the quotient down and wraps. -/
theorem floorDiv_eq_ofInt (hy : y ≠ 0) : floorDiv x y = Int64.ofInt ⌊(x.toInt / y.toInt : ℚ)⌋ := by
  have hdivisor : y.toInt ≠ 0 := fun h => hy (Int64.toInt_inj.mp h)
  rw [floorDiv_eq_ite, floor_div, fdiv_eq_ite hdivisor, Int64.ofInt_sub, div_eq_ofInt, towardZero_div]
  split
  · rfl
  · exact (Int64.sub_zero _).symm

/-- No step of a division leaves 64 bits: neither the quotient cut toward zero, nor the remainder, nor the correction of a quotient
that is rounded down. -/
structure StepsExact (x y : Int64) : Prop where
  quotient : (x / y).toInt = towardZero (x.toInt / y.toInt)
  remainder : (x % y).toInt = x.toInt - y.toInt * towardZero (x.toInt / y.toInt)
  correction : x % y ≠ 0 → (x / y - 1).toInt = (x / y).toInt - 1
  floor : (floorDiv x y).toInt = ⌊(x.toInt / y.toInt : ℚ)⌋

/-- But for the least integer divided by minus one, the quotient does not wrap. -/
theorem toInt_div_of_not_edge (hedge : ¬ (x = Int64.minValue ∧ y = -1)) : (x / y).toInt = x.toInt.tdiv y.toInt := by
  rcases Decidable.not_and_iff_or_not.mp hedge with hx | hy
  · exact Int64.toInt_div_of_ne_left x y hx
  · exact Int64.toInt_div_of_ne_right x y hy

/-- A quotient that is not whole is at most half as large as the dividend. -/
theorem natAbs_tdiv_le {x y : ℤ} (hy : y ≠ 0) (hdvd : ¬ y ∣ x) : (x.tdiv y).natAbs ≤ x.natAbs / 2 := by
  have htwo : 2 ≤ y.natAbs := by
    by_contra hless
    have hone : y.natAbs = 1 := by omega
    exact hdvd (Int.natAbs_dvd_natAbs.mp (hone ▸ Nat.one_dvd _))
  rw [Int.natAbs_tdiv]
  exact Nat.div_le_div_left htwo Nat.two_pos

/-- Only the least integer over minus one has a quotient that does not fit. -/
theorem stepsExact (hy : y ≠ 0) (hedge : ¬ (x = Int64.minValue ∧ y = -1)) : StepsExact x y := by
  have hdivisor : y.toInt ≠ 0 := fun h => hy (Int64.toInt_inj.mp h)
  have hquotient := toInt_div_of_not_edge hedge
  have hcorrection (hdvd : ¬ y.toInt ∣ x.toInt) : (x / y - 1).toInt = (x / y).toInt - 1 := by
    have hsmall := natAbs_tdiv_le hdivisor hdvd
    have hlow := x.le_toInt
    have hhigh := x.toInt_lt
    rw [Int64.toInt_sub, hquotient, Int64.toInt_one]
    exact Int.bmod_eq_of_le (by omega) (by omega)
  refine ⟨by rw [hquotient, towardZero_div], toInt_mod_eq x y, fun hrest => hcorrection ((mod_ne_zero_iff x y).mp hrest), ?_⟩
  rw [floorDiv_eq_ite, floor_div, fdiv_eq_ite hdivisor, ← hquotient]
  split
  · exact hcorrection ‹_ ∧ _›.1
  · exact (Int.sub_zero _).symm

end

/-! ## The divisions of a program -/

section

variable {a b : Value} {x y : Int64}

/-- Floor division of two integers fails for a divisor of zero only. -/
theorem apply_floorDiv (ha : a.toNumber? = some (.int x)) (hb : b.toNumber? = some (.int y)) :
    apply .floorDiv a b = if y = 0 then .error .divideByZero else .ok (.int (floorDiv x y)) := by
  change onValues .floorDiv a b = _
  rw [onValues, ha, hb]
  change (if y == 0 then _ else _) = _
  simp only [beq_iff_eq]

/-- Called on two integers, `Mod` gives their remainder, or fails for a divisor of zero. -/
theorem call_mod {name : String} (hname : Function.ofName? name = some .mod) (ha : a.toNumber? = some (.int x))
    (hb : b.toNumber? = some (.int y)) :
    Function.call name [a, b] = if y = 0 then .error .divideByZero else .ok (.int (x % y)) := by
  rw [Function.call, hname]
  change Function.remainder a.toNumber? b.toNumber? = _
  rw [ha, hb]
  change (if y == 0 then _ else _) = _
  simp only [beq_iff_eq]

/-- The operator that divides a variable gives the quotient of two integers, or fails for a divisor of zero. -/
theorem assigned_div (setup : Setup) {engine : Engine} {var : VarId} {args : ExpandedArgs}
    (hcurrent : (engine.vars.get var).toNumber? = some (.int x)) (hoperand : Number.ofText? (args.text 1) = some (.int y)) :
    engine.assigned setup .div var args = if y = 0 then .error .divideByZero else .ok (.int (x / y)) := by
  change assign .div ((engine.vars.get var).toNumber?.getD _) ((Number.ofText? (args.text 1)).getD _) = _
  rw [hcurrent, hoperand]
  change (if y == 0 then _ else _) = _
  simp only [beq_iff_eq]

/-- The three divisions of integers. Each refuses to divide by zero. Otherwise `//` gives the exact quotient rounded down, `Mod` what
the quotient cut toward zero leaves, and `/=` that quotient, each taken into 64 bits; and unless the least integer is divided by
minus one, every step is exact. -/
theorem divisions_of_integers (setup : Setup) (ha : a.toNumber? = some (.int x)) (hb : b.toNumber? = some (.int y)) {name : String}
    (hname : Function.ofName? name = some .mod) {engine : Engine} {var : VarId} {args : ExpandedArgs}
    (hcurrent : (engine.vars.get var).toNumber? = some (.int x)) (hoperand : Number.ofText? (args.text 1) = some (.int y)) :
    (y = 0 →
      apply .floorDiv a b = .error .divideByZero ∧
      Function.call name [a, b] = .error .divideByZero ∧
      engine.assigned setup .div var args = .error .divideByZero) ∧
    (y ≠ 0 →
      apply .floorDiv a b = .ok (.int (Int64.ofInt ⌊(x.toInt / y.toInt : ℚ)⌋)) ∧
      Function.call name [a, b] = .ok (.int (Int64.ofInt (x.toInt - y.toInt * towardZero (x.toInt / y.toInt)))) ∧
      engine.assigned setup .div var args = .ok (.int (Int64.ofInt (towardZero (x.toInt / y.toInt)))) ∧
      (¬ (x = Int64.minValue ∧ y = -1) → StepsExact x y)) := by
  rw [apply_floorDiv ha hb, call_mod hname ha hb, assigned_div setup hcurrent hoperand]
  constructor
  · intro hzero
    simp only [if_pos hzero, and_self]
  · intro hy
    rw [if_neg hy, if_neg hy, if_neg hy, floorDiv_eq_ofInt hy, div_eq_ofInt, ← toInt_mod_eq, Int64.ofInt_toInt]
    exact ⟨rfl, rfl, rfl, stepsExact hy⟩

/-- A program without lines, whose commands do nothing. -/
def idle : Setup where
  script := default
  config := {}
  perform := fun _ => {}
  errorLevel := 0

/-- An engine with one variable, which holds minus seven. -/
def holdingMinusSeven : Engine where
  vars := { slots := #[{ name := "n", key := "n", value := .int (-7), builtin := none }] }
  world := default
  scratch := { limit := 64 }
  freshMs := 0
  freshLines := 0

/-- Minus seven is divided by two in all three ways, and the operator that divides a variable refuses zero. -/
theorem divisions_of_minusSeven :
    apply .floorDiv (.text "-7") (.int 2) = .ok (.int (-4)) ∧
      Function.call "MOD" [.text "-7", .int 2] = .ok (.int (-1)) ∧
      holdingMinusSeven.assigned idle .div 0 [.output (some 0), .text "0x2"] = .ok (.int (-3)) ∧
      StepsExact (-7) 2 ∧
      holdingMinusSeven.assigned idle .div 0 [.output (some 0), .text "0"] = .error .divideByZero := by
  have hx : (Value.text "-7").toNumber? = some (.int (-7)) := rfl
  have hname : Function.ofName? "MOD" = some .mod := rfl
  have hcurrent : (holdingMinusSeven.vars.get 0).toNumber? = some (.int (-7)) := rfl
  have htwo : Number.ofText? (ExpandedArgs.text [.output (some 0), .text "0x2"] 1) = some (.int 2) := rfl
  have hzero : Number.ofText? (ExpandedArgs.text [.output (some 0), .text "0"] 1) = some (.int 0) := rfl
  have h := (divisions_of_integers idle hx (b := .int 2) rfl hname hcurrent htwo).2 (by decide)
  have hrefused := (divisions_of_integers idle hx (b := .int 0) rfl hname hcurrent hzero).1 rfl
  rw [floor_div, towardZero_div] at h
  exact ⟨h.1, h.2.1, h.2.2.1, h.2.2.2 (by decide), hrefused.2.2⟩

end

end Arith

end LineScript
