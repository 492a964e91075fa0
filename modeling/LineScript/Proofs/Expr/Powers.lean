import LineScript.Proofs.Engine.Notations
import Mathlib.Algebra.Ring.Int.Parity

/-!
# Powers of integers

A power of integers is exact where it fits into 64 bits and its exponent into 32, and is computed in doubles otherwise
(`Arith.power_eq_int_iff`). Larger exponents leave nothing in range but the powers of zero and of plus and minus one, and these are
the powers that fit and become doubles (`Expr.evaluate_power`, `Expr.power_misses_one`).
-/

namespace LineScript

namespace Arith

/-- A power of a base other than zero and plus or minus one outgrows 64 bits at the exponent 64 at the latest. -/
theorem pow_outgrows {b : ℤ} (hb : 1 < b.natAbs) {k : ℕ} (hk : 63 < k) (n : Int64) : b ^ k ≠ n.toInt := by
  intro heq
  have hlarge : 2 ^ 64 ≤ (b ^ k).natAbs := by
    rw [Int.natAbs_pow]
    calc
      2 ^ 64 ≤ b.natAbs ^ 64 := Nat.pow_le_pow_left hb 64
      _ ≤ b.natAbs ^ k := Nat.pow_le_pow_right (by omega) hk
  have hlow := n.le_toInt
  have hhigh := n.toInt_lt
  omega

/-- The powers of zero and of plus and minus one. -/
theorem pow_of_natAbs_le_one {b : ℤ} (hb : b.natAbs ≤ 1) (k : ℕ) :
    b ^ k = if k = 0 then 1 else if b = -1 ∧ k % 2 = 0 then 1 else b := by
  by_cases hk : k = 0
  · rw [if_pos hk, hk, pow_zero]
  rw [if_neg hk]
  obtain rfl | rfl | rfl : b = 0 ∨ b = 1 ∨ b = -1 := by omega
  · rw [zero_pow hk]
    rfl
  · rw [one_pow]
    rfl
  · rcases k.mod_two_eq_zero_or_one with heven | hodd
    · rw [(Nat.even_iff.mpr heven).neg_one_pow, if_pos ⟨rfl, heven⟩]
    · rw [(Nat.odd_iff.mpr hodd).neg_one_pow, if_neg (by omega)]

section

variable {b e n : Int64} {k : ℕ}

/-- Exponents of more than 32 bits are refused. -/
theorem refused_iff (hk : e.toInt = k) :
    (decide (e.toInt < 0) || decide ((values32 : ℤ) ≤ e.toInt)) = true ↔ 2 ^ 32 ≤ k := by
  rw [hk, values32, Bool.or_eq_true, decide_eq_true_iff, decide_eq_true_iff]
  omega

theorem unit_iff (b : ℤ) : (b == 0 || b == 1 || b == -1) = true ↔ b.natAbs ≤ 1 := by
  simp only [Bool.or_eq_true, beq_iff_eq]
  omega

/-- No power is computed in integers where the exponent has more than 32 bits. -/
theorem intPower?_of_le (hk : e.toInt = k) (hlarge : 2 ^ 32 ≤ k) : intPower? b e = none := by
  rw [intPower?]
  exact if_pos ((refused_iff hk).mpr hlarge)

/-- Bases up to one take a way of their own, which multiplies nothing. -/
theorem intPower?_of_natAbs_le_one (hk : e.toInt = k) (hsmall : k < 2 ^ 32) (hb : b.toInt.natAbs ≤ 1) :
    ∃ m : Int64, intPower? b e = some m ∧ m.toInt = b.toInt ^ k := by
  refine ⟨if e.toInt == 0 then 1 else if b.toInt == -1 && e.toInt % 2 == 0 then 1 else b, ?_, ?_⟩
  · rw [intPower?]
    exact (if_neg fun h => Nat.not_le.mpr hsmall ((refused_iff hk).mp h)).trans (if_pos ((unit_iff _).mpr hb))
  · have hzero : (e.toInt == 0) = true ↔ k = 0 := by
      rw [beq_iff_eq, hk]
      omega
    have heven : (b.toInt == -1 && e.toInt % 2 == 0) = true ↔ b.toInt = -1 ∧ k % 2 = 0 := by
      rw [Bool.and_eq_true, beq_iff_eq, beq_iff_eq, hk]
      omega
    rw [pow_of_natAbs_le_one hb]
    simp only [hzero, heven]
    split
    · rfl
    · split <;> rfl

/-- A power of a base beyond one is computed in integers if its value is in range, which it is not beyond the exponent 63. -/
theorem intPower?_of_lt_natAbs (hk : e.toInt = k) (hsmall : k < 2 ^ 32) (hb : 1 < b.toInt.natAbs) :
    intPower? b e =
      if 63 < k then none
      else if leastInt ≤ b.toInt ^ k ∧ b.toInt ^ k ≤ greatestInt then some (Int64.ofInt (b.toInt ^ k)) else none := by
  have hbound : (63 : ℤ) < (k : ℤ) ↔ 63 < k := by omega
  rw [intPower?]
  refine (if_neg fun h => Nat.not_le.mpr hsmall ((refused_iff hk).mp h)).trans ((if_neg fun h => ?_).trans ?_)
  · exact Nat.not_le.mpr hb ((unit_iff _).mp h)
  · simp only [hk, hbound, Int.toNat_natCast, Bool.and_eq_true, decide_eq_true_iff]
    rfl

/-- The integer power is given where the exponent has 32 bits and the power 64. -/
theorem intPower?_eq_some_iff (he : 0 ≤ e.toInt) :
    intPower? b e = some n ↔ e.toInt < 2 ^ 32 ∧ b.toInt ^ e.toInt.toNat = n.toInt := by
  obtain ⟨k, hk⟩ := Int.eq_ofNat_of_zero_le he
  rcases Nat.lt_or_ge k (2 ^ 32) with hsmall | hlarge
  · have hexponent : e.toInt < 2 ^ 32 := by omega
    rw [and_iff_right hexponent, hk, Int.toNat_natCast]
    rcases Nat.lt_or_ge 1 b.toInt.natAbs with hb | hb
    · rw [intPower?_of_lt_natAbs hk hsmall hb]
      split
      · rename_i houtgrown
        exact iff_of_false nofun (pow_outgrows hb houtgrown n)
      split
      · rename_i hfits
        rw [Option.some.injEq, ← Int64.toInt_inj, Int64.toInt_ofInt_of_le hfits.1 (Int.lt_add_one_of_le hfits.2)]
      · rename_i houtside
        refine iff_of_false nofun fun heq => houtside ?_
        rw [heq]
        exact ⟨n.le_toInt, Int.le_of_lt_add_one n.toInt_lt⟩
    · obtain ⟨m, hm, hvalue⟩ := intPower?_of_natAbs_le_one hk hsmall hb
      rw [hm, ← hvalue, Int64.toInt_inj, Option.some.injEq]
  · rw [intPower?_of_le hk hlarge]
    exact iff_of_false nofun fun h => by omega

end

/-- A power of integers is a certain integer exactly if the exponent has at most 32 bits and the value is that integer. -/
theorem power_eq_int_iff {base exponent : Value} {b e : Int64} (hbase : base.toNumber? = some (.int b))
    (hexponent : exponent.toNumber? = some (.int e)) (he : 0 ≤ e.toInt) (n : Int64) :
    power base exponent = .int n ↔ e.toInt < 2 ^ 32 ∧ b.toInt ^ e.toInt.toNat = n.toInt := by
  rw [← intPower?_eq_some_iff he]
  simp only [power, hbase, hexponent]
  cases intPower? b e with
  | some m => simp
  | none =>
    dsimp only
    split <;> simp [Value.empty]

end Arith

namespace Expr

/-- A power of two terms has the power of their values. -/
theorem value_power {env : Environment} {base exponent : Term} {quiet : Bool} {v w : Value} (hv : base.value env quiet = .ok v)
    (hw : exponent.value env quiet = .ok w) : (base.power exponent).value env quiet = .ok (Arith.power v w) := by
  rw [Term.value, hv, hw]
  rfl

/-- Whatever two operands are written as: if their values are integers and the second one is not negative, raising the first to the
second gives an integer exactly where the exponent has 32 bits and the power fits into 64, and then the integer is the power. The
powers that fit with a larger exponent are those of zero and of plus and minus one. -/
theorem evaluate_power (style : Style) (base exponent : Term) {vars vars' : Variables}
    (hnames : Reference.declare vars (base.power exponent).names = .ok vars') :
    ∃ derefs,
      Reference.inExpr vars (.ofList (written (style.parenthesized ((base.power exponent).pieces style)))) = .ok (vars', derefs) ∧
      ∀ (lookup : Lookup) (v w : Value) (b e : Int64),
        base.value (environment vars' lookup) false = .ok v → exponent.value (environment vars' lookup) false = .ok w →
        v.toNumber? = some (.int b) → w.toNumber? = some (.int e) → 0 ≤ e.toInt →
        (∀ n : Int64,
          evaluate (.ofList (written (style.parenthesized ((base.power exponent).pieces style)))) derefs lookup = .ok (.int n) ↔
            e.toInt < 2 ^ 32 ∧ b.toInt ^ e.toInt.toNat = n.toInt) ∧
        (2 ^ 32 ≤ e.toInt → leastInt ≤ b.toInt ^ e.toInt.toNat → b.toInt ^ e.toInt.toNat ≤ greatestInt → b.toInt.natAbs ≤ 1) := by
  obtain ⟨derefs, hderefs, -, hevaluate⟩ := evaluate_parenthesized style (base.power exponent) hnames
  refine ⟨derefs, hderefs, fun lookup v w b e hv hw hb he hnonneg => ⟨fun n => ?_, fun hlarge hlow hhigh => ?_⟩⟩
  · rw [hevaluate, value_power hv hw, ← Arith.power_eq_int_iff hb he hnonneg, Except.ok.injEq]
  · by_contra hmore
    refine Arith.pow_outgrows (Nat.lt_of_not_le hmore) (k := e.toInt.toNat) (by omega) (Int64.ofInt (b.toInt ^ e.toInt.toNat)) ?_
    exact (Int64.toInt_ofInt_of_le hlow (Int.lt_add_one_of_le hhigh)).symm

/-- The least integer is a power that is evaluated exactly. -/
theorem evaluate_power_least :
    ∃ derefs, evaluate "((-2) ** 63)" derefs (fun _ => .ok .empty) = .ok (.int Int64.minValue) := by
  let base : Term := .signed .minus (.number { chars := ['2'] })
  let exponent : Term := .number { chars := ['6', '3'] }
  have hnames : Reference.declare {} (base.power exponent).names = .ok {} := rfl
  obtain ⟨derefs, -, hevaluate⟩ := evaluate_power spaced base exponent hnames
  exact ⟨derefs, ((hevaluate (fun _ => .ok .empty) (.int (-2)) (.int 63) (-2) 63 rfl rfl rfl rfl (by decide)).1 Int64.minValue).mpr
    ⟨by decide, by decide⟩⟩

/-- One to the power `2 ^ 32` is one, but the exponent has 33 bits. -/
theorem power_misses_one :
    (1 : ℤ) ^ 4294967296 = 1 ∧ evaluate "(1 ** 4294967296)" [] (fun _ => .ok .empty) ≠ .ok (.int 1) := by
  refine ⟨one_pow _, fun h => ?_⟩
  let base : Term := .number { chars := ['1'] }
  let exponent : Term := .number { chars := ['4', '2', '9', '4', '9', '6', '7', '2', '9', '6'] }
  have hnames : Reference.declare {} (base.power exponent).names = .ok {} := rfl
  obtain ⟨derefs, -, hnone, hevaluate⟩ := evaluate_parenthesized spaced (base.power exponent) hnames
  obtain rfl := List.eq_nil_of_length_eq_zero hnone
  have hpower := (hevaluate fun _ => .ok .empty).symm.trans h
  rw [value_power (v := .int 1) (w := .int 4294967296) rfl rfl] at hpower
  have hexponent := ((Arith.power_eq_int_iff rfl rfl (by decide) 1).mp (Except.ok.inj hpower)).1
  exact absurd hexponent (by decide)

end Expr

end LineScript
