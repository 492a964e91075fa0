import LineScript.Value
import LineScript.Proofs.Binary64.Nearest

/-!
# The double of a whole number

`Float.ofInt` rounds to 53 binary digits, as `Binary64.nearest` does: what its result is made of stands for the nearest whole number
(`Binary64.standsFor_ofInt`). Doubles that stand for whole numbers are in the order of these, so comparing integers as doubles is
comparing their nearest doubles (`Binary64.ofInt_le_ofInt_iff`).
-/

namespace LineScript

namespace Binary64

open Float.Model (Format UnpackedFloat totalExponent)
open Float.Model.UnpackedFloat (Sign ExtendedMantissa packComponents unpackSign unpackExponent unpackMantissa)

/-! ## Packing -/

/-- The sign bit of what was packed is the sign. -/
theorem unpackSign_packComponents {spec : Format} {sign : Sign} {exponent : BitVec spec.exponentBits}
    {mantissa : BitVec spec.mantissaBitsWithoutImplicit} :
    unpackSign (packComponents spec sign exponent mantissa) = sign.toBitVec := by
  have hbit : (sign.toBitVec ++ exponent ++ mantissa).getLsbD (spec.mantissaBitsWithoutImplicit + spec.exponentBits) =
      sign.toBitVec[0] := by
    rw [BitVec.getLsbD_append, if_neg (Nat.not_lt.mpr (Nat.le_add_right _ _)), Nat.add_sub_cancel_left, BitVec.getLsbD_append,
      if_neg (Nat.lt_irrefl _), Nat.sub_self, BitVec.getLsbD_eq_getElem]
  ext i hi
  obtain rfl : i = 0 := by omega
  simpa [unpackSign, packComponents] using hbit

theorem ofBitVec_toBitVec (s : Sign) : Sign.ofBitVec s.toBitVec = s := by
  cases s <;> rfl

/-- A mantissa of 53 digits lies between the powers of two that have 53 and 54 digits. -/
theorem mantissa_bounds {m : Nat} (hdigits : m.log2 = 52) : 2 ^ 52 ≤ m ∧ m < 2 ^ 53 := by
  have hne : m ≠ 0 := by
    rintro rfl
    cases hdigits
  exact (Nat.log2_eq_iff hne).mp hdigits

/-- The leading digit of a mantissa is not stored, and put back when it is read. -/
theorem toNat_leadingOne {m : Nat} (hdigits : m.log2 = 52) : (1#1 ++ BitVec.ofNat 52 m).toNat = m := by
  obtain ⟨hlow, hhigh⟩ := mantissa_bounds hdigits
  have hrest : m % 2 ^ 52 < 2 ^ 52 := Nat.mod_lt _ (Nat.two_pow_pos 52)
  rw [BitVec.toNat_append, BitVec.toNat_ofNat, BitVec.toNat_ofNat, ← Nat.shiftLeft_add_eq_or_of_lt hrest]
  omega

/-- A double with 53 digits whose exponent is in range is read back from its bits. -/
theorem unpack_pack {s : Sign} {m : Nat} {e : Int} (hpos : 0 < m) (hdigits : m.log2 = 52) (hlow : -1074 ≤ e) (hhigh : e ≤ 971) :
    (Float.Model.pack (.finite s m e hpos)).unpack = .finite s m e hpos := by
  change UnpackedFloat.unpack Format.binary64 (UnpackedFloat.pack Format.binary64 (.finite s m e hpos)) = _
  have hbias : Format.binary64.exponentBias = 1023 := rfl
  have hbits : Format.binary64.mantissaBits = 53 := rfl
  obtain ⟨k, hk⟩ : ∃ k : Nat, e + (1023 : Nat) + (52 : Nat) = k := Int.eq_ofNat_of_zero_le (by omega)
  have hexponent : (BitVec.ofNat 11 k).toNat = k := Nat.mod_eq_of_lt (by omega)
  have hfinite : ¬ BitVec.ofNat 11 k = -1#11 := by
    intro h
    have hall : k = 2047 := hexponent.symm.trans (congrArg BitVec.toNat h)
    omega
  have hnormal : ¬ BitVec.ofNat 11 k = 0#11 := by
    intro h
    have hnone : k = 0 := hexponent.symm.trans (congrArg BitVec.toNat h)
    omega
  unfold UnpackedFloat.pack
  dsimp only
  rw [if_neg (by rw [hbias]; omega), if_pos (by rw [hdigits, hbits]), hbias, hk, Int.toNat_natCast]
  unfold UnpackedFloat.unpack
  simp only [Float.Model.UnpackedFloat.unpackExponent_packComponents, Float.Model.UnpackedFloat.unpackMantissa_packComponents,
    unpackSign_packComponents, hfinite, hnormal, if_false, toNat_leadingOne hdigits, ofBitVec_toBitVec, hexponent, hbias]
  congr 1
  omega

/-! ## Rounding -/

/-- What a shift to the right leaves of an exact mantissa: the quotient, whether the rest is half of the divisor or more, and
whether it is anything else than nothing or the half. -/
theorem shiftRight_exact (m j : Nat) :
    (ExtendedMantissa.mk m false false >>> j) =
      ⟨m / 2 ^ j, decide (2 ^ j ≤ 2 * (m % 2 ^ j)), decide (2 * (m % 2 ^ j) % 2 ^ j ≠ 0)⟩ := by
  induction j with
  | zero =>
    change ExtendedMantissa.mk m false false = _
    simp [Nat.mod_one]
  | succ j ih =>
    change ExtendedMantissa.shiftRightOne (ExtendedMantissa.mk m false false >>> j) = _
    rw [ih]
    have hlt : m % 2 ^ j < 2 ^ j := Nat.mod_lt _ (Nat.two_pow_pos j)
    -- the digit that is shifted out next is the highest one of the new rest
    have hrest : m % 2 ^ (j + 1) = m % 2 ^ j + 2 ^ j * (m / 2 ^ j % 2) := by rw [Nat.pow_succ, Nat.mod_mul]
    have hsticky : 2 * (m % 2 ^ (j + 1)) % 2 ^ (j + 1) = 2 * (m % 2 ^ j) := by
      rw [hrest, Nat.pow_succ, Nat.mul_comm (2 ^ j) 2, Nat.mul_mod_mul_left, Nat.add_mul_mod_self_left, Nat.mod_eq_of_lt hlt]
    have hround : 2 ^ (j + 1) ≤ 2 * (m % 2 ^ (j + 1)) ↔ m / 2 ^ j % 2 ≠ 0 := by
      rw [hrest, Nat.pow_succ]
      rcases Nat.mod_two_eq_zero_or_one (m / 2 ^ j) with h | h <;> rw [h] <;> omega
    have hany : (2 ^ j ≤ 2 * (m % 2 ^ j) ∨ 2 * (m % 2 ^ j) % 2 ^ j ≠ 0) ↔ 2 * (m % 2 ^ j) ≠ 0 := by
      rcases Nat.lt_or_ge (2 * (m % 2 ^ j)) (2 ^ j) with h | h
      · rw [Nat.mod_eq_of_lt h]
        omega
      · have hpos := Nat.two_pow_pos j
        omega
    simp only [ExtendedMantissa.shiftRightOne, hsticky, hround, ← hany, Nat.div_div_eq_div_mul, ← Nat.pow_succ,
      ExtendedMantissa.mk.injEq, true_and, Bool.decide_or]
    rcases Nat.mod_two_eq_zero_or_one (m / 2 ^ j) with h | h <;> rw [h] <;> decide

/-- A mantissa that was shifted is rounded as a quotient. -/
theorem roundedMantissa_shift (m j : Nat) :
    (ExtendedMantissa.mk m false false >>> j).roundedMantissa = halfEven m (2 ^ j) := by
  have hlt : m % 2 ^ j < 2 ^ j := Nat.mod_lt _ (Nat.two_pow_pos j)
  rw [shiftRight_exact]
  unfold halfEven
  dsimp only
  rcases Nat.lt_or_ge (2 * (m % 2 ^ j)) (2 ^ j) with h | h
  · rw [if_pos h, decide_eq_false (Nat.not_le.mpr h)]
    by_cases hrest : 2 * (m % 2 ^ j) % 2 ^ j ≠ 0
    · rw [decide_eq_true hrest]
      rfl
    · rw [decide_eq_false hrest]
      rfl
  · have hmod : 2 * (m % 2 ^ j) % 2 ^ j = 2 * (m % 2 ^ j) - 2 ^ j := by
      rw [Nat.mod_eq_sub_mod h, Nat.mod_eq_of_lt (by omega)]
    rw [if_neg (Nat.not_lt.mpr h), decide_eq_true h, hmod]
    by_cases hmore : 2 ^ j < 2 * (m % 2 ^ j)
    · rw [if_pos hmore, decide_eq_true (by omega)]
      rfl
    · rw [if_neg hmore, decide_eq_false (by omega)]
      rfl

/-- The last of 53 digits has the exponent a number is rounded to. -/
theorem targetExponent_eq {m : Nat} {e : Int} (hlow : -1022 ≤ m.log2 + e) :
    Format.binary64.targetExponent (totalExponent m e) = m.log2 + e - 52 := by
  have hbits : (Format.binary64.mantissaBits : Int) = 53 := rfl
  have hmin : Format.binary64.minExponent = -1074 := rfl
  simp only [Format.targetExponent, totalExponent, hbits, hmin]
  omega

/-- A mantissa of 53 digits or more is shifted until 53 are left. -/
theorem shiftToTargetExponent_exact {m : Nat} {e : Int} (hdigits : 52 ≤ m.log2) (hlow : -1022 ≤ m.log2 + e) :
    UnpackedFloat.shiftToTargetExponent Format.binary64 m e .exact =
      (ExtendedMantissa.mk m false false >>> (m.log2 - 52), e + (m.log2 - 52 : Nat)) := by
  have hshift : (m.log2 + e - 52 - e).toNat = m.log2 - 52 := by omega
  simp only [UnpackedFloat.shiftToTargetExponent, UnpackedFloat.shiftToExponent, targetExponent_eq hlow, hshift]
  rfl

/-! ## Whole numbers -/

/-- The parts of a double stand for a whole number, as zero or with 53 digits, and are in range. -/
inductive StandsFor : UnpackedFloat → Int → Prop
  | zero (s : Sign) : StandsFor (.zero s) 0
  | finite (s : Sign) {m : Nat} (hpos : 0 < m) (hdigits : m.log2 = 52) {e : Int} {up : Nat} (hplace : e = up - 52)
    (hfits : up ≤ 1023) {n : Nat} (hvalue : m * 2 ^ up = n * 2 ^ 52) : StandsFor (.finite s m e hpos) (s.apply n)

namespace StandsFor

variable {a b : UnpackedFloat} {x y : Int}

/-- What stands for a whole number is read back from its bits. -/
theorem unpack_pack (h : StandsFor a x) : (Float.Model.pack a).unpack = a := by
  cases h with
  | zero s => cases s <;> rfl
  | finite s hpos hdigits hplace hfits hvalue => exact Binary64.unpack_pack hpos hdigits (by omega) (by omega)

/-- The opposite stands for the opposite number. -/
theorem neg (h : StandsFor a x) : StandsFor a.neg (-x) := by
  cases h with
  | zero s => exact .zero (-s)
  | @finite s m hpos hdigits e up hplace hfits n hvalue =>
    have hsign : -s.apply n = (-s).apply n := by
      cases s
      · exact Int.neg_neg _
      · rfl
    rw [hsign]
    exact .finite (-s) hpos hdigits hplace hfits hvalue

/-- Rounding a mantissa of 53 digits or more to 53. -/
theorem round (s : Sign) (up : Nat) {m n : Nat} {e : Int} (hdigits : 52 ≤ m.log2) (hplace : m.log2 + e = up) (hfits : up ≤ 1022)
    (hvalue : halfEven m (spacing m) * 2 ^ up = n * 2 ^ 52) :
    StandsFor (UnpackedFloat.roundWithAccuracy Format.binary64 s m e .exact) (s.apply n) := by
  obtain ⟨hlow, hhigh⟩ := halfEven_spacing_bounds hdigits
  have hfirst := @shiftToTargetExponent_exact m e hdigits (by omega)
  have hrounded : (ExtendedMantissa.mk m false false >>> (m.log2 - 52)).roundedMantissa = halfEven m (spacing m) :=
    roundedMantissa_shift m _
  have hexponent : e + (m.log2 - 52 : Nat) = up - 52 := by omega
  generalize halfEven m (spacing m) = r at *
  have hne : r ≠ 0 := by omega
  rcases Nat.lt_or_eq_of_le hhigh with hlt | rfl
  · have hlog : r.log2 = 52 := (Nat.log2_eq_iff hne).mpr ⟨hlow, hlt⟩
    have hsecond : UnpackedFloat.shiftToTargetExponent Format.binary64 r (up - 52) .exact =
        (ExtendedMantissa.mk r false false, (up : Int) - 52) := by
      rw [shiftToTargetExponent_exact (Nat.le_of_eq hlog.symm) (by omega), hlog]
      exact congrArg _ (Int.add_zero _)
    unfold UnpackedFloat.roundWithAccuracy
    simp only [hfirst, hrounded, hexponent, hsecond, hne, dite_false]
    exact .finite s _ hlog rfl (Nat.le_succ_of_le hfits) hvalue
  · -- rounding up has made one digit more
    have hlog : (2 ^ 53).log2 = 53 := Nat.log2_two_pow
    have hsecond : UnpackedFloat.shiftToTargetExponent Format.binary64 (2 ^ 53) (up - 52) .exact =
        (ExtendedMantissa.mk (2 ^ 52) false false, ((up + 1 : Nat) : Int) - 52) := by
      rw [shiftToTargetExponent_exact (by rw [hlog]; decide) (by omega), hlog]
      refine Prod.ext rfl ?_
      change (up : Int) - 52 + 1 = _
      omega
    unfold UnpackedFloat.roundWithAccuracy
    simp only [hfirst, hrounded, hexponent, hsecond]
    refine .finite s (Nat.two_pow_pos 52) Nat.log2_two_pow rfl (Nat.succ_le_succ hfits) ?_
    rw [← hvalue, Nat.pow_succ 2 up]
    omega

/-- Where a positive mantissa stands, the number it stands for is positive. -/
theorem pos_of_place {m n up : Nat} (hpos : 0 < m) (hvalue : m * 2 ^ up = n * 2 ^ 52) : (0 : Int) < n := by
  have hm : 0 < m * 2 ^ up := Nat.mul_pos hpos (Nat.two_pow_pos up)
  omega

/-- Of two mantissas of 53 digits, the one with the higher exponent stands for more. -/
theorem lt_of_place_lt {m₁ m₂ n₁ n₂ up₁ up₂ : Nat} (hdigits₁ : m₁.log2 = 52) (hdigits₂ : m₂.log2 = 52)
    (h₁ : m₁ * 2 ^ up₁ = n₁ * 2 ^ 52) (h₂ : m₂ * 2 ^ up₂ = n₂ * 2 ^ 52) (hup : up₁ < up₂) : n₁ < n₂ := by
  have hvalues : n₁ * 2 ^ 52 < n₂ * 2 ^ 52 := calc
    n₁ * 2 ^ 52 = m₁ * 2 ^ up₁ := h₁.symm
    _ < 2 ^ 53 * 2 ^ up₁ := Nat.mul_lt_mul_of_pos_right (mantissa_bounds hdigits₁).2 (Nat.two_pow_pos up₁)
    _ = 2 ^ 52 * 2 ^ (up₁ + 1) := by rw [Nat.pow_succ 2 up₁]; omega
    _ ≤ 2 ^ 52 * 2 ^ up₂ := Nat.mul_le_mul_left _ (Nat.pow_le_pow_right Nat.two_pos hup)
    _ ≤ m₂ * 2 ^ up₂ := Nat.mul_le_mul_right _ (mantissa_bounds hdigits₂).1
    _ = n₂ * 2 ^ 52 := h₂
  exact Nat.lt_of_mul_lt_mul_right hvalues

/-- Between mantissas of 53 digits the exponent decides, and then the mantissa. -/
theorem compare_finite {m₁ m₂ n₁ n₂ up₁ up₂ : Nat} (hdigits₁ : m₁.log2 = 52) (hdigits₂ : m₂.log2 = 52)
    (h₁ : m₁ * 2 ^ up₁ = n₁ * 2 ^ 52) (h₂ : m₂ * 2 ^ up₂ = n₂ * 2 ^ 52) :
    (compare ((up₁ : Int) - 52) (up₂ - 52)).then (compare m₁ m₂) = compare (n₁ : Int) n₂ := by
  rcases Nat.lt_trichotomy up₁ up₂ with hup | rfl | hup
  · have hn := lt_of_place_lt hdigits₁ hdigits₂ h₁ h₂ hup
    rw [Int.compare_eq_lt.mpr (by omega : (up₁ : Int) - 52 < up₂ - 52), Int.compare_eq_lt.mpr (Int.ofNat_lt.mpr hn)]
    rfl
  · rw [Int.compare_eq_eq.mpr rfl, Ordering.eq_then]
    have hscale {m m' : Nat} (hm : m < m') : m * 2 ^ up₁ < m' * 2 ^ up₁ := Nat.mul_lt_mul_of_pos_right hm (Nat.two_pow_pos up₁)
    rcases Nat.lt_trichotomy m₁ m₂ with hm | rfl | hm
    · have hn := hscale hm
      rw [Nat.compare_eq_lt.mpr hm, Int.compare_eq_lt.mpr (by omega)]
    · rw [Nat.compare_eq_eq.mpr rfl, Int.compare_eq_eq.mpr (by omega)]
    · have hn := hscale hm
      rw [Nat.compare_eq_gt.mpr hm, Int.compare_eq_gt.mpr (by omega)]
  · have hn := lt_of_place_lt hdigits₂ hdigits₁ h₂ h₁ hup
    rw [Int.compare_eq_gt.mpr (by omega : (up₂ : Int) - 52 < up₁ - 52), Int.compare_eq_gt.mpr (Int.ofNat_lt.mpr hn)]
    rfl

/-- Doubles that stand for whole numbers are ordered as these are. -/
theorem compare_eq (ha : StandsFor a x) (hb : StandsFor b y) : a.compare b = some (compare x y) := by
  cases ha with
  | zero s =>
    cases hb with
    | zero s' => cases s <;> rfl
    | @finite s' m hpos hdigits e up hplace hfits n hvalue =>
      have hn := pos_of_place hpos hvalue
      cases s' with
      | negative => exact congrArg some (Int.compare_eq_gt.mpr (Int.neg_neg_of_pos hn)).symm
      | positive => exact congrArg some (Int.compare_eq_lt.mpr hn).symm
  | @finite s m hpos hdigits e up hplace hfits n hvalue =>
    have hn := pos_of_place hpos hvalue
    cases hb with
    | zero s' =>
      cases s with
      | negative => exact congrArg some (Int.compare_eq_lt.mpr (Int.neg_neg_of_pos hn)).symm
      | positive => exact congrArg some (Int.compare_eq_gt.mpr hn).symm
    | @finite s' m' hpos' hdigits' e' up' hplace' hfits' n' hvalue' =>
      have hn' := pos_of_place hpos' hvalue'
      have horder := compare_finite hdigits hdigits' hvalue hvalue'
      subst hplace hplace'
      cases s with
      | negative =>
        cases s' with
        | negative =>
          refine congrArg some ((congrArg Ordering.swap horder).trans ?_)
          rw [Int.compare_swap]
          simp only [Sign.apply, Int.compare_eq_ite_lt, Int.neg_lt_neg_iff]
        | positive => exact congrArg some (Int.compare_eq_lt.mpr (Int.lt_trans (Int.neg_neg_of_pos hn) hn')).symm
      | positive =>
        cases s' with
        | negative => exact congrArg some (Int.compare_eq_gt.mpr (Int.lt_trans (Int.neg_neg_of_pos hn') hn)).symm
        | positive => exact congrArg some horder

/-- Rounding takes away the zeros that were put after 53 digits. -/
theorem rescaled (s : Sign) {m n up : Nat} {e : Int} (hpos : 0 < m) (hdigits : m.log2 = 52) (hplace : e = up - 52)
    (hfits : up ≤ 1022) (hvalue : m * 2 ^ up = n * 2 ^ 52) (places : Nat) :
    StandsFor (UnpackedFloat.roundWithAccuracy Format.binary64 s (m * 2 ^ places) (e - places) .exact) (s.apply n) := by
  have hlog : (m * 2 ^ places).log2 = 52 + places := by rw [log2_mul_two_pow (Nat.ne_of_gt hpos), hdigits]
  have hspacing : spacing (m * 2 ^ places) = 2 ^ places := by
    rw [spacing, hlog, Nat.add_sub_cancel_left]
    rfl
  refine round s up (by omega) (by omega) hfits ?_
  rw [hspacing, halfEven_mul _ (Nat.two_pow_pos places), hvalue]

/-- A number up to `2 ^ 64` keeps its leading digit well below the end of the exponents. -/
theorem place_le {s : Sign} {m n up : Nat} (hdigits : m.log2 = 52) (hvalue : m * 2 ^ up = n * 2 ^ 52)
    (hsize : (s.apply n).natAbs ≤ 2 ^ 64) : up ≤ 1022 := by
  have hn : (s.apply n).natAbs = n := by cases s <;> simp [Sign.apply]
  have hleast : 2 ^ 52 * 2 ^ up ≤ m * 2 ^ up := Nat.mul_le_mul_right _ (mantissa_bounds hdigits).1
  have hup : up ≤ 64 := (Nat.pow_le_pow_iff_right Nat.one_lt_two).mp (by omega)
  exact Nat.le_trans hup (by decide)

/-- Multiplying by one rounds nothing away. -/
theorem mul_one (h : StandsFor a x) (hx : x.natAbs ≤ 2 ^ 64) :
    StandsFor (UnpackedFloat.mul Format.binary64 a (.finite .positive (2 ^ 52) (-52) (Nat.two_pow_pos 52))) x := by
  cases h with
  | zero s => exact .zero _
  | @finite s m hpos hdigits e up hplace hfits n hvalue =>
    have hsign : s * .positive = s := by cases s <;> rfl
    change StandsFor (UnpackedFloat.roundWithAccuracy Format.binary64 (s * .positive) (m * 2 ^ 52) (e + -52) .exact) _
    rw [hsign]
    exact rescaled s hpos hdigits hplace (place_le hdigits hvalue hx) hvalue 52

/-- A number of at most 53 digits is brought to 53. -/
theorem ofNat_of_lt {n : Nat} (h : n < 2 ^ 53) : StandsFor (UnpackedFloat.ofNat Format.binary64 n) n := by
  rcases Nat.eq_zero_or_pos n with rfl | hpos
  · exact .zero .positive
  have hdigits : n.log2 ≤ 52 := log2_le_of_lt h
  have hlog : (n * 2 ^ (52 - n.log2)).log2 = 52 := by
    rw [log2_mul_two_pow (Nat.ne_of_gt hpos), Nat.add_sub_cancel' hdigits]
  have hspacing : spacing (n * 2 ^ (52 - n.log2)) = 1 := by rw [spacing, hlog]; rfl
  have htarget := @targetExponent_eq n 0 (by omega)
  have hshift : (0 - ((n.log2 : Int) + 0 - 52)).toNat = 52 - n.log2 := by omega
  have hrounded : UnpackedFloat.ofNat Format.binary64 n =
      UnpackedFloat.roundWithAccuracy Format.binary64 .positive (n * 2 ^ (52 - n.log2)) (0 - (52 - n.log2 : Nat)) .exact := by
    have hcompare : compare (n : Int) 0 = .gt := Int.compare_eq_gt.mpr (Int.ofNat_lt.mpr hpos)
    simp only [UnpackedFloat.ofNat, UnpackedFloat.ofInt, UnpackedFloat.normalize, hcompare, UnpackedFloat.round,
      Int.toNat_natCast, UnpackedFloat.decreaseExponent, htarget, hshift, Nat.shiftLeft_eq]
  rw [hrounded]
  refine round .positive n.log2 (Nat.le_of_eq hlog.symm) (by omega) (by omega) ?_
  rw [hspacing, ← Nat.mul_one (n * 2 ^ (52 - n.log2)), halfEven_mul _ Nat.one_pos, Nat.mul_assoc, ← Nat.pow_add,
    Nat.sub_add_cancel hdigits]

/-- A number of more than 53 digits is rounded to 53. -/
theorem ofScientific_of_le {n : Nat} (h : 2 ^ 53 ≤ n) (hn : n < 2 ^ 64) :
    StandsFor (UnpackedFloat.ofScientific Format.binary64 n 0) (nearestNat n) := by
  have hne : n ≠ 0 := by omega
  have hdigits : 53 ≤ n.log2 := (Nat.le_log2 hne).mpr h
  have hbound : n.log2 ≤ 63 := log2_le_of_lt hn
  have hlog : (n * 2 ^ 53).log2 = n.log2 + 53 := log2_mul_two_pow hne 53
  have hspacing : spacing (n * 2 ^ 53) = spacing n * 2 ^ 53 := by
    have hplaces : n.log2 + 53 - 52 = n.log2 - 52 + 53 := by omega
    rw [spacing, hlog, hplaces]
    exact Nat.pow_add 2 _ 53
  have hproduct : UnpackedFloat.ofScientific Format.binary64 n 0 =
      UnpackedFloat.roundWithAccuracy Format.binary64 .positive (n * 2 ^ 53) (-53) .exact := by
    have hsafe : ¬ ((0 : Int) < -((2 ^ Format.binary64.exponentBits : Int) + n.log2)) := by
      have hbits : (2 : Int) ^ Format.binary64.exponentBits = 2048 := rfl
      omega
    rw [UnpackedFloat.ofScientific, dif_neg hne, if_neg (by decide), if_neg hsafe, if_pos (Int.le_refl 0)]
    have hbits : Format.binary64.mantissaBits = 53 := rfl
    have hsign : Sign.positive * Sign.positive = .positive := rfl
    rw [UnpackedFloat.mul, hsign, Nat.shiftLeft_eq, Int.toNat_zero, Nat.pow_zero, Nat.mul_one, Int.add_zero, hbits]
    rfl
  rw [hproduct]
  refine round .positive n.log2 (by omega) (by omega) (by omega) ?_
  rw [hspacing, halfEven_mul_mul n _ (Nat.two_pow_pos 53), two_pow_log2 (Nat.le_of_succ_le hdigits), nearestNat,
    Nat.mul_assoc, Nat.mul_comm (2 ^ 52)]

end StandsFor

/-- The parts of a natural number's double stand for the nearest one that is a double. -/
theorem standsFor_ofNat {n : Nat} (h : n < 2 ^ 64) : StandsFor (Float.ofNat n).toModel.unpack (nearestNat n) := by
  rcases Nat.lt_or_ge n (2 ^ 53) with hsmall | hlarge
  · rw [nearestNat_eq_self (Nat.le_of_lt hsmall)]
    have hparts := StandsFor.ofNat_of_lt hsmall
    have hproduct := hparts.mul_one (Nat.le_trans (Nat.le_of_lt hsmall) (by decide))
    have hword : n.toUInt64.toNat = n := Nat.mod_eq_of_lt h
    have hone : (Float.ofBits 0x3FF0000000000000).toModel.unpack = .finite .positive (2 ^ 52) (-52) (Nat.two_pow_pos 52) := by
      rfl
    have hfast : Float.ofNat n = n.toUInt64.toFloat * Float.ofBits 0x3FF0000000000000 := by
      change Float.ofScientific n false 0 = _
      rw [Float.ofScientific, dif_pos ⟨hsmall, Nat.zero_le 22⟩]
      rfl
    rw [hfast]
    change StandsFor (Float.Model.pack (UnpackedFloat.mul Format.binary64
      (Float.Model.pack (UnpackedFloat.ofNat Format.binary64 n.toUInt64.toNat)).unpack
      (Float.ofBits 0x3FF0000000000000).toModel.unpack)).unpack n
    rw [hone, hword, hparts.unpack_pack, hproduct.unpack_pack]
    exact hproduct
  · have hparts := StandsFor.ofScientific_of_le hlarge h
    have hslow : Float.ofNat n = .ofModel (.pack (UnpackedFloat.ofScientific Format.binary64 n 0)) := by
      change Float.ofScientific n false 0 = _
      rw [Float.ofScientific, dif_neg (fun hfast => Nat.not_lt.mpr hlarge hfast.1)]
      rfl
    rw [hslow]
    change StandsFor (Float.Model.pack _).unpack _
    rw [hparts.unpack_pack]
    exact hparts

/-- The parts of an integer's double stand for the nearest integer that is a double. -/
theorem standsFor_ofInt {n : Int} (h : n.natAbs < 2 ^ 64) : StandsFor (Float.ofInt n).toModel.unpack (nearest n) := by
  cases n with
  | ofNat n => exact standsFor_ofNat h
  | negSucc n =>
    have hneg := (standsFor_ofNat (n := n + 1) h).neg
    change StandsFor (Float.Model.pack (Float.ofNat (n + 1)).toModel.unpack.neg).unpack _
    rw [hneg.unpack_pack]
    exact hneg

/-- As doubles, whole numbers are ordered as their nearest doubles are. -/
theorem ofInt_le_ofInt_iff {m n : Int} (hm : m.natAbs < 2 ^ 64) (hn : n.natAbs < 2 ^ 64) :
    Float.ofInt m ≤ Float.ofInt n ↔ nearest m ≤ nearest n := by
  change decide (((Float.ofInt m).toModel.unpack.compare (Float.ofInt n).toModel.unpack).any (·.isLE) = true) = true ↔ _
  rw [(standsFor_ofInt hm).compare_eq (standsFor_ofInt hn), decide_eq_true_iff]
  exact Int.isLE_compare

end Binary64

end LineScript
