import LineScript.Proofs.Binary64.Integers

/-!
# Integers through doubles

`Binary64.parts` reads off the bits of a double what its arithmetic works on (`Binary64.parts_eq`). So a double that stands for a
whole number is that number however it is rounded (`Binary64.toInt64_of_standsFor`), and dividing or multiplying by one leaves it the
number. An integer that is turned into a double and back is unchanged if a double can hold it, and only then, the greatest integer
aside (`Binary64.throughDouble_eq_self_iff`).
-/

namespace LineScript

namespace Binary64

open Float.Model (Format UnpackedFloat totalExponent)
open Float.Model.UnpackedFloat (Sign unpackSign unpackExponent unpackMantissa)

/-! ## Parts -/

/-- Whether a sign is the negative one. -/
def isNegative : Sign → Bool
  | .negative => true
  | .positive => false

/-- The parts of a double, from those its arithmetic works on. -/
def partsOf : UnpackedFloat → Parts
  | .notANumber => .nan
  | .infinity s => .infinite (isNegative s)
  | .zero s => .finite (isNegative s) 0 (-1074)
  | .finite s m e _ => .finite (isNegative s) m e

section

variable (bits : BitVec Format.binary64.numBits)

/-- The sign of a double is its highest bit. -/
theorem isNegative_unpackSign : isNegative (Sign.ofBitVec (unpackSign bits)) = (bits.toNat / pow2 63 % 2 == 1) := by
  have hbit : (unpackSign bits).toNat = bits.toNat / pow2 63 % 2 := by
    change (BitVec.cast _ (BitVec.extractLsb 63 63 bits)).toNat = _
    rw [BitVec.toNat_cast, BitVec.extractLsb_toNat, Nat.shiftRight_eq_div_pow]
    rfl
  rw [← hbit]
  generalize unpackSign bits = sign
  revert sign
  decide

theorem toNat_unpackExponent : (unpackExponent bits).toNat = bits.toNat / pow2 52 % pow2 11 := by
  change (BitVec.cast _ (BitVec.extractLsb 62 52 bits)).toNat = _
  rw [BitVec.toNat_cast, BitVec.extractLsb_toNat, Nat.shiftRight_eq_div_pow]
  rfl

theorem toNat_unpackMantissa : (unpackMantissa bits).toNat = bits.toNat % pow2 52 := by
  change (BitVec.cast _ (BitVec.extractLsb 51 0 bits)).toNat = _
  rw [BitVec.toNat_cast, BitVec.extractLsb_toNat, Nat.shiftRight_zero]
  rfl

/-- The leading digit of a mantissa is worth `2 ^ 52`. -/
theorem toNat_leading (mantissa : BitVec Format.binary64.mantissaBitsWithoutImplicit) :
    (1#1 ++ mantissa).toNat = pow2 52 + mantissa.toNat := by
  rw [BitVec.toNat_append, ← Nat.shiftLeft_add_eq_or_of_lt mantissa.isLt]
  rfl

/-- The parts read off some bits are those that arithmetic makes of them. -/
theorem partsOfBits_eq : partsOfBits bits.toNat = partsOf (UnpackedFloat.unpack Format.binary64 bits) := by
  have hall : unpackExponent bits = -1#(Format.binary64.exponentBits) ↔ (unpackExponent bits).toNat = 2047 :=
    BitVec.toNat_inj.symm
  have hnone : unpackExponent bits = 0#(Format.binary64.exponentBits) ↔ (unpackExponent bits).toNat = 0 :=
    BitVec.toNat_inj.symm
  have hzero : unpackMantissa bits = 0#(Format.binary64.mantissaBitsWithoutImplicit) ↔ (unpackMantissa bits).toNat = 0 :=
    BitVec.toNat_inj.symm
  unfold partsOfBits UnpackedFloat.unpack
  simp only [← isNegative_unpackSign, ← toNat_unpackExponent, ← toNat_unpackMantissa, beq_iff_eq, hall, hnone, hzero]
  split
  · split <;> rfl
  · split
    · split
      · rename_i hmantissa
        rw [hmantissa]
        rfl
      · rename_i hexponent _
        rw [hexponent]
        rfl
    · exact congrArg (Parts.finite _ · _) (toNat_leading _).symm

end

/-- The parts of a double are those its arithmetic works on. -/
theorem parts_eq (x : Float) : parts x = partsOf x.toModel.unpack :=
  partsOfBits_eq _

/-! ## Whole numbers -/

/-- However it is rounded, a quotient without rest is itself, with its sign. -/
theorem quotient_mul (r : Rounding) (negative : Bool) (n : Nat) {divisor : Nat} (hdivisor : 0 < divisor) :
    r.quotient negative (n * divisor) divisor = if negative then -(n : Int) else n := by
  have hwhole : n * divisor / divisor = n := Nat.mul_div_cancel n hdivisor
  have hrest : n * divisor % divisor = 0 := Nat.mul_mod_left n divisor
  cases r <;> simp [Rounding.quotient, hwhole, hrest]

namespace StandsFor

variable {a : UnpackedFloat} {x : Int}

/-- What stands for a whole number has no digits after the point, so all roundings give that number. -/
theorem exists_parts (h : StandsFor a x) :
    ∃ negative mantissa exponent, partsOf a = .finite negative mantissa exponent ∧
      (∀ e, exponent = .negSucc e → pow2 (e + 1) ∣ mantissa) ∧ ∀ r : Rounding, r.whole negative mantissa exponent = x := by
  have happly (s : Sign) (k : Nat) : (if isNegative s then -(k : Int) else k) = s.apply k := by cases s <;> rfl
  cases h with
  | zero s =>
    obtain ⟨places, hplaces⟩ : ∃ places, (-1074 : Int) = .negSucc places := ⟨1073, rfl⟩
    refine ⟨isNegative s, 0, .negSucc places, congrArg _ hplaces, fun e _ => Nat.dvd_zero _, fun r => ?_⟩
    have hquotient := quotient_mul r (isNegative s) 0 (Nat.two_pow_pos (places + 1))
    rw [Nat.zero_mul] at hquotient
    refine hquotient.trans ?_
    cases s <;> rfl
  | @finite s m hpos hdigits e up hplace hfits n hvalue =>
    refine ⟨isNegative s, m, e, rfl, ?_⟩
    rcases Nat.lt_or_ge up 52 with hlow | hhigh
    · obtain ⟨places, hplaces⟩ : ∃ places, up + (places + 1) = 52 := ⟨51 - up, by omega⟩
      have hexponent : e = .negSucc places := by omega
      have hm : m = n * pow2 (places + 1) := by
        rw [← hplaces, Nat.pow_add, ← Nat.mul_assoc, Nat.mul_right_comm] at hvalue
        exact Nat.eq_of_mul_eq_mul_right (Nat.two_pow_pos up) hvalue
      subst hexponent hm
      refine ⟨fun e he => ?_, fun r => (quotient_mul r _ n (Nat.two_pow_pos _)).trans (happly s n)⟩
      cases he
      exact Nat.dvd_mul_left _ _
    · obtain ⟨places, rfl⟩ := Nat.exists_eq_add_of_le hhigh
      have hexponent : e = .ofNat places := by
        rw [Int.ofNat_eq_natCast]
        omega
      have hn : m * pow2 places = n := by
        rw [Nat.add_comm, Nat.pow_add, ← Nat.mul_assoc] at hvalue
        exact Nat.eq_of_mul_eq_mul_right (Nat.two_pow_pos 52) hvalue
      subst hexponent hn
      exact ⟨nofun, fun r => happly s _⟩

/-- Dividing by one rounds nothing away. -/
theorem div_one (h : StandsFor a x) (hx : x.natAbs ≤ 2 ^ 64) :
    StandsFor (UnpackedFloat.div Format.binary64 a (.finite .positive (2 ^ 52) (-52) (Nat.two_pow_pos 52))) x := by
  cases h with
  | zero s => exact .zero _
  | @finite s m hpos hdigits e up hplace hfits n hvalue =>
    have hsign : s / .positive = s := by cases s <;> rfl
    -- the quotient is computed with one digit more than a double has
    have hquotient : UnpackedFloat.divCore Format.binary64 m e (2 ^ 52) (-52) = (m * 2 ^ 1, e - 1, .exact) := by
      have htotal : totalExponent m e - totalExponent (2 ^ 52) (-52) = e + 52 := by
        rw [totalExponent, totalExponent, hdigits, Nat.log2_two_pow]
        omega
      have htarget : min (e - -52) (Format.binary64.targetExponent (e + 52)) = e - 1 := by
        have hbits : (Format.binary64.mantissaBits : Int) = 53 := rfl
        have hmin : Format.binary64.minExponent = -1074 := rfl
        simp only [Format.targetExponent, hbits, hmin]
        omega
      have hshift : (e - -52 - (e - 1)).toNat = 53 := by omega
      have hproduct : m * 2 ^ 53 = m * 2 * 2 ^ 52 := by omega
      simp only [UnpackedFloat.divCore, htotal, htarget, hshift, Nat.shiftLeft_eq, hproduct,
        Nat.mul_div_cancel _ (Nat.two_pow_pos 52), Nat.mul_mod_left]
      rfl
    let quotient := UnpackedFloat.divCore Format.binary64 m e (2 ^ 52) (-52)
    change StandsFor (UnpackedFloat.roundWithAccuracy Format.binary64 (s / .positive) quotient.1 quotient.2.1 quotient.2.2) _
    rw [show quotient = (m * 2 ^ 1, e - 1, .exact) from hquotient, hsign]
    exact rescaled s hpos hdigits hplace (place_le hdigits hvalue hx) hvalue 1

end StandsFor

section

variable {x : Float} {n : Int}

/-- However it is rounded, a double that stands for a whole number becomes that number, cut to the range of the integers. -/
theorem toInt64_of_standsFor (r : Rounding) (h : StandsFor x.toModel.unpack n) :
    toInt64 r x = Int64.ofInt (max leastInt (min greatestInt n)) := by
  obtain ⟨negative, mantissa, exponent, hparts, -, hwhole⟩ := h.exists_parts
  rw [toInt64, parts_eq, hparts]
  dsimp only
  rw [hwhole]

/-- However it is rounded, a double that stands for a whole number stays as it is. -/
theorem roundWith_of_standsFor (r : Rounding) (h : StandsFor x.toModel.unpack n) : roundWith r x = x := by
  obtain ⟨negative, mantissa, exponent, hparts, hdvd, -⟩ := h.exists_parts
  rw [roundWith, parts_eq, hparts]
  cases exponent with
  | ofNat e => rfl
  | negSucc e =>
    dsimp only
    rw [if_pos (beq_iff_eq.mpr (Nat.mod_eq_zero_of_dvd (hdvd e rfl)))]

/-- The double one is made of the least mantissa of 53 digits and the exponent that puts its last digit 52 places down. -/
theorem unpack_one : (1.0 : Float).toModel.unpack = .finite .positive (2 ^ 52) (-52) (Nat.two_pow_pos 52) :=
  rfl

/-- Divided by one, a double still stands for its whole number. -/
theorem standsFor_div_one (h : StandsFor x.toModel.unpack n) (hn : n.natAbs ≤ 2 ^ 64) :
    StandsFor (x / 1.0).toModel.unpack n := by
  change StandsFor (Float.Model.pack (UnpackedFloat.div Format.binary64 x.toModel.unpack (1.0 : Float).toModel.unpack)).unpack n
  rw [unpack_one, (h.div_one hn).unpack_pack]
  exact h.div_one hn

/-- Times one, a double still stands for its whole number. -/
theorem standsFor_mul_one (h : StandsFor x.toModel.unpack n) (hn : n.natAbs ≤ 2 ^ 64) :
    StandsFor (x * 1.0).toModel.unpack n := by
  change StandsFor (Float.Model.pack (UnpackedFloat.mul Format.binary64 x.toModel.unpack (1.0 : Float).toModel.unpack)).unpack n
  rw [unpack_one, (h.mul_one hn).unpack_pack]
  exact h.mul_one hn

end

/-! ## What a double can hold -/

/-- A whole number with at most 53 digits before the zeros it ends with. -/
def FitsDouble (n : Int) : Prop :=
  ∃ (m : Int) (places : Nat), m.natAbs < 2 ^ 53 ∧ n = m * 2 ^ places

/-- A natural number is its own nearest double exactly if it has at most 53 digits before the zeros it ends with. -/
theorem nearestNat_eq_self_iff {n : Nat} : nearestNat n = n ↔ ∃ m places, m < 2 ^ 53 ∧ n = m * 2 ^ places := by
  constructor
  · intro h
    rcases Nat.lt_or_ge n (2 ^ 53) with hsmall | hlarge
    · exact ⟨n, 0, hsmall, (Nat.mul_one n).symm⟩
    · have hdigits : 52 ≤ n.log2 := (Nat.le_log2 (by omega)).mpr (by omega)
      refine ⟨halfEven n (spacing n), n.log2 - 52, ?_, h.symm⟩
      have hbound : halfEven n (spacing n) * spacing n < 2 ^ 53 * spacing n := calc
        halfEven n (spacing n) * spacing n = n := h
        _ < 2 ^ (n.log2 + 1) := Nat.lt_log2_self
        _ = 2 ^ 53 * spacing n := by rw [Nat.pow_succ, two_pow_log2 hdigits]; omega
      exact Nat.lt_of_mul_lt_mul_right hbound
  · rintro ⟨m, places, hm, rfl⟩
    apply nearestNat_of_dvd
    by_cases hzero : m = 0
    · rw [hzero, Nat.zero_mul]
      exact Nat.dvd_zero _
    · have hdigits : m.log2 ≤ 52 := log2_le_of_lt hm
      rw [spacing, log2_mul_two_pow hzero]
      exact Nat.dvd_mul_left_of_dvd (Nat.pow_dvd_pow 2 (by omega)) m

/-- A whole number is its own nearest double exactly if a double can hold it. -/
theorem nearest_eq_self_iff {n : Int} : nearest n = n ↔ FitsDouble n := by
  have hsize : nearest n = n ↔ nearestNat n.natAbs = n.natAbs := by
    cases n with
    | ofNat n => exact Int.ofNat_inj
    | negSucc n => exact (Int.neg_inj (b := (n + 1 : Nat))).trans Int.ofNat_inj
  rw [hsize, nearestNat_eq_self_iff]
  constructor
  · rintro ⟨m, places, hm, hn⟩
    obtain ⟨k, rfl | rfl⟩ := n.eq_nat_or_neg
    · rw [Int.natAbs_natCast] at hn
      exact ⟨m, places, hm, by rw [hn, Nat.cast_mul, Nat.cast_pow]; rfl⟩
    · rw [Int.natAbs_neg, Int.natAbs_natCast] at hn
      exact ⟨-m, places, by rwa [Int.natAbs_neg], by rw [hn, Nat.cast_mul, Nat.cast_pow, neg_mul]; rfl⟩
  · rintro ⟨m, places, hm, rfl⟩
    exact ⟨m.natAbs, places, hm, by rw [Int.natAbs_mul, Int.natAbs_pow]; rfl⟩

/-- The nearest double of an integer is in range, or the power of two that ends the range. -/
theorem nearest_bounds (n : Int64) : leastInt ≤ nearest n.toInt ∧ nearest n.toInt ≤ greatestInt + 1 := by
  have hleast : nearest leastInt = leastInt := nearest_eq_self_iff.mpr ⟨-1, 63, by decide, by decide⟩
  have hend : nearest (greatestInt + 1) = greatestInt + 1 := nearest_eq_self_iff.mpr ⟨1, 63, by decide, by decide⟩
  constructor
  · calc
      leastInt = nearest leastInt := hleast.symm
      _ ≤ nearest n.toInt := nearest_mono n.le_toInt
  · calc
      nearest n.toInt ≤ nearest (greatestInt + 1) := nearest_mono (Int.le_of_lt n.toInt_lt)
      _ = greatestInt + 1 := hend

/-- An integer as a double and back: its nearest double, cut to the range of the integers. -/
def throughDouble (n : Int64) : Int64 :=
  Int64.ofInt (min greatestInt (nearest n.toInt))

section

variable {n : Int64}

/-- A double that stands for the nearest one of an integer gives, however it is rounded, what the integer becomes through a
double. -/
theorem toInt64_of_nearest (r : Rounding) {x : Float} (h : StandsFor x.toModel.unpack (nearest n.toInt)) :
    toInt64 r x = throughDouble n := by
  have hlow : leastInt ≤ min greatestInt (nearest n.toInt) := le_min (by decide) (nearest_bounds n).1
  rw [toInt64_of_standsFor r h, max_eq_right hlow, throughDouble]

/-- The integers that survive are those a double can hold, and the greatest one, which is cut back to the range. -/
theorem throughDouble_eq_self_iff : throughDouble n = n ↔ FitsDouble n.toInt ∨ n = Int64.maxValue := by
  obtain ⟨hlow, hhigh⟩ := nearest_bounds n
  have hvalue : (throughDouble n).toInt = min greatestInt (nearest n.toInt) :=
    Int64.toInt_ofInt_of_le (le_min (by decide) hlow) (lt_of_le_of_lt (min_le_left _ _) (by decide))
  have hgreatest : nearest greatestInt = greatestInt + 1 := by decide +kernel
  have hrange : Int64.maxValue.toInt = greatestInt := rfl
  have hn : n.toInt ≤ greatestInt := Int.le_of_lt_add_one n.toInt_lt
  rw [← nearest_eq_self_iff, ← Int64.toInt_inj, ← Int64.toInt_inj, hvalue, hrange]
  rcases le_or_gt (nearest n.toInt) greatestInt with hfits | hover
  · rw [min_eq_right hfits, or_iff_left]
    intro h
    rw [h, hgreatest] at hfits
    omega
  · rw [min_eq_left hover.le]
    omega

end

end Binary64

end LineScript
