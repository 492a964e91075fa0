import LineScript.Binary64
import Mathlib

/-!
# Whole numbers as doubles

A double has 53 binary digits. A whole number with more of them becomes the nearest one whose lower digits are zero, and a half goes
to the even neighbour: `Binary64.nearest`. That keeps the order (`Binary64.nearest_mono`), and numbers of at most 53 digits
(`Binary64.nearest_eq_self`).
-/

namespace LineScript

namespace Binary64

/-! ## Quotients to the nearest -/

section

variable {m n den : Nat}

theorem le_halfEven (n den : Nat) : n / den ≤ halfEven n den := by
  unfold halfEven
  dsimp only
  split
  · exact Nat.le_refl _
  · split
    · exact Nat.le_succ _
    · exact Nat.le_add_right _ _

theorem halfEven_le (n den : Nat) : halfEven n den ≤ n / den + 1 := by
  unfold halfEven
  dsimp only
  split
  · exact Nat.le_succ _
  · split
    · exact Nat.le_refl _
    · have hparity : n / den % 2 < 2 := Nat.mod_lt _ Nat.two_pos
      omega

/-- A quotient that leaves no rest is not rounded. -/
theorem halfEven_mul (n : Nat) (hden : 0 < den) : halfEven (n * den) den = n := by
  simp [halfEven, hden]

/-- Taking both sides of a quotient many times changes nothing. -/
theorem halfEven_mul_mul (n den : Nat) {factor : Nat} (hfactor : 0 < factor) :
    halfEven (n * factor) (den * factor) = halfEven n den := by
  have hrest : 2 * (n % den * factor) = 2 * (n % den) * factor := (Nat.mul_assoc _ _ _).symm
  simp only [halfEven, Nat.mul_div_mul_right _ _ hfactor, Nat.mul_mod_mul_right, hrest, Nat.mul_lt_mul_right hfactor]

/-- A greater numerator has no smaller quotient. -/
theorem halfEven_mono (h : m ≤ n) : halfEven m den ≤ halfEven n den := by
  rcases Nat.lt_or_eq_of_le (Nat.div_le_div_right (c := den) h) with hlt | hquotient
  · calc
      halfEven m den ≤ m / den + 1 := halfEven_le m den
      _ ≤ n / den := hlt
      _ ≤ halfEven n den := le_halfEven n den
  · have hrest : m % den ≤ n % den := by
      have hm := Nat.div_add_mod m den
      have hn := Nat.div_add_mod n den
      rw [hquotient] at hm
      omega
    unfold halfEven
    rw [hquotient]
    dsimp only
    split <;> split <;> (try split) <;> (try split) <;> omega

end

/-! ## The nearest double of a whole number -/

/-- How far apart the doubles around a number are: the numbers between a power of two and the next one that can be told apart are
`2 ^ 52`. -/
def spacing (n : Nat) : Nat :=
  pow2 (Nat.log2 n - 52)

/-- A natural number as the double nearest to it, a half going to the even neighbour. -/
def nearestNat (n : Nat) : Nat :=
  halfEven n (spacing n) * spacing n

/-- A whole number as the double nearest to it, a half going to the even neighbour. -/
def nearest : Int → Int
  | .ofNat n => nearestNat n
  | .negSucc n => -nearestNat (n + 1)

theorem spacing_pos (n : Nat) : 0 < spacing n :=
  Nat.two_pow_pos _

/-- A number that is a multiple of the spacing around it is a double. -/
theorem nearestNat_of_dvd {n : Nat} (h : spacing n ∣ n) : nearestNat n = n := by
  obtain ⟨k, hk⟩ := h
  have hn : n = k * spacing n := hk.trans (Nat.mul_comm _ _)
  calc
    nearestNat n = halfEven (k * spacing n) (spacing n) * spacing n :=
      congrArg (fun m => halfEven m (spacing n) * spacing n) hn
    _ = n := by rw [halfEven_mul k (spacing_pos n), ← hn]

/-- A number below a power of two has its leading digit below that power. -/
theorem log2_le_of_lt {n digits : Nat} (h : n < 2 ^ (digits + 1)) : Nat.log2 n ≤ digits := by
  by_cases hn : n = 0
  · rw [hn, Nat.log2_zero]
    exact Nat.zero_le _
  · exact Nat.le_of_lt_succ ((Nat.log2_lt hn).mpr h)

/-- A number times a power of two has its leading digit as many places higher. -/
theorem log2_mul_two_pow {n : Nat} (hn : n ≠ 0) (places : Nat) : (n * 2 ^ places).log2 = n.log2 + places := by
  induction places with
  | zero => rw [Nat.pow_zero, Nat.mul_one, Nat.add_zero]
  | succ places ih =>
    have htwice : n * 2 ^ (places + 1) = 2 * (n * 2 ^ places) := by rw [Nat.pow_succ, ← Nat.mul_assoc, Nat.mul_comm]
    rw [htwice, Nat.log2_two_mul (Nat.mul_ne_zero hn (Nat.ne_of_gt (Nat.two_pow_pos places))), ih]
    rfl

/-- Numbers up to `2 ^ 53` are doubles. -/
theorem nearestNat_eq_self {n : Nat} (h : n ≤ 2 ^ 53) : nearestNat n = n := by
  rcases Nat.lt_or_eq_of_le h with hlt | rfl
  · have hone : spacing n = 1 := by
      rw [spacing, Nat.sub_eq_zero_of_le (log2_le_of_lt hlt)]
      rfl
    exact nearestNat_of_dvd (hone ▸ Nat.one_dvd n)
  · decide +kernel

/-- With more than 53 digits, the leading power of two is that of 53 digits, as often as the spacing says. -/
theorem two_pow_log2 {n : Nat} (h : 52 ≤ Nat.log2 n) : 2 ^ Nat.log2 n = 2 ^ 52 * spacing n := by
  calc
    2 ^ Nat.log2 n = 2 ^ (52 + (Nat.log2 n - 52)) := by rw [Nat.add_sub_cancel' h]
    _ = 2 ^ 52 * spacing n := Nat.pow_add 2 52 _

/-- A quotient by the spacing has 53 digits, or is rounded up to the least number with 54. -/
theorem halfEven_spacing_bounds {n : Nat} (h : 52 ≤ Nat.log2 n) :
    2 ^ 52 ≤ halfEven n (spacing n) ∧ halfEven n (spacing n) ≤ 2 ^ 53 := by
  have hn : n ≠ 0 := by
    rintro rfl
    exact absurd h (by decide)
  have hleading := two_pow_log2 h
  have hlow : 2 ^ 52 ≤ n / spacing n := by
    rw [Nat.le_div_iff_mul_le (spacing_pos n), ← hleading]
    exact Nat.log2_self_le hn
  have hhigh : n / spacing n < 2 ^ 53 := by
    rw [Nat.div_lt_iff_lt_mul (spacing_pos n)]
    calc
      n < 2 ^ (Nat.log2 n + 1) := Nat.lt_log2_self
      _ = 2 ^ 53 * spacing n := by rw [Nat.pow_succ, hleading]; omega
  exact ⟨Nat.le_trans hlow (le_halfEven n _), Nat.le_trans (halfEven_le n _) hhigh⟩

/-- A number and its double lie between the same powers of two. -/
theorem nearestNat_bounds {n : Nat} (hn : n ≠ 0) :
    2 ^ Nat.log2 n ≤ nearestNat n ∧ nearestNat n ≤ 2 ^ (Nat.log2 n + 1) := by
  rcases Nat.le_total (Nat.log2 n) 52 with hsmall | hlarge
  · have hhigh : n < 2 ^ (Nat.log2 n + 1) := Nat.lt_log2_self
    have hself : nearestNat n = n :=
      nearestNat_eq_self (Nat.le_of_lt (Nat.lt_of_lt_of_le hhigh (Nat.pow_le_pow_right Nat.two_pos (Nat.succ_le_succ hsmall))))
    rw [hself]
    exact ⟨Nat.log2_self_le hn, Nat.le_of_lt hhigh⟩
  · obtain ⟨hlow, hhigh⟩ := halfEven_spacing_bounds hlarge
    rw [Nat.pow_succ, two_pow_log2 hlarge]
    exact ⟨Nat.mul_le_mul_right _ hlow, Nat.le_trans (Nat.mul_le_mul_right _ hhigh) (by omega)⟩

/-- A greater natural number has no smaller double. -/
theorem nearestNat_mono {m n : Nat} (h : m ≤ n) : nearestNat m ≤ nearestNat n := by
  by_cases hm : m = 0
  · subst hm
    rw [nearestNat_eq_self (Nat.zero_le _)]
    exact Nat.zero_le _
  have hn : n ≠ 0 := fun hn => hm (Nat.eq_zero_of_le_zero (hn ▸ h))
  have hlog : Nat.log2 m ≤ Nat.log2 n := (Nat.le_log2 hn).mpr (Nat.le_trans (Nat.log2_self_le hm) h)
  rcases Nat.lt_or_eq_of_le hlog with hlt | heq
  · calc
      nearestNat m ≤ 2 ^ (Nat.log2 m + 1) := (nearestNat_bounds hm).2
      _ ≤ 2 ^ Nat.log2 n := Nat.pow_le_pow_right Nat.two_pos hlt
      _ ≤ nearestNat n := (nearestNat_bounds hn).1
  · have hspacing : spacing m = spacing n := by rw [spacing, spacing, heq]
    rw [nearestNat, nearestNat, hspacing]
    exact Nat.mul_le_mul_right _ (halfEven_mono h)

/-- A greater whole number has no smaller double. -/
theorem nearest_mono {m n : Int} (h : m ≤ n) : nearest m ≤ nearest n := by
  cases m with
  | ofNat m =>
    cases n with
    | ofNat n => exact Int.ofNat_le.mpr (nearestNat_mono (Int.ofNat_le.mp h))
    | negSucc n => exact absurd (Int.le_trans (Int.natCast_nonneg m) h) (Int.not_le.mpr (Int.negSucc_lt_zero n))
  | negSucc m =>
    cases n with
    | ofNat n => exact Int.le_trans (Int.neg_nonpos_of_nonneg (Int.natCast_nonneg _)) (Int.natCast_nonneg _)
    | negSucc n =>
      have hle : n + 1 ≤ m + 1 := by omega
      exact Int.neg_le_neg (Int.ofNat_le.mpr (nearestNat_mono hle))

/-- Whole numbers up to `2 ^ 53` are doubles, of either sign. -/
theorem nearest_eq_self {n : Int} (h : n.natAbs ≤ 2 ^ 53) : nearest n = n := by
  cases n with
  | ofNat n => exact congrArg Int.ofNat (nearestNat_eq_self h)
  | negSucc n =>
    have hself : nearestNat (n + 1) = n + 1 := nearestNat_eq_self h
    rw [nearest, hself]
    rfl

/-- Two whole numbers have different doubles if one of them has at most 53 digits. -/
theorem nearest_lt {m n : Int} (h : m < n) (hsmall : m.natAbs < 2 ^ 53 ∨ n.natAbs < 2 ^ 53) : nearest m < nearest n := by
  rcases hsmall with hm | hn
  · calc
      nearest m = m := nearest_eq_self (Nat.le_of_lt hm)
      _ < m + 1 := Int.lt_succ m
      _ = nearest (m + 1) := (nearest_eq_self (by omega)).symm
      _ ≤ nearest n := nearest_mono h
  · calc
      nearest m ≤ nearest (n - 1) := nearest_mono (Int.le_sub_one_of_lt h)
      _ = n - 1 := nearest_eq_self (by omega)
      _ < n := Int.sub_one_lt_of_le (Int.le_refl n)
      _ = nearest n := (nearest_eq_self (Nat.le_of_lt hn)).symm

end Binary64

end LineScript
