import LineScript.Value

/-!
# Integers in texts

An integer is written in decimal (`intText`), and read in two ways: `Text.intBetween?` takes decimal digits, `Number.ofText?` also
hexadecimal ones and numbers that are no integers. Both take a sign off first (`Text.unsigned`), but only the first one puts it
back before it tests the range. So every integer but the least one is read from what is written of it
(`Number.ofText?_intText`), and the two take the same texts for integers but for the least one and hexadecimal digits.
-/

namespace LineScript

namespace Text

variable {p q : Char → Bool} {cs : List Char}

theorem dropWhile_eq_self (h : ∀ c, cs.head? = some c → p c = false) : cs.dropWhile p = cs := by
  cases cs with
  | nil => rfl
  | cons c cs => rw [List.dropWhile_cons, if_neg (by simp [h c rfl])]

/-- A text that neither starts nor ends with what would be taken away is trimmed already. -/
theorem trimList_eq_self (hhead : ∀ c, cs.head? = some c → p c = false) (hlast : ∀ c, cs.getLast? = some c → p c = false) :
    trimList p cs = cs := by
  have hreverse : cs.reverse.dropWhile p = cs.reverse := dropWhile_eq_self (by rw [List.head?_reverse]; exact hlast)
  rw [trimList, dropWhile_eq_self hhead, hreverse, List.reverse_reverse]

/-- A text that holds nothing to be taken away is trimmed already. -/
theorem trimList_of_forall (h : ∀ c ∈ cs, p c = false) : trimList p cs = cs :=
  trimList_eq_self (fun c hc => h c (List.mem_of_head? hc)) fun c hc => h c (List.mem_of_getLast? hc)

/-- What is left after dropping does not start with what was dropped. -/
theorem not_head?_dropWhile {c : Char} (h : (cs.dropWhile p).head? = some c) : p c = false := by
  have hnot := List.head?_dropWhile_not p cs
  rw [h] at hnot
  exact hnot

/-- A trimmed text does not start with what was taken away. -/
theorem not_head?_trimList {c : Char} (h : (trimList p cs).head? = some c) : p c = false := by
  obtain ⟨rest, hrest⟩ := List.reverse_prefix.mpr (List.dropWhile_suffix p (l := (cs.dropWhile p).reverse))
  have hhead := congrArg List.head? hrest
  rw [List.head?_append, List.reverse_reverse] at hhead
  rw [trimList] at h
  rw [h] at hhead
  exact not_head?_dropWhile hhead.symm

/-- A trimmed text does not end with what was taken away. -/
theorem not_getLast?_trimList {c : Char} (h : (trimList p cs).getLast? = some c) : p c = false := by
  rw [trimList, List.getLast?_reverse] at h
  exact not_head?_dropWhile h

/-- Trimming again takes nothing more away. -/
theorem trimList_trimList (h : ∀ c, q c = true → p c = true) (cs : List Char) : trimList q (trimList p cs) = trimList p cs := by
  have hkept {c : Char} (hc : p c = false) : q c = false := Bool.eq_false_iff.mpr fun hq => by rw [h c hq] at hc; cases hc
  exact trimList_eq_self (fun c hc => hkept (not_head?_trimList hc)) fun c hc => hkept (not_getLast?_trimList hc)

/-- A trimmed text stays as it is when it is trimmed again. -/
theorem trim_trim (s : String) : trim (trim s) = trim s := by
  rw [trim, trim, trimBy, trimBy, String.toList_ofList, trimList_trimList (fun _ h => h)]

/-- Whether a text starts with a minus, and the text without its sign. -/
def unsigned : List Char → Bool × List Char
  | '-' :: cs => (true, cs)
  | '+' :: cs => (false, cs)
  | cs => (false, cs)

theorem unsigned_of_head? (h : ∀ c, cs.head? = some c → c ≠ '-' ∧ c ≠ '+') : unsigned cs = (false, cs) := by
  unfold unsigned
  split
  · exact absurd rfl (h '-' rfl).1
  · exact absurd rfl (h '+' rfl).2
  · rfl

/-- Digits alone have no sign. -/
theorem unsigned_of_isDigit (h : ∀ c ∈ cs, c.isDigit = true) : unsigned cs = (false, cs) := by
  refine unsigned_of_head? fun c hc => ?_
  have hdigit := h c (List.mem_of_head? hc)
  constructor <;> rintro rfl <;> cases hdigit

/-- An integer is read by taking the sign off, reading digits, and putting the sign back. -/
theorem intOfDigits?_eq (cs : List Char) :
    intOfDigits? cs = (natOfDigits? (unsigned cs).2).map fun (n : Nat) => if (unsigned cs).1 then -(n : Int) else n := by
  unfold intOfDigits? unsigned
  split
  all_goals
    simp only
    cases natOfDigits? _ <;> rfl

/-- A natural number is read from nonempty texts of decimal digits, and from no others. -/
theorem natOfDigits?_eq_some_iff {n : Nat} :
    natOfDigits? cs = some n ↔ (cs ≠ [] ∧ ∀ c ∈ cs, c.isDigit = true) ∧ digitsOnto 0 cs = n := by
  unfold natOfDigits?
  split
  · rename_i h
    simp only [Bool.or_eq_true, List.isEmpty_iff, Bool.not_eq_true', List.all_eq_false] at h
    refine ⟨nofun, fun ⟨⟨hne, hdigits⟩, _⟩ => ?_⟩
    rcases h with h | ⟨c, hc, hdigit⟩
    · exact absurd h hne
    · exact absurd (hdigits c hc) hdigit
  · rename_i h
    simp only [Bool.or_eq_true, List.isEmpty_iff, Bool.not_eq_true', List.all_eq_false, not_or, not_exists, not_and,
      Decidable.not_not] at h
    exact ⟨fun heq => ⟨h, Option.some.inj heq⟩, fun heq => congrArg some heq.2⟩

/-- The value of the digits written of a number is the number. -/
theorem digitsOnto_toDigits (n : Nat) : digitsOnto 0 (Nat.toDigits 10 n) = n := by
  have hvalue := @Nat.ofDigitChars_ten_toDigits n
  rw [Nat.ofDigitChars_eq_foldl] at hvalue
  simpa only [digitsOnto, Nat.mul_comm] using hvalue

/-- A number is read back from the digits written of it. -/
theorem natOfDigits?_toDigits (n : Nat) : natOfDigits? (Nat.toDigits 10 n) = some n :=
  natOfDigits?_eq_some_iff.mpr
    ⟨⟨Nat.toDigits_ne_nil, fun _ hc => Nat.isDigit_of_mem_toDigits (by decide) (by decide) hc⟩, digitsOnto_toDigits n⟩

/-- What is an integer of 64 bits has its digits below the end of the range, or is the least one. -/
theorem isSome_intBetween?_iff {s : String} :
    (intBetween? leastInt greatestInt s).isSome = true ↔
      intOfDigits? s.toList = some leastInt ∨
        ∃ n : Nat, natOfDigits? (unsigned s.toList).2 = some n ∧ (n : Int) ≤ greatestInt := by
  have hleast : leastInt = -9223372036854775808 := rfl
  have hgreatest : greatestInt = 9223372036854775807 := rfl
  rw [intBetween?, intOfDigits?_eq]
  cases natOfDigits? (unsigned s.toList).2 with
  | none => simp
  | some n =>
    simp only [Option.map_some, Option.isSome_filter, Option.any_some, Bool.and_eq_true, decide_eq_true_eq, Option.some.injEq,
      exists_eq_left']
    split <;> omega

/-- The least integer is written with a minus before digits beyond the greatest integer. -/
theorem natOfDigits?_of_least (h : intOfDigits? cs = some leastInt) :
    (unsigned cs).1 = true ∧ ∃ n : Nat, natOfDigits? (unsigned cs).2 = some n ∧ greatestInt < n := by
  have hleast : leastInt = -9223372036854775808 := rfl
  have hgreatest : greatestInt = 9223372036854775807 := rfl
  rw [intOfDigits?_eq] at h
  obtain ⟨n, hn, h⟩ := Option.map_eq_some_iff.mp h
  cases hsign : (unsigned cs).1 with
  | false =>
    rw [hsign, if_neg Bool.false_ne_true] at h
    omega
  | true =>
    rw [hsign, if_pos rfl] at h
    exact ⟨rfl, n, hn, by omega⟩

end Text

namespace Number

open Text

/-- A number is read from a text without the spaces and tabs at its ends, after the sign is taken off. -/
theorem ofText?_eq (s : String) :
    ofText? s = ofUnsigned? (unsigned (trimList isSpaceOrTab s.toList)).1 (unsigned (trimList isSpaceOrTab s.toList)).2 := by
  unfold ofText? unsigned
  split
  · rename_i h
    simp [h, ofUnsigned?]
  · rename_i h
    simp [h]
  · rename_i h
    simp [h]
  · simp

/-- After the white space at its ends is taken off, a text has no more spaces or tabs to be taken off. -/
theorem ofText?_trim (s : String) :
    ofText? (trim s) = ofUnsigned? (unsigned (trim s).toList).1 (unsigned (trim s).toList).2 := by
  have hblank (c : Char) (h : isSpaceOrTab c = true) : isBlank c = true := by
    rcases Bool.or_eq_true_iff.mp h with h | h <;> rw [beq_iff_eq.mp h] <;> decide
  have htrim : trimList isSpaceOrTab (trim s).toList = (trim s).toList := by
    rw [trim, trimBy, String.toList_ofList, trimList_trimList hblank]
  rw [ofText?_eq, htrim]

/-- Hexadecimal digits after their mark, with a value of 64 bits. -/
def IsHexadecimal (body : List Char) : Prop :=
  ∃ mark digits, body = '0' :: mark :: digits ∧ (mark = 'x' ∨ mark = 'X') ∧ digits ≠ [] ∧ digits.all isHexDigit = true ∧
    hexValue digits < values64

section

variable {mark : Char} (hmark : mark = 'x' ∨ mark = 'X') (digits : List Char)
include hmark

/-- Hexadecimal digits with their mark are no decimal digits. -/
theorem natOfDigits?_hexadecimal : natOfDigits? ('0' :: mark :: digits) = none := by
  refine Option.eq_none_iff_forall_ne_some.mpr fun n hn => ?_
  have hdigit := (natOfDigits?_eq_some_iff.mp hn).1.2 mark (by simp)
  rcases hmark with rfl | rfl <;> cases hdigit

/-- Hexadecimal digits with their mark make an integer if there are any, all of them are digits, and their value has 64 bits. -/
theorem isHexadecimal_iff :
    IsHexadecimal ('0' :: mark :: digits) ↔ digits ≠ [] ∧ digits.all isHexDigit = true ∧ hexValue digits < values64 := by
  refine ⟨?_, fun h => ⟨mark, digits, rfl, hmark, h⟩⟩
  rintro ⟨_, _, ⟨⟩, -, h⟩
  exact h

/-- After the sign, hexadecimal digits are read as an integer exactly if their value has 64 bits. -/
theorem exists_int_hexadecimal (negative : Bool) :
    (∃ n, ofUnsigned? negative ('0' :: mark :: digits) = some (.int n)) ↔ IsHexadecimal ('0' :: mark :: digits) := by
  have hread : ofUnsigned? negative ('0' :: mark :: digits) =
      if digits.isEmpty || !digits.all isHexDigit then none
      else if hexValue digits < values64 then
        some (.int (if negative then -Int64.ofInt (hexValue digits) else Int64.ofInt (hexValue digits)))
      else none := by
    rcases hmark with rfl | rfl <;> rfl
  rw [isHexadecimal_iff hmark, hread]
  by_cases hdigits : digits.isEmpty || !digits.all isHexDigit
  · rw [if_pos hdigits]
    refine ⟨nofun, fun ⟨hne, hall, _⟩ => ?_⟩
    simp [hne, hall] at hdigits
  · rw [if_neg hdigits]
    simp only [Bool.or_eq_true, List.isEmpty_iff, Bool.not_eq_true', not_or, Bool.not_eq_false] at hdigits
    simp [hdigits]

end

/-- An integer in hexadecimal digits is not one in decimal digits. -/
theorem natOfDigits?_of_isHexadecimal {body : List Char} (h : IsHexadecimal body) : natOfDigits? body = none := by
  obtain ⟨mark, digits, rfl, hmark, -⟩ := h
  exact natOfDigits?_hexadecimal hmark digits

/-- A text that passes the counts and has no point consists of decimal digits, and its value is theirs. -/
theorem natOfDigits?_of_counts {body : List Char}
    (hcounts : ¬ (body.countP Char.isDigit == 0 || decide (1 < body.countP (· == '.')) ||
      body.countP Char.isDigit + body.countP (· == '.') != body.length) = true)
    (hpoints : (body.countP (· == '.') == 0) = true) : natOfDigits? body = some (digitsOnto 0 body) := by
  have hpoints := beq_iff_eq.mp hpoints
  simp only [hpoints, Bool.or_eq_true, beq_iff_eq, bne_iff_ne, Nat.add_zero, not_or, Decidable.not_not] at hcounts
  refine natOfDigits?_eq_some_iff.mpr ⟨⟨?_, List.countP_eq_length.mp hcounts.2⟩, rfl⟩
  rintro rfl
  exact hcounts.1.1 rfl

/-- Decimal digits are read as the integer they stand for while that lies below the end of the range. -/
theorem ofUnsigned?_of_natOfDigits? {body : List Char} {n : Nat} (h : natOfDigits? body = some n) (negative : Bool) :
    ofUnsigned? negative body =
      if (n : Int) ≤ greatestInt then some (.int (Int64.ofInt (if negative then -(n : Int) else n))) else none := by
  obtain ⟨⟨hne, hdigits⟩, hvalue⟩ := natOfDigits?_eq_some_iff.mp h
  have hcount : body.countP Char.isDigit = body.length := List.countP_eq_length.mpr hdigits
  have hpoints : body.countP (· == '.') = 0 := by
    refine List.countP_eq_zero.mpr fun c hc hpoint => ?_
    rw [beq_iff_eq.mp hpoint] at hc
    cases hdigits _ hc
  fun_cases ofUnsigned? negative body with
  | case1 digits =>
    rw [natOfDigits?_hexadecimal (.inl rfl)] at h
    cases h
  | case2 digits =>
    rw [natOfDigits?_hexadecimal (.inr rfl)] at h
    cases h
  | case3 | case4 | case5 | case6 => simp [hcount, hpoints, hvalue, hne]

/-- A text without a sign is read as an integer if it is one in hexadecimal digits, or one in decimal digits that lies below the end
of the range. -/
theorem exists_int_iff {negative : Bool} {body : List Char} :
    (∃ n, ofUnsigned? negative body = some (.int n)) ↔
      IsHexadecimal body ∨ ∃ n : Nat, natOfDigits? body = some n ∧ (n : Int) ≤ greatestInt := by
  constructor
  · -- what is read as an integer is hexadecimal, or has digits and no point
    fun_cases ofUnsigned? negative body with
    | case1 _ digits => exact fun hread => .inl ((exists_int_hexadecimal (.inl rfl) digits negative).mp hread)
    | case2 _ digits => exact fun hread => .inl ((exists_int_hexadecimal (.inr rfl) digits negative).mp hread)
    | case3 _ points digits hcounts =>
      rintro ⟨n, hread⟩
      rw [if_pos hcounts] at hread
      cases hread
    | case4 _ points digits hcounts hpoints n hle =>
      exact fun _ => .inr ⟨n, natOfDigits?_of_counts hcounts hpoints, hle⟩
    | case5 _ points digits hcounts hpoints n hle =>
      rintro ⟨n, hread⟩
      rw [if_neg hcounts, if_pos hpoints, if_neg hle] at hread
      cases hread
    | case6 _ points digits hcounts hpoints =>
      rintro ⟨n, hread⟩
      rw [if_neg hcounts, if_neg hpoints] at hread
      cases hread
  · rintro (hhex | ⟨n, hdigits, hle⟩)
    · obtain ⟨mark, digits, rfl, hmark, -⟩ := id hhex
      exact (exists_int_hexadecimal hmark digits negative).mpr hhex
    · exact ⟨_, by rw [ofUnsigned?_of_natOfDigits? hdigits, if_pos hle]⟩

/-- The text of an integer holds no spaces or tabs. -/
theorem isSpaceOrTab_intText (n : Int64) : ∀ c ∈ (intText n).toList, isSpaceOrTab c = false := by
  have hdigits (k : Nat) : ∀ c ∈ Nat.toDigits 10 k, isSpaceOrTab c = false := by
    intro c hc
    have hdigit := Nat.isDigit_of_mem_toDigits (by decide) (by decide) hc
    refine Bool.eq_false_iff.mpr fun hblank => ?_
    rcases Bool.or_eq_true_iff.mp hblank with hblank | hblank <;> rw [beq_iff_eq.mp hblank] at hdigit <;> cases hdigit
  intro c hc
  unfold intText at hc
  split at hc
  · exact hdigits _ c (by simpa using hc)
  · rcases List.mem_cons.mp (by simpa using hc) with rfl | hc
    · rfl
    · exact hdigits _ c hc

/-- Every integer but the least is read from its text. -/
theorem ofText?_intText (n : Int64) : ofText? (intText n) = if n = Int64.minValue then none else some (.int n) := by
  have hleast : n = Int64.minValue ↔ n.toInt = -9223372036854775808 := by
    rw [← Int64.toInt_inj]
    exact Iff.rfl
  have hlow : -9223372036854775808 ≤ n.toInt := n.le_toInt
  have hhigh : n.toInt ≤ 9223372036854775807 := n.toInt_le
  have hgreatest : greatestInt = 9223372036854775807 := rfl
  rw [ofText?_eq, trimList_of_forall (isSpaceOrTab_intText n)]
  unfold intText
  split
  · rename_i k hk
    have hk : n.toInt = (k : Int) := hk
    have hmin : ¬ n = Int64.minValue := by rw [hleast]; omega
    have hfits : (k : Int) ≤ greatestInt := by omega
    have hdigits := natOfDigits?_toDigits k
    rw [String.toList_ofList, unsigned_of_isDigit (natOfDigits?_eq_some_iff.mp hdigits).1.2,
      ofUnsigned?_of_natOfDigits? hdigits, if_pos hfits, if_neg hmin, if_neg Bool.false_ne_true, ← hk, Int64.ofInt_toInt]
  · rename_i k hk
    have hk : n.toInt = -((k + 1 : Nat) : Int) := hk
    rw [String.toList_ofList, unsigned, ofUnsigned?_of_natOfDigits? (natOfDigits?_toDigits (k + 1)), if_pos rfl, ← hk,
      Int64.ofInt_toInt]
    by_cases hmin : n = Int64.minValue
    · have hfits : ¬ ((k + 1 : Nat) : Int) ≤ greatestInt := by
        have hmin := hleast.mp hmin
        omega
      rw [if_pos hmin, if_neg hfits]
    · have hfits : ((k + 1 : Nat) : Int) ≤ greatestInt := by
        rw [hleast] at hmin
        omega
      rw [if_neg hmin, if_pos hfits]

end Number

end LineScript
