import LineScript.Text.Basic
import LineScript.Text.Lower

/-!
# Lower case of ASCII and of paths

The lower-case form of ASCII is made character by character, and only the Kelvin sign has an ASCII form without being ASCII
(`Text.ascii_or_kelvin_of_lower`). Texts that differ in ASCII case only have the same form, whatever else they hold
(`Text.lower_eq_of_sameAscii`). A backslash is its own form and no other character has it as theirs. It also ends every word,
so the lower-case form of a path consists of those of its parts (`Text.lower_backslash`).
-/

namespace LineScript

namespace Text

/-- The sign of the unit of temperature. -/
def kelvinSign : Char := '\u212A'

/-- Beyond ASCII, no character is changed by making ASCII capitals small. -/
theorem toLower_of_le {c : Char} (h : 128 ≤ c.toNat) : c.toLower = c := by
  unfold Char.toLower
  split
  · rename_i hupper
    have hle : c.toNat ≤ 90 := hupper.2
    omega
  · rfl

/-- What is ASCII in lower case was ASCII before. -/
theorem ascii_of_toLower {c : Char} (h : c.toLower.toNat < 128) : c.toNat < 128 := by
  rcases Nat.lt_or_ge c.toNat 128 with hc | hc
  · exact hc
  · rwa [toLower_of_le hc] at h

/-- No run but that of the Kelvin sign shifts a character into ASCII. -/
theorem eq_kelvin_of_shiftBy {runs : List ShiftRun}
    (hruns : ∀ run ∈ runs, 128 ≤ Int.ofNat run.1 + run.2.2.2 ∨ (run.1 = kelvinSign.toNat ∧ run.2.1 = kelvinSign.toNat))
    {n : Nat} (hn : 128 ≤ n) (h : shiftBy runs n < 128) : n = kelvinSign.toNat := by
  induction runs with
  | nil => exact absurd h (Nat.not_lt.mpr hn)
  | cons run rest ih =>
    obtain ⟨first, last, step, shift⟩ := run
    rw [shiftBy] at h
    split at h
    · rename_i hin
      simp only [Bool.and_eq_true, decide_eq_true_eq] at hin
      have hrun := hruns _ List.mem_cons_self
      simp only [Int.ofNat_eq_natCast] at hrun h
      omega
    · exact ih (fun run hrun => hruns run (List.mem_cons_of_mem _ hrun)) h

/-- A character whose lower-case form is ASCII is ASCII, or the Kelvin sign. -/
theorem ascii_or_kelvin_of_lowerBetween {before rest : List Char} {c : Char}
    (h : ∀ x ∈ lowerBetween before c rest, x.toNat < 128 ∧ x ≠ '\x00') : c.toNat < 128 ∨ c = kelvinSign := by
  by_cases hc : c.toNat < 128
  · exact .inl hc
  right
  unfold lowerBetween at h
  split at h
  · have hsigma := (h _ List.mem_cons_self).1
    split at hsigma <;> exact absurd hsigma (by decide)
  · unfold lowerChar at h
    rw [if_neg hc] at h
    split at h
    · exact absurd (h '\u0307' (by simp)).1 (by decide)
    · obtain ⟨hascii, hne⟩ := h _ List.mem_cons_self
      have hvalid : (shiftBy lowerRuns c.toNat).isValidChar := by
        refine Decidable.byContradiction fun hvalid => hne ?_
        rw [Char.ofNat, dif_neg hvalid]
        rfl
      have hshift : (Char.ofNat (shiftBy lowerRuns c.toNat)).toNat = shiftBy lowerRuns c.toNat := by
        rw [Char.ofNat, dif_pos hvalid]
        rfl
      rw [hshift] at hascii
      have hkelvin := eq_kelvin_of_shiftBy (by decide +kernel) (Nat.not_lt.mp hc) hascii
      rw [← Char.ofNat_toNat c, hkelvin, Char.ofNat_toNat]

/-- What is already done stays in the lower-case form. -/
theorem mem_lowerOnto_of_done {x : Char} {done before cs : List Char} (h : x ∈ done) : x ∈ lowerOnto done before cs := by
  induction cs generalizing done before with
  | nil => exact List.mem_reverse.mpr h
  | cons c rest ih => exact ih (List.mem_append_right _ h)

/-- The lower-case form of a text holds that of each of its characters. -/
theorem exists_lowerBetween {c : Char} {done before cs : List Char} (h : c ∈ cs) :
    ∃ before' rest', ∀ x ∈ lowerBetween before' c rest', x ∈ lowerOnto done before cs := by
  induction cs generalizing done before with
  | nil => cases h
  | cons d rest ih =>
    rcases List.mem_cons.mp h with rfl | h
    · refine ⟨before, rest, ?_⟩
      intro x hx
      rw [lowerOnto]
      exact mem_lowerOnto_of_done (List.mem_append_left _ (List.mem_reverse.mpr hx))
    · exact ih h

/-- A text whose lower-case form is ASCII consists of ASCII and Kelvin signs. -/
theorem ascii_or_kelvin_of_lower {s : String} (h : ∀ x ∈ (lower s).toList, x.toNat < 128 ∧ x ≠ '\x00') :
    ∀ c ∈ s.toList, c.toNat < 128 ∨ c = kelvinSign := by
  intro c hc
  obtain ⟨before, rest, hmem⟩ := @exists_lowerBetween c [] [] s.toList hc
  refine @ascii_or_kelvin_of_lowerBetween before rest c ?_
  intro x hx
  refine h x ?_
  rw [lower, String.toList_ofList]
  exact hmem x hx

/-- On ASCII the two lower-case forms agree. -/
theorem lower_eq_asciiLower {s : String} (h : ∀ c ∈ s.toList, c.toNat < 128) : lower s = asciiLower s := by
  have honto (cs : List Char) (hcs : ∀ c ∈ cs, c.toNat < 128) (done before : List Char) :
      lowerOnto done before cs = done.reverse ++ cs.map Char.toLower := by
    induction cs generalizing done before with
    | nil => simp [lowerOnto]
    | cons c rest ih =>
      have hc : c.toNat < 128 := hcs c List.mem_cons_self
      have hbetween : lowerBetween before c rest = [c.toLower] := by
        have hsigma : c ≠ 'Σ' := by
          rintro rfl
          exact absurd hc (by decide)
        rw [lowerBetween, if_neg (mt beq_iff_eq.mp hsigma), lowerChar, if_pos hc]
      rw [lowerOnto, hbetween, ih fun c hc => hcs c (List.mem_cons_of_mem _ hc)]
      simp
  rw [lower, honto _ h, asciiLower]
  rfl

/-- A text that holds a Kelvin sign has a k in its lower-case form. -/
theorem mem_lower_of_kelvin {s : String} (h : kelvinSign ∈ s.toList) : 'k' ∈ (lower s).toList := by
  obtain ⟨before, rest, hmem⟩ := @exists_lowerBetween kelvinSign [] [] s.toList h
  have hk : lowerBetween before kelvinSign rest = ['k'] := by
    rw [lowerBetween, if_neg (by decide)]
    decide +kernel
  rw [lower, String.toList_ofList]
  exact hmem 'k' (hk ▸ List.mem_cons_self)

/-! ## ASCII case -/

/-- What is the same for ASCII capitals and small letters does not see ASCII case. -/
theorem apply_toLower {α : Type} (f : Char → α) (h : ∀ n < 128, f (Char.ofNat n).toLower = f (Char.ofNat n)) (c : Char) :
    f c.toLower = f c := by
  rcases Nat.lt_or_ge c.toNat 128 with hc | hc
  · have hsmall := h c.toNat hc
    rwa [Char.ofNat_toNat] at hsmall
  · rw [toLower_of_le hc]

/-- Whether a text starts with a cased letter does not depend on ASCII case. -/
theorem startsCased_map_toLower (cs : List Char) : startsCased (cs.map Char.toLower) = startsCased cs := by
  have hskip : isCaseIgnorable ∘ Char.toLower = isCaseIgnorable :=
    funext (apply_toLower isCaseIgnorable (by decide +kernel))
  unfold startsCased
  rw [List.dropWhile_map, hskip]
  cases cs.dropWhile isCaseIgnorable with
  | nil => rfl
  | cons c _ => exact apply_toLower isCased (by decide +kernel) c

/-- The lower-case form of a character does not depend on the ASCII case of the character or of its surroundings. -/
theorem lowerBetween_toLower (before : List Char) (c : Char) (rest : List Char) :
    lowerBetween (before.map Char.toLower) c.toLower (rest.map Char.toLower) = lowerBetween before c rest := by
  have hsigma : (c.toLower == 'Σ') = (c == 'Σ') := apply_toLower (· == 'Σ') (by decide +kernel) c
  rw [lowerBetween, lowerBetween, hsigma, startsCased_map_toLower, startsCased_map_toLower,
    apply_toLower lowerChar (by decide +kernel) c]

/-- The lower-case form of what is left does not depend on ASCII case. -/
theorem lowerOnto_map_toLower (done before cs : List Char) :
    lowerOnto done (before.map Char.toLower) (cs.map Char.toLower) = lowerOnto done before cs := by
  induction cs generalizing done before with
  | nil => rfl
  | cons c cs ih =>
    rw [List.map_cons, lowerOnto, lowerOnto, lowerBetween_toLower, ← List.map_cons, ih]

/-- The lower-case form does not see ASCII case. -/
theorem lower_eq_of_sameAscii {s t : String} (h : sameAscii s t = true) : lower s = lower t := by
  have hform (s : String) : lower (asciiLower s) = lower s := by
    rw [lower, asciiLower, String.toList_ofList, lower]
    exact congrArg String.ofList (lowerOnto_map_toLower [] [] s.toList)
  rw [← hform s, ← hform t, eq_of_beq h]

/-! ## Paths -/

/-- Words end before a backslash. -/
theorem startsCased_append (cs rest : List Char) : startsCased (cs ++ '\\' :: rest) = startsCased cs := by
  induction cs with
  | nil => rfl
  | cons c cs ih =>
    unfold startsCased at ih ⊢
    rw [List.cons_append, List.dropWhile_cons, List.dropWhile_cons]
    by_cases hc : isCaseIgnorable c = true
    · rw [if_pos hc, if_pos hc]
      exact ih
    · rw [if_neg hc, if_neg hc]

/-- A backslash is its own lower-case form. -/
theorem lowerBetween_backslash (before rest : List Char) : lowerBetween before '\\' rest = ['\\'] := by
  rw [lowerBetween, if_neg (by decide)]
  rfl

/-- Every character has a lower-case form of at least one character. -/
theorem lowerBetween_ne_nil (before : List Char) (c : Char) (rest : List Char) : lowerBetween before c rest ≠ [] := by
  unfold lowerBetween lowerChar
  split
  · exact List.cons_ne_nil _ _
  · split
    · exact List.cons_ne_nil _ _
    · split <;> exact List.cons_ne_nil _ _

/-- Making ASCII capitals small gives a backslash for a backslash only. -/
theorem eq_backslash_of_toLower {c : Char} (h : c.toLower = '\\') : c = '\\' := by
  unfold Char.toLower at h
  split at h
  · rename_i hupper
    have hval : (c.val + 32).toNat = 92 := congrArg Char.toNat h
    have hlow : 65 ≤ c.val.toNat := hupper.1
    have hhigh : c.val.toNat ≤ 90 := hupper.2
    rw [UInt32.toNat_add] at hval
    simp only [UInt32.reduceToNat] at hval
    omega
  · exact h

/-- A character other than the null character is made from its own number only. -/
theorem toNat_of_ofNat {n : Nat} {c : Char} (h : Char.ofNat n = c) (hne : c ≠ '\x00') : n = c.toNat := by
  subst h
  by_cases hvalid : n.isValidChar
  · rw [Char.ofNat, dif_pos hvalid]
    rfl
  · rw [Char.ofNat, dif_neg hvalid] at hne
    exact absurd rfl hne

/-- Only a backslash has one in its lower-case form. -/
theorem eq_backslash_of_mem_lowerBetween {before rest : List Char} {c : Char} (h : '\\' ∈ lowerBetween before c rest) :
    c = '\\' := by
  unfold lowerBetween at h
  split at h
  · split at h <;> simp at h
  · unfold lowerChar at h
    split at h
    · exact eq_backslash_of_toLower (List.mem_singleton.mp h).symm
    · rename_i hc
      split at h
      · simp at h
      · have hshift : shiftBy lowerRuns c.toNat = 92 := toNat_of_ofNat (List.mem_singleton.mp h).symm (by decide)
        have hkelvin : c.toNat = kelvinSign.toNat :=
          @eq_kelvin_of_shiftBy lowerRuns (by decide +kernel) _ (Nat.not_lt.mp hc) (by rw [hshift]; decide)
        rw [hkelvin] at hshift
        exact absurd hshift (by decide +kernel)

/-- The lower-case form is added behind what is already done. -/
theorem lowerOnto_eq_append (done before cs : List Char) :
    lowerOnto done before cs = done.reverse ++ lowerOnto [] before cs := by
  induction cs generalizing done before with
  | nil => simp [lowerOnto]
  | cons c cs ih =>
    rw [lowerOnto, lowerOnto, ih, ih ((lowerBetween before c cs).reverse ++ [])]
    simp

/-- The lower-case form of a text is that of its first character, then that of the rest, which has one character more before it.
-/
theorem lowerOnto_cons (before : List Char) (c : Char) (cs : List Char) :
    lowerOnto [] before (c :: cs) = lowerBetween before c cs ++ lowerOnto [] (c :: before) cs := by
  rw [lowerOnto, lowerOnto_eq_append]
  simp

/-- What stands before a backslash does not matter after it. -/
theorem lowerOnto_before (before outer cs : List Char) :
    lowerOnto [] (before ++ '\\' :: outer) cs = lowerOnto [] before cs := by
  induction cs generalizing before with
  | nil => rfl
  | cons c cs ih =>
    rw [lowerOnto_cons, lowerOnto_cons, ← List.cons_append, ih, lowerBetween, lowerBetween, startsCased_append]

/-- The lower-case form before a backslash and the one after it are made apart. -/
theorem lowerOnto_backslash (before cs rest : List Char) :
    lowerOnto [] before (cs ++ '\\' :: rest) = lowerOnto [] before cs ++ '\\' :: lowerOnto [] [] rest := by
  induction cs generalizing before with
  | nil =>
    have houter := lowerOnto_before [] before rest
    rw [List.nil_append] at houter
    rw [List.nil_append, lowerOnto_cons, lowerBetween_backslash, houter]
    rfl
  | cons c cs ih =>
    rw [List.cons_append, lowerOnto_cons, lowerOnto_cons, ih, lowerBetween, lowerBetween, startsCased_append, List.append_assoc]

/-- The lower-case form of a path is put together from those of its parts. -/
theorem lower_backslash (s t : String) : lower (s ++ "\\" ++ t) = lower s ++ "\\" ++ lower t := by
  apply String.toList_injective
  simp [lower, lowerOnto_backslash]

/-- Only the empty text has an empty lower-case form. -/
theorem lower_eq_empty_iff {s : String} : lower s = "" ↔ s = "" := by
  constructor
  · intro h
    have hlist := congrArg String.toList h
    rw [lower, String.toList_ofList] at hlist
    cases hs : s.toList with
    | nil => exact String.toList_eq_nil_iff.mp hs
    | cons c cs =>
      rw [hs, lowerOnto_cons] at hlist
      exact absurd (List.append_eq_nil_iff.mp hlist).1 (lowerBetween_ne_nil _ _ _)
  · rintro rfl
    rfl

/-- The lower-case form of a text without backslashes has none. -/
theorem not_mem_lower {s : String} (h : '\\' ∉ s.toList) : '\\' ∉ (lower s).toList := by
  have honto (before cs : List Char) (hcs : '\\' ∉ cs) : '\\' ∉ lowerOnto [] before cs := by
    induction cs generalizing before with
    | nil => exact List.not_mem_nil
    | cons c cs ih =>
      rw [List.mem_cons, not_or] at hcs
      rw [lowerOnto_cons, List.mem_append, not_or]
      exact ⟨fun hmem => hcs.1 (eq_backslash_of_mem_lowerBetween hmem).symm, ih _ hcs.2⟩
  rw [lower, String.toList_ofList]
  exact honto [] _ h

/-- A lower-case form starts with a backslash only if the text does. -/
theorem head?_of_lower {s : String} (h : (lower s).toList.head? = some '\\') : s.toList.head? = some '\\' := by
  rw [lower, String.toList_ofList] at h
  cases hs : s.toList with
  | nil =>
    rw [hs] at h
    cases h
  | cons c cs =>
    obtain ⟨d, ds, hform⟩ := List.exists_cons_of_ne_nil (lowerBetween_ne_nil [] c cs)
    rw [hs, lowerOnto_cons, hform] at h
    cases h
    obtain rfl : c = '\\' := eq_backslash_of_mem_lowerBetween (hform ▸ List.mem_cons_self)
    rfl

/-- A lower-case form ends with a backslash only if the text does. -/
theorem getLast?_of_lower {s : String} (h : (lower s).toList.getLast? = some '\\') : s.toList.getLast? = some '\\' := by
  have honto (before cs : List Char) (c : Char) :
      ∃ front before', lowerOnto [] before (cs ++ [c]) = front ++ lowerBetween before' c [] := by
    induction cs generalizing before with
    | nil => exact ⟨[], before, by rw [List.nil_append, lowerOnto_cons]; simp [lowerOnto]⟩
    | cons d cs ih =>
      obtain ⟨front, before', hfront⟩ := ih (d :: before)
      exact ⟨lowerBetween before d (cs ++ [c]) ++ front, before', by rw [List.cons_append, lowerOnto_cons, hfront]; simp⟩
  rw [lower, String.toList_ofList] at h
  rcases List.eq_nil_or_concat s.toList with hs | ⟨cs, c, hs⟩
  · rw [hs] at h
    cases h
  · obtain ⟨front, before, hform⟩ := honto [] cs c
    rw [List.concat_eq_append] at hs
    rw [hs, hform, List.getLast?_append] at h
    rw [hs, List.getLast?_concat]
    cases hlast : (lowerBetween before c []).getLast? with
    | none => exact absurd (List.getLast?_eq_none_iff.mp hlast) (lowerBetween_ne_nil _ _ _)
    | some d =>
      rw [hlast] at h
      cases h
      rw [eq_backslash_of_mem_lowerBetween (List.mem_of_getLast? hlast)]

end Text

end LineScript
