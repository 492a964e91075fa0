import LineScript.Proofs.Text.Lower

/-!
# Places in lower case

The lower-case form of a text puts one character in the place of each, but two in that of a dotted capital I, and what it puts in
the place of a capital sigma depends on the word around it. Without dotted capitals and without capital sigmas that end a word the
lower-case form of what is left of a text is what is left of its lower-case form (`Text.KeepsPlaces.lowerOnto_eq`).
-/

namespace LineScript

namespace Text

/-- Whether a word ends between characters: one that has a case stands before them, nearest first, and none after them. -/
def EndsWord (before after : List Char) : Prop :=
  startsCased before = true ∧ startsCased after = false

/-- Whether every character has a lower-case form of one character, whatever is taken off before it: none is a dotted capital I, and
none a capital sigma that ends a word. -/
def KeepsPlaces (cs : List Char) : Prop :=
  '\u0130' ∉ cs ∧ ∀ before after, cs = before ++ 'Σ' :: after → ¬ EndsWord before.reverse after

/-- A text with neither a capital sigma nor a dotted capital I keeps the places of its characters in lower case. -/
theorem keepsPlaces_of_not_mem {cs : List Char} (hsigma : 'Σ' ∉ cs) (hdotted : '\u0130' ∉ cs) : KeepsPlaces cs :=
  ⟨hdotted, fun before _ hcs => absurd (hcs ▸ List.mem_append_right before List.mem_cons_self) hsigma⟩

/-- A capital sigma becomes a final one at the end of a word, and a common one elsewhere. -/
theorem lowerBetween_sigma (before after : List Char) :
    lowerBetween before 'Σ' after = [if startsCased before && !startsCased after then 'ς' else 'σ'] :=
  rfl

/-- Every other character has one lower-case form, whatever stands around it. -/
theorem lowerBetween_of_ne {c : Char} (h : c ≠ 'Σ') (before after : List Char) : lowerBetween before c after = lowerChar c := by
  rw [lowerBetween, if_neg (mt beq_iff_eq.mp h)]

/-- The lower-case form of a character is one character long, that of a dotted capital I two. -/
theorem length_lowerBetween (before : List Char) (c : Char) (after : List Char) :
    (lowerBetween before c after).length = 1 + [c].count '\u0130' := by
  by_cases hsigma : c = 'Σ'
  · subst hsigma
    rfl
  rw [lowerBetween_of_ne hsigma, lowerChar]
  by_cases hdotted : c = '\u0130'
  · subst hdotted
    rfl
  · rw [List.count_singleton, if_neg (mt beq_iff_eq.mp hdotted), if_neg (mt beq_iff_eq.mp hdotted)]
    split <;> rfl

/-- The lower-case form of two stretches. That of the first one has a character for each, and one more for every dotted capital. -/
theorem exists_lowerOnto_append (before cs ds : List Char) :
    ∃ form, lowerOnto [] before (cs ++ ds) = form ++ lowerOnto [] (cs.reverse ++ before) ds ∧
      form.length = cs.length + cs.count '\u0130' := by
  induction cs generalizing before with
  | nil => exact ⟨[], rfl, rfl⟩
  | cons c cs ih =>
    obtain ⟨form, hform, hlength⟩ := ih (c :: before)
    refine ⟨lowerBetween before c (cs ++ ds) ++ form, ?_, ?_⟩
    · rw [List.cons_append, lowerOnto_cons, hform, List.reverse_cons, List.append_assoc, List.append_assoc]
      rfl
    · rw [List.length_append, length_lowerBetween, hlength, ← List.singleton_append (l := cs), List.count_append,
        List.length_append]
      simp only [List.length_singleton]
      omega

/-- A text gets longer in lower case by one character for each dotted capital I. -/
theorem length_lower (s : String) : (lower s).toList.length = s.toList.length + s.toList.count '\u0130' := by
  obtain ⟨form, hform, hlength⟩ := exists_lowerOnto_append [] s.toList []
  rw [lower, String.toList_ofList, ← hlength]
  rw [List.append_nil] at hform
  rw [hform]
  simp [lowerOnto]

/-- More characters further away end no fewer words. -/
theorem startsCased_append_of {cs : List Char} (h : startsCased cs = true) (more : List Char) :
    startsCased (cs ++ more) = true := by
  induction cs with
  | nil => cases h
  | cons c cs ih =>
    unfold startsCased at h ih ⊢
    rw [List.cons_append, List.dropWhile_cons]
    rw [List.dropWhile_cons] at h
    by_cases hc : isCaseIgnorable c = true
    · rw [if_pos hc] at h ⊢
      exact ih h
    · rw [if_neg hc] at h ⊢
      exact h

/-- What stands before a text shows only in capital sigmas that end a word. -/
theorem lowerOnto_outer (inner outer : List Char) {cs : List Char}
    (h : ∀ before after, cs = before ++ 'Σ' :: after → ¬ EndsWord (before.reverse ++ (inner ++ outer)) after) :
    lowerOnto [] (inner ++ outer) cs = lowerOnto [] inner cs := by
  induction cs generalizing inner with
  | nil => rfl
  | cons c cs ih =>
    have hform : lowerBetween (inner ++ outer) c cs = lowerBetween inner c cs := by
      by_cases hsigma : c = 'Σ'
      · subst hsigma
        have hends : ¬ EndsWord (inner ++ outer) cs := h [] cs rfl
        rw [lowerBetween_sigma, lowerBetween_sigma]
        cases hafter : startsCased cs with
        | true => simp
        | false =>
          have houter : startsCased (inner ++ outer) = false := Bool.eq_false_iff.mpr fun hbefore => hends ⟨hbefore, hafter⟩
          have hinner : startsCased inner = false :=
            Bool.eq_false_iff.mpr fun hbefore => Bool.eq_false_iff.mp houter (startsCased_append_of hbefore outer)
          rw [houter, hinner]
      · rw [lowerBetween_of_ne hsigma, lowerBetween_of_ne hsigma]
    rw [lowerOnto_cons, lowerOnto_cons, hform, ← List.cons_append, ih (c :: inner)]
    intro before after hcs hends
    refine h (c :: before) after (by rw [hcs, List.cons_append]) ?_
    rw [List.reverse_cons, List.append_assoc]
    exact hends

/-- What is left of a lower-case form is the lower-case form of what is left. -/
theorem KeepsPlaces.drop_lower {s : String} (h : KeepsPlaces s.toList) (k : Nat) :
    (lower s).toList.drop k = (lower (.ofList (s.toList.drop k))).toList := by
  have hlength : (lower s).toList.length = s.toList.length := by rw [length_lower, List.count_eq_zero.mpr h.1, Nat.add_zero]
  rcases Nat.lt_or_ge s.toList.length k with hbeyond | hk
  · rw [List.drop_eq_nil_of_le (by omega), List.drop_eq_nil_of_le (Nat.le_of_lt hbeyond)]
    rfl
  obtain ⟨form, hform, hplaces⟩ := exists_lowerOnto_append [] (s.toList.take k) (s.toList.drop k)
  have hcount : (s.toList.take k).count '\u0130' = 0 := List.count_eq_zero.mpr fun hmem => h.1 (List.mem_of_mem_take hmem)
  rw [hcount, List.length_take_of_le hk] at hplaces
  rw [List.take_append_drop] at hform
  have houter : lowerOnto [] ([] ++ ((s.toList.take k).reverse ++ [])) (s.toList.drop k) = lowerOnto [] [] (s.toList.drop k) := by
    refine lowerOnto_outer [] _ fun before after hrest hends => h.2 (s.toList.take k ++ before) after ?_ ?_
    · rw [List.append_assoc, ← hrest, List.take_append_drop]
    · rw [List.reverse_append]
      simpa using hends
  rw [lower, lower, String.toList_ofList, String.toList_ofList, String.toList_ofList, hform, ← houter]
  exact List.drop_left' hplaces

/-! ## Places that move -/

/-- The form of a character ends with a character that is the form of some text. -/
theorem exists_needle (before : List Char) (c : Char) :
    ∃ needle init x, (lower needle).toList = [x] ∧ lowerBetween before c [] = init ++ [x] := by
  by_cases hsigma : c = 'Σ'
  · subst hsigma
    rw [lowerBetween_sigma]
    split
    · exact ⟨"ς", [], 'ς', by decide +kernel, rfl⟩
    · exact ⟨"σ", [], 'σ', by decide +kernel, rfl⟩
  by_cases hdotted : c = '\u0130'
  · subst hdotted
    exact ⟨"\u0307", ['i'], '\u0307', by decide +kernel, rfl⟩
  · obtain ⟨x, hx⟩ : ∃ x, lowerBetween [] c [] = [x] := by
      rw [← List.length_eq_one_iff, length_lowerBetween, List.count_eq_zero.mpr (by simpa using Ne.symm hdotted)]
    refine ⟨.ofList [c], [], x, ?_, ?_⟩
    · rw [lower, String.toList_ofList, String.toList_ofList, lowerOnto_cons, hx]
      rfl
    · rw [lowerBetween_of_ne hsigma, ← lowerBetween_of_ne hsigma [] [], hx]
      rfl

/-- The last character of a lower-case form is the form of some text. -/
theorem exists_needle_of_last {s : String} (h : s.toList ≠ []) :
    ∃ needle x, (lower needle).toList = [x] ∧ (lower s).toList.drop ((lower s).toList.length - 1) = [x] := by
  obtain ⟨front, c, hs⟩ := (List.eq_nil_or_concat s.toList).resolve_left h
  obtain ⟨form, hform, -⟩ := exists_lowerOnto_append [] front [c]
  obtain ⟨needle, init, x, hneedle, hlast⟩ := exists_needle (front.reverse ++ []) c
  have hlower : (lower s).toList = (form ++ init) ++ [x] := by
    rw [lower, String.toList_ofList, hs, List.concat_eq_append, hform, lowerOnto_cons, hlast]
    simp [lowerOnto]
  refine ⟨needle, x, hneedle, ?_⟩
  rw [hlower, List.length_append, List.length_singleton, Nat.add_sub_cancel, List.drop_left]

/-- A capital sigma that ends a word has another form when nothing stands before it. -/
theorem drop_lower_of_endsWord {s : String} {before after : List Char} (hs : s.toList = before ++ 'Σ' :: after)
    (hdotted : '\u0130' ∉ s.toList) (hends : EndsWord before.reverse after) :
    (∃ rest, (lower s).toList.drop before.length = 'ς' :: rest) ∧
      ∃ rest, (lower (.ofList (s.toList.drop before.length))).toList = 'σ' :: rest := by
  constructor
  · obtain ⟨form, hform, hlength⟩ := exists_lowerOnto_append [] before ('Σ' :: after)
    have hcount : before.count '\u0130' = 0 :=
      List.count_eq_zero.mpr fun hmem => hdotted (hs ▸ List.mem_append_left _ hmem)
    rw [hcount, Nat.add_zero] at hlength
    refine ⟨lowerOnto [] ('Σ' :: (before.reverse ++ [])) after, ?_⟩
    rw [lower, String.toList_ofList, hs, hform, List.drop_left' hlength, lowerOnto_cons, lowerBetween_sigma, List.append_nil,
      hends.1, hends.2]
    rfl
  · refine ⟨lowerOnto [] ['Σ'] after, ?_⟩
    rw [hs, List.drop_left, lower, String.toList_ofList, String.toList_ofList, lowerOnto_cons, lowerBetween_sigma]
    rfl

end Text

end LineScript
