import LineScript.Proofs.Load.Arguments

/-!
# Where references and tokens stand

The tokens of a text stand in it one after the other (`Token.Sited`), so the references of an expression stand there too, like
those of a free text. Arguments are sound in this sense as soon as they are built, and their variables have slots
(`Arg.Sound`).
-/

namespace LineScript

open Text

namespace Deref.Sited

variable {start : Nat} {cs : List Char} {derefs : List Deref}

/-- What stands in a text stands in it with more characters before it. -/
theorem prepend (lead : List Char) (h : Sited (start + byteSize lead) cs derefs) : Sited start (lead ++ cs) derefs := by
  cases h with
  | nil => exact .nil
  | @cons _ lead' name cs target rest h =>
    have hstart : start + byteSize lead + byteSize lead' = start + byteSize (lead ++ lead') := by
      rw [byteSize_append, Nat.add_assoc]
    rw [hstart] at h ⊢
    rw [← List.append_assoc]
    exact .cons h

end Deref.Sited

namespace Token

/-- A token has characters, and a quoted text has its quotes. -/
structure Whole (token : Token) : Prop where
  chars_ne : token.chars ≠ []
  quotes : token.kind = .str → ∃ inner, token.chars = '"' :: (inner ++ ['"'])

/-- Tokens stand one after the other in characters that start at an offset, with others between them. -/
inductive Sited : (start : Nat) → List Char → List Token → Prop
  | nil {start : Nat} {cs : List Char} : Sited start cs []
  | skip {start : Nat} {c : Char} {cs : List Char} {tokens : List Token} (h : Sited (start + c.utf8Size) cs tokens) :
    Sited start (c :: cs) tokens
  | cons {token : Token} {cs : List Char} {rest : List Token} (h : Sited (token.start + token.size) cs rest) :
    Sited token.start (token.chars ++ cs) (token :: rest)

/-- What is read of a text in quotes is what was taken, what stands inside, and the closing quote. -/
theorem quotedOnto_eq_some {taken cs chars rest : List Char} (h : quotedOnto taken cs = some (chars, rest)) :
    ∃ inner, chars = taken.reverse ++ (inner ++ ['"']) ∧ taken.reverse ++ cs = chars ++ rest := by
  fun_induction quotedOnto taken cs with
  | case1 => cases h
  | case2 taken rest' ih =>
    obtain ⟨inner, rfl, hcs⟩ := ih h
    exact ⟨'"' :: '"' :: inner, by simp, by simpa using hcs⟩
  | case3 taken rest' =>
    cases h
    exact ⟨[], by simp, by simp⟩
  | case4 taken c rest' _ _ ih =>
    obtain ⟨inner, rfl, hcs⟩ := ih h
    exact ⟨c :: inner, by simp, by simpa using hcs⟩

/-- An operator or bracket has a character. -/
theorem symbol?_eq_some {cs : List Char} {kind : TokenKind} {n : Nat} (h : symbol? cs = some (kind, n)) :
    kind ≠ .str ∧ cs.take n ≠ [] := by
  unfold symbol? at h
  split at h
  any_goals split at h
  all_goals cases h
  all_goals exact ⟨nofun, nofun⟩

/-- A character that ends a word, no blank and no quote, starts an operator or a bracket. -/
theorem symbol?_ne_none {c : Char} (hends : isTerminator c = true) (hblank : isSpaceOrTab c = false) (hquote : c ≠ '"')
    (cs : List Char) : symbol? (c :: cs) ≠ none := by
  have hmem : c ∈ ['\t', ' ', '+', '-', '<', '>', '=', '*', '/', '&', '|', '^', '~', '!', '(', ')', ',', '"'] :=
    List.contains_iff_mem.mp hends
  intro h
  unfold symbol? at h
  split at h
  any_goals cases h
  · rename_i hpoint
    cases hpoint
    cases hends
  · -- none of the patterns fits, although each of these characters has one for itself
    rename_i hopen hclose hcomma _ htimes _ hover hplus hminus _ hand _ hor hxor hnot _ hbang _ _ _ hless _ _ hmore _ heq _ _
    simp only [List.mem_cons, List.not_mem_nil, or_false] at hmem
    rcases hmem with rfl | rfl | rfl | rfl | rfl | rfl | rfl | rfl | rfl | rfl | rfl | rfl | rfl | rfl | rfl | rfl | rfl | rfl
    any_goals cases hblank
    any_goals exact hquote rfl
    all_goals
      first
      | exact hplus _ rfl | exact hminus _ rfl | exact hless _ rfl | exact hmore _ rfl | exact heq _ rfl
      | exact htimes _ rfl | exact hover _ rfl | exact hand _ rfl | exact hor _ rfl | exact hxor _ rfl
      | exact hnot _ rfl | exact hbang _ rfl | exact hopen _ rfl | exact hclose _ rfl | exact hcomma _ rfl

/-- A word is no text in quotes. -/
theorem wordKind_ne_str (word after : List Char) : wordKind word after ≠ .str := by
  unfold wordKind
  dsimp only
  repeat' split
  all_goals exact nofun

/-- The next token is cut off the text. -/
theorem next_eq_ok {start : Nat} {c : Char} {cs rest : List Char} {token : Token} (hblank : isSpaceOrTab c = false)
    (h : next start (c :: cs) = .ok (token, rest)) : token.start = start ∧ c :: cs = token.chars ++ rest ∧ token.Whole := by
  unfold next at h
  split at h
  · rename_i tail hcs
    split at h
    · cases h
    · rename_i chars rest' hquoted
      cases h
      obtain ⟨inner, hchars, hrest⟩ := quotedOnto_eq_some hquoted
      rw [hcs]
      exact ⟨rfl, hrest, by rw [hchars]; exact nofun, fun _ => ⟨inner, hchars⟩⟩
  · rename_i hquote
    split at h
    · rename_i kind n hsymbol
      cases h
      obtain ⟨hkind, htake⟩ := symbol?_eq_some hsymbol
      exact ⟨rfl, (List.take_append_drop n _).symm, htake, fun hstr => absurd hstr hkind⟩
    · rename_i hnone
      dsimp only at h
      split at h
      · cases h
      · cases h
        refine ⟨rfl, (@List.takeWhile_append_dropWhile _ (!isTerminator ·) _).symm, ?_,
          fun hstr => absurd hstr (wordKind_ne_str _ _)⟩
        have hword : isTerminator c = false := by
          refine Bool.eq_false_iff.mpr fun hends => ?_
          exact symbol?_ne_none hends hblank (fun hc => hquote cs (by rw [hc])) cs hnone
        simp [hword]

/-- Scanned tokens stand one after the other in what is left of the text, each of them whole. -/
theorem sited_scanOnto {fuel start : Nat} {done tokens : List Token} {cs : List Char}
    (h : scanOnto fuel done start cs = .ok tokens) :
    ∃ more, tokens = done.reverse ++ more ∧ Sited start cs more ∧ ∀ token ∈ more, token.Whole := by
  fun_induction scanOnto fuel done start cs with
  | case1 | case2 =>
    cases h
    exact ⟨[], (List.append_nil _).symm, .nil, nofun⟩
  | case3 fuel done start c cs hblank ih =>
    obtain ⟨more, hmore, hsited, hwhole⟩ := ih h
    have hsize : c.utf8Size = 1 := by
      rcases Bool.or_eq_true_iff.mp hblank with hc | hc <;> rw [beq_iff_eq.mp hc] <;> rfl
    exact ⟨more, hmore, .skip (hsize ▸ hsited), hwhole⟩
  | case4 => cases h
  | case5 fuel done start c cs hblank token rest hnext ih =>
    obtain ⟨more, rfl, hsited, hwhole⟩ := ih h
    obtain ⟨rfl, hchars, htoken⟩ := next_eq_ok (Bool.eq_false_iff.mpr hblank) hnext
    refine ⟨token :: more, by rw [List.reverse_cons, List.append_assoc]; rfl, hchars ▸ .cons hsited, fun t ht => ?_⟩
    rcases List.mem_cons.mp ht with rfl | ht
    · exact htoken
    · exact hwhole t ht

/-- The tokens of a text stand in it. -/
theorem sited_scan {text : String} {tokens : List Token} (h : scan text = .ok tokens) :
    Sited 0 text.toList tokens ∧ ∀ token ∈ tokens, token.Whole := by
  obtain ⟨more, rfl, hmore⟩ := sited_scanOnto h
  exact hmore

end Token

namespace Reference

/-- The operands among tokens that stand in a text are references that stand in it. -/
theorem sited_ofTokens {vars vars' : Variables} {start : Nat} {cs : List Char} {tokens : List Token} {derefs : List Deref}
    (hsited : Token.Sited start cs tokens) (h : ofTokens vars tokens = .ok (vars', derefs)) :
    Deref.Sited start cs derefs := by
  induction hsited generalizing vars derefs with
  | nil =>
    cases h
    exact .nil
  | @skip start c cs tokens hsited ih =>
    have hc : byteSize [c] = c.utf8Size := by
      rw [byteSize_cons]
      rfl
    exact (hc ▸ ih h : Deref.Sited (start + byteSize [c]) cs derefs).prepend [c]
  | @cons token cs rest hsited ih =>
    unfold ofTokens at h
    split at h
    · obtain ⟨⟨vars₁, target⟩, -, h⟩ := bind_eq_ok_iff.mp h
      obtain ⟨⟨vars₂, more⟩, hmore, h⟩ := bind_eq_ok_iff.mp h
      cases h
      exact @Deref.Sited.cons token.start [] token.chars cs target more (ih hmore)
    · exact (ih h).prepend token.chars

/-- References to whole tokens have characters. -/
theorem pos_ofTokens {vars vars' : Variables} {tokens : List Token} {derefs : List Deref}
    (h : ofTokens vars tokens = .ok (vars', derefs)) (hwhole : ∀ token ∈ tokens, token.Whole) :
    ∀ deref ∈ derefs, 0 < deref.size := by
  fun_induction ofTokens vars tokens generalizing vars' derefs with
  | case1 vars =>
    cases h
    exact fun deref hderef => absurd hderef List.not_mem_nil
  | case2 vars token rest _ ih =>
    obtain ⟨⟨vars₁, target⟩, -, h⟩ := bind_eq_ok_iff.mp h
    obtain ⟨⟨vars₂, more⟩, hmore, h⟩ := bind_eq_ok_iff.mp h
    cases h
    intro deref hderef
    rcases List.mem_cons.mp hderef with rfl | hderef
    · exact byteSize_pos (hwhole token List.mem_cons_self).chars_ne
    · exact ih _ hmore (fun token htoken => hwhole token (List.mem_cons_of_mem _ htoken)) deref hderef
  | case3 vars token rest _ ih => exact ih h fun token htoken => hwhole token (List.mem_cons_of_mem _ htoken)

/-- A reference in a free text takes up the characters from one percent sign to the next. -/
theorem pos_inTextOnto {literal : Nat → Bool} {vars vars' : Variables} {done derefs : List Deref}
    {opened : Option (Nat × List Char)} {chars : List (Nat × Char)}
    (h : inTextOnto literal vars done opened chars = .ok (vars', derefs)) (hdone : ∀ deref ∈ done, 0 < deref.size)
    (hsorted : chars.Pairwise (·.1 ≤ ·.1)) (hopened : ∀ o ∈ opened, ∀ x ∈ chars, o.1 ≤ x.1) :
    ∀ deref ∈ derefs, 0 < deref.size := by
  fun_induction inTextOnto literal vars done opened chars with
  | case1 vars done =>
    cases h
    exact fun deref hderef => hdone deref (List.mem_reverse.mp hderef)
  | case2 | case4 | case5 => cases h
  | case3 vars done i c rest _ ih =>
    obtain ⟨hfirst, hrest⟩ := List.pairwise_cons.mp hsorted
    refine ih h hdone hrest fun o ho x hx => ?_
    obtain rfl := Option.some.inj ho
    exact hfirst x hx
  | case6 vars done i c rest _ start name _ vars₁ id hslot ih =>
    have hle : start ≤ i := hopened _ rfl _ List.mem_cons_self
    refine ih h (fun deref hderef => ?_) (List.pairwise_cons.mp hsorted).2 fun o ho => absurd ho (Option.not_mem_none o)
    rcases List.mem_cons.mp hderef with rfl | hderef
    · exact Nat.sub_pos_of_lt (Nat.lt_succ_of_le hle)
    · exact hdone deref hderef
  | case7 vars done opened i c rest _ ih =>
    refine ih h hdone (List.pairwise_cons.mp hsorted).2 fun o ho x hx => ?_
    obtain ⟨o', ho', rfl⟩ := Option.map_eq_some_iff.mp ho
    exact hopened o' ho' x (List.mem_cons_of_mem _ hx)

end Reference

/-- The references of an argument stand in its text, none of them empty, the variables they name have slots among the first `n`,
and an expression has tokens. -/
structure Arg.Sound (n : Nat) (arg : Arg) : Prop where
  sited : Deref.Sited 0 arg.text.toList arg.derefs
  within : ∀ deref ∈ arg.derefs, deref.target.Within n
  pos : ∀ deref ∈ arg.derefs, 0 < deref.size
  scans : arg.kind = .text → arg.isExpr = true → ∃ tokens, Token.scan arg.text = .ok tokens

/-- A sound argument is sound among more slots. -/
theorem Arg.Sound.mono {n m : Nat} {arg : Arg} (h : arg.Sound n) (hle : n ≤ m) : arg.Sound m :=
  { h with within := fun deref hderef => (h.within deref hderef).mono hle }

/-- Building an argument gives a sound one. -/
theorem Reference.sound_argument {vars vars' : Variables} {kind : ArgKind} {isExpr : Bool} {raw : RawArg} {arg : Arg}
    (h : argument vars kind isExpr raw = .ok (vars', arg)) : arg.Sound vars'.size := by
  obtain ⟨rfl, rfl, h⟩ := argument_eq_ok h
  rcases h with ⟨-, -, htext, tokens, hscan, htokens⟩ | ⟨-, hplain, htext, hderefs⟩ | ⟨output, hkind, hname⟩
  · obtain ⟨hsited, hwhole⟩ := Token.sited_scan hscan
    rw [← htext] at hsited hscan
    exact ⟨sited_ofTokens hsited htokens, within_ofTokens htokens, pos_ofTokens htokens hwhole, fun _ _ => ⟨tokens, hscan⟩⟩
  · exact {
      sited := htext ▸ sited_inText hderefs
      within := within_inTextOnto hderefs nofun
      pos := pos_inTextOnto hderefs nofun (pairwise_withOffsets _ _).1 nofun
      scans := fun _ hexpr => (Bool.eq_false_iff.mp hplain hexpr).elim }
  · have hscans (htext : arg.kind = .text) : arg.isExpr = true → ∃ tokens, Token.scan arg.text = .ok tokens :=
      absurd htext hkind
    have hwithin := within_inName hname
    rcases inName_eq_ok hname with ⟨hnone, -⟩ | ⟨name, target, hne, htext, hone, -⟩
    · exact ⟨hnone ▸ .nil, hwithin, by rw [hnone]; exact nofun, hscans⟩
    · have hsited := @Deref.Sited.cons 0 [] name [] target [] .nil
      refine ⟨?_, hwithin, ?_, hscans⟩
      · rw [htext, hone, String.toList_ofList]
        simpa [byteSize] using hsited
      · intro deref hderef
        rw [hone] at hderef
        cases List.mem_singleton.mp hderef
        exact byteSize_pos hne

/-- The arguments of a loaded program are sound. -/
theorem Program.sound_of_load {commands : CommandSet} {items : List Item} {program : Program}
    (h : load commands items = .ok program) (id : LineId) :
    ∀ arg ∈ (program.script.line id).args, arg.Sound program.vars.size := by
  intro arg harg
  obtain ⟨pos, note, before, after, raw, hread, hext⟩ := readFor_of_load h id arg harg
  exact (Reference.sound_argument hread).mono hext.size_le

end LineScript
