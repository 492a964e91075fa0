import LineScript.Expansion
import LineScript.Proofs.Expr.Skipped
import LineScript.Proofs.Expr.Wording
import LineScript.Proofs.Text.Pieces
import Mathlib.Data.List.Forall2

/-!
# Operands and their references

An expression is cut into tokens twice: when it is loaded, where every operand among them gets a reference, and when it is
evaluated, where operands find their references by offset alone. Both cut the same text, so each operand finds the reference that was
made for it (`Deref.find?_of_records`), and that stands for what the operand's name says (`Target.Denotes`). What goes wrong with an
evaluation is then never that the text has no tokens or that an operand is unknown (`Arg.agrees_of_ofTokens`).
-/

namespace LineScript

open Text

/-! ## What a name says -/

/-- Parts that spell a name: literal pieces as they are, and for each inner name between percent signs its slot. -/
inductive NamePart.Spell (vars : Variables) : List NamePart → List Char → Prop
  | nil : Spell vars [] []
  | literal {piece : List Char} {parts : List NamePart} {cs : List Char} (hne : piece ≠ []) (hplain : '%' ∉ piece)
    (h : Spell vars parts cs) : Spell vars (.literal (.ofList piece) :: parts) (piece ++ cs)
  | var {name : List Char} {id : VarId} {parts : List NamePart} {cs : List Char} (hne : name ≠ []) (hplain : '%' ∉ name)
    (hfind : vars.find? (.ofList name) = some id) (h : Spell vars parts cs) :
    Spell vars (.var id :: parts) ('%' :: (name ++ '%' :: cs))

/-- What a name refers to: its slot if it has no percent signs, else parts that spell it. -/
inductive Target.Denotes (vars : Variables) (name : List Char) : Target → Prop
  | static {id : VarId} (hplain : '%' ∉ name) (hfind : vars.find? (.ofList name) = some id) : Denotes vars name (.static id)
  | dynamic {parts : List NamePart} (hmarked : '%' ∈ name) (h : NamePart.Spell vars parts name) :
    Denotes vars name (.dynamic parts)

/-- A reference that was made for an operand. -/
structure Deref.Records (vars : Variables) (t : Token) (deref : Deref) : Prop where
  start_eq : deref.start = t.start
  size_eq : deref.size = t.size
  denotes : deref.target.Denotes vars t.chars

/-- What some parts spell, they spell in a later table as well. -/
theorem NamePart.Spell.mono {vars vars' : Variables} {parts : List NamePart} {name : List Char} (h : Spell vars parts name)
    (hext : vars.Extends vars') : Spell vars' parts name := by
  induction h with
  | nil => exact .nil
  | literal hne hplain _ ih => exact .literal hne hplain ih
  | var hne hplain hfind _ ih => exact .var hne hplain (hext.find? hfind) ih

/-- What a name denotes, it denotes in a later table as well. -/
theorem Target.Denotes.mono {vars vars' : Variables} {name : List Char} {target : Target} (h : target.Denotes vars name)
    (hext : vars.Extends vars') : target.Denotes vars' name := by
  cases h with
  | static hplain hfind => exact .static hplain (hext.find? hfind)
  | dynamic hmarked h => exact .dynamic hmarked (h.mono hext)

/-- What a reference records, it records in a later table as well. -/
theorem Deref.Records.mono {vars vars' : Variables} {t : Token} {deref : Deref} (h : deref.Records vars t)
    (hext : vars.Extends vars') : deref.Records vars' t :=
  { h with denotes := h.denotes.mono hext }

/-- The operands among some tokens. -/
def Token.operands (tokens : List Token) : List Token :=
  tokens.filter (·.kind == .operand)

namespace Reference

variable {vars vars' : Variables}

/-- A name that was given a slot is found there. -/
theorem find?_of_slot {name : String} {id : VarId} (h : slot vars name = .ok (vars', id)) : vars'.find? name = some id := by
  unfold slot at h
  split at h
  · rename_i hresolve
    cases h
    exact Variables.find?_of_resolve hresolve
  · cases h

/-- A literal piece in front of some parts spells its characters before theirs. -/
theorem spell_literalPart {name : String} {piece cs : List Char} {literal parts : List NamePart}
    (h : literalPart name piece = .ok literal) (hplain : '%' ∉ piece) (hparts : NamePart.Spell vars parts cs) :
    NamePart.Spell vars (literal ++ parts) (piece ++ cs) := by
  unfold literalPart at h
  split at h
  · rename_i hempty
    cases h
    rw [List.isEmpty_iff.mp hempty]
    exact hparts
  · rename_i hne
    split at h
    · cases h
    · cases h
      exact .literal (fun hnil => hne (List.isEmpty_iff.mpr hnil)) hplain hparts

/-- The parts of a name cut at its percent signs spell it. Literal pieces stand at both ends, so there is an odd number of pieces. -/
theorem spell_partsOf {name : String} {pieces : List (List Char)} {parts : List NamePart}
    (h : partsOf name vars pieces = .ok (vars', parts)) (hplain : ∀ piece ∈ pieces, '%' ∉ piece)
    (hodd : pieces.length % 2 = 1) : NamePart.Spell vars' parts (['%'].intercalate pieces) := by
  fun_induction partsOf name vars pieces generalizing vars' parts with
  | case1 => cases hodd
  | case2 vars tail =>
    obtain ⟨last, hlast, h⟩ := bind_eq_ok_iff.mp h
    cases h
    have hspell := spell_literalPart hlast (hplain tail List.mem_cons_self) (.nil : NamePart.Spell vars [] [])
    rw [List.append_nil, List.append_nil] at hspell
    rwa [List.intercalate_singleton]
  | case3 vars piece inner rest ih =>
    obtain ⟨literal, hliteral, h⟩ := bind_eq_ok_iff.mp h
    split at h
    · cases h
    rename_i hinner
    obtain ⟨⟨vars₁, id⟩, hslot, h⟩ := bind_eq_ok_iff.mp h
    obtain ⟨⟨vars₂, more⟩, hmore, h⟩ := bind_eq_ok_iff.mp h
    cases h
    have hinner : inner ≠ [] := fun hnil => hinner (List.isEmpty_iff.mpr hnil)
    have hrest : rest ≠ [] := by
      rintro rfl
      simp at hodd
    have hmore' := ih _ hmore (fun p hp => hplain p (List.mem_cons_of_mem _ (List.mem_cons_of_mem _ hp))) (by
      simp only [List.length_cons] at hodd
      omega)
    have hfind := (extends_partsOf hmore).find? (find?_of_slot hslot)
    have hvar := NamePart.Spell.var hinner (hplain inner (List.mem_cons_of_mem _ List.mem_cons_self)) hfind hmore'
    have hspell := spell_literalPart hliteral (hplain piece List.mem_cons_self) hvar
    obtain ⟨tail, rest, rfl⟩ := List.exists_cons_of_ne_nil hrest
    rw [List.intercalate_cons_cons, List.intercalate_cons_cons, List.append_assoc, List.append_assoc]
    exact hspell

/-- What a name refers to is what it says. -/
theorem denotes_of_ofName {name : List Char} {target : Target}
    (h : ofName vars name (fun _ => false) = .ok (vars', target)) : target.Denotes vars' name := by
  have hpieces : (splitBy (fun x => x.2 == '%' && !false) (withOffsets 0 name)).map (·.map (·.2)) = splitBy (· == '%') name := by
    have hcut := @splitBy_map Char (· == '%') (Nat × Char) (·.2) (withOffsets 0 name)
    rw [map_snd_withOffsets] at hcut
    simpa only [Bool.not_false, Bool.and_true] using hcut.symm
  have hlength : (splitBy (· == '%') name).length = name.countP (· == '%') + 1 := by rw [splitBy_eq_splitOnP, length_splitOnP]
  unfold ofName at h
  dsimp only at h
  rw [hpieces] at h
  split at h
  · rename_i hone
    obtain ⟨⟨vars₁, id⟩, hslot, h⟩ := bind_eq_ok_iff.mp h
    cases h
    refine .static (fun hmark => ?_) (find?_of_slot hslot)
    have hpos : 0 < name.countP (· == '%') := List.countP_pos_iff.mpr ⟨'%', hmark, beq_self_eq_true '%'⟩
    have hone := beq_iff_eq.mp hone
    omega
  · rename_i hone
    split at h
    · cases h
    rename_i heven
    obtain ⟨⟨vars₁, parts⟩, hparts, h⟩ := bind_eq_ok_iff.mp h
    cases h
    have hodd : (splitBy (· == '%') name).length % 2 = 1 := by
      rcases Nat.mod_two_eq_zero_or_one (splitBy (· == '%') name).length with hzero | hodd
      · exact absurd (beq_iff_eq.mpr hzero) heven
      · exact hodd
    have hspell := spell_partsOf hparts (fun piece hpiece hmark => ?_) hodd
    · rw [intercalate_splitBy] at hspell
      refine .dynamic ?_ hspell
      have hne : (splitBy (· == '%') name).length ≠ 1 := mt beq_iff_eq.mpr hone
      have hpos : 0 < name.countP (· == '%') := by omega
      obtain ⟨c, hc, hmark⟩ := List.countP_pos_iff.mp hpos
      rwa [beq_iff_eq.mp hmark] at hc
    · exact absurd (not_of_mem_splitBy hpiece '%' hmark) (by decide)

/-- Each operand has its reference, in order. -/
theorem forall₂_ofTokens {tokens : List Token} {derefs : List Deref} (h : ofTokens vars tokens = .ok (vars', derefs)) :
    List.Forall₂ (fun t deref => deref.Records vars' t) (Token.operands tokens) derefs := by
  fun_induction ofTokens vars tokens generalizing vars' derefs with
  | case1 vars =>
    cases h
    exact .nil
  | case2 vars token rest hkind ih =>
    obtain ⟨⟨vars₁, target⟩, hname, h⟩ := bind_eq_ok_iff.mp h
    obtain ⟨⟨vars₂, more⟩, hmore, h⟩ := bind_eq_ok_iff.mp h
    cases h
    rw [Token.operands, List.filter_cons, if_pos hkind]
    exact .cons ⟨rfl, rfl, (denotes_of_ofName hname).mono (extends_ofTokens hmore)⟩ (ih _ hmore)
  | case3 vars token rest hkind ih =>
    rw [Token.operands, List.filter_cons, if_neg hkind]
    exact ih h

end Reference

/-- Among references made for operands that start one after the other, the one found at an operand's offset is its own. -/
theorem Deref.find?_of_records {vars : Variables} {operands : List Token} {derefs : List Deref}
    (h : List.Forall₂ (fun t deref => Deref.Records vars t deref) operands derefs)
    (hpairs : operands.Pairwise (·.start < ·.start)) {t : Token} {deref : Deref} (hmem : (t, deref) ∈ operands.zip derefs) :
    derefs.find? (·.start == t.start) = some deref := by
  induction h with
  | nil => cases hmem
  | @cons first record operands derefs hrecord _ ih =>
    obtain ⟨hfirst, hrest⟩ := List.pairwise_cons.mp hpairs
    rcases List.mem_cons.mp hmem with heq | hmem
    · cases heq
      exact List.find?_cons_of_pos (beq_iff_eq.mpr hrecord.start_eq)
    · have hne : record.start ≠ t.start := by
        rw [hrecord.start_eq]
        exact Nat.ne_of_lt (hfirst t (List.of_mem_zip hmem).1)
      rw [List.find?_cons_of_neg (by simpa using hne)]
      exact ih hrest hmem

/-- Each operand has a reference. -/
theorem Deref.exists_mem_zip {vars : Variables} {operands : List Token} {derefs : List Deref}
    (h : List.Forall₂ (fun t deref => Deref.Records vars t deref) operands derefs) {t : Token} (ht : t ∈ operands) :
    ∃ deref, (t, deref) ∈ operands.zip derefs := by
  induction h with
  | nil => cases ht
  | @cons first record operands derefs _ _ ih =>
    rcases List.mem_cons.mp ht with rfl | ht
    · exact ⟨record, List.mem_cons_self⟩
    · obtain ⟨deref, hmem⟩ := ih ht
      exact ⟨deref, List.mem_cons_of_mem _ hmem⟩

/-- An expression that is evaluated as it was loaded: it has tokens, and a reference for each operand among them, in order. The walk
that meets an operand finds its own reference and looks up what that stands for. What goes wrong is not worded as a problem with
reading. -/
structure Arg.Agrees (vars : Variables) (tokens : List Token) (arg : Arg) : Prop where
  scan_eq : Token.scan arg.text = .ok tokens
  recorded : List.Forall₂ (fun t deref => Deref.Records vars t deref) (Token.operands tokens) arg.derefs
  found : ∀ t deref, (t, deref) ∈ (Token.operands tokens).zip arg.derefs →
    arg.derefs.find? (·.start == t.start) = some deref ∧ ∀ lookup fuel quiet rest,
      Expr.primary { derefs := arg.derefs, lookup } (fuel + 1) quiet (t :: rest) =
        (lookup deref.target).map fun v => (v, rest)
  read : ∀ view problem, Expr.evaluate arg.text arg.derefs (Expansion.operand view vars) = .error problem →
    ¬ Expr.Unread problem.message

/-- The references that were made for the tokens of a text are right in every table that has their variables. -/
theorem Arg.agrees_of_ofTokens {before after vars : Variables} {tokens : List Token} {arg : Arg}
    (hscan : Token.scan arg.text = .ok tokens) (h : Reference.ofTokens before tokens = .ok (after, arg.derefs))
    (hext : after.Extends vars) : arg.Agrees vars tokens := by
  have hrecorded := (Reference.forall₂_ofTokens h).imp fun _ _ hrecords => hrecords.mono hext
  have hpairs : (Token.operands tokens).Pairwise (·.start < ·.start) := (Expr.pairwise_scan hscan).filter _
  have hoperand {t : Token} {deref : Deref} (hmem : (t, deref) ∈ (Token.operands tokens).zip arg.derefs)
      (lookup : Expr.Lookup) : Expr.Context.operandOf { derefs := arg.derefs, lookup } t = lookup deref.target := by
    simp only [Expr.Context.operandOf, Deref.find?_of_records hrecorded hpairs hmem]
  refine ⟨hscan, hrecorded, fun t deref hmem => ⟨Deref.find?_of_records hrecorded hpairs hmem, fun lookup fuel quiet rest => ?_⟩,
    fun view problem hfails => ?_⟩
  · have hkind : t.kind = .operand := eq_of_beq (List.mem_filter.mp (List.of_mem_zip hmem).1).2
    rw [Expr.Retracing.primary_of_operand hkind, hoperand hmem]
  · rw [Expr.evaluate, hscan] at hfails
    rcases Expr.problem_of_evaluateTokens hfails with hrules | ⟨t, ht, hkind, hproblem⟩
    · exact hrules.not_unread
    · obtain ⟨deref, hmem⟩ := Deref.exists_mem_zip hrecorded (List.mem_filter.mpr ⟨ht, beq_iff_eq.mpr hkind⟩)
      rw [hoperand hmem] at hproblem
      rcases Expr.operand_cases view vars deref.target with ⟨⟨v, hv⟩, -⟩ | ⟨_, e, -, -, hname⟩
      · cases hv.symm.trans hproblem
      · cases hname.symm.trans hproblem
        exact Expr.naming_not_unread e

end LineScript
