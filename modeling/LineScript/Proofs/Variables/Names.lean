import LineScript.Proofs.Expr.Naming
import LineScript.Proofs.Text.Lower
import LineScript.Proofs.Text.Offsets
import LineScript.Proofs.Text.Pieces
import LineScript.Proofs.Variables.Requests

/-!
# Names of variables

A text that names a variable (`VarName`) gets a slot wherever it is read: by itself (`VarName.resolve_eq`), and as what an argument
that takes a variable is made of (`VarName.argument_eq`).
-/

namespace LineScript

open Text

namespace Name

/-- A text names a variable if it is not blank, not too long, and holds nothing that may not stand in a name. -/
theorem validate_eq_ok_iff {name : String} :
    validate name = .ok () ↔ name ≠ "" ∧ name.utf8ByteSize ≤ maxBytes ∧ ∀ c ∈ name.toList, isNameChar c = true := by
  unfold validate
  by_cases hempty : name = ""
  · simp [hempty]
  by_cases hlong : maxBytes < name.utf8ByteSize
  · simp [hempty, hlong, Nat.not_le.mpr hlong]
  rw [if_neg (by simpa using hempty), if_neg hlong]
  cases hillegal : illegal? name.toList with
  | some c =>
    have hc : (!isNameChar c) = true := @List.find?_some _ (!isNameChar ·) _ _ hillegal
    refine iff_of_false nofun fun h => ?_
    rw [h.2.2 c (List.mem_of_find?_eq_some hillegal)] at hc
    cases hc
  | none =>
    refine iff_of_true rfl ⟨hempty, Nat.not_lt.mp hlong, fun c hc => ?_⟩
    simpa using List.find?_eq_none.mp hillegal c hc

/-- Whether a text is a name does not hang on ASCII case. -/
theorem validate_of_sameAscii {name other : String} (h : sameAscii other name = true) (hvalid : validate name = .ok ()) :
    validate other = .ok () := by
  have hforms : other.toList.map Char.toLower = name.toList.map Char.toLower :=
    String.ofList_injective (eq_of_beq h)
  have hsize (cs : List Char) : byteSize (cs.map Char.toLower) = byteSize cs := by
    induction cs with
    | nil => rfl
    | cons c cs ih =>
      rw [List.map_cons, byteSize_cons, byteSize_cons, ih, apply_toLower Char.utf8Size (by decide +kernel)]
  have hletters (cs : List Char) : (∀ c ∈ cs.map Char.toLower, isNameChar c = true) ↔ ∀ c ∈ cs, isNameChar c = true := by
    simp only [List.forall_mem_map, apply_toLower isNameChar (by decide +kernel)]
  rw [validate_eq_ok_iff] at hvalid ⊢
  obtain ⟨hsome, hshort, hlegal⟩ := hvalid
  refine ⟨?_, ?_, ?_⟩
  · rintro rfl
    exact hsome (String.toList_eq_nil_iff.mp (List.map_eq_nil_iff.mp hforms.symm))
  · rwa [← byteSize_toList, ← hsize, hforms, hsize, byteSize_toList]
  · rwa [← hletters, hforms, hletters]

end Name

/-- A text that names a variable. -/
structure VarName where
  /-- The name. -/
  text : String
  valid : Name.validate text = .ok ()

/-- The characters of a name may stand in names. -/
theorem VarName.isNameChar (name : VarName) : ∀ c ∈ name.text.toList, Name.isNameChar c = true :=
  (Name.validate_eq_ok_iff.mp name.valid).2.2

theorem VarName.toList_ne_nil (name : VarName) : name.text.toList ≠ [] :=
  mt String.toList_eq_nil_iff.mp (Name.validate_eq_ok_iff.mp name.valid).1

theorem VarName.ne_of_mem (name : VarName) {c : Char} (h : c ∈ name.text.toList) : c ≠ '%' ∧ c ≠ '\x60' := by
  have hname := name.isNameChar c h
  constructor <;> rintro rfl <;> exact absurd hname (by decide)

/-- A name is never refused: its slot is found or made. -/
theorem VarName.resolve_eq (name : VarName) (vars : Variables) : vars.resolve name.text = .ok (vars.intern name.text) := by
  cases hfind : vars.find? name.text with
  | some id => rw [Variables.resolve_of_find? hfind, Variables.intern_of_find? hfind]
  | none =>
    rw [Variables.resolve_new hfind, name.valid]
    rfl

/-- After a name was given a slot, it is found there. -/
theorem VarName.find?_intern (name : VarName) (vars : Variables) :
    (vars.intern name.text).1.find? name.text = some (vars.intern name.text).2 :=
  Variables.find?_of_resolve (name.resolve_eq vars)

/-- A name refers to its variable. -/
theorem VarName.ofName_eq (name : VarName) (vars : Variables) (literal : Nat → Bool) :
    Reference.ofName vars name.text.toList literal =
      .ok ((vars.intern name.text).1, .static (vars.intern name.text).2) := by
  have hplain : ∀ x ∈ withOffsets 0 name.text.toList, (x.2 == '%' && !literal x.1) = false := by
    intro x hx
    simp [(name.ne_of_mem (snd_mem_of_mem_withOffsets hx)).1]
  simp only [Reference.ofName, splitBy_of_forall hplain, Reference.slot, String.ofList_toList, name.resolve_eq]
  rfl

/-- A name that stands by itself is an argument that takes its variable. -/
theorem VarName.argument_eq (name : VarName) (h : trim name.text = name.text) (vars : Variables) :
    Reference.argument vars .input false (.plain name.text) =
      .ok ((vars.intern name.text).1,
        { kind := .input, text := name.text, isExpr := false
          derefs := [⟨0, byteSize name.text.toList, .static (vars.intern name.text).2⟩] }) := by
  have htrim : trimList isBlank name.text.toList = name.text.toList := by
    have hlist := congrArg String.toList h
    rwa [trim, trimBy, String.toList_ofList] at hlist
  have hempty : name.text.toList.isEmpty = false := by simp [name.toList_ne_nil]
  have hfew : ¬ maxReferences < 1 := by decide
  simp only [Reference.argument, Reference.inName, RawArg.plain, htrim, hempty, name.ofName_eq, bind, Except.bind,
    Bool.false_and, Bool.false_eq_true, if_false, String.ofList_toList]
  exact if_neg hfew

section

variable {vars vars' : Variables} {raw : RawArg} {derefs : List Deref} (hfew : derefs.length ≤ maxReferences)
include hfew

/-- A free text is an argument with the references found in it, if they are not too many. -/
theorem Reference.argument_text_eq (h : inText vars raw = .ok (vars', derefs)) :
    argument vars .text false raw = .ok (vars', { kind := .text, text := raw.text, isExpr := false, derefs }) := by
  simp only [argument, Bool.false_eq_true, if_false, h, Except.map, bind, Except.bind, if_neg (Nat.not_lt.mpr hfew)]
  rfl

/-- An expression is an argument with the references of its operands, if they are not too many. -/
theorem Reference.argument_expr_eq (h : inExpr vars raw.text = .ok (vars', derefs)) :
    argument vars .text true raw = .ok (vars', { kind := .text, text := raw.text, isExpr := true, derefs }) := by
  simp only [argument, if_true, h, Except.map, bind, Except.bind, if_neg (Nat.not_lt.mpr hfew)]
  rfl

end

end LineScript
